import Cutlist.Export.Options
import Cutlist.Export.Validation
import Cutlist.FilterGraph
import Cutlist.Journal
import Cutlist.Library
import Cutlist.MediaProbe
import Cutlist.Run

/-!
# Failures

Every reason for which a session does not do what it was asked to do.
-/

namespace Cutlist

/-- Why a session fails. -/
inductive Failure where
  | run (error : Run.Error)
  | validation (fault : Export.Validation.Fault)
  | library (fault : Library.Fault)
  | probe (trouble : MediaProbe.Trouble)
  | graph (error : FilterGraph.BuildError)
  | choice (unknown : Export.Unknown)
  | journal (fault : Journal.Fault)
  | file (error : FileError)
  | nameKind

namespace Failure

/-- The error of the encoder that a failure is. -/
def ofEncoder? : Failure → Option Run.Error
  | .run e => if e.isEncoders then some e else none
  | _ => none

def message : Failure → String
  | .run e => e.message
  | .validation (.rejected r) => r.message
  | .validation .pathKind => "the path of a media file has to be a text"
  | .validation (.file e) => e.message
  | .library f => f.message
  | .probe t => t.message
  | .graph e => e.message
  | .choice u => u.message
  | .journal f => f.message
  | .file e => e.message
  | .nameKind => "the name of a project has to be a text"

/-- Whether a command reports a failure instead of breaking down: when a file is
not there, or a value makes no sense. -/
def isReported : Failure → Bool
  | .validation (.rejected _) | .choice _ | .graph (.stem _) => true
  | .library f => f.isOfProject
  | .file .notFound | .file .nullCharacter => true
  | _ => false

end Failure

end Cutlist
