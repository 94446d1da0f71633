import Cutlist.Project.Document
import Cutlist.Json.Reader
import Cutlist.Text.Quoted

/-!
# Probes of media files

Three questions that a probing tool answers about a media file with a JSON
document: whether it has sound, how large its picture is, and how long it is. A
tool that fails, and an answer without what was asked for, count as no answer;
an answer of a wrong shape is passed over for the length only.
-/

namespace Cutlist

namespace MediaProbe

/-- What is asked of a media file. -/
inductive Question where
  | sound
  | dimensions
  | duration
  deriving DecidableEq

def Question.args : Question → List String
  | .sound => ["-select_streams", "a:0", "-show_entries", "stream=index"]
  | .dimensions =>
      ["-select_streams", "v:0", "-show_entries", "stream=width,height"]
  | .duration => ["-show_entries", "format=duration"]

def command (program : String) (q : Question) (path : String) : List String :=
  [program, "-v", "error"] ++ q.args ++ ["-of", "json", path]

/-- One call of the tool. -/
structure Call where
  command : List String
  limit : Binary64
  deriving DecidableEq

/-- How a call ends. -/
inductive Outcome where
  | printed (text : String)
  | exitCode (code : Int)
  | timedOut
  | unavailable (why : String)

/-- Why a call tells nothing. -/
inductive Trouble where
  | exitCode (command : List String) (code : Int)
  | timedOut (call : Call)
  | unavailable (why : String)
  | unreadable (error : Json.ReadError)
  | noFirst (kind : String)
  | shape (fault : Document.Fault)

def shownCommand (command : List String) : String :=
  (Json.list (command.map .text)).shown

def Trouble.message : Trouble → String
  | .exitCode command code =>
      s!"Command '{shownCommand command}' returned non-zero exit status {code}."
  | .timedOut call =>
      s!"Command '{shownCommand call.command}' timed out after"
        ++ s!" {call.limit.toShortest} seconds"
  | .unavailable why => why
  | .unreadable e => e.message
  | .noFirst "dict" => "0"
  | .noFirst kind => s!"{kind} index out of range"
  | .shape fault => fault.message

/-! ## Reading answers -/

/-- The document that a call prints; nothing printed counts as an empty one. -/
def Outcome.document (call : Call) : Outcome → Except Trouble Json
  | .printed "" => .ok (.object [])
  | .printed text => (Json.read text).mapError .unreadable
  | .exitCode code => .error (.exitCode call.command code)
  | .timedOut => .error (.timedOut call)
  | .unavailable why => .error (.unavailable why)

/-- Whether the document lists a stream of sound. -/
def sound (doc : Json) : Except Trouble Bool := do
  let ms ← (Document.members doc).mapError .shape
  return ((Json.find? "streams" ms).getD .null).truthy

/-- The first of several values. -/
def first : Json → Except Trouble Json
  | .list (v :: _) => .ok v
  | .list [] => .error (.noFirst "list")
  | .text s => match s.toList with
    | c :: _ => .ok (.text (String.singleton c))
    | [] => .error (.noFirst "string")
  | .object _ => .error (.noFirst "dict")
  | v => .error (.shape (.noMembers v))

/-- The size of the picture of the first stream. -/
def dimensions (doc : Json) : Except Trouble Resolution := do
  let streams ← (Document.need "streams" doc).mapError .shape
  let stream ← first streams
  let width ← (Document.need "width" stream >>= Document.whole).mapError .shape
  let height ←
    (Document.need "height" stream >>= Document.whole).mapError .shape
  return ⟨width, height⟩

/-- The length in seconds. -/
def duration (doc : Json) : Except Trouble Binary64 :=
  (Document.need "format" doc >>= Document.needReal "duration").mapError .shape

/-! ## Faults that are passed over -/

/-- Whether a fault is that of a value, and not of its kind. -/
def isOfValue : Document.Fault → Bool
  | .missing _ => true
  | .number (.kind ..) | .number .infinite | .number .tooLarge => false
  | .number _ => true
  | _ => false

/-- Whether a fault is that of a kind. -/
def isOfKind : Document.Fault → Bool
  | .noMembers _ | .number (.kind ..) => true
  | _ => false

/-- Whether trouble with a question counts as no answer. -/
def Question.passesOver (q : Question) : Trouble → Bool
  | .shape fault => match q with
    | .sound => false
    | .dimensions => isOfValue fault
    | .duration => isOfValue fault || isOfKind fault
  | _ => true

/-- What a question is about, in notes. -/
def Question.title : Question → String
  | .sound => "Audio"
  | .dimensions => "Dimension"
  | .duration => "Duration"

def Question.warning (q : Question) (path : String) (trouble : Trouble) :
    String :=
  s!"{q.title} probe failed for {path}: {trouble.message}"

end MediaProbe

end Cutlist
