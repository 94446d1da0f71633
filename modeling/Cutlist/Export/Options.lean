import Cutlist.Json.Display

/-!
# Export options

What the user chooses for one export: the file format, the frame rate, how
strongly it is compressed, and its size.
-/

namespace Cutlist.Export

/-- The format of the exported file. -/
inductive Format where
  | mp4
  | mov
  | gif
  | wav
  | mp3
  deriving DecidableEq

/-- What a format holds. -/
inductive Format.Kind where
  | video
  | animation
  | sound
  deriving DecidableEq

/-- How strongly an export is compressed. -/
inductive Compression where
  | minimal
  | social
  | web
  | potato
  deriving DecidableEq

/-- The height of the exported picture. -/
inductive Size where
  | p720
  | p1080
  | p4k
  deriving DecidableEq

/-- The system that runs the encoder. -/
inductive Platform where
  | macos
  | other
  deriving DecidableEq

/-- A value that is not one of the names of a choice. -/
structure Unknown where
  value : Json
  choice : String

def Unknown.message (u : Unknown) : String :=
  u.value.shown ++ " is not a valid " ++ u.choice

/-- The member of a choice with a given name. -/
def choose {α : Type} (choice : String) (all : List α) (name : α → String)
    (v : Json) : Except Unknown α :=
  match v.text?.bind fun s => all.find? fun a => name a == s with
  | some a => .ok a
  | none => .error ⟨v, choice⟩

namespace Format

def all : List Format := [mp4, mov, gif, wav, mp3]

def toText : Format → String
  | mp4 => "mp4"
  | mov => "mov"
  | gif => "gif"
  | wav => "wav"
  | mp3 => "mp3"

def kind : Format → Kind
  | mp4 | mov => .video
  | gif => .animation
  | wav | mp3 => .sound

def ofJson (v : Json) : Except Unknown Format :=
  choose "ExportFormat" all toText v

end Format

namespace Compression

def all : List Compression := [minimal, social, web, potato]

def toText : Compression → String
  | minimal => "minimal"
  | social => "social"
  | web => "web"
  | potato => "potato"

def ofJson (v : Json) : Except Unknown Compression :=
  choose "CompressionPreset" all toText v

def quality : Compression → Nat
  | minimal => 18
  | social => 23
  | web => 28
  | potato => 35

/-- The trade of speed for size in the software encoder. -/
def effort : Compression → String
  | minimal => "slow"
  | social => "medium"
  | web => "fast"
  | potato => "veryfast"

/-- Kilobits of sound per second. -/
def audioRate : Compression → Nat
  | minimal => 320
  | social => 192
  | web => 128
  | potato => 96

/-- The part of a size's usual rate that is spent on the picture. -/
def videoFactor : Compression → Binary64
  | minimal => 1.6
  | social => 1
  | web => 0.72
  | potato => 0.5

end Compression

namespace Size

def all : List Size := [p720, p1080, p4k]

def toText : Size → String
  | p720 => "720p"
  | p1080 => "1080p"
  | p4k => "4k"

def ofJson (v : Json) : Except Unknown Size :=
  choose "ResolutionPreset" all toText v

def height : Size → Int
  | p720 => 720
  | p1080 => 1080
  | p4k => 2160

/-- Kilobits of picture per second that the size usually takes. -/
def videoRate : Size → Binary64
  | p720 => 5000
  | p1080 => 8000
  | p4k => 24000

end Size

namespace Platform

def all : List Platform := [macos, other]

def toText : Platform → String
  | macos => "macos"
  | other => "other"

def ofJson (v : Json) : Except Unknown Platform :=
  choose "Platform" all toText v

end Platform

/-- The options of one export. -/
structure Options where
  format : Format := .mp4
  frameRate : Int := 30
  compression : Compression := .social
  size : Size := .p1080
  deriving DecidableEq

/-- Kilobits of picture per second, for an encoder that is driven by a rate. -/
def Options.videoRate (o : Options) : Int :=
  ((o.size.videoRate * o.compression.videoFactor).round.toOption).getD 0

end Cutlist.Export
