import Cutlist.Export.Options

/-!
# Encoders

How each format is encoded on each platform, and the arguments that say so.
-/

namespace Cutlist.Export

/-- What drives the size of an encoded picture. -/
inductive RateControl where
  | quality
  | rate
  | none
  deriving DecidableEq

/-- How the picture of a format is encoded. -/
structure VideoEncoder where
  name : String
  control : RateControl
  extra : List String
  pixels : String

/-- How the sound of a format is encoded; not every encoder takes a rate. -/
structure AudioEncoder where
  name : String
  hasRate : Bool

/-- How a format is encoded. -/
structure Encoder where
  video : Option VideoEncoder
  audio : Option AudioEncoder

namespace Encoder

def software : VideoEncoder := ⟨"libx264", .quality, [], "yuv420p"⟩

def hardware : VideoEncoder :=
  ⟨"h264_videotoolbox", .rate, ["-allow_sw", "1"], "yuv420p"⟩

def editing : VideoEncoder :=
  ⟨"prores_ks", .none, ["-profile:v", "3"], "yuv422p10le"⟩

/-- The encoder of a format. An animated image has none, since its palette is
made by filters. -/
def ofFormat : Format → Platform → Encoder
  | .mp4, .macos => ⟨some hardware, some ⟨"aac", true⟩⟩
  | .mp4, .other => ⟨some software, some ⟨"aac", true⟩⟩
  | .mov, _ => ⟨some editing, some ⟨"pcm_s16le", false⟩⟩
  | .gif, _ => ⟨none, none⟩
  | .wav, _ => ⟨none, some ⟨"pcm_s16le", false⟩⟩
  | .mp3, _ => ⟨none, some ⟨"libmp3lame", true⟩⟩

/-- The arguments for what drives the size of the picture. -/
def controlArgs (o : Options) : RateControl → List String
  | .quality =>
      ["-crf", toString o.compression.quality, "-preset", o.compression.effort]
  | .rate => ["-b:v", s!"{o.videoRate}k"]
  | .none => []

def videoArgs (e : Encoder) (o : Options) : List String :=
  match e.video with
  | some v =>
      ["-c:v", v.name] ++ controlArgs o v.control ++ v.extra
        ++ ["-pix_fmt", v.pixels]
  | none => []

def audioArgs (e : Encoder) (o : Options) : List String :=
  match e.audio with
  | some a =>
      ["-c:a", a.name]
        ++ (if a.hasRate then ["-b:a", s!"{o.compression.audioRate}k"] else [])
  | none => []

end Encoder

end Cutlist.Export
