import Cutlist.Export.Encoder
import Cutlist.Export.Graph

/-!
# Commands of the encoder

The arguments that make an export: its inputs, how it is encoded, the filter
graph if there is one, the streams that go to the output, and the output itself.
Streams are always named, since a filter graph turns off the encoder's own
choice.
-/

namespace Cutlist.Export.Command

open FilterGraph Cutlist.Export.Graph

def inputArgs (i : Input) : List String :=
  (match i.seekStart with
    | some t => ["-ss", t.toPlain]
    | none => [])
  ++ (match i.seekStop with
    | some t => ["-to", t.toPlain]
    | none => [])
  ++ ["-i", i.path]

def graphArgs (g : FilterGraph) : List String := ["-filter_complex", g.toText]

/-- The sound that goes to the output. The sound of the screen recording is left
out without complaint when it is not there. Where there is none, a video that
has a graph says so. -/
def audioArgs (g : FilterGraph) (outputs : Outputs) (isVideo : Bool) :
    List String :=
  match outputs.audio with
  | none => if isVideo && !g.isEmpty then ["-an"] else []
  | some label =>
      if label = .input 0 .audio then ["-map", "0:a?"]
      else ["-map", label.mapped]

/-- The picture of a video: that of the graph, or the screen
recording scaled. -/
def videoArgs (g : FilterGraph) (outputs : Outputs) (options : Options) :
    List String :=
  match outputs.video with
  | some label => graphArgs g ++ ["-map", label.mapped]
  | none => ["-vf", (Filter.fitVideo options.size.height).toText, "-map", "0:v"]

/-- The arguments between the inputs and the output. -/
def bodyArgs (g : FilterGraph) (outputs : Outputs) (options : Options)
    (encoder : Encoder) : List String :=
  match options.format.kind with
  | .sound =>
      ["-vn"] ++ encoder.audioArgs options
        ++ (if g.isEmpty then [] else graphArgs g)
        ++ audioArgs g outputs false
  | .animation =>
      graphArgs g
        ++ (outputs.video.map fun label => ["-map", label.mapped]).getD []
        ++ ["-an"]
  | .video =>
      encoder.videoArgs options ++ encoder.audioArgs options
        ++ ["-r", toString options.frameRate]
        ++ videoArgs g outputs options ++ audioArgs g outputs true

/-- The arguments of an export by a plan. -/
def args (project : Project) (options : Options) (platform : Platform)
    (plan : Plan) (output : String) : Except BuildError (List String) :=
  match (Graph.build project options plan).run.run {} with
  | (.ok outputs, g) =>
      .ok (g.inputs.flatMap inputArgs
        ++ bodyArgs g outputs options (Encoder.ofFormat options.format platform)
        ++ ["-y", output])
  | (.error e, _) => .error e

/-- The arguments that join the files of a manifest without
encoding them again. -/
def concatArgs (manifest output : String) : List String :=
  ["-f", "concat", "-safe", "0", "-i", manifest, "-c", "copy", "-y", output]

end Cutlist.Export.Command
