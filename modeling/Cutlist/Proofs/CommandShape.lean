import Cutlist.Proofs.CommandWords
import Cutlist.Proofs.LooseEnds

/-!
# What an argument list says

Which streams go to the output is said in several places of a command at once,
and each of them is decided for itself: whether there is a graph, whether the
picture is scaled without one, which label each `-map` names, and whether sound
is turned off. A sound that needs filters makes a graph, and then the picture
can no longer be mapped without one. What ties the places together is what the
graph leaves open: a command is written as options with their values in terms
of the loose ends of its graph, and then each option is looked up in it.
-/

namespace Cutlist

open FilterGraph Render Export

/-- The files that an export reads, in order. -/
def Project.files (p : Project) : List String :=
  (p.screen :: ((ifGiven p.camera).toList ++ (ifGiven p.microphone).toList)).map
    Json.display

namespace Export.Command

/-! ## A command as pairs -/

def seekPairs (i : Input) : List (String × String) :=
  (i.seekStart.map fun t => ("-ss", t.toPlain)).toList ++
    (i.seekStop.map fun t => ("-to", t.toPlain)).toList

def inputPairs (inputs : List Input) : List (String × String) :=
  inputs.flatMap fun i => seekPairs i ++ [("-i", i.path)]

/-- What is said of the picture and of the graph: the loose picture is mapped, if
there is a graph. -/
def picturePairs (options : Options) (g : FilterGraph) :
    List (String × String) :=
  if g.chains = [] then
    if options.format.kind = .video then
      [("-vf", (Filter.fitVideo options.size.height).toText), ("-map", "0:v")]
    else []
  else ("-filter_complex", g.toText) ::
    (g.loose .video).map fun l => ("-map", l.bracketed)

/-- What is said of the sound: the loose sound is mapped, unless it is that of
the screen recording as it is. -/
def soundPairs (g : FilterGraph) (audio : Option Label) :
    List (String × String) :=
  if audio = some (.input 0 .audio) then [("-map", "0:a?")]
  else (g.loose .audio).map fun l => ("-map", l.bracketed)

/-- Sound is turned off where there is none and it could be chosen. -/
def Silent (kind : Format.Kind) (g : FilterGraph) (audio : Option Label) : Prop :=
  kind = .animation ∨ kind = .video ∧ audio = none ∧ g.chains ≠ []

instance (kind : Format.Kind) (g : FilterGraph) (audio : Option Label) :
    Decidable (Silent kind g audio) :=
  decidable_of_iff ((decide (kind = .animation) ||
    (decide (kind = .video) && audio.isNone && !g.isEmpty)) = true)
    (by simp [Silent, FilterGraph.isEmpty, and_assoc])

theorem flatMap_inputArgs (inputs : List Input) :
    inputs.flatMap inputArgs = spell (inputPairs inputs) := by
  rw [spell, inputPairs, List.flatMap_assoc]
  congr 1
  funext input
  obtain ⟨path, start, stop⟩ := input
  cases start <;> cases stop <;> rfl

section Body

variable {p : Project} {options : Options} {plan : Plan} {out : Graph.Outputs}
variable {g : FilterGraph} {shown heard last : List Chain} {video : Label}
variable {ins : List Input} {surplus : List Label}

theorem mapped_of_pad {l : Label} (h : l.isInput = false) :
    l.mapped = l.bracketed := by
  rw [Label.mapped, h]
  rfl

theorem audioArgs_eq
    (h : Graph.Laid p options.format.kind plan out g.chains shown heard last video)
    (hwired : Wired ins surplus out.labels g) (isVideo : Bool) :
    audioArgs g out isVideo = spell (soundPairs g out.audio) ++
      (if isVideo = true ∧ out.audio = none ∧ g.chains ≠ [] then ["-an"]
        else []) := by
  rw [audioArgs, soundPairs, h.loose_audio hwired]
  cases haudio : out.audio with
  | none => simp [spell, FilterGraph.isEmpty]
  | some l =>
      have hfree := (h.audio_free hwired haudio).1
      by_cases hraw : l = .input 0 .audio
      · simp [hraw, spell]
      · have hpad := hfree.resolve_left hraw
        simp [hraw, hpad, spell, Option.filter, mapped_of_pad hpad]

theorem graphArgs_eq
    (h : Graph.Laid p options.format.kind plan out g.chains shown heard last video)
    (hwired : Wired ins surplus out.labels g) (hne : g.chains ≠ []) :
    graphArgs g ++ (out.video.map fun label => ["-map", label.mapped]).getD [] =
      spell (picturePairs options g) := by
  rw [picturePairs, if_neg hne, h.loose_video hwired]
  cases hvideo : out.video with
  | none => rfl
  | some l =>
      rw [Option.map_some, Option.getD_some,
        mapped_of_pad (h.video_free hwired hvideo).1]
      rfl

/-- Sound alone is mapped without a word on what is not there. -/
theorem bodyArgs_sound
    (h : Graph.Laid p options.format.kind plan out g.chains shown heard last video)
    (hwired : Wired ins surplus out.labels g) (platform : Platform)
    (hkind : options.format.kind = .sound) :
    bodyArgs g out options (Encoder.ofFormat options.format platform) =
      (["-vn"] ++ (Encoder.ofFormat options.format platform).audioArgs options) ++
        spell (picturePairs options g ++ soundPairs g out.audio) := by
  have hquiet : audioArgs g out false = spell (soundPairs g out.audio) := by
    rw [audioArgs_eq h hwired, if_neg (by simp), List.append_nil]
  have hvideo := h.unmade.2 (h.unneeded.2 (.inl hkind))
  have hpicture : (if g.isEmpty = true then [] else graphArgs g) =
      spell (picturePairs options g) := by
    by_cases hne : g.chains = []
    · simp [picturePairs, hne, hkind, FilterGraph.isEmpty, spell]
    · rw [← graphArgs_eq h hwired hne, hvideo, FilterGraph.isEmpty,
        List.isEmpty_eq_false_iff.2 hne, if_neg Bool.false_ne_true]
      exact (List.append_nil _).symm
  simp only [bodyArgs, hkind]
  rw [hpicture, hquiet, spell_append, List.append_assoc]

/-- An animated image is always made by a graph, and never has sound. -/
theorem bodyArgs_animation
    (h : Graph.Laid p options.format.kind plan out g.chains shown heard last video)
    (hwired : Wired ins surplus out.labels g) (platform : Platform)
    (hkind : options.format.kind = .animation) :
    bodyArgs g out options (Encoder.ofFormat options.format platform) =
      spell (picturePairs options g ++ soundPairs g out.audio) ++ ["-an"] := by
  have hne := h.chains_ne_nil hkind
  have hquiet : audioArgs g out false = spell (soundPairs g out.audio) := by
    rw [audioArgs_eq h hwired, if_neg (by simp), List.append_nil]
  rw [audioArgs, h.audio_none hkind] at hquiet
  simp only [bodyArgs, hkind]
  rw [graphArgs_eq h hwired hne, spell_append, h.audio_none hkind, ← hquiet]
  simp

/-- A video without a graph is the screen recording scaled; one that has a graph
and no sound says so. -/
theorem bodyArgs_video
    (h : Graph.Laid p options.format.kind plan out g.chains shown heard last video)
    (hwired : Wired ins surplus out.labels g) (platform : Platform)
    (hkind : options.format.kind = .video) :
    bodyArgs g out options (Encoder.ofFormat options.format platform) =
      ((Encoder.ofFormat options.format platform).videoArgs options ++
        (Encoder.ofFormat options.format platform).audioArgs options ++
          ["-r", toString options.frameRate]) ++
      (spell (picturePairs options g ++ soundPairs g out.audio) ++
        if out.audio = none ∧ g.chains ≠ [] then ["-an"] else []) := by
  have hpicture : videoArgs g out options = spell (picturePairs options g) := by
    by_cases hne : g.chains = []
    · rw [videoArgs, (h.video_none_iff hkind).2 hne, picturePairs, if_pos hne,
        if_pos hkind]
      rfl
    · obtain ⟨l, hvideo⟩ := Option.ne_none_iff_exists'.1
        ((h.video_none_iff hkind).not.2 hne)
      rw [← graphArgs_eq h hwired hne, videoArgs, hvideo]
      rfl
  simp only [bodyArgs, hkind]
  rw [hpicture, audioArgs_eq h hwired, spell_append]
  simp

/-- Behind the inputs come the settings of the encoder, and then what the graph
leaves open. -/
theorem bodyArgs_eq
    (h : Graph.Laid p options.format.kind plan out g.chains shown heard last video)
    (hwired : Wired ins surplus out.labels g) (platform : Platform) :
    ∃ front, Settings front ∧
      bodyArgs g out options (Encoder.ofFormat options.format platform) =
        front ++ (spell (picturePairs options g ++ soundPairs g out.audio) ++
          if Silent options.format.kind g out.audio then ["-an"] else []) := by
  cases hkind : options.format.kind with
  | sound =>
      rw [bodyArgs_sound h hwired platform hkind, if_neg (by simp [Silent])]
      refine ⟨_, ?_, by rw [List.append_nil]⟩
      exact .append (.of_subset (by decide)) (audioArgs_settings _ _)
  | animation =>
      rw [bodyArgs_animation h hwired platform hkind, if_pos (.inl rfl)]
      exact ⟨[], (fun _ hword => nomatch hword), (List.nil_append _).symm⟩
  | video =>
      rw [bodyArgs_video h hwired platform hkind]
      simp only [Silent, reduceCtorEq, false_or, true_and]
      refine ⟨_, ?_, rfl⟩
      exact .append (.append (videoArgs_settings _ _) (audioArgs_settings _ _))
        (.pair (.inl (by decide)) (isSetting_toString _))

end Body

/-! ## The shape of a command -/

/-- Which picture goes to the output: the one that the graph leaves open, or that
of the screen recording where there is no graph. -/
def MapsPicture (kind : Format.Kind) (g : FilterGraph) (values : List String) :
    Prop :=
  if kind = .sound then values = []
  else if g.chains = [] then values = ["0:v"]
  else ∃ l, g.loose .video = [l] ∧ values = [l.bracketed]

/-- Which sound goes to the output: that of the screen recording as it is, which
no filter takes then, or the one that the graph leaves open. -/
def MapsSound (g : FilterGraph) (audio : Option Label) (values : List String) :
    Prop :=
  match audio with
  | none => g.loose .audio = [] ∧ values = []
  | some l =>
      l ∉ g.consumed ∧ if l = .input 0 .audio then values = ["0:a?"]
        else g.loose .audio = [l] ∧ values = [l.bracketed]

/-- The command of an export whose graph is built, with the label of its sound.
There is sound where the screen recording has it or a microphone does, except
in an animated image. -/
structure Shape (p : Project) (kind : Format.Kind) (screenHasAudio : Bool)
    (output : String) (g : FilterGraph) (audio : Option Label)
    (words : List String) : Prop where
  reads : valuesOf "-i" words = p.files
  writes : ∃ front, words = front ++ ["-y", output]
  graph : "-filter_complex" ∈ words ↔ g.chains ≠ []
  graphText : valuesOf "-filter_complex" words =
    if g.chains = [] then [] else [g.toText]
  scaled : "-vf" ∈ words ↔ kind = .video ∧ g.chains = []
  maps : ∃ picture sound, valuesOf "-map" words = picture ++ sound ∧
    MapsPicture kind g picture ∧ MapsSound g audio sound
  heard : audio.isSome = true ↔ kind ≠ .animation ∧
    (screenHasAudio = true ∨ (ifGiven p.microphone).isSome = true)
  silent : "-an" ∈ words ↔
    kind = .animation ∨ kind = .video ∧ audio = none ∧ g.chains ≠ []

section Shape

variable {p : Project} {options : Options} {plan : Plan} {out : Graph.Outputs}
variable {g : FilterGraph} {shown heard last : List Chain} {video : Label}
variable {screenHasAudio : Bool} {surplus : List Label}

theorem paths_inputs :
    ((Plan.ofProject p screenHasAudio).screenInput ::
      (Plan.ofProject p screenHasAudio).extraInputs).map Input.path =
        p.files := by
  have hscreen : (Plan.ofProject p screenHasAudio).screenInput.path =
      p.screen.display := by
    rw [Plan.screenInput]
    split <;> rfl
  rw [List.map_cons, hscreen, Plan.extraInputs, List.map_map]
  rfl

theorem lookupAll_inputPairs (inputs : List Input) :
    lookupAll "-i" (inputPairs inputs) = inputs.map Input.path := by
  induction inputs with
  | nil => rfl
  | cons i inputs ih =>
      have hseek : lookupAll "-i" (seekPairs i ++ [("-i", i.path)]) =
          [i.path] := by
        obtain ⟨path, start, stop⟩ := i
        cases start <;> cases stop <;> rfl
      rw [inputPairs, List.flatMap_cons, lookupAll_append, hseek, List.map_cons,
        ← ih]
      rfl

/-- The inputs come with no other option but where they are sought. -/
theorem fst_inputPairs {inputs : List Input} :
    ∀ pair ∈ inputPairs inputs, pair.1 ∈ ["-ss", "-to", "-i"] := by
  intro pair hpair
  obtain ⟨i, _, hmem⟩ := List.mem_flatMap.1 hpair
  simp only [seekPairs, List.mem_append, Option.mem_toList,
    Option.map_eq_some_iff, List.mem_singleton] at hmem
  rcases hmem with (⟨t, _, rfl⟩ | ⟨t, _, rfl⟩) | rfl
  · exact .head _
  · exact .tail _ (.head _)
  · exact .tail _ (.tail _ (.head _))

theorem inputPairs_unmarked {inputs : List Input}
    (h : ∀ i ∈ inputs, i.path ∉ marks) :
    ∀ pair ∈ inputPairs inputs, pair.2 ∉ marks := by
  intro pair hpair
  obtain ⟨i, hi, hmem⟩ := List.mem_flatMap.1 hpair
  simp only [seekPairs, List.mem_append, Option.mem_toList,
    Option.map_eq_some_iff, List.mem_singleton] at hmem
  rcases hmem with (⟨t, _, rfl⟩ | ⟨t, _, rfl⟩) | rfl
  · exact toPlain_unmarked t
  · exact toPlain_unmarked t
  · exact h i hi

theorem mem_picturePairs {pair : String × String}
    (h : pair ∈ picturePairs options g) :
    (g.chains = [] ∧ options.format.kind = .video ∧
      (pair = ("-vf", (Filter.fitVideo options.size.height).toText) ∨
        pair = ("-map", "0:v"))) ∨
    (g.chains ≠ [] ∧ (pair = ("-filter_complex", g.toText) ∨
      ∃ l : Label, pair = ("-map", l.bracketed))) := by
  unfold picturePairs at h
  split at h
  · next hnil =>
      split at h
      · next hkind => exact .inl ⟨hnil, hkind, by simpa using h⟩
      · cases h
  · next hne =>
      rcases List.mem_cons.1 h with rfl | hmap
      · exact .inr ⟨hne, .inl rfl⟩
      · obtain ⟨l, _, rfl⟩ := List.mem_map.1 hmap
        exact .inr ⟨hne, .inr ⟨l, rfl⟩⟩

theorem mem_soundPairs {audio : Option Label} {pair : String × String}
    (h : pair ∈ soundPairs g audio) :
    pair = ("-map", "0:a?") ∨ ∃ l : Label, pair = ("-map", l.bracketed) := by
  unfold soundPairs at h
  split at h
  · exact .inl (List.mem_singleton.1 h)
  · obtain ⟨l, _, rfl⟩ := List.mem_map.1 h
    exact .inr ⟨l, rfl⟩

theorem streamPairs_unmarked {audio : Option Label}
    (h : ∀ c ∈ g.chains, c.outputs ≠ []) :
    ∀ pair ∈ picturePairs options g ++ soundPairs g audio, pair.2 ∉ marks := by
  refine List.forall_mem_append.2 ⟨fun pair hpair => ?_, fun pair hpair => ?_⟩
  · rcases mem_picturePairs hpair with ⟨_, _, rfl | rfl⟩ | ⟨hne, rfl | ⟨l, rfl⟩⟩
    · exact fitVideo_unmarked _
    · decide
    · exact not_mem_of_last (getLast?_toText hne h) (by decide)
    · exact bracketed_unmarked l
  · rcases mem_soundPairs hpair with rfl | ⟨l, rfl⟩
    · decide
    · exact bracketed_unmarked l

theorem lookupAll_map (ls : List Label) :
    lookupAll "-map" (ls.map fun l => ("-map", l.bracketed)) =
      ls.map Label.bracketed := by
  rw [lookupAll, List.filter_eq_self.2, List.map_map]
  · rfl
  · intro pair hpair
    obtain ⟨l, _, rfl⟩ := List.mem_map.1 hpair
    rfl

theorem mapsPicture
    (h : Graph.Laid p options.format.kind plan out g.chains shown heard last video)
    (hwired : Wired g.inputs surplus out.labels g) :
    MapsPicture options.format.kind g
      (lookupAll "-map" (picturePairs options g)) := by
  rw [MapsPicture, picturePairs, h.loose_video hwired]
  split
  · next hkind =>
      have hvideo := h.unmade.2 (h.unneeded.2 (.inl hkind))
      rw [hkind, hvideo]
      split <;> rfl
  · next hkind =>
      split
      · next hnil =>
          rw [if_pos (h.kind_video hkind hnil)]
          rfl
      · next hne =>
          obtain ⟨l, hvideo⟩ := h.video_some hkind hne
          rw [hvideo]
          exact ⟨l, rfl, rfl⟩

theorem mapsSound
    (h : Graph.Laid p options.format.kind plan out g.chains shown heard last video)
    (hwired : Wired g.inputs surplus out.labels g) :
    MapsSound g out.audio (lookupAll "-map" (soundPairs g out.audio)) := by
  have hloose := h.loose_audio hwired
  rw [soundPairs]
  cases haudio : out.audio with
  | none =>
      rw [haudio] at hloose
      rw [if_neg nofun, lookupAll_map, hloose]
      exact ⟨hloose, rfl⟩
  | some l =>
      obtain ⟨hlabel, _, hfree⟩ := h.audio_free hwired haudio
      refine ⟨hfree, ?_⟩
      by_cases hraw : l = .input 0 .audio
      · rw [if_pos hraw, if_pos (congrArg some hraw)]
        rfl
      · have hpad := hlabel.resolve_left hraw
        rw [haudio, Option.filter_some, if_pos (by rw [hpad]; rfl)] at hloose
        rw [if_neg hraw, if_neg fun heq => hraw (Option.some.inj heq),
          lookupAll_map, hloose]
        exact ⟨rfl, rfl⟩

theorem heard_iff
    (h : Graph.Laid p options.format.kind (Plan.ofProject p screenHasAudio) out
      g.chains shown heard last video) :
    out.audio.isSome = true ↔ options.format.kind ≠ .animation ∧
      (screenHasAudio = true ∨ (ifGiven p.microphone).isSome = true) := by
  have hsources : (Plan.ofProject p screenHasAudio).sources ≠ .none ↔
      screenHasAudio = true ∨ (ifGiven p.microphone).isSome = true := by
    show AudioSources.ofPresence screenHasAudio (ifGiven p.microphone).isSome ≠ _
      ↔ _
    cases screenHasAudio <;> cases (ifGiven p.microphone).isSome <;> decide
  have hsound := h.sound
  rw [Plan.heard] at hsound
  rw [← hsources]
  cases haudio : out.audio with
  | none =>
      rw [haudio] at hsound
      have hnone := hsound.1
      split at hnone
      · next hkind => simp [hkind]
      · simp [hnone]
  | some l =>
      rw [haudio] at hsound
      have hsome := hsound.1
      split at hsome
      · exact absurd rfl hsome
      · next hkind => simp [hkind, hsome]

/-- Only what is said of the streams can hold an option that no input and no
output has. -/
theorem lookupAll_body {option output : String} {inputs : List Input}
    (hoption : option ∉ ["-ss", "-to", "-i", "-y"])
    (body : List (String × String)) :
    lookupAll option (inputPairs inputs ++ body ++ [("-y", output)]) =
      lookupAll option body := by
  have hinputs : lookupAll option (inputPairs inputs) = [] := by
    refine lookupAll_eq_nil ?_
    rintro pair hpair rfl
    exact hoption (List.mem_append_left ["-y"] (fst_inputPairs pair hpair))
  have hend : lookupAll option [("-y", output)] = [] := by
    refine lookupAll_eq_nil (List.forall_mem_singleton.2 ?_)
    rintro rfl
    exact hoption (by simp)
  rw [lookupAll_append, lookupAll_append, hinputs, hend, List.nil_append,
    List.append_nil]

theorem lookupAll_soundPairs {audio : Option Label} {option : String}
    (hoption : option ≠ "-map") : lookupAll option (soundPairs g audio) = [] := by
  refine lookupAll_eq_nil ?_
  rintro pair hpair rfl
  rcases mem_soundPairs hpair with rfl | ⟨l, rfl⟩
  · exact hoption rfl
  · exact hoption rfl

theorem lookupAll_graph {audio : Option Label} :
    lookupAll "-filter_complex" (picturePairs options g ++ soundPairs g audio) =
      if g.chains = [] then [] else [g.toText] := by
  rw [lookupAll_append, lookupAll_soundPairs (by decide), List.append_nil,
    picturePairs]
  split
  · split <;> rfl
  · have hmaps : lookupAll "-filter_complex"
        ((g.loose .video).map fun l => ("-map", l.bracketed)) = [] := by
      refine lookupAll_eq_nil fun pair hpair => ?_
      obtain ⟨l, _, rfl⟩ := List.mem_map.1 hpair
      exact (by decide : "-map" ≠ "-filter_complex")
    rw [← List.singleton_append, lookupAll_append, hmaps]
    rfl

theorem lookupAll_scale {audio : Option Label} :
    lookupAll "-vf" (picturePairs options g ++ soundPairs g audio) ≠ [] ↔
      options.format.kind = .video ∧ g.chains = [] := by
  rw [lookupAll_append, lookupAll_soundPairs (by decide), List.append_nil]
  constructor
  · intro hne
    obtain ⟨pair, hpair, hname⟩ := lookupAll_ne_nil.1 hne
    rcases mem_picturePairs hpair with ⟨hnil, hkind, _⟩ | ⟨_, rfl | ⟨l, rfl⟩⟩
    · exact ⟨hkind, hnil⟩
    · exact absurd hname (by decide : "-filter_complex" ≠ "-vf")
    · exact absurd hname (by decide : "-map" ≠ "-vf")
  · rintro ⟨hkind, hnil⟩
    rw [picturePairs, if_pos hnil, if_pos hkind]
    exact List.cons_ne_nil _ _

theorem lookupAll_streams {option : String} {audio : Option Label}
    (hoption : option ∉ ["-vf", "-filter_complex", "-map"]) :
    lookupAll option (picturePairs options g ++ soundPairs g audio) = [] := by
  refine lookupAll_eq_nil (List.forall_mem_append.2 ⟨?_, ?_⟩)
  · rintro pair hpair rfl
    rcases mem_picturePairs hpair with ⟨_, _, rfl | rfl⟩ | ⟨_, rfl | ⟨l, rfl⟩⟩
    all_goals exact hoption (by simp)
  · rintro pair hpair rfl
    rcases mem_soundPairs hpair with rfl | ⟨l, rfl⟩
    all_goals exact hoption (by simp)

/-- A command says of its streams what its graph leaves open. -/
theorem shape_of_spelled {words : List String} {output : String}
    (h : Graph.Laid p options.format.kind (Plan.ofProject p screenHasAudio) out
      g.chains shown heard last video)
    (hwired : Wired g.inputs surplus out.labels g)
    (hpaths : g.inputs.map Input.path = p.files)
    (hspelled : Spelled words (inputPairs g.inputs)
      (picturePairs options g ++ soundPairs g out.audio)
      (Silent options.format.kind g out.audio) output) :
    Shape p options.format.kind screenHasAudio output g out.audio words := by
  obtain ⟨front, _, hwords⟩ := hspelled.eq
  constructor
  case reads =>
    rw [hspelled.valuesOf_eq (by decide) (by decide), lookupAll_append,
      lookupAll_append, lookupAll_inputPairs, hpaths,
      lookupAll_streams (by decide), List.append_nil]
    exact List.append_nil _
  case writes => exact ⟨_, hwords⟩
  case graph =>
    rw [hspelled.mem_iff (by decide), lookupAll_body (by decide), lookupAll_graph,
      ite_ne_left_iff]
    simp
  case graphText =>
    rw [hspelled.valuesOf_eq (by decide) (by decide), lookupAll_body (by decide),
      lookupAll_graph]
  case scaled =>
    rw [hspelled.mem_iff (by decide), lookupAll_body (by decide), lookupAll_scale]
    simp
  case maps =>
    refine ⟨_, _, ?_, mapsPicture h hwired, mapsSound h hwired⟩
    rw [hspelled.valuesOf_eq (by decide) (by decide), lookupAll_body (by decide),
      lookupAll_append]
  case heard => exact heard_iff h
  case silent =>
    rw [hspelled.mem_iff (by decide), lookupAll_body (by decide),
      lookupAll_streams (by decide)]
    simp [Silent]

end Shape

/-- A command reads the files of its project and writes the output, and says of
the streams what its graph leaves open; there is one where every value of the
project that it uses can be written. -/
theorem args_shape (p : Project) (options : Options) (platform : Platform)
    (screenHasAudio : Bool) (output : String)
    (hpaths : ∀ path ∈ output :: p.files, path ∉ marks) :
    (p.Writable options.format.kind → ∃ words, args p options platform
      (Plan.ofProject p screenHasAudio) output = .ok words) ∧
    ∀ words, args p options platform (Plan.ofProject p screenHasAudio) output =
      .ok words → ∃ out g, (Graph.build p options
        (Plan.ofProject p screenHasAudio)).run.run {} = (.ok out, g) ∧
      Shape p options.format.kind screenHasAudio output g out.audio words := by
  have hbuild := ((Graph.build_laid p options screenHasAudio).and
    ((Graph.build_account p options (Plan.ofProject p screenHasAudio)
      p.pieces_ne_nil).and (Graph.build_inputs p options
        (Plan.ofProject p screenHasAudio)))).ran
  have hargs := args_of_meets hbuild platform output
  refine ⟨fun hwritable => ?_, fun words hwords => ?_⟩
  · split at hargs
    · next words hwords => exact ⟨words, hwords⟩
    · exact absurd hwritable hargs
  rw [hwords] at hargs
  obtain ⟨out, g, ⟨hrun, ⟨shown, heard, last, video, hlaid⟩,
    ⟨_, surplus, hwired, _⟩, hinputs, hends⟩, hspell⟩ := hargs
  refine ⟨out, g, hrun, ?_⟩
  have hfiles : g.inputs.map Input.path = p.files := by
    rw [hinputs]
    exact paths_inputs
  obtain ⟨houtput, hfree⟩ := List.forall_mem_cons.1 hpaths
  have hread : ∀ i ∈ g.inputs, i.path ∉ marks := fun i hi => by
    refine hfree _ ?_
    rw [← hfiles]
    exact List.mem_map_of_mem hi
  refine shape_of_spelled hlaid hwired hfiles ⟨?_, ?_⟩
  · obtain ⟨front, hfront, hbody⟩ := bodyArgs_eq hlaid hwired platform
    refine ⟨front, hfront, ?_⟩
    rw [hspell, flatMap_inputArgs, hbody]
  · refine List.forall_mem_append.2 ⟨List.forall_mem_append.2 ⟨?_, ?_⟩,
      List.forall_mem_singleton.2 houtput⟩
    · exact inputPairs_unmarked hread
    · exact streamPairs_unmarked hends

/-- The sound of a microphone that started late goes to the output, with the
picture of two segments. -/
theorem args_shape_shiftedVoice :
    (∀ path ∈ "out.mp4" :: Graph.shiftedVoice.files, path ∉ marks) ∧
    Graph.shiftedVoice.Writable .video ∧
    ∃ words, ∃ out : Graph.Outputs, ∃ g, args Graph.shiftedVoice {} .other
        (Plan.ofProject Graph.shiftedVoice true) "out.mp4" = .ok words ∧
      Shape Graph.shiftedVoice .video true "out.mp4" g out.audio words := by
  have hpaths : ∀ path ∈ "out.mp4" :: Graph.shiftedVoice.files,
      path ∉ marks := by decide
  have hwritable : Graph.shiftedVoice.Writable .video := by
    refine ⟨fun _ hcamera => ?_, fun _ _ => ?_, fun _ _ ha => ?_,
      fun _ _ ha => ?_⟩
    · exact absurd hcamera (by decide)
    · exact ⟨_, rfl, by decide +kernel⟩
    · cases ha
    · cases ha
  obtain ⟨hexists, hall⟩ := args_shape Graph.shiftedVoice {} .other true
    "out.mp4" hpaths
  obtain ⟨words, hwords⟩ := hexists hwritable
  obtain ⟨out, g, _, hshape⟩ := hall words hwords
  exact ⟨hpaths, hwritable, words, out, g, hwords, hshape⟩

/-- A recording with a camera whose delay is written as a text. -/
def spelledDelay : Project :=
  { Project.screenOnly 10 [] [] with
    camera := .text "camera.mp4"
    cameraOffset := .text "100" }

theorem plan_spelledDelay : Plan.ofProject spelledDelay true =
    ⟨.text "screen.mp4", some (.text "camera.mp4"), none, true, [⟨0, 10⟩],
      [⟨0, 10, 1, none⟩], false, false⟩ := by
  have hranges : spelledDelay.ranges = [⟨0, 10⟩] :=
    Range.sort_of_sorted (by decide +kernel) (List.pairwise_singleton _ _)
  have hpieces : spelledDelay.pieces = [⟨0, 10, 1, none⟩] := by
    rw [Project.pieces, Project.cutPieces, hranges,
      Edits.piecesOf_of_sorted (by decide +kernel)]
    decide +kernel
  have hedited : Timeline.isEdited [⟨0, 10, 1, none⟩] spelledDelay.whole =
      false := by
    decide +kernel
  rw [Plan.ofProject, hranges, hpieces, hedited]
  rfl

/-- A delay that is no number gets no command. -/
theorem args_spelledDelay :
    (∀ path ∈ "out.mp4" :: spelledDelay.files, path ∉ marks) ∧
    ∀ words, args spelledDelay {} .other (Plan.ofProject spelledDelay true)
      "out.mp4" ≠ .ok words := by
  have hnone : (args spelledDelay {} .other (Plan.ofProject spelledDelay true)
      "out.mp4").toOption = none := by
    rw [plan_spelledDelay]
    decide +kernel
  refine ⟨by decide, fun words hwords => ?_⟩
  rw [hwords] at hnone
  cases hnone

end Export.Command

end Cutlist
