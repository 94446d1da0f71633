import Cutlist.Export.Command
import Cutlist.Proofs.FixedPlaces
import Cutlist.Proofs.Growing

/-!
# Inputs are read from the beginning

An input is sought only where an export is one plain stretch of the screen
recording. In any other export no argument seeks: the inputs are registered
without a time before anything else is built, no stage registers one later, and
none of the words behind the inputs asks for a seek. The one word of these that
the edits of a project have a say in is the text of the graph, and that ends in
a bracket, since every chain ends in a pad.
-/

namespace Cutlist

open FilterGraph Render Export

namespace Export

open FilterGraph

/-- The inputs besides the screen recording, read from the beginning. -/
def Plan.extraInputs (plan : Plan) : List Input :=
  (plan.camera.toList ++ plan.microphone.toList).map
    fun path => ⟨path.display, none, none⟩

namespace Graph

theorem inputs_exact {excuse : Prop} (plan : Plan) :
    Meets excuse (inputs plan) {} fun _ g =>
      g = { inputs := plan.screenInput :: plan.extraInputs } := by
  rw [inputs, Plan.extraInputs]
  cases plan.camera with
  | none =>
      cases plan.microphone with
      | none => exact rfl
      | some voice => exact rfl
  | some camera =>
      cases plan.microphone with
      | none => exact rfl
      | some voice => exact rfl

/-- Whatever is built, the inputs are those that are registered first, and every
chain ends in a pad. -/
theorem build_inputs (project : Project) (options : Options) (plan : Plan) :
    Meets True (build project options plan) {} fun _ g =>
      g.inputs = plan.screenInput :: plan.extraInputs ∧
        ∀ c ∈ g.chains, c.outputs ≠ [] := by
  refine .bind (inputs_exact plan) fun extras g hg => ?_
  subst hg
  have hpicture : Made (picture project plan extras.camera) := picture_made _
  have hsound : Made (sound project plan extras.microphone) := sound_made _
  have finished {m : Build Outputs} (hm : Keeps m) :
      Meets True m { inputs := plan.screenInput :: plan.extraInputs } fun _ g =>
        g.inputs = plan.screenInput :: plan.extraInputs ∧
          ∀ c ∈ g.chains, c.outputs ≠ [] := by
    refine (hm.grows _).imp fun out g hgrows => ⟨hgrows.inputs, ?_⟩
    obtain ⟨more, hmore, hends⟩ := hgrows.chains
    rw [hmore]
    exact hends
  cases options.format.kind with
  | sound => exact finished (hsound.bind fun _ => .pure).keeps
  | animation =>
      refine finished (hpicture.bind fun _ => ?_).keeps
      exact (Picture.animated_made ..).bind fun _ => .pure
  | video =>
      refine finished (hpicture.keeps.bind fun _ => hsound.keeps.bind fun _ => ?_)
      refine .bind .get fun seen => ?_
      split
      · exact Made.pure.keeps
      · exact (Made.chain.bind fun _ => .pure).keeps

end Graph

end Export

/-! ## Words

The words of an argument list that are not fixed end in a digit, in a letter of
their own, or in a bracket. So it is enough to look at how the fixed ones end.
-/

/-- The words that seek an input or announce a graph. -/
def Export.Command.reserved : List String := ["-ss", "-to", "-filter_complex"]

namespace Export.Command

/-- A word that ends otherwise is none of some words. -/
theorem not_mem_of_last {words : List String} {word : String} {c : Char}
    (hlast : word.toList.getLast? = some c)
    (h : some c ∉ words.map fun w => w.toList.getLast?) : word ∉ words := by
  intro hmem
  rw [← hlast] at h
  exact h (List.mem_map_of_mem hmem)

/-- A word that ends in a digit is none of some words that do not. -/
theorem not_mem_of_digit {words : List String} {word : String} {c : Char}
    (hlast : word.toList.getLast? = some c) (hdigit : c.isDigit = true)
    (h : ∀ w ∈ words, (w.toList.getLast?.all fun c => !c.isDigit) = true) :
    word ∉ words := by
  intro hmem
  have hall := h word hmem
  rw [hlast, Option.all_some, hdigit] at hall
  cases hall

theorem getLast?_append (front : String) {word : String} {c : Char}
    (h : word.toList.getLast? = some c) :
    (front ++ word).toList.getLast? = some c := by
  rw [String.toList_append, List.getLast?_append, h]
  rfl

/-- A whole number ends in a digit. -/
theorem getLast?_toString (n : Int) :
    ∃ c, (toString n).toList.getLast? = some c ∧ c.isDigit = true := by
  have hnat : ∀ m : Nat, ∃ c, (toString m).toList.getLast? = some c ∧
      c.isDigit = true := by
    intro m
    rw [Nat.toString_eq_ofList_toDigits, String.toList_ofList]
    have hne : Nat.toDigits 10 m ≠ [] := Nat.toDigits_ne_nil
    refine ⟨_, List.getLast?_eq_some_getLast hne, ?_⟩
    exact Decimal.isDigit_of_mem_digits (List.getLast_mem hne)
  cases n with
  | ofNat m => exact hnat m
  | negSucc m =>
      obtain ⟨c, hlast, hdigit⟩ := hnat (m + 1)
      exact ⟨c, getLast?_append "-" hlast, hdigit⟩

theorem getLast?_fitVideo (height : Int) :
    ∃ c, (Filter.fitVideo height).toText.toList.getLast? = some c ∧
      c.isDigit = true := by
  obtain ⟨c, hlast, hdigit⟩ := getLast?_toString height
  exact ⟨c, getLast?_append "scale=-2:" hlast, hdigit⟩

theorem getLast?_mapped (l : Label) :
    ∃ c ∈ [']', 'a', 'v'], l.mapped.toList.getLast? = some c := by
  cases l with
  | input k stream =>
      cases stream with
      | audio => exact ⟨'a', by decide, getLast?_append _ rfl⟩
      | video => exact ⟨'v', by decide, getLast?_append _ rfl⟩
  | pad name => exact ⟨']', by decide, getLast?_append _ rfl⟩

theorem getLast?_chain {c : Chain} (h : c.outputs ≠ []) :
    c.toText.toList.getLast? = some ']' := by
  obtain ⟨outputs, l, houtputs⟩ :=
    (List.eq_nil_or_concat c.outputs).resolve_left h
  rw [Chain.toText, houtputs, List.concat_eq_append, List.map_append,
    String.join_append]
  refine getLast?_append _ (getLast?_append _ ?_)
  rw [List.map_singleton, String.join_cons, String.join_nil,
    String.append_empty]
  exact getLast?_append _ rfl

/-- The text of a graph ends in a bracket. -/
theorem getLast?_toText {g : FilterGraph} (hne : g.chains ≠ [])
    (h : ∀ c ∈ g.chains, c.outputs ≠ []) :
    g.toText.toList.getLast? = some ']' := by
  obtain ⟨front, c, hchains⟩ := (List.eq_nil_or_concat g.chains).resolve_left hne
  have hchain := getLast?_chain (h c (by rw [hchains]; simp))
  rw [FilterGraph.toText, hchains, List.concat_eq_append, List.map_append,
    List.map_singleton]
  rcases List.eq_nil_or_concat front with rfl | ⟨_, _, rfl⟩
  · rw [List.map_nil, List.nil_append, String.intercalate_singleton]
    exact hchain
  · rw [String.intercalate_append_of_ne_nil (by simp) (List.cons_ne_nil _ _),
      String.intercalate_singleton]
    exact getLast?_append _ hchain

/-! ## Settings of the encoder -/

/-- The fixed words among the settings of the encoder. -/
def settings : List String :=
  ["-vn", "-r", "-c:v", "-c:a", "-crf", "-preset", "-b:v", "-b:a", "-allow_sw",
    "-profile:v", "-pix_fmt", "libx264", "h264_videotoolbox", "prores_ks", "aac",
    "pcm_s16le", "libmp3lame", "slow", "medium", "fast", "veryfast", "1", "3",
    "yuv420p", "yuv422p10le"]

/-- A word that sets up the encoder: a fixed one, a number, or a rate. -/
def IsSetting (word : String) : Prop :=
  word ∈ settings ∨
    ∃ c, word.toList.getLast? = some c ∧ (c.isDigit = true ∨ c = 'k')

abbrev Settings (words : List String) : Prop := ∀ word ∈ words, IsSetting word

theorem Settings.append {xs ys : List String} (hx : Settings xs)
    (hy : Settings ys) : Settings (xs ++ ys) := List.forall_mem_append.2 ⟨hx, hy⟩

theorem Settings.pair {x y : String} (hx : IsSetting x) (hy : IsSetting y) :
    Settings [x, y] :=
  List.forall_mem_cons.2 ⟨hx, List.forall_mem_singleton.2 hy⟩

theorem Settings.of_subset {words : List String} (h : words ⊆ settings) :
    Settings words := fun _ hword => .inl (h hword)

theorem isSetting_toString (n : Int) : IsSetting (toString n) := by
  obtain ⟨c, hlast, hdigit⟩ := getLast?_toString n
  exact .inr ⟨c, hlast, .inl hdigit⟩

theorem isSetting_rate (text : String) : IsSetting (text ++ "k") :=
  .inr ⟨'k', getLast?_append text rfl, .inr rfl⟩

theorem controlArgs_settings (options : Options) (control : RateControl) :
    Settings (Encoder.controlArgs options control) := by
  cases control with
  | quality =>
      have hquality : Settings
          ["-crf", toString options.compression.quality] :=
        .pair (.inl (by decide)) (isSetting_toString (Int.ofNat _))
      refine hquality.append (.pair (.inl (by decide)) (.inl ?_))
      cases options.compression <;> decide
  | rate => exact .pair (.inl (by decide)) (isSetting_rate _)
  | none => exact fun _ h => nomatch h

theorem videoArgs_settings (options : Options) (platform : Platform) :
    Settings ((Encoder.ofFormat options.format platform).videoArgs options) := by
  have hencoder (v : VideoEncoder) (hname : v.name ∈ settings)
      (hextra : v.extra ⊆ settings) (hpixels : v.pixels ∈ settings) :
      Settings (["-c:v", v.name] ++ Encoder.controlArgs options v.control ++
        v.extra ++ ["-pix_fmt", v.pixels]) := by
    refine .append (.append (.append ?_ (controlArgs_settings _ _))
      (.of_subset hextra)) ?_
    · exact .pair (.inl (by decide)) (.inl hname)
    · exact .pair (.inl (by decide)) (.inl hpixels)
  cases options.format with
  | mp4 =>
      cases platform with
      | macos =>
          exact hencoder Encoder.hardware (by decide) (by decide) (by decide)
      | other =>
          exact hencoder Encoder.software (by decide) (by decide) (by decide)
  | mov => exact hencoder Encoder.editing (by decide) (by decide) (by decide)
  | gif => exact fun _ h => nomatch h
  | wav => exact fun _ h => nomatch h
  | mp3 => exact fun _ h => nomatch h

theorem audioArgs_settings (options : Options) (platform : Platform) :
    Settings ((Encoder.ofFormat options.format platform).audioArgs options) := by
  have hencoder (a : AudioEncoder) (hname : a.name ∈ settings) :
      Settings (["-c:a", a.name] ++ (if a.hasRate then
        ["-b:a", s!"{options.compression.audioRate}k"] else [])) := by
    refine .append (.pair (.inl (by decide)) (.inl hname)) ?_
    split
    · exact .pair (.inl (by decide)) (isSetting_rate _)
    · exact fun _ h => nomatch h
  cases options.format with
  | mp4 =>
      cases platform with
      | macos => exact hencoder ⟨"aac", true⟩ (by decide)
      | other => exact hencoder ⟨"aac", true⟩ (by decide)
  | mov => exact hencoder ⟨"pcm_s16le", false⟩ (by decide)
  | gif => exact fun _ h => nomatch h
  | wav => exact hencoder ⟨"pcm_s16le", false⟩ (by decide)
  | mp3 => exact hencoder ⟨"libmp3lame", true⟩ (by decide)

/-- Some words are no settings when they are not fixed ones and do not end like
a number or a rate. -/
theorem IsSetting.not_mem {words : List String} {word : String}
    (h : IsSetting word) (hfixed : ∀ w ∈ words, w ∉ settings)
    (hlast : ∀ w ∈ words,
      (w.toList.getLast?.all fun c => !c.isDigit && c != 'k') = true) :
    word ∉ words := by
  intro hmem
  rcases h with h | ⟨c, hc, hend⟩
  · exact hfixed word hmem h
  · have hall := hlast word hmem
    rw [hc, Option.all_some, Bool.and_eq_true, Bool.not_eq_true',
      bne_iff_ne] at hall
    rcases hend with hdigit | rfl
    · rw [hdigit] at hall
      cases hall.1
    · exact hall.2 rfl

/-! ## Words behind the inputs -/

/-- None of the words is reserved. -/
abbrev Free (words : List String) : Prop := ∀ word ∈ words, word ∉ reserved

theorem Free.cons {word : String} {words : List String}
    (hword : word ∉ reserved) (h : Free words) : Free (word :: words) :=
  List.forall_mem_cons.2 ⟨hword, h⟩

theorem Settings.free {words : List String} (h : Settings words) : Free words :=
  fun word hword => (h word hword).not_mem (by decide) (by decide)

theorem fitVideo_not_reserved (height : Int) :
    (Filter.fitVideo height).toText ∉ reserved := by
  obtain ⟨c, hlast, hdigit⟩ := getLast?_fitVideo height
  exact not_mem_of_digit hlast hdigit (by decide)

theorem map_free (label : Label) : Free ["-map", label.mapped] := by
  refine .cons (by decide) (.cons ?_ fun _ h => nomatch h)
  obtain ⟨c, hc, hlast⟩ := getLast?_mapped label
  have hends : ([']', 'a', 'v'].all fun c => decide
      (some c ∉ reserved.map fun w => w.toList.getLast?)) = true := by decide
  exact not_mem_of_last hlast
    (of_decide_eq_true (List.all_eq_true.1 hends c hc))

theorem mapArgs_free (g : FilterGraph) (outputs : Graph.Outputs)
    (isVideo : Bool) : Free (audioArgs g outputs isVideo) := by
  rw [audioArgs]
  split
  · split
    · decide
    · decide
  · split
    · decide
    · exact map_free _

theorem toText_not_reserved {g : FilterGraph}
    (h : ∀ c ∈ g.chains, c.outputs ≠ []) : g.toText ∉ reserved := by
  by_cases hne : g.chains = []
  · rw [FilterGraph.toText, hne]
    decide
  · exact not_mem_of_last (getLast?_toText hne h) (by decide)

/-- Where a graph stands behind the inputs. -/
def ShowsGraph (g : FilterGraph) (outputs : Graph.Outputs)
    (options : Options) : Prop :=
  match options.format.kind with
  | .sound => g.isEmpty = false
  | .animation => True
  | .video => outputs.video.isSome = true

/-- Behind the inputs only the words of a graph are reserved or come from the
edits of a project. -/
theorem mem_bodyArgs {g : FilterGraph} {outputs : Graph.Outputs}
    {options : Options} {platform : Platform} {word : String}
    (hword : word ∈ bodyArgs g outputs options
      (Encoder.ofFormat options.format platform)) :
    word ∉ reserved ∨ word ∈ graphArgs g ∧ ShowsGraph g outputs options := by
  have hvideo := (videoArgs_settings options platform).free
  have hsound := (audioArgs_settings options platform).free
  rw [bodyArgs] at hword
  rw [ShowsGraph]
  cases hkind : options.format.kind with
  | sound =>
      simp only [hkind, List.mem_append] at hword
      rcases hword with ((hword | hword) | hword) | hword
      · exact .inl ((by decide : Free ["-vn"]) word hword)
      · exact .inl (hsound word hword)
      · split at hword
        · cases hword
        · next hmany => exact .inr ⟨hword, Bool.eq_false_iff.2 hmany⟩
      · exact .inl (mapArgs_free g outputs false word hword)
  | animation =>
      simp only [hkind, List.mem_append] at hword
      rcases hword with (hword | hword) | hword
      · exact .inr ⟨hword, trivial⟩
      · refine .inl ?_
        cases hlabel : outputs.video with
        | none =>
            rw [hlabel] at hword
            cases hword
        | some label =>
            rw [hlabel] at hword
            exact map_free label word hword
      · exact .inl ((by decide : Free ["-an"]) word hword)
  | video =>
      simp only [hkind, List.mem_append] at hword
      rcases hword with (((hword | hword) | hword) | hword) | hword
      · exact .inl (hvideo word hword)
      · exact .inl (hsound word hword)
      · have hrate : Settings ["-r", toString options.frameRate] :=
          .pair (.inl (by decide)) (isSetting_toString _)
        exact .inl (hrate.free word hword)
      · rw [videoArgs] at hword
        cases hlabel : outputs.video with
        | some label =>
            rw [hlabel] at hword
            rcases List.mem_append.1 hword with hword | hword
            · exact .inr ⟨hword, rfl⟩
            · exact .inl (map_free label word hword)
        | none =>
            rw [hlabel] at hword
            exact .inl (Free.cons (by decide) (.cons (fitVideo_not_reserved _)
              (by decide : Free ["-map", "0:v"])) word hword)
      · exact .inl (mapArgs_free g outputs true word hword)

/-! ## Argument lists -/

/-- The arguments are those of a graph that was built, unless none was. -/
theorem args_of_meets {excuse : Prop} {project : Project} {options : Options}
    {plan : Plan} {Q : Graph.Outputs → FilterGraph → Prop}
    (h : Meets excuse (Graph.build project options plan) {} Q)
    (platform : Platform) (output : String) :
    match args project options platform plan output with
    | .ok words => ∃ outputs g, Q outputs g ∧
        words = g.inputs.flatMap inputArgs ++ bodyArgs g outputs options
          (Encoder.ofFormat options.format platform) ++ ["-y", output]
    | .error _ => excuse := by
  rw [Meets] at h
  rw [args]
  cases hrun : (Graph.build project options plan).run.run {} with
  | mk result g =>
      rw [hrun] at h
      cases result with
      | ok outputs => exact ⟨outputs, g, h, rfl⟩
      | error e => exact h

/-- Unless an export is a plain stretch, every input is read from the beginning
and no other argument seeks. -/
theorem args_unsought {project : Project} {options : Options} {plan : Plan}
    (hfast : plan.fast = false) (platform : Platform) (output : String)
    {words : List String}
    (hwords : args project options platform plan output = .ok words) :
    ∃ body, words = (plan.screen :: (plan.camera.toList ++
        plan.microphone.toList)).flatMap (fun path => ["-i", path.display]) ++
          body ++ ["-y", output] ∧ "-ss" ∉ body ∧ "-to" ∉ body := by
  have hargs := args_of_meets (Graph.build_inputs project options plan)
    platform output
  rw [hwords] at hargs
  obtain ⟨outputs, g, ⟨hinputs, hends⟩, rfl⟩ := hargs
  have hread : g.inputs.flatMap inputArgs = (plan.screen ::
      (plan.camera.toList ++ plan.microphone.toList)).flatMap
        (fun path => ["-i", path.display]) := by
    have hscreen : plan.screenInput = ⟨plan.screen.display, none, none⟩ := by
      rw [Plan.screenInput, hfast]
    rw [hinputs, hscreen, Plan.extraInputs, ← List.map_cons
      (f := fun path : Json => (⟨path.display, none, none⟩ : Input)),
      List.flatMap_map]
    rfl
  have hbody : ∀ word ∈ ["-ss", "-to"], word ∉ bodyArgs g outputs options
      (Encoder.ofFormat options.format platform) := by
    intro word hword hmem
    have hreserved : word ∈ reserved :=
      (List.sublist_append_left _ ["-filter_complex"]).subset hword
    rcases mem_bodyArgs hmem with hfree | ⟨hgraph, _⟩
    · exact hfree hreserved
    · rw [graphArgs, List.mem_cons, List.mem_singleton] at hgraph
      rcases hgraph with rfl | rfl
      · exact absurd hword (by decide)
      · exact toText_not_reserved hends hreserved
  exact ⟨_, by rw [hread], hbody _ (by simp), hbody _ (by simp)⟩

end Export.Command

end Cutlist
