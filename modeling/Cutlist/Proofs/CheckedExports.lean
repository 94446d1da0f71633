import Cutlist.Export.Request
import Cutlist.Proofs.CommandShape
import Cutlist.Proofs.Finalizing
import Cutlist.Proofs.ProbeAnswers
import Cutlist.Proofs.WrittenPaths

/-!
# A checked export finds what it reads

The media files of a project are looked at twice. The check asks whether they are
there, whether something is enabled, and whether there is any sound; the command
is then made from the project as it is, and asks for the sound of the screen
recording once more. The two agree. What an export reads is what the check has
seen, and an export of sound alone always has a sound to map.

They do not agree on how a path is given. The check reads it first, while the
command has it as it is written. So the check passes a screen recording without
a path for the directory that is current, and one with a slash behind its name,
although the command finds neither. All other paths are found.

A check that fails is the end of the export, and up to its notes nothing has
happened by then.
-/

namespace Cutlist

open FilterGraph Render Export

/-! ## Paths that lead somewhere -/

namespace FileTree

/-- Something is at the path that a text gives when it is read, as a check reads
it. Whether the text leads there as well is another question. -/
def HasPath (t : FileTree) (path : String) : Prop :=
  t.has (FilePath.ofString path) = .ok true

variable {t t' : FileTree} {path : String}

theorem hasPath_iff : t.HasPath path ↔
    ∃ e, t.look (FilePath.ofString path) = .ok e := by
  rw [HasPath, has, look?]
  cases t.look (FilePath.ofString path) with
  | ok e => simp [ok_bind, pure, Except.pure]
  | error why =>
      dsimp only
      split <;> simp [Bind.bind, Except.bind, pure, Except.pure]

theorem Grows.hasPath (h : t.Grows t') (hpath : t.HasPath path) :
    t'.HasPath path := by
  obtain ⟨e, he⟩ := hasPath_iff.1 hpath
  obtain ⟨q, hq, hentry⟩ := look_eq_ok_iff.1 he
  have hq' : t'.resolve (FilePath.ofString path) = .ok q := h.resolve hq
  refine hasPath_iff.2 ?_
  cases e with
  | directory => exact ⟨_, look_eq_ok_iff.2 ⟨q, hq', h.directory q hentry⟩⟩
  | file c =>
      obtain ⟨c', hc'⟩ := h.file q c hentry
      exact ⟨_, look_eq_ok_iff.2 ⟨q, hq', hc'⟩⟩

end FileTree

/-- Where something is enabled, nothing else is exported. -/
theorem Project.ranges_of_enabled {p : Project} (h : p.enabledRanges ≠ []) :
    p.ranges = Range.sort p.enabledRanges := by
  have hfull : p.enabledRanges.isEmpty = false := List.isEmpty_eq_false_iff.2 h
  rw [Project.enabledRanges] at hfull
  rw [Project.ranges, Project.enabledRanges, hfull]
  rfl

/-! ## What a check has seen -/

namespace Export

/-- All that a project names is there, and something of it is enabled. -/
structure Furnished (t : FileTree) (p : Project) : Prop where
  paths : ∀ path ∈ p.files, t.HasPath path
  enabled : p.enabledRanges ≠ []

theorem Furnished.grows {t t' : FileTree} {p : Project} (h : Furnished t p)
    (hgrows : t.Grows t') : Furnished t' p :=
  ⟨fun path hpath => hgrows.hasPath (h.paths path hpath), h.enabled⟩

namespace Validation

variable {t : FileTree} {p : Project} {o : Options} {v : Json}
variable {missing : String → Rejection}

theorem hasPath_of_isThere (h : isThere t v = .ok true) :
    t.HasPath v.display := by
  cases v with
  | text path => exact mapError_eq_ok.1 h
  | null | bool | int | real | list | object => cases h

theorem isThere_of_need (h : need t v missing = .ok ()) :
    isThere t v = .ok true := by
  obtain ⟨there, hthere, hneed⟩ := bind_eq_ok h
  cases there with
  | true => exact hthere
  | false => cases hneed

/-- A file that a project may have is there if it is given. -/
theorem isThere_of_needIfGiven (h : needIfGiven t v missing = .ok ())
    (hgiven : v.truthy = true) : isThere t v = .ok true := by
  rw [needIfGiven, if_pos hgiven] at h
  exact isThere_of_need h

theorem hasPath_of_given (h : needIfGiven t v missing = .ok ()) :
    ∀ w ∈ ifGiven v, t.HasPath w.display := by
  intro w hw
  rw [ifGiven, Option.mem_def] at hw
  split at hw
  · next hgiven =>
    cases hw
    exact hasPath_of_isThere (isThere_of_needIfGiven h hgiven)
  · cases hw

theorem enabled_of_needSegment (h : needSegment p = .ok ()) :
    p.enabledRanges ≠ [] := by
  rw [needSegment] at h
  split at h
  · next hany =>
    obtain ⟨s, hs, henabled⟩ := List.any_eq_true.1 hany
    exact List.ne_nil_of_mem
      (List.mem_map_of_mem (List.mem_filter.2 ⟨hs, henabled⟩))
  · cases h

/-- What is there when nothing is missing, and when sound is still needed: an
export of sound alone has no microphone. -/
theorem requirements_eq_ok {needs : Bool} (h : requirements t p o = .ok needs) :
    Furnished t p ∧ (needs = true ↔
      o.format.kind = .sound ∧ p.microphone.truthy = false) := by
  obtain ⟨_, hscreen, h⟩ := bind_eq_ok h
  obtain ⟨_, hcamera, h⟩ := bind_eq_ok h
  obtain ⟨_, hmicrophone, h⟩ := bind_eq_ok h
  obtain ⟨_, hsegment, h⟩ := bind_eq_ok h
  refine ⟨⟨?_, enabled_of_needSegment hsegment⟩, ?_⟩
  · intro path hpath
    obtain ⟨w, hw, rfl⟩ := List.mem_map.1 hpath
    rw [List.mem_cons, List.mem_append, Option.mem_toList, Option.mem_toList] at hw
    obtain rfl | hw | hw := hw
    · exact hasPath_of_isThere (isThere_of_need hscreen)
    · exact hasPath_of_given hcamera w hw
    · exact hasPath_of_given hmicrophone w hw
  · split at h
    · next hkind =>
      split at h
      · next hgiven =>
        rw [isThere_of_needIfGiven hmicrophone hgiven] at h
        cases h
        simp [hgiven]
      · next hgiven =>
        cases h
        simpa [hkind] using hgiven
    · next hkind =>
      cases h
      simp [hkind]

end Validation

/-! ## The actions of a request -/

namespace Request

open Session Validation
open Cutlist.Action (outcome_bind_eq_ok outcome_bind_error outcome_bind_ok)

variable {r : Request} {host : Host} {s s' : Session} {words : List String}
variable {platform : Platform} {output : String}

theorem check_asks (r : Request) (host : Host) : Asks host r.check := by
  refine .bind .get fun s => .bind (.ofExcept _ _) fun needs => ?_
  cases needs with
  | true => exact .bind (hasSound_asks _ none) fun _ => .ofExcept _ _
  | false => exact .pure ()

theorem pieces_asks (r : Request) (host : Host) : Asks host r.pieces := by
  rw [pieces]
  split
  · exact .bind (.note _) fun _ => .pure _
  · exact .pure _

theorem plan_asks (r : Request) (host : Host) : Asks host r.plan :=
  .bind (hasSound_asks _ none) fun _ => .bind (r.pieces_asks host) fun _ =>
    .pure _

theorem command_asks (r : Request) (platform : Platform) (output : String)
    (host : Host) : Asks host (r.command platform output) :=
  .bind (r.plan_asks host) fun _ => .bind (.ofExcept _ _) fun _ =>
    .bind (fun s => .refl host s) fun _ => .pure _

theorem check_of_requirements
    (h : requirements s.files r.project r.options = .ok false) :
    r.check.outcome host s = (.ok (), s) := by
  rw [check, outcome_bind_ok (outcome_get host s), h]
  rfl

theorem check_of_fault {fault : Fault}
    (h : requirements s.files r.project r.options = .error fault) :
    r.check.outcome host s = (.error (.validation fault), s) := by
  rw [check, outcome_bind_ok (outcome_get host s), h]
  rfl

/-- A check that succeeds has found what the project names, and a sound for an
export of sound alone. -/
theorem check_eq_ok (h : r.check.outcome host s = (.ok (), s')) :
    Furnished s.files r.project ∧ (r.options.format.kind = .sound →
      ((hasSound r.project.screen.display).outcome host s).1 = .ok true ∨
        (ifGiven r.project.microphone).isSome = true) := by
  obtain ⟨_, _, hget, h⟩ := outcome_bind_eq_ok h
  cases hget
  obtain ⟨needs, s₁, hneeds, h⟩ := outcome_bind_eq_ok h
  rw [outcome_ofExcept] at hneeds
  obtain ⟨hrequired, rfl⟩ := Prod.mk.inj hneeds
  obtain ⟨hfurnished, hiff⟩ := requirements_eq_ok (mapError_eq_ok.1 hrequired)
  refine ⟨hfurnished, fun hkind => ?_⟩
  cases hgiven : r.project.microphone.truthy with
  | true =>
      right
      rw [ifGiven, if_pos hgiven]
      rfl
  | false =>
      left
      rw [if_pos (hiff.2 ⟨hkind, hgiven⟩)] at h
      obtain ⟨sound, s₂, hsound, h⟩ := outcome_bind_eq_ok h
      rw [hsound]
      cases sound with
      | true => rfl
      | false => cases h

/-- The command of an export is made by its plan, which knows of the sound of the
screen recording what a question about it comes to. -/
theorem command_eq_ok
    (h : (r.command platform output).outcome host s = (.ok words, s')) :
    ∃ sound args,
      ((hasSound r.project.screen.display).outcome host s).1 = .ok sound ∧
      Command.args r.project r.options platform
        (Plan.ofProject r.project sound) output = .ok args ∧
      words = Recording.program host :: args := by
  obtain ⟨plan, s₁, hplan, h⟩ := outcome_bind_eq_ok h
  obtain ⟨args, s₂, hargs, h⟩ := outcome_bind_eq_ok h
  obtain ⟨sound, s₃, hsound, hplan⟩ := outcome_bind_eq_ok hplan
  obtain ⟨_, s₄, _, hplan⟩ := outcome_bind_eq_ok hplan
  cases hplan
  rw [outcome_ofExcept] at hargs
  obtain ⟨hbuilt, rfl⟩ := Prod.mk.inj hargs
  rw [outcome_bind_ok (Recording.outcome_ffmpeg host _)] at h
  cases h
  exact ⟨sound, args, by rw [hsound], mapError_eq_ok.1 hbuilt, rfl⟩

/-- The pieces of an export are always those of its project. -/
theorem outcome_pieces (r : Request) (host : Host) (s : Session) :
    ∃ s', r.pieces.outcome host s = (.ok r.project.pieces, s') := by
  rw [pieces]
  split
  · exact ⟨_, rfl⟩
  · exact ⟨_, rfl⟩

theorem exists_command {sound : Bool} {args : List String}
    (hsound : ((hasSound r.project.screen.display).outcome host s).1 = .ok sound)
    (hargs : Command.args r.project r.options platform
      (Plan.ofProject r.project sound) output = .ok args) :
    ∃ s', (r.command platform output).outcome host s =
      (.ok (Recording.program host :: args), s') := by
  obtain ⟨s₁, hs₁⟩ : ∃ s₁, (hasSound r.project.screen.display).outcome host s =
      (.ok sound, s₁) := ⟨_, Prod.ext hsound rfl⟩
  obtain ⟨s₂, hs₂⟩ := r.outcome_pieces host s₁
  have hplan : r.plan.outcome host s =
      (.ok (Plan.ofProject r.project sound), s₂) := by
    rw [plan, outcome_bind_ok hs₁, outcome_bind_ok hs₂]
    rfl
  refine ⟨s₂, ?_⟩
  rw [command, outcome_bind_ok hplan, hargs]
  rfl

end Request

/-! ## What the command reads and maps -/

/-- The only stream that goes to the output is one of sound: that of the screen
recording as it is, or the one that the graph leaves open. -/
def MapsOneSound (g : FilterGraph) (audio : Option Label) (body : List String) :
    Prop :=
  ∃ front value l, body = front ++ ["-map", value] ∧ "-map" ∉ front ∧
    audio = some l ∧ l ∉ g.consumed ∧
    if l = .input 0 .audio then value = "0:a?"
    else g.loose .audio = [l] ∧ value = l.bracketed

/-- The graph of an export, and the arguments between the inputs and the output,
find all that they need in a tree of files; what is read is found just when the
text of its path is faithful. -/
structure Provided (t : FileTree) (p : Project) (kind : Format.Kind)
    (g : FilterGraph) (out : Graph.Outputs) (body : List String) : Prop where
  inputs : g.inputs.map Input.path = p.files
  there : ∀ i ∈ g.inputs, t.HasPath i.path
  written : ∀ i ∈ g.inputs, (t.HasWritten i.path ↔ t.Faithful i.path)
  readsNoMore : "-i" ∉ body
  within : ∀ l ∈ g.consumed ++ out.labels, l.Within g.inputs.length
  timeline : p.ranges = Range.sort p.enabledRanges ∧ p.enabledRanges ≠ []
  sound : kind = .sound → MapsOneSound g out.audio body

namespace Command

section Body

variable {p : Project} {options : Options} {out : Graph.Outputs} {plan : Plan}
variable {g : FilterGraph} {shown heard last : List Chain} {video : Label}
variable {ins : List Input} {surplus : List Label}

/-- An option that no pair has is not among the words. -/
theorem not_mem_spell {pairs : List (String × String)} {option : String}
    (hmark : option ∈ marks) (hpairs : ∀ pair ∈ pairs, pair.2 ∉ marks)
    (hnone : lookupAll option pairs = []) : option ∉ spell pairs := by
  have hvalues : ∀ pair ∈ pairs, pair.2 ≠ option := by
    rintro pair hpair rfl
    exact hpairs pair hpair hmark
  rw [mem_spell hvalues]
  intro hname
  exact lookupAll_ne_nil.2 hname hnone

theorem input_not_mem_body
    (h : Graph.Laid p options.format.kind plan out g.chains shown heard last video)
    (hwired : Wired ins surplus out.labels g)
    (hends : ∀ c ∈ g.chains, c.outputs ≠ []) (platform : Platform) :
    "-i" ∉ bodyArgs g out options (Encoder.ofFormat options.format platform) := by
  obtain ⟨front, hfront, hbody⟩ := bodyArgs_eq h hwired platform
  have hmark : "-i" ∈ marks := by decide
  have hsettings : "-i" ∉ front := fun hmem => hfront.unmarked _ hmem hmark
  have hspelled : "-i" ∉ spell
      (picturePairs options g ++ soundPairs g out.audio) :=
    not_mem_spell hmark (streamPairs_unmarked hends)
      (lookupAll_streams (by decide))
  have hsilent : "-i" ∉ if Silent options.format.kind g out.audio then ["-an"]
      else [] := by
    split <;> simp
  simp only [hbody, List.mem_append, hsettings, hspelled, hsilent, or_self,
    not_false_iff]

/-- An export of sound alone ends in the one stream that it maps. -/
theorem mapsOneSound
    (h : Graph.Laid p options.format.kind plan out g.chains shown heard last video)
    (hwired : Wired g.inputs surplus out.labels g)
    (hends : ∀ c ∈ g.chains, c.outputs ≠ []) (platform : Platform)
    (hkind : options.format.kind = .sound) (hheard : out.audio.isSome = true) :
    MapsOneSound g out.audio
      (bodyArgs g out options (Encoder.ofFormat options.format platform)) := by
  obtain ⟨l, haudio⟩ := Option.isSome_iff_exists.1 hheard
  have hpicture := mapsPicture h hwired
  rw [hkind, MapsPicture, if_pos rfl] at hpicture
  have hmark : "-map" ∈ marks := by decide
  have hsettings : "-map" ∉ (Encoder.ofFormat options.format platform).audioArgs
      options :=
    fun hmem => (audioArgs_settings options platform).unmarked _ hmem hmark
  have hspelled : "-map" ∉ spell (picturePairs options g) :=
    not_mem_spell hmark
      (fun pair hpair => streamPairs_unmarked hends pair
        (List.mem_append_left (soundPairs g out.audio) hpair)) hpicture
  obtain ⟨value, hsound, hvalue⟩ : ∃ value,
    soundPairs g out.audio = [("-map", value)] ∧
      if l = .input 0 .audio then value = "0:a?"
      else g.loose .audio = [l] ∧ value = l.bracketed := by
    have hmaps := mapsSound h hwired
    rw [haudio] at hmaps ⊢
    obtain ⟨_, hloose⟩ := hmaps
    rw [soundPairs]
    split at hloose
    · next hraw => exact ⟨_, if_pos (congrArg some hraw), by rw [if_pos hraw]⟩
    · next hraw =>
      obtain ⟨hloose, _⟩ := hloose
      rw [if_neg fun heq => hraw (Option.some.inj heq), hloose]
      exact ⟨_, rfl, by rw [if_neg hraw]; exact ⟨rfl, rfl⟩⟩
  refine ⟨["-vn"] ++ (Encoder.ofFormat options.format platform).audioArgs options ++
    spell (picturePairs options g), value, l, ?_, ?_, haudio,
    (h.audio_free hwired haudio).2.2, hvalue⟩
  · rw [bodyArgs_sound h hwired platform hkind, spell_append, hsound,
      ← List.append_assoc]
    rfl
  · simp [hsettings, hspelled]

end Body

/-- A command that is made of what is there, with a sound if it is to have one. -/
theorem args_provided {p : Project} {options : Options} {t : FileTree}
    {platform : Platform} {screenHasAudio : Bool} {output : String}
    {args : List String} (hfurnished : Furnished t p)
    (hsound : options.format.kind = .sound →
      screenHasAudio = true ∨ (ifGiven p.microphone).isSome = true)
    (hargs : Command.args p options platform (Plan.ofProject p screenHasAudio)
      output = .ok args) :
    ∃ out g body, (Graph.build p options
        (Plan.ofProject p screenHasAudio)).run.run {} = (.ok out, g) ∧
      args = g.inputs.flatMap inputArgs ++ body ++ ["-y", output] ∧
      Provided t p options.format.kind g out body := by
  have hbuild := ((Graph.build_laid p options screenHasAudio).and
    ((Graph.build_account p options (Plan.ofProject p screenHasAudio)
      p.pieces_ne_nil).and (Graph.build_inputs p options
        (Plan.ofProject p screenHasAudio)))).ran
  have hmade := args_of_meets hbuild platform output
  rw [hargs] at hmade
  obtain ⟨out, g, ⟨hrun, ⟨shown, heard, last, video, hlaid⟩,
    ⟨_, surplus, hwired, _⟩, hinputs, hends⟩, hwords⟩ := hmade
  have hfiles : g.inputs.map Input.path = p.files := by
    rw [hinputs]
    exact paths_inputs
  have hthere : ∀ i ∈ g.inputs, t.HasPath i.path := by
    intro i hi
    refine hfurnished.paths _ ?_
    rw [← hfiles]
    exact List.mem_map_of_mem hi
  refine ⟨out, g, _, hrun, hwords, ?_⟩
  constructor
  case inputs => exact hfiles
  case there => exact hthere
  case written =>
    intro i hi
    obtain ⟨_, hlook⟩ := FileTree.hasPath_iff.1 (hthere i hi)
    exact FileTree.hasWritten_iff hlook
  case readsNoMore => exact input_not_mem_body hlaid hwired hends platform
  case within => exact hwired.wellFormed.within
  case timeline =>
    exact ⟨Project.ranges_of_enabled hfurnished.enabled, hfurnished.enabled⟩
  case sound =>
    intro hkind
    refine mapsOneSound hlaid hwired hends platform hkind
      ((heard_iff hlaid).2 ⟨?_, hsound hkind⟩)
    rw [hkind]
    exact nofun

end Command

/-! ## A check is enough -/

namespace Request

open Session Command Cutlist.Export.Graph
open Cutlist.Action (outcome_bind_error)

/-- Where a check succeeds, the paths that the command reads next lead to what is
there, and so do those of their texts that are faithful; where it fails, the
export ends, and nothing was run or made. -/
theorem check_suffices (r : Request) (platform : Platform) (host : Host)
    (s : Session) (listener : Option Run.Listener)
    (shown : Run.Progress → String) :
    (∀ s₁ output words s₂, r.check.outcome host s = (.ok (), s₁) →
      (r.command platform output).outcome host s₁ = (.ok words, s₂) →
      ∃ sound out g body, (build r.project r.options
          (Plan.ofProject r.project sound)).run.run {} = (.ok out, g) ∧
        words = Recording.program host ::
          (g.inputs.flatMap inputArgs ++ body ++ ["-y", output]) ∧
        Provided s₂.files r.project r.options.format.kind g out body) ∧
    ∀ failure s₁, r.check.outcome host s = (.error failure, s₁) →
      (r.answer platform listener shown).outcome host s = (.error failure, s₁) ∧
      Asked host s s₁ ∧
      ((∀ q, s.journal.WritesTo s.files q → s.files.entry? q ≠ none) →
        ∀ q, s.files.entry? q = none → s₁.files.entry? q = none) := by
  constructor
  · intro s₁ output words s₂ hcheck hcommand
    obtain ⟨hfurnished, hneeded⟩ := check_eq_ok hcheck
    obtain ⟨sound, args, hsound, hargs, rfl⟩ := command_eq_ok hcommand
    have hchecked : Asked host s s₁ := (r.check_asks host).asked hcheck
    have hcommanded : Asked host s₁ s₂ :=
      (r.command_asks platform output host).asked hcommand
    have hgrows : s.files.Grows s₂.files :=
      (hchecked.trans hcommanded).files.grows
    -- The second question about the sound comes to what the first one did.
    have hheard : r.options.format.kind = .sound →
        sound = true ∨ (ifGiven r.project.microphone).isSome = true := by
      intro hkind
      refine (hneeded hkind).imp_left fun hfound => ?_
      rw [hasSound_result] at hfound hsound
      exact Except.ok.inj (hsound.symm.trans hfound)
    obtain ⟨out, g, body, hrun, rfl, hprovided⟩ :=
      args_provided (hfurnished.grows hgrows) hheard hargs
    exact ⟨sound, out, g, body, hrun, rfl, hprovided⟩
  · intro failure s₁ hcheck
    have hasked : Asked host s s₁ := (r.check_asks host).asked hcheck
    exact ⟨outcome_bind_error hcheck _, hasked, fun hthere q =>
      hasked.files.eq_none hthere⟩

/-- The sound of two segments, with a microphone that started late. -/
def voiceOnly : Request where
  project := shiftedVoice
  options := { format := .wav }

/-- A host whose prober finds nothing in any file. -/
def silentHost : Host := hostPrinting ""

/-- A session with the files of a recording. -/
def recorded : Session where
  files :=
    { entries :=
        [(["screen.mp4"], .file .empty), (["microphone.m4a"], .file .empty)] }

theorem check_suffices_voiceOnly :
    (∃ words s₂, (voiceOnly.command .other "out.wav").outcome silentHost recorded =
        (.ok words, s₂) ∧
      ∃ sound out g body, (build shiftedVoice { format := .wav }
          (Plan.ofProject shiftedVoice sound)).run.run {} = (.ok out, g) ∧
        words = Recording.program silentHost ::
          (g.inputs.flatMap inputArgs ++ body ++ ["-y", "out.wav"]) ∧
        Provided s₂.files shiftedVoice .sound g out body) ∧
    (voiceOnly.answer .other).outcome silentHost bareSession =
      (.error (.validation (.rejected (.noScreen "screen.mp4"))),
        bareSession) := by
  have hcheck : voiceOnly.check.outcome silentHost recorded =
      (.ok (), recorded) :=
    check_of_requirements (by decide +kernel)
  have hfails : voiceOnly.check.outcome silentHost bareSession =
      (.error (.validation (.rejected (.noScreen "screen.mp4"))), bareSession) :=
    check_of_fault (by decide +kernel)
  have hsound : ((hasSound shiftedVoice.screen.display).outcome silentHost
      recorded).1 = .ok false := by
    rw [hasSound_result]
    rfl
  obtain ⟨args, hargs⟩ : ∃ args,
    Command.args shiftedVoice { format := .wav } .other
      (Plan.ofProject shiftedVoice false) "out.wav" = .ok args := by
    have hplan : Plan.ofProject shiftedVoice false =
        { Plan.ofProject shiftedVoice true with screenHasAudio := false } := rfl
    rw [hplan, plan_shiftedVoice]
    refine Exists.imp (fun _ => ok_of_toOption) (Option.isSome_iff_exists.1 ?_)
    decide +kernel
  obtain ⟨s₂, hcommand⟩ := exists_command (r := voiceOnly) hsound hargs
  exact ⟨⟨_, s₂, hcommand,
      (check_suffices voiceOnly .other silentHost recorded none fun _ => "").1
        recorded "out.wav" _ s₂ hcheck hcommand⟩,
    ((check_suffices voiceOnly .other silentHost bareSession none fun _ => "").2
      _ bareSession hfails).1⟩

/-- An export of a recording whose screen has no path. -/
def nameless : Request where
  project :=
    { Project.screenOnly 10 [⟨.null, 0, 10, true⟩] [] with screen := .text "" }
  options := {}

theorem plan_nameless : Plan.ofProject nameless.project false =
    ⟨.text "", none, none, false, [⟨0, 10⟩], [⟨0, 10, 1, none⟩],
      false, false⟩ := by
  have hranges : nameless.project.ranges = [⟨0, 10⟩] :=
    Range.sort_of_sorted (by decide +kernel) (List.pairwise_singleton _ _)
  have hpieces : nameless.project.pieces = [⟨0, 10, 1, none⟩] := by
    rw [Project.pieces, Project.cutPieces, hranges,
      Edits.piecesOf_of_sorted (by decide +kernel)]
    decide +kernel
  have hedited : Timeline.isEdited [⟨0, 10, 1, none⟩] nameless.project.whole =
      false := by
    decide +kernel
  have hplain : isPlainStretch nameless.project ⟨0, 10⟩ = false := by
    rw [isPlainStretch, hpieces]
    decide +kernel
  rw [Plan.ofProject, hranges, hpieces, hedited, onlyRange?, Option.any_some,
    hplain]
  rfl

/-- The directory that is current passes for the screen recording, and then the
command reads a file without a path. -/
theorem check_passes_nameless :
    nameless.check.outcome silentHost bareSession = (.ok (), bareSession) ∧
      ∃ words s₂, (nameless.command .other "out.mp4").outcome silentHost
          bareSession = (.ok words, s₂) ∧
        ["-i", ""].Sublist words ∧ ¬ s₂.files.HasWritten "" := by
  refine ⟨check_of_requirements (by decide +kernel), ?_⟩
  have hsound : ((hasSound nameless.project.screen.display).outcome silentHost
      bareSession).1 = .ok false := by
    rw [hasSound_result]
    rfl
  obtain ⟨args, hargs, hreads⟩ : ∃ args, Command.args nameless.project
      nameless.options .other (Plan.ofProject nameless.project false) "out.mp4" =
        .ok args ∧ args.take 2 = ["-i", ""] := by
    rw [plan_nameless]
    have htaken : (Command.args nameless.project nameless.options .other
        ⟨.text "", none, none, false, [⟨0, 10⟩], [⟨0, 10, 1, none⟩], false, false⟩
        "out.mp4").toOption.map (·.take 2) = some ["-i", ""] := by
      decide +kernel
    obtain ⟨args, hargs, htake⟩ := Option.map_eq_some_iff.1 htaken
    exact ⟨args, ok_of_toOption hargs, htake⟩
  obtain ⟨s₂, hcommand⟩ := exists_command (r := nameless) hsound hargs
  refine ⟨_, s₂, hcommand, ?_, ?_⟩
  · rw [← hreads]
    exact (List.take_sublist 2 args).cons _
  · rintro ⟨q, _, hq, _⟩
    exact (FileTree.resolveWritten_eq_ok_iff.1 hq).2.1 rfl

end Request

end Export

end Cutlist
