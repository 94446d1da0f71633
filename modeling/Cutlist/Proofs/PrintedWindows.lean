import Cutlist.Proofs.InStep
import Cutlist.Proofs.MergedCuts
import Cutlist.Proofs.NumberText
import Cutlist.Proofs.OneSpeed
import Cutlist.Proofs.PrintedOrder
import Cutlist.Proofs.ShownPicture

/-!
# What the windows of pieces say

A trim is told to the microsecond where its piece begins and ends, while cuts
are kept apart by no more than `gap`, which is a thousand times less. So the
windows of pieces that follow one another meet exactly, since both are told the
same number, and no window runs backward, since numbers keep their order when
they are written. But a piece that is shorter than a microsecond may be told to
end where it begins, and then nothing is shown.

Windows are read from their text. Which windows there are is found by a walk
over the stages of an export: only the two timelines trim a stream from one time
to another, and they do so for each of their pieces; what brings a camera or a
microphone into step cuts off a beginning and has no end.
-/

namespace Cutlist

open Binary64 FilterGraph Render Export Timeline

namespace FilterGraph

open Decimal

/-! ## The text of a window -/

/-- The two numbers of a trim that has an end. -/
def window? (text : String) : Option (ℚ × ℚ) :=
  match text.toList.splitOn ':' with
  | [first, second] =>
      let start := (spelledAfter? "trim=start=" (String.ofList first)).or
        (spelledAfter? "atrim=start=" (String.ofList first))
      start.bind fun start =>
        (spelledAfter? "end=" (String.ofList second)).map fun stop =>
          (start, stop)
  | _ => none

theorem window?_append {first second : String} (hfirst : ':' ∉ first.toList)
    (hsecond : ':' ∉ second.toList) : window? (first ++ ":" ++ second) =
      ((spelledAfter? "trim=start=" first).or
        (spelledAfter? "atrim=start=" first)).bind fun start =>
          (spelledAfter? "end=" second).map fun stop => (start, stop) := by
  have hparts : ∀ part ∈ [first.toList, second.toList], ':' ∉ part :=
    List.forall_mem_cons.2 ⟨hfirst, List.forall_mem_singleton.2 hsecond⟩
  have hsplit := List.splitOn_intercalate ':' hparts (List.cons_ne_nil _ _)
  have htext : (first ++ ":" ++ second).toList =
      [':'].intercalate [first.toList, second.toList] := by
    simp [String.toList_append, List.intercalate_cons_cons]
  rw [window?, htext, hsplit]
  simp only [String.ofList_toList]

theorem not_colon_toFixed {words : String} (hwords : ':' ∉ words.toList)
    {x : Binary64} (hx : x.isFinite = true) :
    ':' ∉ (words ++ x.toFixed 6).toList := by
  rw [String.toList_append, List.mem_append, not_or]
  exact ⟨hwords, fun hmem =>
    absurd (numeric_toFixed 6 hx ':' hmem) (by decide)⟩

theorem spelledAfter?_toFixed (words : String) {x : Binary64}
    (hx : x.isFinite = true) :
    spelledAfter? words (words ++ x.toFixed 6) = some (x.written 6) := by
  rw [spelledAfter?_append, spelled?_toFixed (by decide) hx]

/-- A window is read as the two numbers that are written into it. -/
theorem window?_trim (stream : Stream) {start stop : Binary64}
    (hstart : start.isFinite = true) (hstop : stop.isFinite = true) :
    window? (Filter.trim stream start (some stop)).toText =
      some (start.written 6, stop.written 6) := by
  have htext : (Filter.trim stream start (some stop)).toText =
      stream.mark ++ "trim=start=" ++ start.toFixed 6 ++ ":" ++
        ("end=" ++ stop.toFixed 6) := by
    change s!"{stream.mark}trim=start={start.toFixed 6}:end={stop.toFixed 6}" = _
    simp only [String.append_assoc]
    rfl
  have hmark : ':' ∉ (stream.mark ++ "trim=start=").toList := by
    cases stream <;> decide
  rw [htext, window?_append (not_colon_toFixed hmark hstart)
    (not_colon_toFixed (by decide) hstop), spelledAfter?_toFixed _ hstop]
  cases stream with
  | video =>
      rw [show Stream.video.mark ++ "trim=start=" = "trim=start=" by decide,
        spelledAfter?_toFixed _ hstart]
      rfl
  | audio =>
      rw [show Stream.audio.mark ++ "trim=start=" = "atrim=start=" by decide,
        spelledAfter?_toFixed _ hstart, spelledAfter?_none]
      · rfl
      · rw [String.toList_append]
        rfl

/-! ## Which windows there are -/

/-- A trim with an end is that of one of certain pieces. -/
def Filter.Cuts (ps : Piece → Prop) : Filter → Prop
  | .trim _ start (some stop) => ∃ q, ps q ∧ q.start = start ∧ q.stop = stop
  | _ => True

/-- An action adds no window but those of certain pieces. -/
def Windows (ps : Piece → Prop) {α : Type} (m : Build α) : Prop :=
  Adds True m fun _ new => ∀ c ∈ new, ∀ f ∈ c.filters, f.Cuts ps

namespace Windows

variable {ps : Piece → Prop} {α β : Type}

theorem pure {a : α} : Windows ps (Pure.pure a) :=
  Adds.pure fun _ h => nomatch h

theorem bind {m : Build α} {f : α → Build β} (hm : Windows ps m)
    (hf : ∀ a, Windows ps (f a)) : Windows ps (m >>= f) :=
  Adds.bind hm fun a _ hnew => (hf a).imp fun _ _ hmore =>
    List.forall_mem_append.2 ⟨hnew, hmore⟩

theorem map {m : Build α} {f : α → β} (hm : Windows ps m) :
    Windows ps (f <$> m) := Adds.map hm

/-- What is found out before is no window. -/
theorem ask {m : Build α} {f : α → Build β} {P : α → Prop}
    (hm : ∀ g, Meets True m g fun a g' => g' = g ∧ P a)
    (hf : ∀ a, P a → Windows ps (f a)) : Windows ps (m >>= f) := Adds.ask hm hf

theorem name {stem : String} {f : Label → Build β} (hstem : isStem stem = true)
    (hf : ∀ l, Windows ps (f l)) : Windows ps (FilterGraph.fresh stem >>= f) :=
  Adds.name hstem hf

theorem addChain {inputs outputs : List Label} {filters : List Filter}
    (h : ∀ f ∈ filters, f.Cuts ps) :
    Windows ps (FilterGraph.addChain inputs filters outputs) :=
  Adds.addChain (P := fun _ new => ∀ c ∈ new, ∀ f ∈ c.filters, f.Cuts ps)
    (List.forall_mem_singleton.2 h)

theorem join {inputs : List Label} {filters : List Filter} {stem : String}
    (hstem : isStem stem = true) (h : ∀ f ∈ filters, f.Cuts ps) :
    Windows ps (FilterGraph.join inputs filters stem) :=
  Adds.join hstem fun _ => List.forall_mem_singleton.2 h

theorem chain {source : Label} {filters : List Filter} {stem : String}
    (hstem : isStem stem = true) (h : ∀ f ∈ filters, f.Cuts ps) :
    Windows ps (FilterGraph.chain source filters stem) := join hstem h

/-- A chain of one filter that is no window. -/
theorem one {source : Label} {f : Filter} {stem : String}
    (hstem : isStem stem = true) (h : f.Cuts ps) :
    Windows ps (FilterGraph.chain source [f] stem) :=
  chain hstem (List.forall_mem_singleton.2 h)

theorem mapM {f : α → Build β} {xs : List α} (hf : ∀ x ∈ xs, Windows ps (f x)) :
    Windows ps (xs.mapM f) := by
  induction xs with
  | nil => exact .pure
  | cons x xs ih =>
      rw [List.mapM_cons]
      exact .bind (hf x (List.mem_cons_self ..)) fun _ =>
        .bind (ih fun y hy => hf y (List.mem_cons_of_mem x hy)) fun _ => .pure

theorem foldlM {f : β → α → Build β} (hf : ∀ b a, Windows ps (f b a)) {b : β}
    {xs : List α} : Windows ps (xs.foldlM f b) := by
  induction xs generalizing b with
  | nil => exact .pure
  | cons x xs ih =>
      rw [List.foldlM_cons]
      exact .bind (hf b x) fun _ => ih

end Windows

end FilterGraph

namespace Render

section Stages

variable {ps : Piece → Prop} {pieces : List Piece} {source : Label}
variable {stem : String}

theorem Picture.cuts_pieceFilters (size : Resolution) {q : Piece} (hq : ps q) :
    ∀ f ∈ Picture.pieceFilters size q, f.Cuts ps := by
  refine List.forall_mem_append.2 ⟨List.forall_mem_cons.2 ⟨⟨q, hq, rfl, rfl⟩,
    List.forall_mem_singleton.2 trivial⟩, ?_⟩
  cases q.zoom with
  | none => exact fun _ h => nomatch h
  | some zoom =>
      show ∀ f ∈ Picture.zoomFilters zoom size, f.Cuts ps
      exact List.forall_mem_cons.2 ⟨trivial, List.forall_mem_singleton.2 trivial⟩

theorem Tempo.cuts_filtersOf (factors : List Binary64) :
    ∀ f ∈ Tempo.filtersOf factors, f.Cuts ps := by
  fun_induction Tempo.filtersOf factors with
  | case1 => exact List.forall_mem_nil _
  | case2 last => exact List.forall_mem_singleton.2 trivial
  | case3 factor rest _ ih => exact List.forall_mem_cons.2 ⟨trivial, ih⟩

theorem Sound.cuts_pieceFilters {q : Piece} (hq : ps q) :
    ∀ f ∈ Sound.pieceFilters q, f.Cuts ps :=
  List.forall_mem_append.2 ⟨List.forall_mem_cons.2 ⟨⟨q, hq, rfl, rfl⟩,
    List.forall_mem_singleton.2 trivial⟩, Tempo.cuts_filtersOf _⟩

theorem Picture.timeline_windows (size : Resolution) (h : ∀ q ∈ pieces, ps q) :
    Windows ps (Picture.timeline source pieces size) := by
  refine .bind (.mapM fun q hq => .chain (by decide)
    (Picture.cuts_pieceFilters size (h q hq))) fun parts => ?_
  split
  · exact .pure
  · exact .join (by decide) (List.forall_mem_singleton.2 trivial)

theorem Sound.timeline_windows (hstem : isStem stem = true)
    (hout : isStem (stem ++ "out") = true) (duration : Option Binary64)
    (h : Sound.isUntouched pieces duration = false → ∀ q ∈ pieces, ps q) :
    Windows ps (Sound.timeline source pieces stem duration) := by
  rw [Sound.timeline]
  split
  · exact .pure
  · next hcut =>
      rw [Bool.not_eq_true] at hcut
      refine .bind (.mapM fun q hq => .chain hstem
        (Sound.cuts_pieceFilters (h hcut q hq))) fun parts => ?_
      split
      · exact .pure
      · exact .join hout (List.forall_mem_singleton.2 trivial)

/-! ## The picture -/

theorem Offset.cuts_sync (o : Offset) : ∀ f ∈ o.sync, f.Cuts ps := by
  unfold Offset.sync
  split
  · exact List.forall_mem_singleton.2 trivial
  · split
    · exact List.forall_mem_cons.2 ⟨trivial, List.forall_mem_singleton.2 trivial⟩
    · exact fun _ h => nomatch h

theorem Picture.withCamera_windows (base camera : Label) (o : CameraOverlay)
    (v : Json) :
    Windows ps (Picture.withCamera base camera o (Offset.given v)) := by
  refine .ask (Picture.sync_reads fun _ => trivial)
    fun sync ⟨offset, _, hsync⟩ => ?_
  subst hsync
  refine .bind (.chain (by decide) (List.forall_mem_append.2
    ⟨offset.cuts_sync, List.forall_mem_singleton.2 trivial⟩)) fun _ => ?_
  exact .join (by decide) (List.forall_mem_singleton.2 trivial)

theorem Picture.annotate_windows (duration : Binary64) (current : Label)
    (a : Annotation) : Windows ps (Picture.annotate duration current a) := by
  rw [Picture.annotate]
  split
  · exact .pure
  · refine .ask (Picture.color_asks fun _ => trivial) fun color _ => ?_
    refine .bind (.one (by decide) trivial) fun drawn => ?_
    refine .ask (Picture.caption_asks fun _ _ => trivial) fun caption _ => ?_
    split
    · exact .pure
    · exact .one (by decide) trivial

theorem Picture.animated_windows (rate height : Int) :
    Windows ps (Picture.animated source rate height) := by
  refine Adds.imp (Picture.animated_adds source rate height)
    fun _ new ⟨_, _, _, hnew⟩ => ?_
  subst hnew
  simp [Filter.Cuts]

/-! ## The sound -/

theorem Sound.gain_windows (volume : Binary64) (hstem : isStem stem = true) :
    Windows ps (Sound.gain source volume stem) := by
  rw [Sound.gain]
  split
  · exact .pure
  · exact .one hstem trivial

theorem Sound.offset_windows (project : Project) (hstem : isStem stem = true) :
    Windows ps (Sound.offset source (Offset.given project.microphoneOffset) stem) := by
  intro g
  refine Sound.offset_meets (fun _ => trivial)
    (fun _ => ⟨[], (List.append_nil _).symm, fun _ h => nomatch h⟩)
    fun filters hshifts => ?_
  refine Windows.chain hstem ?_ g
  obtain ⟨o, _, _, ⟨_, rfl⟩ | ⟨_, x, _, rfl⟩⟩ := hshifts
  · exact List.forall_mem_singleton.2 trivial
  · exact List.forall_mem_cons.2 ⟨trivial, List.forall_mem_singleton.2 trivial⟩

/-- The pieces along which a timeline cuts sound, if it cuts any. -/
def Sound.CutsTo (project : Project) (timeline : Option (List Piece))
    (ps : Piece → Prop) : Prop :=
  ∀ pieces, timeline = some pieces →
    Sound.isUntouched pieces (some project.duration) = false →
    ∀ q ∈ pieces, ps q

variable {timeline : Option (List Piece)} {project : Project}

theorem Sound.follow_windows (hstem : isStem stem = true)
    (hout : isStem (stem ++ "out") = true)
    (h : Sound.CutsTo project timeline ps) :
    Windows ps (Sound.follow source timeline project stem) := by
  cases timeline with
  | none => exact .pure
  | some pieces => exact Sound.timeline_windows hstem hout _ (h pieces rfl)

theorem Sound.screen_windows (h : Sound.CutsTo project timeline ps) :
    Windows ps (Sound.screen timeline project) :=
  .bind (Sound.follow_windows (by decide) (by decide) h)
    fun _ => Sound.gain_windows _ (by decide)

theorem Sound.microphone_windows (k : Nat)
    (h : Sound.CutsTo project timeline ps) :
    Windows ps (Sound.microphone k timeline project) :=
  .bind (Sound.offset_windows project (by decide)) fun _ =>
    .bind (Sound.follow_windows (by decide) (by decide) h) fun _ =>
      .bind (.one (by decide) trivial) fun _ => Sound.gain_windows _ (by decide)

theorem Sound.mixed_windows (screen microphone : Label) :
    Windows ps (Sound.mixed screen microphone) := by
  refine .name (by decide) fun trigger => .name (by decide) fun voice => ?_
  refine .bind (.addChain (List.forall_mem_singleton.2 trivial)) fun _ => ?_
  refine .bind (.join (by decide) (List.forall_mem_singleton.2 trivial))
    fun _ => ?_
  exact .join (by decide) (List.forall_mem_singleton.2 trivial)

theorem Sound.output_windows (sources : AudioSources) (k : Nat)
    (h : Sound.CutsTo project timeline ps) :
    Windows ps (Sound.output sources timeline project k) := by
  rw [Sound.output_eq]
  cases sources with
  | none => exact .pure
  | screenOnly => exact .map (Sound.screen_windows h)
  | microphoneOnly => exact .map (Sound.microphone_windows k h)
  | both =>
      exact .bind (Sound.screen_windows h) fun _ =>
        .bind (Sound.microphone_windows k h) fun _ =>
          .map (Sound.mixed_windows _ _)

end Stages

end Render

namespace Export.Graph

variable {p : Project} {plan : Plan}

/-- The pieces to which an export cuts a stream, if it cuts any. -/
def CutTo (p : Project) (plan : Plan) (q : Piece) : Prop :=
  q ∈ plan.pieces ∧
    (plan.edited = true ∨ Sound.isUntouched plan.pieces (some p.duration) = false)

theorem picture_windows (camera : Option Nat) :
    Windows (CutTo p plan) (picture p plan camera) := by
  refine .bind ?_ fun base => .bind ?_ fun overlaid => ?_
  · rw [cut]
    split
    · next hcut =>
        rw [Bool.and_eq_true] at hcut
        exact Picture.timeline_windows _ fun q hq => ⟨hq, .inl hcut.2⟩
    · exact .pure
  · cases camera with
    | none => exact .pure
    | some k => exact Picture.withCamera_windows _ _ _ _
  · exact .foldlM fun current a => Picture.annotate_windows _ current a

theorem sound_windows (microphone : Option Nat) :
    Windows (CutTo p plan) (sound p plan microphone) := by
  refine Sound.output_windows _ _ fun pieces htimeline huntouched q hq => ?_
  rw [Plan.timeline] at htimeline
  split at htimeline
  · cases htimeline
  · obtain rfl := Option.some.inj htimeline
    exact ⟨hq, .inr huntouched⟩

theorem build_windows (options : Options) :
    Meets True (build p options plan) {} fun _ g =>
      ∀ c ∈ g.chains, ∀ f ∈ c.filters, f.Cuts (CutTo p plan) := by
  refine .bind (inputs_meets plan) fun extras g ⟨hchains, _⟩ => ?_
  have hadded {m : Build Outputs} (hm : Windows (CutTo p plan) m) :
      Meets True m g fun _ g' =>
        ∀ c ∈ g'.chains, ∀ f ∈ c.filters, f.Cuts (CutTo p plan) := by
    refine (hm g).imp fun out g' ⟨new, hnew, hcuts⟩ => ?_
    rw [hnew, hchains]
    exact hcuts
  cases options.format.kind with
  | sound => exact hadded (.bind (sound_windows _) fun _ => .pure)
  | animation =>
      exact hadded (.bind (picture_windows _) fun video =>
        .bind (Picture.animated_windows _ _) fun _ => .pure)
  | video =>
      refine hadded (.bind (picture_windows _) fun video =>
        .bind (sound_windows _) fun audio => ?_)
      refine .ask (P := fun _ => True) (fun g => .get ⟨rfl, trivial⟩)
        fun seen _ => ?_
      split
      · exact .pure
      · exact .bind (.one (by decide) trivial) fun _ => .pure

end Export.Graph

/-! ## The windows of a range -/

namespace Tiles

/-- Each part begins where the one before it ends. -/
theorem meet {r : Range} {parts : List Range} (h : Tiles r parts) :
    parts.IsChain fun a b => a.stop = b.start := by
  induction h with
  | whole _ => exact .singleton _
  | cut _ rest ih =>
      cases rest with
      | whole _ => exact .cons_cons rfl (.singleton _)
      | cut _ _ => exact .cons_cons rfl ih

end Tiles

/-- What the windows of neighbouring pieces say: they are read as they were
written, meet exactly, do not run backward, and are not empty if their pieces
are longer than a microsecond. -/
structure Printed (pieces : List Piece) : Prop where
  read : ∀ q ∈ pieces, ∀ stream,
    window? (Filter.trim stream q.start (some q.stop)).toText =
      some (q.start.written 6, q.stop.written 6)
  meet : pieces.IsChain fun a b => a.stop.toFixed 6 = b.start.toFixed 6
  forward : ∀ q ∈ pieces, q.start.written 6 ≤ q.stop.written 6
  nonempty : ∀ q ∈ pieces, 1 / 10 ^ 6 < q.range.length →
    q.start.written 6 < q.stop.written 6

namespace Timeline

/-- The ends of a range and the bounds inside it, where they differ at all,
differ by more than a microsecond. -/
def Roomy (bounds : List Binary64) (r : Range) : Prop :=
  ∀ a ∈ r.start :: r.stop :: bounds, ∀ b ∈ r.start :: r.stop :: bounds,
    r.start.value ≤ a.value → b.value ≤ r.stop.value → a.value < b.value →
      1 / 10 ^ 6 < b.value - a.value

end Timeline

namespace Project

variable {p : Project} {r : Range}

theorem mem_cuts_of_piece {q : Piece} (hq : q ∈ p.edits.piecesOf r) :
    q.start ∈ cuts p.edits.bounds r ∧ q.stop ∈ cuts p.edits.bounds r :=
  mem_of_mem_between (Edits.range_mem_between hq)

theorem mem_ends_or_bounds {bounds : List Binary64} {t : Binary64}
    (ht : t ∈ cuts bounds r) : t ∈ r.start :: r.stop :: bounds := by
  rw [cuts_eq, List.mem_append, List.mem_cons, List.mem_singleton] at ht
  rcases ht with (rfl | hmem) | rfl
  · simp
  · have := (mem_inside.1 (mem_of_mem_spread hmem)).1
    simp [this]
  · simp

theorem printed_piecesOf (h : p.HasFiniteTimes) (hr : r ∈ p.cutRanges) :
    Printed (p.edits.piecesOf r) := by
  have htiles := tiles_piecesOf h hr
  have hfinite : ∀ q ∈ p.edits.piecesOf r,
      q.start.isFinite = true ∧ q.stop.isFinite = true := by
    intro q hq
    have hcuts := allFinite_cuts h.allFinite_bounds
      (h.ranges r ((mem_cutRanges h).1 hr).1)
    obtain ⟨hstart, hstop⟩ := mem_cuts_of_piece hq
    exact ⟨hcuts _ hstart, hcuts _ hstop⟩
  have hmeet := htiles.meet
  rw [List.isChain_map] at hmeet
  refine
    { read := fun q hq stream =>
        window?_trim stream (hfinite q hq).1 (hfinite q hq).2
      meet := hmeet.imp fun a b hab => congrArg (toFixed 6) hab
      forward := fun q hq => ?_
      nonempty := fun q hq hlong =>
        written_lt_written 6 (hfinite q hq).1 (hfinite q hq).2 hlong }
  have hlt := (htiles.within q.range (List.mem_map_of_mem hq)).2.1
  exact written_le_written 6 (hfinite q hq).1 (hfinite q hq).2 hlt.le

theorem roomy_long (h : p.HasFiniteTimes) (hr : r ∈ p.cutRanges)
    (hroomy : Roomy p.edits.bounds r) {q : Piece} (hq : q ∈ p.edits.piecesOf r) :
    1 / 10 ^ 6 < q.range.length := by
  obtain ⟨hstart, hstop⟩ := mem_cuts_of_piece hq
  obtain ⟨hlow, hlt, hhigh⟩ :=
    (tiles_piecesOf h hr).within q.range (List.mem_map_of_mem hq)
  exact hroomy _ (mem_ends_or_bounds hstart) _ (mem_ends_or_bounds hstop) hlow
    hhigh hlt

/-- All of the recording in one plain piece is no edit. -/
theorem isEdited_whole {duration : Binary64} (h : duration.isFinite = true) :
    isEdited [⟨0, duration, 1, none⟩] ⟨0, duration⟩ = false := by
  have hstart : ¬ timeTolerance < ((0 : Binary64) - 0).abs := by decide +kernel
  have hspeed : ¬ speedTolerance < ((1 : Binary64) - 1).abs := by decide +kernel
  have hstop : ¬ timeTolerance < (duration - duration).abs := by
    have hzero : (duration - duration).ticks.natAbs = 0 := by
      rw [natAbs_ticks_sub h h, Int.sub_self, Int.natAbs_zero, nearest_zero]
      rfl
    have hpos : 0 < timeTolerance.ticks := by decide +kernel
    rw [lt_iff_ticks (isNaN_of_isFinite timeTolerance_finite)
      (by rw [isNaN_abs]; exact isNaN_sub h h), ticks_abs, hzero]
    omega
  simp [isEdited, hstart, hspeed, hstop]

/-- Where nothing is shown that ends after it starts, nothing is cut either. -/
theorem not_cutTo (h : p.HasFiniteTimes) (hnone : p.cutRanges = [])
    (screenHasAudio : Bool) (q : Piece) :
    ¬ Graph.CutTo p (Plan.ofProject p screenHasAudio) q := by
  have hpieces : p.pieces = [⟨0, p.duration, 1, none⟩] := by
    rw [pieces, if_pos (List.isEmpty_iff.2 ((cutPieces_eq_nil h).2 hnone))]
  have hplain := isEdited_whole h.duration
  have hzero : (0 : Binary64).isFinite = true := by decide +kernel
  have hone : (1 : Binary64).isFinite = true := by decide +kernel
  have huntouched := untouched_of_not_edited (q := ⟨0, p.duration, 1, none⟩)
    ⟨hzero, h.duration, hone⟩ h.duration hplain
  rintro ⟨_, hedited | hcut⟩
  · change isEdited p.pieces ⟨0, p.duration⟩ = true at hedited
    rw [hpieces, hplain] at hedited
    cases hedited
  · change Sound.isUntouched p.pieces (some p.duration) = false at hcut
    rw [hpieces, huntouched] at hcut
    cases hcut

/-- Every window of an export is that of a piece of some range that is shown,
and the windows of a range meet exactly and do not run backward. They are
not empty if all instants at which the range could be cut differ by more than a
microsecond. -/
theorem windows_printed (p : Project) (h : p.HasFiniteTimes) (options : Options)
    (screenHasAudio : Bool) :
    Meets True (Graph.build p options (Plan.ofProject p screenHasAudio)) {}
      (fun _ g => ∀ c ∈ g.chains, ∀ stream start stop,
        .trim stream start (some stop) ∈ c.filters →
          ∃ r ∈ p.shown, ∃ q ∈ p.edits.piecesOf r,
            q.start = start ∧ q.stop = stop) ∧
    ∀ r ∈ p.shown, Printed (p.edits.piecesOf r) ∧
      (Roomy p.edits.bounds r → ∀ q ∈ p.edits.piecesOf r,
        q.start.written 6 < q.stop.written 6) := by
  refine ⟨(Graph.build_windows options).imp fun _ g hcuts c hc stream start stop
    hmem => ?_, fun r hr => ?_⟩
  · obtain ⟨q, hcut, hq⟩ := hcuts c hc _ hmem
    have hne : p.cutRanges ≠ [] := fun hnone => not_cutTo h hnone _ q hcut
    have hpiece : q ∈ p.pieces := hcut.1
    rw [pieces_of_ne_nil h hne, ← List.flatMap_def] at hpiece
    obtain ⟨r, hr, hpiece⟩ := List.mem_flatMap.1 hpiece
    exact ⟨r, (inOrder_cutRanges h).perm.mem_iff.1 hr, q, hpiece, hq⟩
  · have hr' := mem_cutRanges_of_shown h hr
    have hprinted := printed_piecesOf h hr'
    exact ⟨hprinted, fun hroomy q hq =>
      hprinted.nonempty q hq (roomy_long h hr' hroomy hq)⟩

/-- Where a middle part is shown at double speed, no window is empty. -/
theorem windows_printed_doubled : doubled.HasFiniteTimes ∧
    ∀ q ∈ doubled.edits.piecesOf ⟨0, 10⟩,
      q.start.written 6 < q.stop.written 6 := by
  refine ⟨doubled_hasFiniteTimes, ((windows_printed doubled
    doubled_hasFiniteTimes {} false).2 _ shown_doubled).2 ?_⟩
  unfold Roomy
  decide +kernel

/-- A recording whose first tenth of a microsecond is shown at double speed. -/
def instantly : Project :=
  screenOnly 10 [⟨.null, 0, 10, true⟩] [⟨.null, 0, 1e-7, 2⟩]

theorem instantly_hasFiniteTimes : instantly.HasFiniteTimes := by
  refine screenOnly_hasFiniteTimes (by decide +kernel) ?_ ?_
  · simp only [List.forall_mem_cons]
    decide +kernel
  · simp only [List.forall_mem_cons]
    decide +kernel

theorem plan_instantly : Plan.ofProject instantly false =
    ⟨.text "screen.mp4", none, none, false, [⟨0, 10⟩],
      [⟨0, 1e-7, 2, none⟩, ⟨1e-7, 10, 1, none⟩], true, false⟩ := by
  have hranges : instantly.ranges = [⟨0, 10⟩] :=
    Range.sort_of_sorted (by decide +kernel) (List.pairwise_singleton _ _)
  have hpieces : instantly.pieces =
      [⟨0, 1e-7, 2, none⟩, ⟨1e-7, 10, 1, none⟩] := by
    rw [pieces, cutPieces, hranges, Edits.piecesOf_of_sorted (by decide +kernel)]
    decide +kernel
  -- Its only range is all of the recording, so that nothing can be left unread.
  have hends : (decide ((0 : Binary64) < (⟨0, 10⟩ : Range).start) ||
      decide ((⟨0, 10⟩ : Range).stop < instantly.duration)) = false := by
    decide +kernel
  have hstretch : isPlainStretch instantly ⟨0, 10⟩ = false := by
    rw [isPlainStretch, hends]
    rfl
  have hfast : (onlyRange? [⟨0, 10⟩]).any (isPlainStretch instantly) = false :=
    hstretch
  rw [Plan.ofProject, hranges, hpieces, hfast]
  rfl

/-- Its first piece is told to end where it begins. -/
theorem window_empty_instantly : instantly.HasFiniteTimes ∧
    (∀ r ∈ instantly.enabledRanges, 1 / 10 ^ 6 < r.length) ∧
    Meets False (Graph.build instantly {} (Plan.ofProject instantly false)) {}
      fun _ g => ∃ c ∈ g.chains, ∃ f ∈ c.filters,
        window? f.toText = some (0, 0) := by
  refine ⟨instantly_hasFiniteTimes, ?_, ?_⟩
  · intro r hr
    obtain rfl := List.mem_singleton.1 hr
    have hstop : (10 : Binary64).value = (10 : Int) :=
      value_of_ticks (by decide +kernel)
    rw [Range.length, hstop, value_zero]
    norm_num
  · have hempty : window? "trim=start=0.000000:end=0.000000" = some (0, 0) := by
      decide +kernel
    have htext : Meets False
        (Graph.build instantly {} (Plan.ofProject instantly false)) {}
        fun _ g => ∃ c ∈ g.chains, ∃ f ∈ c.filters,
          f.toText = "trim=start=0.000000:end=0.000000" := by
      rw [plan_instantly]
      decide +kernel
    refine htext.imp fun _ g ⟨c, hc, f, hf, htext⟩ => ⟨c, hc, f, hf, ?_⟩
    rw [htext, hempty]

end Project

end Cutlist
