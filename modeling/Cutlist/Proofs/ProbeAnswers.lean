import Cutlist.Proofs.Inquiries
import Cutlist.Proofs.NumbersInRange

/-!
# What comes of asking about media files

A question about a media file should always come to something: to what was asked
for, or else to no answer. A tool that fails is no answer, and so is a text that
is no JSON. What is left are documents, and there each question forgives
something else. The one about the length forgives every shape, the one about the
picture no value where it would look further down, and the one about sound takes
it for granted that it was given an object.

So there are documents on which a question breaks off. They are found by going
through the steps that a question takes, with one rule for steps in a row: the
whole breaks off where the first does, or where the next does with what the first
gave.
-/

namespace Cutlist

/-! ## Members of a document -/

namespace Json

/-- A document is an object with a member of a name. -/
def Has (doc : Json) (name : String) (v : Json) : Prop :=
  ∃ ms, doc = .object ms ∧ find? name ms = some v

def IsObject (doc : Json) : Prop := ∃ ms, doc = .object ms

/-- A value that nothing can be looked up in. -/
inductive Scalar : Json → Prop
  | null : Scalar .null
  | bool (b : Bool) : Scalar (.bool b)
  | int (n : Int) : Scalar (.int n)
  | real (x : Binary64) : Scalar (.real x)

/-- What stands first in a value, be it a list of values or a text. -/
inductive Begins : Json → Json → Prop
  | list (v : Json) (vs : List Json) : Begins (.list (v :: vs)) v
  | text {s : String} {c : Char} {cs : List Char} (h : s.toList = c :: cs) :
    Begins (.text s) (.text (String.singleton c))

/-- A value that has nothing of a whole number: it is not of its kind, or it is
larger than any. -/
inductive Unwhole : Json → Prop
  | null : Unwhole .null
  | list (vs : List Json) : Unwhole (.list vs)
  | object (ms : List (String × Json)) : Unwhole (.object ms)
  | infinite (negative : Bool) : Unwhole (.real (.infinite negative))

variable {doc v w : Json} {name : String}

theorem need_eq_ok_iff : Document.need name doc = .ok v ↔ doc.Has name v := by
  cases doc with
  | object ms =>
      cases hfind : find? name ms with
      | none => simp [Document.need, Has, hfind]
      | some w => simp [Document.need, Has, hfind]
  | null | bool | int | real | text | list => simp [Document.need, Has]

theorem need_of_not_isObject (h : ¬ doc.IsObject) (name : String) :
    Document.need name doc = .error (.noMembers doc) := by
  cases doc with
  | object ms => exact absurd ⟨ms, rfl⟩ h
  | null | bool | int | real | text | list => rfl

theorem first_eq_ok_iff : MediaProbe.first v = .ok w ↔ v.Begins w := by
  constructor
  · intro h
    cases v with
    | list vs =>
        cases vs with
        | nil => cases h
        | cons _ vs =>
            cases h
            exact .list w vs
    | text s =>
        rw [MediaProbe.first] at h
        split at h
        · next c cs hcs =>
          cases h
          exact .text hcs
        · cases h
    | null | bool | int | real | object => cases h
  · intro h
    cases h with
    | list v vs => rfl
    | text h => rw [MediaProbe.first, h]

end Json

namespace MediaProbe

open Json

/-! ## What a call printed -/

/-- A call ended well and printed a document; nothing printed is an empty one. -/
inductive Outcome.Prints : Outcome → Json → Prop
  | nothing : Prints (.printed "") (.object [])
  | text {s : String} {doc : Json} (hne : s ≠ "") (h : Json.read s = .ok doc) :
    Prints (.printed s) doc

variable {out : Outcome} {call : Call} {doc v : Json} {q : Question}

theorem document_eq_ok_iff : out.document call = .ok doc ↔ out.Prints doc := by
  constructor
  · intro h
    rw [Outcome.document.eq_def] at h
    split at h
    · cases h
      exact .nothing
    · next hne => exact .text hne (mapError_eq_ok.1 h)
    all_goals cases h
  · intro h
    cases h with
    | nothing => rfl
    | text hne h =>
        rw [Outcome.document.eq_def]
        split
        · next heq => exact absurd (Outcome.printed.inj heq) hne
        · next heq =>
          cases heq
          exact mapError_eq_ok.2 h
        all_goals next heq => cases heq

/-- Whatever keeps a call from printing a document is passed over. -/
theorem passesOver_of_document {trouble : Trouble}
    (h : out.document call = .error trouble) : q.passesOver trouble = true := by
  rw [Outcome.document.eq_def] at h
  split at h
  · cases h
  · next s _ =>
    cases hread : Json.read s with
    | ok doc =>
        rw [hread] at h
        cases h
    | error e =>
        rw [hread] at h
        cases h
        rfl
  all_goals
    cases h
    rfl

/-! ## Breaking off -/

section Breaking

variable {α β : Type} {x : Except Trouble α}

/-- A question breaks off with trouble that it does not pass over. -/
def Breaks (q : Question) (x : Except Trouble α) : Prop :=
  ∃ trouble, x = .error trouble ∧ q.passesOver trouble = false

theorem breaks_bind (x : Except Trouble α) (f : α → Except Trouble β) :
    Breaks q (x >>= f) ↔ Breaks q x ∨ ∃ a, x = .ok a ∧ Breaks q (f a) := by
  cases x with
  | ok a => simp [Breaks, ok_bind]
  | error trouble => simp [Breaks, Bind.bind, Except.bind]

theorem not_breaks_ok (a : α) : ¬ Breaks q (.ok a : Except Trouble α) := by
  rintro ⟨trouble, h, -⟩
  cases h

theorem breaks_shape {fault : Document.Fault} {x : Except Document.Fault α}
    (h : x = .error fault) :
    Breaks q (x.mapError .shape) ↔ q.passesOver (.shape fault) = false := by
  subst h
  simp [Breaks, Except.mapError]

theorem breaks_need (name : String) (doc : Json) :
    Breaks .dimensions ((Document.need name doc).mapError .shape) ↔
      ¬ doc.IsObject := by
  by_cases hobject : doc.IsObject
  · obtain ⟨ms, rfl⟩ := hobject
    have hobject : (Json.object ms).IsObject := ⟨ms, rfl⟩
    cases hfind : find? name ms with
    | none =>
        have hneed : Document.need name (.object ms) =
            .error (.missing name) := by
          simp only [Document.need, hfind]
        rw [breaks_shape hneed]
        simp [hobject, Question.passesOver, isOfValue]
    | some v =>
        have hneed : Document.need name (.object ms) = .ok v := by
          simp only [Document.need, hfind]
        rw [hneed]
        exact iff_of_false (not_breaks_ok v) (not_not_intro hobject)
  · rw [breaks_shape (need_of_not_isObject hobject name)]
    exact iff_of_true rfl hobject

theorem breaks_first (v : Json) : Breaks .dimensions (first v) ↔ v.Scalar := by
  constructor
  · rintro ⟨trouble, h, hpass⟩
    cases v with
    | null => exact .null
    | bool b => exact .bool b
    | int n => exact .int n
    | real x => exact .real x
    | object ms =>
        cases h
        cases hpass
    | list vs =>
        cases vs with
        | nil =>
            cases h
            cases hpass
        | cons v vs => cases h
    | text s =>
        rw [first] at h
        split at h
        · cases h
        · cases h
          cases hpass
  · intro h
    cases h <;> exact ⟨_, rfl, rfl⟩

theorem breaks_whole (v : Json) :
    Breaks .dimensions ((Document.whole v).mapError .shape) ↔ v.Unwhole := by
  constructor
  · rintro ⟨trouble, h, hpass⟩
    cases v with
    | null => exact .null
    | list vs => exact .list vs
    | object ms => exact .object ms
    | bool b => cases h
    | int n => cases h
    | real x =>
        cases x with
        | infinite negative => exact .infinite negative
        | finite s q hrep => cases h
        | nan =>
            cases h
            cases hpass
    | text s =>
        rw [Document.whole, toWhole] at h
        split at h
        · cases h
        · cases h
          cases hpass
        · cases h
          cases hpass
  · intro h
    cases h <;> exact ⟨_, rfl, rfl⟩

/-- The length asks for a real number, and only a whole number that is out of
range is more than it can pass over. -/
theorem breaks_real (v : Json) :
    Breaks .duration ((Document.real v).mapError .shape) ↔
      ∃ n, v = .int n ∧ Binary64.ofInt? n = none := by
  have hint (n : Int) :
    Breaks .duration ((Document.real (.int n)).mapError .shape) ↔
      Binary64.ofInt? n = none := by
    rw [Document.real, Document.toReal_int rfl]
    cases hnearest : Binary64.ofInt? n with
    | none => exact iff_of_true ⟨_, rfl, rfl⟩ rfl
    | some x => exact iff_of_false (not_breaks_ok x) (Option.some_ne_none x)
  cases v with
  | int n => simp [hint]
  | text s =>
      rw [Document.real, Document.toReal_eq rfl]
      dsimp only
      cases Decimal.number? s <;> simp [Breaks, Except.mapError,
        Question.passesOver, isOfValue]
  | null | bool | real | list | object =>
      simp [Document.real, Document.toReal_eq rfl, Breaks, Except.mapError,
        Question.passesOver, isOfKind]

theorem not_breaks_need (name : String) (doc : Json) :
    ¬ Breaks .duration ((Document.need name doc).mapError .shape) := by
  rintro ⟨trouble, h, hpass⟩
  rw [Document.need.eq_def] at h
  split at h
  · split at h
    · cases h
    · cases h
      cases hpass
  · cases h
    cases hpass

end Breaking

/-! ## Documents that hold an answer, and odd ones -/

/-- A document lists a stream of sound. -/
def HasSound (doc : Json) : Prop :=
  ∃ streams, doc.Has "streams" streams ∧ streams.truthy = true

/-- The first stream of a document has a size. -/
def HasSize (doc : Json) (size : Resolution) : Prop :=
  ∃ streams stream, doc.Has "streams" streams ∧ streams.Begins stream ∧
    (∃ width, stream.Has "width" width ∧ width.toWhole = .ok size.width) ∧
    ∃ height, stream.Has "height" height ∧ height.toWhole = .ok size.height

/-- The format of a document has a length. -/
def HasLength (doc : Json) (length : Binary64) : Prop :=
  ∃ format value, doc.Has "format" format ∧ format.Has "duration" value ∧
    value.toReal = .ok length

/-- The documents on which a question breaks off. -/
inductive Odd : Question → Json → Prop
  | sound {doc : Json} (h : ¬ doc.IsObject) : Odd .sound doc
  | picture {doc : Json} (h : ¬ doc.IsObject) : Odd .dimensions doc
  | streams {doc streams : Json} (h : doc.Has "streams" streams)
    (hscalar : streams.Scalar) : Odd .dimensions doc
  | stream {doc streams stream : Json} (h : doc.Has "streams" streams)
    (hfirst : streams.Begins stream) (hnone : ¬ stream.IsObject) :
    Odd .dimensions doc
  | width {doc streams stream width : Json} (h : doc.Has "streams" streams)
    (hfirst : streams.Begins stream) (hwidth : stream.Has "width" width)
    (hodd : width.Unwhole) : Odd .dimensions doc
  | height {doc streams stream width height : Json} {n : Int}
    (h : doc.Has "streams" streams) (hfirst : streams.Begins stream)
    (hwidth : stream.Has "width" width) (hwhole : width.toWhole = .ok n)
    (hheight : stream.Has "height" height) (hodd : height.Unwhole) :
    Odd .dimensions doc
  | duration {doc format : Json} {n : Int} (h : doc.Has "format" format)
    (hvalue : format.Has "duration" (.int n))
    (hrange : Binary64.ofInt? n = none) : Odd .duration doc

theorem sound_eq_ok_true_iff : sound doc = .ok true ↔ HasSound doc := by
  cases doc with
  | object ms =>
      change Except.ok ((Json.find? "streams" ms).getD .null).truthy =
        .ok true ↔ _
      cases hfind : Json.find? "streams" ms with
      | none => simp [HasSound, Has, hfind, truthy]
      | some v => simp [HasSound, Has, hfind]
  | null | bool | int | real | text | list =>
      simp [sound, HasSound, Has, Document.members, Except.mapError, Bind.bind,
        Except.bind]

theorem breaks_sound : Breaks .sound (sound doc) ↔ Odd .sound doc := by
  constructor
  · rintro ⟨trouble, h, -⟩
    refine .sound ?_
    rintro ⟨ms, rfl⟩
    cases h
  · intro hdoc
    cases hdoc with
    | sound hobject =>
        cases doc with
        | object ms => exact absurd ⟨ms, rfl⟩ hobject
        | null | bool | int | real | text | list => exact ⟨_, rfl, rfl⟩

theorem need_whole_eq_ok_iff {name : String} {n : Int} :
    (Document.need name doc >>= Document.whole) = .ok n ↔
      ∃ v, doc.Has name v ∧ v.toWhole = .ok n := by
  simp only [bind_eq_ok_iff, need_eq_ok_iff, Document.whole, mapError_eq_ok]

theorem breaks_need_whole (name : String) (doc : Json) :
    Breaks .dimensions ((Document.need name doc >>= Document.whole).mapError .shape) ↔
      ¬ doc.IsObject ∨ ∃ v, doc.Has name v ∧ v.Unwhole := by
  simp only [mapError_bind, breaks_bind, breaks_need, breaks_whole,
    mapError_eq_ok, need_eq_ok_iff]

theorem dimensions_eq_ok_iff {size : Resolution} :
    dimensions doc = .ok size ↔ HasSize doc size := by
  simp only [dimensions, bind_eq_ok_iff, mapError_eq_ok, need_eq_ok_iff,
    first_eq_ok_iff, Document.whole]
  constructor
  · rintro ⟨streams, h, stream, hfirst, width, hwidth, height, hheight, hsize⟩
    cases hsize
    exact ⟨streams, stream, h, hfirst, hwidth, hheight⟩
  · rintro ⟨streams, stream, h, hfirst, hwidth, hheight⟩
    exact ⟨streams, h, stream, hfirst, _, hwidth, _, hheight, rfl⟩

theorem breaks_dimensions :
    Breaks .dimensions (dimensions doc) ↔ Odd .dimensions doc := by
  simp only [dimensions, breaks_bind, breaks_need, breaks_first,
    breaks_need_whole, mapError_eq_ok, need_eq_ok_iff, first_eq_ok_iff,
    need_whole_eq_ok_iff]
  constructor
  · rintro (h | ⟨streams, h, hscalar | ⟨stream, hfirst, hstream⟩⟩)
    · exact .picture h
    · exact .streams h hscalar
    rcases hstream with
      (hnone | ⟨width, hwidth, hodd⟩) | ⟨n, ⟨width, hwidth, hwhole⟩, hrest⟩
    · exact .stream h hfirst hnone
    · exact .width h hfirst hwidth hodd
    rcases hrest with (hnone | ⟨height, hheight, hodd⟩) | ⟨m, -, hok⟩
    · exact .stream h hfirst hnone
    · exact .height h hfirst hwidth hwhole hheight hodd
    · exact absurd hok (not_breaks_ok _)
  · intro hdoc
    cases hdoc with
    | picture h => exact .inl h
    | streams h hscalar => exact .inr ⟨_, h, .inl hscalar⟩
    | stream h hfirst hnone =>
        exact .inr ⟨_, h, .inr ⟨_, hfirst, .inl (.inl hnone)⟩⟩
    | width h hfirst hwidth hodd =>
        exact .inr ⟨_, h, .inr ⟨_, hfirst, .inl (.inr ⟨_, hwidth, hodd⟩)⟩⟩
    | height h hfirst hwidth hwhole hheight hodd =>
        exact .inr ⟨_, h, .inr ⟨_, hfirst, .inr ⟨_, ⟨_, hwidth, hwhole⟩,
          .inl (.inr ⟨_, hheight, hodd⟩)⟩⟩⟩

theorem duration_eq_ok_iff {x : Binary64} :
    duration doc = .ok x ↔ HasLength doc x := by
  simp only [duration, Document.needReal, Document.real, bind_eq_ok_iff,
    mapError_eq_ok, need_eq_ok_iff, HasLength, exists_and_left]

theorem breaks_duration :
    Breaks .duration (duration doc) ↔ Odd .duration doc := by
  simp only [duration, Document.needReal, mapError_bind, breaks_bind,
    not_breaks_need, breaks_real, mapError_eq_ok, need_eq_ok_iff, false_or]
  constructor
  · rintro ⟨format, h, value, hvalue, n, rfl, hrange⟩
    exact .duration h hvalue hrange
  · intro hdoc
    cases hdoc with
    | duration h hvalue hrange => exact ⟨_, h, _, hvalue, _, rfl, hrange⟩

/-! ## What a question comes to -/

/-- A result is settled by what a call printed: it is what was asked for where
that is found, nothing where it is lacking, and a failure on odd documents. -/
structure Settles {α β : Type} (out : Outcome) (q : Question)
    (Found : Json → α → Prop) (present : α → β) (absent : β)
    (r : Except Failure β) : Prop where
  found : ∀ a, r = .ok (present a) ↔ ∃ doc, out.Prints doc ∧ Found doc a
  lacking : r = .ok absent ↔
    ∀ doc, out.Prints doc → ¬ Odd q doc ∧ ∀ a, ¬ Found doc a
  broken : (∃ failure, r = .error failure) ↔ ∃ doc, out.Prints doc ∧ Odd q doc

section Settling

variable {α β : Type} {Found : Json → α → Prop} {present : α → β} {absent : β}
variable {r : Except Failure β}

/-- A result that is neither what was asked for nor a failure is nothing. -/
theorem settles_of (hparts : ∀ b, b = absent ∨ ∃ a, b = present a)
    (hne : ∀ a, present a ≠ absent)
    (hfound : ∀ a, r = .ok (present a) ↔ ∃ doc, out.Prints doc ∧ Found doc a)
    (hbroken : (∃ failure, r = .error failure) ↔
      ∃ doc, out.Prints doc ∧ Odd q doc) :
    Settles out q Found present absent r where
  found := hfound
  broken := hbroken
  lacking := by
    constructor
    · rintro rfl doc hdoc
      constructor
      · intro hodd
        obtain ⟨failure, hfailure⟩ := hbroken.2 ⟨doc, hdoc, hodd⟩
        cases hfailure
      · intro a ha
        exact hne a (Except.ok.inj ((hfound a).2 ⟨doc, hdoc, ha⟩)).symm
    · intro hnone
      cases r with
      | error failure =>
          obtain ⟨doc, hdoc, hodd⟩ := hbroken.1 ⟨failure, rfl⟩
          exact absurd hodd (hnone doc hdoc).1
      | ok b =>
          obtain rfl | ⟨a, rfl⟩ := hparts b
          · rfl
          · obtain ⟨doc, hdoc, ha⟩ := (hfound a).1 rfl
            exact absurd ha ((hnone doc hdoc).2 a)

variable {answer : Json → Except Trouble α}

theorem verdict_eq_ok_some_iff {x : Except Trouble α} {a : α} :
    Session.verdict q x = .ok (some a) ↔ x = .ok a := by
  cases x with
  | ok b => simp [Session.verdict]
  | error trouble =>
      rw [Session.verdict]
      split <;> simp

theorem verdict_error_iff {x : Except Trouble α} :
    (∃ failure, Session.verdict q x = .error failure) ↔ Breaks q x := by
  cases x with
  | ok a => simp [Session.verdict, not_breaks_ok]
  | error trouble =>
      cases hpass : q.passesOver trouble <;> simp [Session.verdict, Breaks, hpass]

theorem breaks_document (out : Outcome) (call : Call)
    (answer : Json → Except Trouble α) :
    Breaks q (out.document call >>= answer) ↔
      ∃ doc, out.Prints doc ∧ Breaks q (answer doc) := by
  have hnot : ¬ Breaks q (out.document call) := by
    rintro ⟨trouble, h, hpass⟩
    rw [passesOver_of_document h] at hpass
    cases hpass
  simp only [breaks_bind, hnot, document_eq_ok_iff, false_or]

theorem document_bind_eq_ok_iff (out : Outcome) (call : Call) {a : α} :
    out.document call >>= answer = .ok a ↔
      ∃ doc, out.Prints doc ∧ answer doc = .ok a := by
  simp only [bind_eq_ok_iff, document_eq_ok_iff]

end Settling

end MediaProbe

namespace Session

open MediaProbe

variable {α : Type} {q : Question} {Found : Json → α → Prop}
variable {answer : Json → Except Trouble α}

theorem inquire_settles (limit : Option Binary64) (path : String) (host : Host)
    (s : Session) (hfound : ∀ doc a, answer doc = .ok a ↔ Found doc a)
    (hodd : ∀ doc, Breaks q (answer doc) ↔ Odd q doc) :
    Settles (host.probe q path) q Found some none
      ((inquire limit q path answer).outcome host s).1 := by
  rw [inquire_result]
  refine settles_of (fun b => ?_) nofun (fun a => ?_) ?_
  · cases b with
    | none => exact .inl rfl
    | some a => exact .inr ⟨a, rfl⟩
  · rw [verdict_eq_ok_some_iff, document_bind_eq_ok_iff]
    simp only [hfound]
  · rw [verdict_error_iff, breaks_document]
    simp only [hodd]

theorem hasSound_settles (path : String) (limit : Option Binary64) (host : Host)
    (s : Session) :
    Settles (host.probe .sound path) .sound (fun doc (_ : Unit) => HasSound doc)
      (fun _ => true) false ((hasSound path limit).outcome host s).1 := by
  rw [hasSound_result]
  generalize hx : (host.probe .sound path).document
    (callFor host limit .sound path) >>= sound = x
  refine settles_of (fun b => ?_) nofun (fun _ => ?_) ?_
  · cases b with
    | false => exact .inl rfl
    | true => exact .inr ⟨(), rfl⟩
  · have htrue : (verdict .sound x).map (·.getD false) = .ok true ↔
        x = .ok true := by
      cases x with
      | ok b => simp [verdict, Except.map]
      | error trouble =>
          rw [verdict]
          split <;> simp [Except.map]
    rw [htrue, ← hx, document_bind_eq_ok_iff]
    simp only [sound_eq_ok_true_iff]
  · have hfails : (∃ failure, (verdict .sound x).map (·.getD false) =
      .error failure) ↔
        ∃ failure, verdict .sound x = .error failure := by
      cases verdict .sound x <;> simp [Except.map]
    rw [hfails, verdict_error_iff, ← hx, breaks_document]
    simp only [breaks_sound]

/-- What every question about a media file comes to, and how it leaves things. -/
theorem questions_settle (path : String) (limit : Option Binary64) (host : Host)
    (s : Session) :
    (Settles (host.probe .sound path) .sound (fun doc (_ : Unit) => HasSound doc)
        (fun _ => true) false ((hasSound path limit).outcome host s).1 ∧
      Asked host s ((hasSound path limit).outcome host s).2) ∧
    (Settles (host.probe .dimensions path) .dimensions HasSize some none
        ((dimensions path limit).outcome host s).1 ∧
      Asked host s ((dimensions path limit).outcome host s).2) ∧
    (Settles (host.probe .duration path) .duration HasLength some none
        ((duration path limit).outcome host s).1 ∧
      Asked host s ((duration path limit).outcome host s).2) :=
  ⟨⟨hasSound_settles path limit host s, hasSound_asks path limit s⟩,
    ⟨inquire_settles limit path host s (fun _ _ => dimensions_eq_ok_iff)
        fun _ => breaks_dimensions,
      inquire_asks limit .dimensions path MediaProbe.dimensions s⟩,
    ⟨inquire_settles limit path host s (fun _ _ => duration_eq_ok_iff)
        fun _ => breaks_duration,
      inquire_asks limit .duration path MediaProbe.duration s⟩⟩

/-- A host whose prober ends well and prints a text, whatever it is asked. -/
def hostPrinting (text : String) : Host where
  settings := .standard ⟨.root, ["home"]⟩
  now := default
  clock := ""
  newId := ""
  which _ := none
  probe _ _ := .printed text
  course := {}

theorem read_emptyList : Json.read "[]" = .ok (.list []) := rfl

def bareSession : Session where
  files := { entries := [] }

/-- On a list with nothing in it two of the three questions break off. -/
theorem questions_break_on_list :
    ((hasSound "screen.mp4").outcome (hostPrinting "[]") bareSession).1 =
        .error (.probe (.shape (.notObject "list"))) ∧
      ((dimensions "screen.mp4").outcome (hostPrinting "[]") bareSession).1 =
        .error (.probe (.shape (.noMembers (.list [])))) := by
  have hdocument (q : Question) :
      ((hostPrinting "[]").probe q "screen.mp4").document
        (callFor (hostPrinting "[]") none q "screen.mp4") = .ok (.list []) :=
    document_eq_ok_iff.2 (.text (by decide) read_emptyList)
  constructor
  · rw [hasSound_result, hdocument]
    rfl
  · rw [dimensions, inquire_result, hdocument]
    rfl

end Session

end Cutlist
