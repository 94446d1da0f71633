import Cutlist.Project.Document
import Cutlist.Proofs.Results

/-!
# Numbers that are in range

Reading a document fails in many ways, and all but two of them are laid to the
document: a value is missing, or is not of the kind that is needed. The other two
are numbers out of range, a whole number where a real one is needed that is too
large for it, and an infinite number where a whole one is needed.

They arise from nothing else. A document in which every number, wherever it
stands, is in range is read or has a fault of its own, whatever its shape is.
-/

namespace Cutlist

/-- Every number in a value is in range: a whole number is no larger than a real
number can be, and a real number is not infinite. -/
inductive Json.InRange : Json → Prop
  | null : InRange .null
  | bool (b : Bool) : InRange (.bool b)
  | int {n : Int} (h : (Binary64.ofInt? n).isSome = true) : InRange (.int n)
  | real {x : Binary64} (h : ∀ negative, x ≠ .infinite negative) :
    InRange (.real x)
  | text (s : String) : InRange (.text s)
  | list {vs : List Json} (h : ∀ v ∈ vs, InRange v) : InRange (.list vs)
  | object {ms : List (String × Json)} (h : ∀ m ∈ ms, InRange m.2) :
    InRange (.object ms)

namespace Document

/-- Whether a fault is a number out of range. -/
def Fault.isOutOfRange : Fault → Bool
  | .number .tooLarge | .number .infinite => true
  | _ => false

/-- What is read meets a condition, or there is a fault, and that is no number
out of range. -/
def Reads {α : Type} (x : Except Fault α) (P : α → Prop) : Prop :=
  match x with
  | .ok a => P a
  | .error fault => fault.isOutOfRange = false

section Rules

variable {α β : Type} {P : α → Prop} {Q : β → Prop}

theorem Reads.bind {x : Except Fault α} {f : α → Except Fault β} (hx : Reads x P)
    (hf : ∀ a, P a → Reads (f a) Q) : Reads (x >>= f) Q := by
  cases x with
  | ok a => exact hf a hx
  | error fault => exact hx

theorem Reads.mapM {read : β → Except Fault α} {vs : List β}
    (hread : ∀ v ∈ vs, Reads (read v) P) :
    Reads (vs.mapM read) fun as => ∀ a ∈ as, P a := by
  induction vs with
  | nil => exact List.forall_mem_nil P
  | cons v vs ih =>
      obtain ⟨hv, hvs⟩ := List.forall_mem_cons.1 hread
      rw [List.mapM_cons]
      refine hv.bind fun a ha => (ih hvs).bind fun as has => ?_
      exact List.forall_mem_cons.2 ⟨ha, has⟩

end Rules

variable {v standard : Json} {ms : List (String × Json)} {name : String}

/-! ## Numbers -/

/-- How a value is taken as a real number. The number nearest to a whole one is
given by a name of its own, so that nothing tries to compute it. -/
theorem toReal_eq {nearest : Int → Option Binary64}
    (h : nearest = Binary64.ofInt?) (v : Json) : v.toReal = match v with
      | .real x => .ok x
      | .int n => match nearest n with
        | some x => .ok x
        | none => .error .tooLarge
      | .bool b => .ok (if b then 1 else 0)
      | .text s => match Decimal.number? s with
        | some x => .ok x
        | none => .error (.notNumber s)
      | v => .error (.kind false v.kindName) := by
  subst h
  rfl

theorem toReal_int {nearest : Int → Option Binary64}
    (h : nearest = Binary64.ofInt?) (n : Int) : (Json.int n).toReal =
      match nearest n with
      | some x => .ok x
      | none => .error .tooLarge :=
  toReal_eq h (.int n)

theorem reads_real (hv : v.InRange) : Reads (real v) fun _ => True := by
  cases hv with
  | int h =>
      obtain ⟨x, hx⟩ := Option.isSome_iff_exists.1 h
      rw [real, toReal_int rfl, hx]
      trivial
  | text s =>
      rw [real, toReal_eq rfl]
      dsimp only
      cases Decimal.number? s with
      | some x => trivial
      | none => rfl
  | bool b => trivial
  | real h => trivial
  | null => rfl
  | list h => rfl
  | object h => rfl

theorem reads_whole (hv : v.InRange) : Reads (whole v) fun _ => True := by
  cases hv with
  | @real x h =>
      cases x with
      | infinite negative => exact absurd rfl (h negative)
      | finite s q hrep => trivial
      | nan => rfl
  | text s =>
      rw [whole, Json.toWhole]
      split
      · trivial
      · rfl
      · rfl
  | bool b => trivial
  | int h => trivial
  | null => rfl
  | list h => rfl
  | object h => rfl

/-! ## Members -/

theorem reads_members (hv : v.InRange) :
    Reads (members v) fun ms => (Json.object ms).InRange := by
  cases hv with
  | object h => exact .object h
  | null | bool | int | real | text | list => rfl

theorem inRange_of_find? (hms : (Json.object ms).InRange)
    (h : Json.find? name ms = some v) : v.InRange := by
  cases hms with
  | object hms =>
      obtain ⟨m, hm, rfl⟩ := Option.map_eq_some_iff.1 h
      exact hms m (List.mem_of_find?_eq_some hm)

theorem inRange_optional (hms : (Json.object ms).InRange)
    (hstandard : standard.InRange) : (optional name standard ms).InRange := by
  rw [optional]
  cases h : Json.find? name ms with
  | none => exact hstandard
  | some v => exact inRange_of_find? hms h

theorem inRange_given (hms : (Json.object ms).InRange) :
    (given (Json.find? name ms)).InRange := by
  have hempty : (Json.object []).InRange := .object (List.forall_mem_nil _)
  cases h : Json.find? name ms with
  | none => exact hempty
  | some v =>
      rw [given]
      split
      · exact inRange_of_find? hms h
      · exact hempty

theorem reads_need (hv : v.InRange) : Reads (need name v) Json.InRange := by
  cases hv with
  | object hms =>
      rw [need]
      cases h : Json.find? name _ with
      | none => rfl
      | some v => exact inRange_of_find? (.object hms) h
  | null | bool | int | real | text | list => rfl

theorem reads_needReal (hv : v.InRange) :
    Reads (needReal name v) fun _ => True :=
  (reads_need hv).bind fun _ h => reads_real h

theorem reads_optionalReal (hms : (Json.object ms).InRange)
    (hstandard : standard.InRange) :
    Reads (real (optional name standard ms)) fun _ => True :=
  reads_real (inRange_optional hms hstandard)

theorem reads_optionalWhole (hms : (Json.object ms).InRange)
    (hstandard : standard.InRange) :
    Reads (whole (optional name standard ms)) fun _ => True :=
  reads_whole (inRange_optional hms hstandard)

theorem reads_items (hv : v.InRange) :
    Reads (items v) fun vs => ∀ x ∈ vs, x.InRange := by
  cases hv with
  | list h => exact h
  | object h => exact List.forall_mem_map.2 fun _ _ => .text _
  | text s => exact List.forall_mem_map.2 fun _ _ => .text _
  | null | bool | int | real => rfl

theorem reads_readEdits {α : Type} {read : Json → Except Fault α}
    (hread : ∀ {v}, v.InRange → Reads (read v) fun _ => True)
    (hms : (Json.object ms).InRange) :
    Reads (readEdits read name ms) fun _ => True := by
  have hlist : (optional name (.list []) ms).InRange :=
    inRange_optional hms (.list (List.forall_mem_nil _))
  refine (reads_items hlist).bind fun vs hvs => ?_
  have hall := Reads.mapM fun v hv => hread (hvs v hv)
  cases hmap : vs.mapM read with
  | ok as => trivial
  | error fault =>
      rw [hmap] at hall
      exact hall

/-! ## Edits -/

theorem reads_segment (hv : v.InRange) :
    Reads (readSegment v) fun _ => True := by
  refine (reads_need hv).bind fun _ _ => ?_
  refine (reads_needReal hv).bind fun _ _ => ?_
  refine (reads_needReal hv).bind fun _ _ => ?_
  exact (reads_members hv).bind fun _ _ => trivial

theorem reads_zoom (hv : v.InRange) : Reads (readZoom v) fun _ => True := by
  have hzero : (Json.real 0).InRange := .real (by decide +kernel)
  refine (reads_need hv).bind fun _ _ => ?_
  refine (reads_needReal hv).bind fun _ _ => ?_
  refine (reads_needReal hv).bind fun _ _ => ?_
  refine (reads_needReal hv).bind fun _ _ => ?_
  refine (reads_members hv).bind fun ms hms => ?_
  refine (reads_optionalReal hms hzero).bind fun _ _ => ?_
  exact (reads_optionalReal hms hzero).bind fun _ _ => trivial

theorem reads_speed (hv : v.InRange) : Reads (readSpeed v) fun _ => True := by
  refine (reads_need hv).bind fun _ _ => ?_
  refine (reads_needReal hv).bind fun _ _ => ?_
  refine (reads_needReal hv).bind fun _ _ => ?_
  exact (reads_needReal hv).bind fun _ _ => trivial

theorem reads_annotation (hv : v.InRange) :
    Reads ( readAnnotation v) fun _ => True := by
  refine (reads_need hv).bind fun _ _ => ?_
  refine (reads_needReal hv).bind fun _ _ => ?_
  refine (reads_needReal hv).bind fun _ _ => ?_
  refine (reads_needReal hv).bind fun _ _ => ?_
  refine (reads_needReal hv).bind fun _ _ => ?_
  refine (reads_needReal hv).bind fun _ _ => ?_
  refine (reads_needReal hv).bind fun _ _ => ?_
  refine (reads_members hv).bind fun ms hms => ?_
  refine (reads_optionalReal hms (.real (by decide +kernel))).bind fun _ _ => ?_
  exact (reads_optionalWhole hms (.int (by decide +kernel))).bind fun _ _ =>
    trivial

theorem reads_overlay (hv : v.InRange) :
    Reads (readOverlay v) fun _ => True := by
  refine (reads_members hv).bind fun ms hms => ?_
  refine Reads.bind (P := fun _ => True) ?_ fun _ _ => ?_
  · rw [readPosition]
    split <;> trivial
  refine (reads_optionalWhole hms (.int (by decide +kernel))).bind fun _ _ => ?_
  refine (reads_optionalReal hms (.real (by decide +kernel))).bind fun _ _ => ?_
  refine (reads_optionalReal hms (.real (by decide +kernel))).bind fun _ _ => ?_
  exact (reads_optionalReal hms (.real (by decide +kernel))).bind fun _ _ =>
    trivial

theorem reads_mix (hv : v.InRange) : Reads (readMix v) fun _ => True := by
  refine (reads_members hv).bind fun ms hms => ?_
  refine (reads_optionalReal hms (.real (by decide +kernel))).bind fun _ _ => ?_
  exact (reads_optionalReal hms (.real (by decide +kernel))).bind fun _ _ =>
    trivial

theorem reads_createdAt (now : Timestamp) (v : Json) :
    Reads (readCreatedAt now v) fun _ => True := by
  unfold readCreatedAt
  split
  · cases v with
    | text s =>
        dsimp only
        cases Timestamp.read s <;> trivial
    | null | bool | int | real | list | object => rfl
  · trivial

/-! ## Documents -/

theorem reads_size (hv : v.InRange) :
    Reads (need "resolution" v >>= need name >>= whole) fun _ => True :=
  ((reads_need hv).bind fun _ h => reads_need h).bind fun _ h => reads_whole h

/-- A document whose numbers are all in range gives a project, or has a fault
that is laid to it. -/
theorem reads_project (now : Timestamp) {doc : Json} (hdoc : doc.InRange) :
    Reads (Project.ofJson now doc) fun _ => True := by
  refine (reads_members hdoc).bind fun ms hms => ?_
  refine (reads_members (inRange_given hms)).bind fun edits hedits => ?_
  refine (reads_need hdoc).bind fun _ _ => ?_
  refine (reads_need hdoc).bind fun _ _ => ?_
  refine (reads_needReal hdoc).bind fun _ _ => ?_
  refine (reads_size hdoc).bind fun _ _ => ?_
  refine (reads_size hdoc).bind fun _ _ => ?_
  refine (reads_createdAt now _).bind fun _ _ => ?_
  refine (reads_readEdits reads_segment hedits).bind fun _ _ => ?_
  refine (reads_readEdits reads_zoom hedits).bind fun _ _ => ?_
  refine (reads_readEdits reads_speed hedits).bind fun _ _ => ?_
  refine (reads_readEdits reads_annotation hedits).bind fun _ _ => ?_
  refine (reads_overlay (inRange_given hedits)).bind fun _ _ => ?_
  exact (reads_mix (inRange_given hedits)).bind fun _ _ => trivial

end Document

end Cutlist
