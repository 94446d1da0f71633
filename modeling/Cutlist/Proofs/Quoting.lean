import Cutlist.FilterGraph
import Mathlib.Tactic.Ring

/-!
# How the text of a graph is read back

The encoder splits the text of a graph into chains again, and it does that by
rules of its own. Outside quotes a backslash takes the next character as it is,
a single quote opens a span that ends at the very next single quote, whatever
stands before it, and a semicolon that is in no span separates two chains.

A reader of these rules sees only characters. To say whether it finds the spans
that were meant, each character is marked with whether it was written to close
one: a reader that ends a span anywhere else has gone astray, and from there on
takes arguments for text and text for arguments.
-/

namespace Cutlist.FilterGraph.Quoting

/-! ## The reader -/

/-- A character of a text, and whether it is there to close a quoted span. -/
structure Mark where
  char : Char
  isClosing : Bool
  deriving DecidableEq

/-- Where in a text a reader is. -/
inductive Mode where
  | plain
  | escaped
  | quoted
  deriving DecidableEq

/-- A reader, the separators of chains that it has seen, and whether a span has
ended at a quote that does not close one. -/
structure Reader where
  mode : Mode := .plain
  separators : Nat := 0
  isAstray : Bool := false
  deriving DecidableEq

def Reader.next (r : Reader) (m : Mark) : Reader :=
  match r.mode with
  | .plain =>
      if m.char = '\\' then { r with mode := .escaped }
      else if m.char = '\'' then { r with mode := .quoted }
      else if m.char = ';' then { r with separators := r.separators + 1 }
      else r
  | .escaped => { r with mode := .plain }
  | .quoted =>
      if m.char = '\'' then
        { r with mode := .plain, isAstray := r.isAstray || !m.isClosing }
      else r

def read (r : Reader) (ms : List Mark) : Reader := ms.foldl Reader.next r

theorem read_cons (r : Reader) (m : Mark) (ms : List Mark) :
    read r (m :: ms) = read (r.next m) ms := rfl

theorem read_append (r : Reader) (xs ys : List Mark) :
    read r (xs ++ ys) = read (read r xs) ys := List.foldl_append

/-- A reader that has gone astray stays so. -/
theorem isAstray_read {r : Reader} (h : r.isAstray = true) (ms : List Mark) :
    (read r ms).isAstray = true := by
  induction ms generalizing r with
  | nil => exact h
  | cons m ms ih =>
      rw [read_cons]
      refine ih ?_
      cases hmode : r.mode with
      | plain =>
          simp only [Reader.next, hmode]
          repeat' split
          all_goals exact h
      | escaped =>
          simp only [Reader.next, hmode]
          exact h
      | quoted =>
          simp only [Reader.next, hmode]
          split
          · rw [h, Bool.true_or]
          · exact h

/-- Text in which a reader outside quotes sees some separators and ends outside
quotes again. -/
def Reads (k : Nat) (ms : List Mark) : Prop :=
  ∀ n b, read ⟨.plain, n, b⟩ ms = ⟨.plain, n + k, b⟩

/-- Text in which a reader outside quotes goes astray. -/
def Misleads (ms : List Mark) : Prop :=
  ∀ n b, (read ⟨.plain, n, b⟩ ms).isAstray = true

theorem Reads.nil : Reads 0 [] := fun _ _ => rfl

theorem Reads.append {j k : Nat} {xs ys : List Mark} (hx : Reads j xs)
    (hy : Reads k ys) : Reads (j + k) (xs ++ ys) := by
  intro n b
  rw [read_append, hx, hy, Nat.add_assoc]

theorem Reads.append_zero {k : Nat} {xs ys : List Mark} (hx : Reads k xs)
    (hy : Reads 0 ys) : Reads k (xs ++ ys) := hx.append hy

theorem Reads.zero_append {k : Nat} {xs ys : List Mark} (hx : Reads 0 xs)
    (hy : Reads k ys) : Reads k (xs ++ ys) := by
  have hxy := hx.append hy
  rwa [Nat.zero_add] at hxy

theorem Misleads.append {xs : List Mark} (h : Misleads xs) (ys : List Mark) :
    Misleads (xs ++ ys) := by
  intro n b
  rw [read_append]
  exact isAstray_read (h n b) ys

theorem Reads.misleads {k : Nat} {xs ys : List Mark} (hx : Reads k xs)
    (hy : Misleads ys) : Misleads (xs ++ ys) := by
  intro n b
  rw [read_append, hx]
  exact hy _ _

/-! ## Texts with a separator between them -/

section Separated

variable {α : Type} {f : α → List Mark} {xs : List α} {sep : Mark} {j : Nat}

theorem intercalate_map (x y : α) :
    [sep].intercalate ((x :: y :: xs).map f) =
      f x ++ [sep] ++ [sep].intercalate ((y :: xs).map f) :=
  List.intercalate_cons_cons

theorem Reads.intercalate {k : α → Nat} (hsep : Reads j [sep])
    (h : ∀ x ∈ xs, Reads (k x) (f x)) :
    Reads ((xs.map k).sum + (xs.length - 1) * j)
      ([sep].intercalate (xs.map f)) := by
  induction xs with
  | nil =>
      rw [List.length_nil, Nat.zero_sub, Nat.zero_mul]
      exact .nil
  | cons x xs ih =>
      obtain ⟨hx, hxs⟩ := List.forall_mem_cons.1 h
      cases xs with
      | nil => simpa [List.intercalate_singleton] using hx
      | cons y ys =>
          have hsum : ((x :: y :: ys).map k).sum +
            ((x :: y :: ys).length - 1) * j =
              k x + j + (((y :: ys).map k).sum + ((y :: ys).length - 1) * j) := by
            simp only [List.map_cons, List.sum_cons, List.length_cons,
              Nat.add_sub_cancel, Nat.add_mul, Nat.one_mul]
            omega
          rw [hsum, intercalate_map]
          exact (hx.append hsep).append (ih hxs)

/-- One text that leads astray is enough, if every other one is read to its
end. -/
theorem Misleads.intercalate (hsep : Reads j [sep])
    (h : ∀ x ∈ xs, (∃ k, Reads k (f x)) ∨ Misleads (f x))
    (hbad : ∃ x ∈ xs, Misleads (f x)) :
    Misleads ([sep].intercalate (xs.map f)) := by
  induction xs with
  | nil =>
      obtain ⟨_, hx, _⟩ := hbad
      cases hx
  | cons x xs ih =>
      obtain ⟨hx, hxs⟩ := List.forall_mem_cons.1 h
      have hrest : ¬ Misleads (f x) → ∃ y ∈ xs, Misleads (f y) := fun hnot => by
        obtain ⟨y, hy, hmisleads⟩ := hbad
        rcases List.mem_cons.1 hy with rfl | hy
        · exact absurd hmisleads hnot
        · exact ⟨y, hy, hmisleads⟩
      by_cases hfirst : Misleads (f x)
      · cases xs with
        | nil => simpa using hfirst
        | cons y ys =>
            rw [intercalate_map, List.append_assoc]
            exact hfirst.append _
      · obtain ⟨k, hk⟩ := hx.resolve_right hfirst
        have hbad' := hrest hfirst
        cases xs with
        | nil =>
            obtain ⟨_, hy, _⟩ := hbad'
            cases hy
        | cons y ys =>
            rw [intercalate_map]
            exact (hk.append hsep).misleads (ih hxs hbad')

end Separated

/-! ## Plain and quoted text -/

def unquoted (s : String) : List Mark := s.toList.map fun c => ⟨c, false⟩

/-- Text between quotes. -/
def quoted (s : String) : List Mark :=
  ⟨'\'', false⟩ :: unquoted s ++ [⟨'\'', true⟩]

/-- Text without a character that has a meaning to the reader. -/
def Bland (s : String) : Prop :=
  ∀ c ∈ s.toList, c ≠ '\\' ∧ c ≠ '\'' ∧ c ≠ ';'

instance (s : String) : Decidable (Bland s) :=
  List.decidableBAll (fun c => c ≠ '\\' ∧ c ≠ '\'' ∧ c ≠ ';') s.toList

theorem bland_append {s t : String} : Bland (s ++ t) ↔ Bland s ∧ Bland t := by
  rw [Bland, String.toList_append]
  exact List.forall_mem_append

theorem unquoted_append (s t : String) :
    unquoted (s ++ t) = unquoted s ++ unquoted t := by
  rw [unquoted, String.toList_append, List.map_append]
  rfl

theorem Bland.reads {s : String} (h : Bland s) : Reads 0 (unquoted s) := by
  intro n b
  rw [unquoted]
  rw [Bland] at h
  generalize s.toList = cs at h
  induction cs with
  | nil => rfl
  | cons c cs ih =>
      obtain ⟨⟨hslash, hquote, hsep⟩, hcs⟩ := List.forall_mem_cons.1 h
      have hstep : (⟨.plain, n, b⟩ : Reader).next ⟨c, false⟩ =
          ⟨.plain, n, b⟩ := by
        simp [Reader.next, hslash, hquote, hsep]
      rw [List.map_cons, read_cons, hstep, ih hcs]

theorem read_quoted_of_not_mem {cs : List Char} (h : '\'' ∉ cs) (n : Nat)
    (b : Bool) : read ⟨.quoted, n, b⟩ (cs.map fun c => ⟨c, false⟩) =
      ⟨.quoted, n, b⟩ := by
  induction cs with
  | nil => rfl
  | cons c cs ih =>
      obtain ⟨hc, hcs⟩ := List.ne_and_not_mem_of_not_mem_cons h
      have hstep : (⟨.quoted, n, b⟩ : Reader).next ⟨c, false⟩ =
          ⟨.quoted, n, b⟩ := by
        simp [Reader.next, hc.symm]
      rw [List.map_cons, read_cons, hstep, ih hcs]

/-- Inside of quotes, a quote that closes nothing leads astray. -/
theorem isAstray_quoted {ms : List Mark} (h : ∀ m ∈ ms, m.isClosing = false)
    (hquote : '\'' ∈ ms.map Mark.char) (n : Nat) (b : Bool) :
    (read ⟨.quoted, n, b⟩ ms).isAstray = true := by
  induction ms with
  | nil => cases hquote
  | cons m ms ih =>
      obtain ⟨hm, hms⟩ := List.forall_mem_cons.1 h
      rw [read_cons]
      by_cases hc : m.char = '\''
      · refine isAstray_read ?_ ms
        simp [Reader.next, hc, hm]
      · have hstep : (⟨.quoted, n, b⟩ : Reader).next m = ⟨.quoted, n, b⟩ := by
          simp [Reader.next, hc]
        rw [hstep]
        refine ih hms ?_
        rw [List.map_cons, List.mem_cons] at hquote
        exact hquote.resolve_left fun heq => hc heq.symm

theorem isClosing_unquoted (s : String) :
    ∀ m ∈ unquoted s, m.isClosing = false := by
  intro m hm
  obtain ⟨c, _, rfl⟩ := List.mem_map.1 hm
  rfl

theorem text_unquoted (s : String) :
    (unquoted s).map Mark.char = s.toList := by
  rw [unquoted, List.map_map]
  exact List.map_id _

theorem text_quoted (s : String) :
    (quoted s).map Mark.char = '\'' :: s.toList ++ ['\''] := by
  rw [quoted, List.map_append, List.map_cons, text_unquoted]
  rfl

theorem reads_quoted {s : String} (h : '\'' ∉ s.toList) :
    Reads 0 (quoted s) := by
  intro n b
  rw [quoted, List.cons_append, read_cons, read_append]
  show read (read ⟨.quoted, n, b⟩ (unquoted s)) _ = _
  rw [unquoted, read_quoted_of_not_mem h]
  simp [read, Reader.next]

theorem misleads_quoted {s : String} (h : '\'' ∈ s.toList) :
    Misleads (quoted s) := by
  intro n b
  rw [quoted, List.cons_append, read_cons, read_append]
  refine isAstray_read ?_ _
  refine isAstray_quoted (isClosing_unquoted s) ?_ n b
  rw [text_unquoted]
  exact h

/-! ## Text by somebody else outside of quotes -/

/-- The characters of a text that no backslash takes away. -/
def bare : List Char → List Char
  | '\\' :: _ :: cs => bare cs
  | c :: cs => c :: bare cs
  | [] => []

theorem next_bare {c : Char} (hslash : c ≠ '\\') (hquote : c ≠ '\'') (n : Nat)
    (b : Bool) : (⟨.plain, n, b⟩ : Reader).next ⟨c, false⟩ =
      ⟨.plain, n + [c].count ';', b⟩ := by
  by_cases hsep : c = ';'
  · simp [Reader.next, hsep]
  · simp [Reader.next, hslash, hquote, hsep]

/-- A text without a bare quote is read to its end, if something stands behind
it that its last backslash may take away. -/
theorem reads_bare {s : String} (h : '\'' ∉ bare s.toList) :
    Reads ((bare s.toList).count ';') (unquoted (s ++ "@")) := by
  have hat : "@".toList = ['@'] := rfl
  rw [unquoted, String.toList_append, hat]
  generalize s.toList = cs at h
  fun_induction bare cs with
  | case1 _ cs ih => exact ih h
  | case2 d cs hlone ih =>
      obtain ⟨hd, hcs⟩ := List.ne_and_not_mem_of_not_mem_cons h
      intro n b
      by_cases hback : d = '\\'
      · cases cs with
        | nil =>
            subst hback
            rfl
        | cons e cs => exact absurd rfl (hlone e cs hback)
      · rw [List.cons_append, List.map_cons, read_cons, next_bare hback hd.symm,
          ih hcs, ← List.singleton_append (l := bare cs), List.count_append,
          Nat.add_assoc]
  | case3 => exact fun _ _ => rfl

/-- A bare quote opens a span, and if nothing that follows closes one, the next
quote leads astray. -/
theorem misleads_bare {s : String} (h : '\'' ∈ bare s.toList) {ms : List Mark}
    (hms : ∀ m ∈ ms, m.isClosing = false) (hquote : '\'' ∈ ms.map Mark.char) :
    Misleads (unquoted s ++ ms) := by
  rw [unquoted]
  generalize s.toList = cs at h
  fun_induction bare cs with
  | case1 _ cs ih => exact ih h
  | case2 d cs hlone ih =>
      intro n b
      rw [List.map_cons, List.cons_append, read_cons]
      by_cases hd : d = '\''
      · subst hd
        refine isAstray_quoted (List.forall_mem_append.2 ⟨?_, hms⟩) ?_ n b
        · intro m hm
          obtain ⟨c, _, rfl⟩ := List.mem_map.1 hm
          rfl
        · rw [List.map_append]
          exact List.mem_append_right _ hquote
      · have hcs := (List.mem_cons.1 h).resolve_left fun heq => hd heq.symm
        have hback : d ≠ '\\' := by
          rintro rfl
          cases cs with
          | nil => cases hcs
          | cons e cs => exact hlone e cs rfl rfl
        rw [next_bare hback hd]
        exact ih hcs _ b
  | case3 => cases h

end Cutlist.FilterGraph.Quoting
