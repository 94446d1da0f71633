import Cutlist.Proofs.NumberReadBack
import Cutlist.Proofs.Results

/-!
# JSON that was written is read back

What is written is laid out over many lines, and the reader skips all of the
layout. It takes every value back but two kinds: a whole number with more digits
than are read, and an object with a name that occurs twice, of which only the
last is kept. Values without either are `Sound`.

The fuel of the reader is twice the length of the text, and every level of
nesting costs two steps and puts at least a bracket into the text.
-/

namespace Cutlist.Json

open Decimal

/-- A value without whole numbers that are too long to be read, and without
names that occur twice in one object. -/
inductive Sound : Json → Prop
  | null : Sound .null
  | bool (b : Bool) : Sound (.bool b)
  | int {n : Int} (h : n.natAbs < 10 ^ maxDigits) : Sound (.int n)
  | real (x : Binary64) : Sound (.real x)
  | text (s : String) : Sound (.text s)
  | list {vs : List Json} (h : ∀ v ∈ vs, Sound v) : Sound (.list vs)
  | object {ms : List (String × Json)} (distinct : (ms.map (·.1)).Nodup)
      (h : ∀ m ∈ ms, Sound m.2) : Sound (.object ms)

attribute [simp] Sound.null Sound.bool Sound.real Sound.text

namespace Reader

/-! ## Texts -/

theorem hex4?_append {ds : List Char} {n : Nat} (h : hex4? ds = some (n, []))
    (tail : List Char) : hex4? (ds ++ tail) = some (n, tail) := by
  match ds with
  | [] | [_] | [_, _] | [_, _, _] => cases h
  | a :: b :: c :: d :: r =>
      rw [hex4?] at h
      simp only [Option.bind_eq_bind, Option.bind_eq_some_iff] at h
      obtain ⟨w, hw, x, hx, y, hy, z, hz, h⟩ := h
      cases h
      simp [hex4?, hw, hx, hy, hz]

theorem hex4?_hex : ∀ n < 32, hex4? (Text.hex 4 n) = some (n, []) := by decide

theorem codePoint_hex {c : Char} (hc : c.toNat < 32) {tail : List Char}
    (htail : tail ≠ []) :
    codePoint ('u' :: (Text.hex 4 c.toNat ++ tail)) = .ok (c, tail) := by
  have hhex : hex4? (('u' :: (Text.hex 4 c.toNat ++ tail)).drop 1) =
      some (c.toNat, tail) := hex4?_append (hex4?_hex _ hc) tail
  have hchar : charOf c.toNat = c := by
    rw [charOf, if_pos (show c.toNat.isValidChar from c.valid)]
    exact Char.ofNat_toNat c
  have hsurrogate : isHighSurrogate c.toNat = false := by
    rw [isHighSurrogate, Bool.and_eq_false_iff]
    exact .inl (decide_eq_false (by omega))
  rw [codePoint, hhex]
  dsimp only
  rw [if_neg (by rwa [List.isEmpty_iff]), hchar, hsurrogate]
  split <;> rfl

/-- A character of a text is read back from what stands for it. -/
theorem chars_escape (opening : List Char) (fuel : Nat) (c : Char)
    {tail content rest : List Char} (htail : tail ≠ [])
    (h : chars opening fuel tail = .ok (content, rest)) :
    chars opening (fuel + 1) (Printer.escape c ++ tail) =
      .ok (c :: content, rest) := by
  have hletter : ∀ {x : Char}, escaped? x = some c →
      chars opening (fuel + 1) ('\\' :: x :: tail) =
        .ok (c :: content, rest) := by
    intro x hx
    have hu : x ≠ 'u' := by
      rintro rfl
      cases hx
    simp [chars, hx, h, bind, Except.bind, pure, Except.pure]
  rw [Printer.escape]
  split
  · next hself =>
      rw [Bool.or_eq_true, beq_iff_eq, beq_iff_eq] at hself
      rcases hself with rfl | rfl <;> exact hletter rfl
  split
  · next hc => cases eq_of_beq hc; exact hletter rfl
  split
  · next hc => cases eq_of_beq hc; exact hletter rfl
  split
  · next hc => cases eq_of_beq hc; exact hletter rfl
  split
  · next hc => cases eq_of_beq hc; exact hletter rfl
  split
  · next hc => cases eq_of_beq hc; exact hletter rfl
  split
  · next hlow =>
      simp [chars, codePoint_hex hlow htail, h, bind, Except.bind, pure,
        Except.pure]
  · next hself _ _ _ _ _ hlow =>
      rw [Bool.or_eq_true, beq_iff_eq, beq_iff_eq, not_or] at hself
      simp [chars, hself.1, hself.2, hlow, h, bind, Except.bind, pure,
        Except.pure]

theorem chars_flatMap (opening : List Char) {content : List Char} {fuel : Nat}
    (hfuel : content.length < fuel) (rest : List Char) :
    chars opening fuel (content.flatMap Printer.escape ++ '"' :: rest) =
      .ok (content, rest) := by
  induction content generalizing fuel with
  | nil =>
      obtain ⟨fuel, rfl⟩ := Nat.exists_eq_add_one.2 (Nat.zero_lt_of_lt hfuel)
      rfl
  | cons c content ih =>
      obtain ⟨fuel, rfl⟩ := Nat.exists_eq_add_one.2 (Nat.zero_lt_of_lt hfuel)
      rw [List.flatMap_cons, List.append_assoc]
      exact chars_escape opening fuel c (by simp)
        (ih (Nat.lt_of_succ_lt_succ hfuel))

theorem length_le_flatMap (content : List Char) :
    content.length ≤ (content.flatMap Printer.escape).length := by
  induction content with
  | nil => exact Nat.le_refl 0
  | cons c content ih =>
      have hescape : 0 < (Printer.escape c).length := by
        rw [Printer.escape]
        repeat' split
        all_goals simp
      rw [List.flatMap_cons, List.length_append, List.length_cons]
      omega

theorem quotedText_written (s : String) (rest : List Char) :
    quotedText (Printer.quotedText s ++ rest) = .ok (s, rest) := by
  have htext : Printer.quotedText s ++ rest =
      '"' :: (s.toList.flatMap Printer.escape ++ '"' :: rest) := by
    simp [Printer.quotedText]
  have hfuel : s.toList.length < (Printer.quotedText s ++ rest).length := by
    have := length_le_flatMap s.toList
    rw [htext, List.length_cons, List.length_append]
    omega
  rw [quotedText]
  have hchars := chars_flatMap (Printer.quotedText s ++ rest) hfuel rest
  have hdrop : (Printer.quotedText s ++ rest).drop 1 =
      s.toList.flatMap Printer.escape ++ '"' :: rest := by
    rw [htext, List.drop_one, List.tail_cons]
  rw [hdrop, hchars]
  change Except.ok (String.ofList s.toList, rest) = _
  rw [String.ofList_toList]

/-! ## Layout -/

/-- A character with which a value or a member may begin: none that is skipped,
ends a list or an object, or marks the order of bytes. -/
def isOpening (c : Char) : Prop :=
  isSpace c = false ∧ c ≠ ']' ∧ c ≠ '\x7d' ∧ c ≠ '\ufeff'

instance (c : Char) : Decidable (isOpening c) :=
  inferInstanceAs (Decidable (_ ∧ _))

/-- What the reader takes for the beginning of a value or a member. -/
structure Opens (cs : List Char) : Prop where
  ne_nil : cs ≠ []
  head : ∀ c r, cs = c :: r → isOpening c

theorem opens_cons {c : Char} {r : List Char} (h : isOpening c) :
    Opens (c :: r) := by
  refine ⟨List.cons_ne_nil _ _, ?_⟩
  rintro _ _ ⟨⟩
  exact h

theorem skip_newline (level : Nat) (cs : List Char) :
    skip (Printer.newline level ++ cs) = skip cs := by
  refine List.dropWhile_append_of_pos fun c hc => ?_
  rw [Printer.newline, List.mem_cons, List.mem_replicate] at hc
  rcases hc with rfl | ⟨_, rfl⟩ <;> rfl

theorem Opens.skip {cs : List Char} (h : Opens cs) : skip cs = cs := by
  obtain ⟨c, r, rfl⟩ := List.exists_cons_of_ne_nil h.ne_nil
  exact List.dropWhile_cons_of_neg (by rw [(h.head c r rfl).1]; decide)

theorem opens_digit {s : Bool} {c : Char} (hc : c.isDigit = true)
    (r : List Char) : Opens (minus s ++ c :: r) := by
  cases s with
  | true => exact opens_cons (by decide)
  | false =>
      have hspace : isSpace c = false := by
        rw [isSpace, Bool.or_eq_false_iff, Bool.or_eq_false_iff,
          Bool.or_eq_false_iff]
        simp only [beq_eq_false_iff_ne]
        refine ⟨⟨⟨?_, ?_⟩, ?_⟩, ?_⟩ <;> rintro rfl <;> exact absurd hc (by decide)
      refine opens_cons ⟨hspace, ?_, ?_, ?_⟩ <;> rintro rfl <;>
        exact absurd hc (by decide)

theorem opens_value (level : Nat) (v : Json) (rest : List Char) :
    Opens (Printer.value level v ++ rest) := by
  cases v with
  | null => exact opens_cons (by decide)
  | bool b => cases b <;> exact opens_cons (by decide)
  | int n =>
      obtain ⟨c, r, heq, hc⟩ := toString_digit n
      rw [Printer.value, Printer.whole, heq, List.append_assoc]
      exact opens_digit hc _
  | real x =>
      cases x with
      | finite s q hrep =>
          obtain ⟨c, r, heq, hc⟩ := toShortest_digit s hrep
          change Opens ((Binary64.finite s q hrep).toShortest.toList ++ rest)
          rw [heq, List.append_assoc]
          exact opens_digit hc _
      | infinite s => cases s <;> exact opens_cons (by decide)
      | nan => exact opens_cons (by decide)
  | text s => exact opens_cons (by decide)
  | list vs => cases vs <;> exact opens_cons (by decide)
  | object ms => cases ms <;> exact opens_cons (by decide)

theorem word?_digit {s : Bool} {c : Char} (hc : c.isDigit = true)
    (r : List Char) : word? (minus s ++ c :: r) = none := by
  have hne : ∀ x : Char, x.isDigit = false → x ≠ c := by
    rintro x hx rfl
    rw [hx] at hc
    cases hc
  cases s with
  | false =>
      simp [word?, words, minus, hne 'n' rfl, hne 't' rfl, hne 'f' rfl,
        hne 'N' rfl, hne 'I' rfl, hne '-' rfl]
  | true => simp [word?, words, minus, hne 'I' rfl]

/-- Where a value begins like a number, it is one. -/
theorem value_digit (fuel : Nat) {s : Bool} {c : Char}
    (hc : c.isDigit = true) (r : List Char) :
    value (fuel + 1) (minus s ++ c :: r) = number (minus s ++ c :: r) := by
  have hword := word?_digit (s := s) hc r
  have hne : ∀ x : Char, x.isDigit = false → c ≠ x := by
    rintro x hx rfl
    rw [hx] at hc
    cases hc
  have hquote := hne '"' rfl
  have hbracket := hne '[' rfl
  have hbrace := hne '\x7b' rfl
  cases s with
  | false =>
      rw [minus, if_neg Bool.false_ne_true, List.nil_append] at hword ⊢
      simp [value, hword, hquote, hbracket, hbrace]
  | true =>
      rw [minus, if_pos rfl, List.singleton_append] at hword ⊢
      simp [value, hword]

/-! ## One step of the reader -/

section Steps

variable {fuel : Nat} {cs r r' rest tail : List Char} {v : Json}
variable {vs : List Json} {name : String} {before ms : List (String × Json)}

theorem value_list (hopens : Opens (skip r))
    (hitems : items fuel (skip r) = .ok (vs, rest)) :
    value (fuel + 1) ('[' :: r) = .ok (.list vs, rest) := by
  obtain ⟨c, r', hr⟩ := List.exists_cons_of_ne_nil hopens.ne_nil
  have hclose := (hopens.head c r' hr).2.1
  rw [hr] at hitems
  simp [value, hr, hclose, hitems]

theorem value_object (hopens : Opens (skip r))
    (hmembers : members fuel [] (skip r) = .ok (ms, rest)) :
    value (fuel + 1) ('\x7b' :: r) = .ok (.object ms, rest) := by
  obtain ⟨c, r', hr⟩ := List.exists_cons_of_ne_nil hopens.ne_nil
  have hclose := (hopens.head c r' hr).2.2.1
  rw [hr] at hmembers
  simp [value, hr, hclose, hmembers]

theorem items_last (hvalue : value fuel cs = .ok (v, rest))
    (hclose : skip rest = ']' :: tail) :
    items (fuel + 1) cs = .ok ([v], tail) := by
  simp [items, hvalue, hclose, bind, Except.bind, pure, Except.pure]

theorem items_more (hvalue : value fuel cs = .ok (v, rest))
    (hcomma : skip rest = ',' :: r)
    (hmore : items fuel (skip r) = .ok (vs, tail)) :
    items (fuel + 1) cs = .ok (v :: vs, tail) := by
  simp [items, hvalue, hcomma, hmore, bind, Except.bind, pure, Except.pure]

theorem members_last (hquote : ∃ r, cs = '"' :: r)
    (hname : quotedText cs = .ok (name, rest)) (hcolon : skip rest = ':' :: r)
    (hvalue : value fuel (skip r) = .ok (v, r'))
    (hclose : skip r' = '\x7d' :: tail) :
    members (fuel + 1) before cs = .ok (put name v before, tail) := by
  obtain ⟨r'', rfl⟩ := hquote
  simp [members, hname, hcolon, hvalue, hclose, bind, Except.bind, pure,
    Except.pure]

theorem members_more (hquote : ∃ r, cs = '"' :: r)
    (hname : quotedText cs = .ok (name, rest)) (hcolon : skip rest = ':' :: r)
    (hvalue : value fuel (skip r) = .ok (v, r'))
    (hcomma : skip r' = ',' :: tail) :
    members (fuel + 1) before cs =
      members fuel (put name v before) (skip tail) := by
  obtain ⟨r'', rfl⟩ := hquote
  simp [members, hname, hcolon, hvalue, hcomma, bind, Except.bind]

end Steps

/-! ## Everything that was written -/

theorem value_real (fuel level : Nat) (x : Binary64) {rest : List Char}
    (hrest : Closes rest) :
    value (fuel + 1) (Printer.value level (.real x) ++ rest) =
      .ok (.real x, rest) := by
  cases x with
  | finite s q hrep =>
      obtain ⟨c, r, heq, hc⟩ := toShortest_digit s hrep
      have hnumber := number_toShortest s hrep hrest
      change value (fuel + 1)
        ((Binary64.finite s q hrep).toShortest.toList ++ rest) = _
      rw [heq, List.append_assoc, List.cons_append] at hnumber ⊢
      rw [value_digit fuel hc, hnumber]
  | infinite s => cases s <;> rfl
  | nan => rfl

theorem value_whole (fuel level : Nat) {n : Int}
    (hn : n.natAbs < 10 ^ maxDigits) {rest : List Char} (hrest : Closes rest) :
    value (fuel + 1) (Printer.value level (.int n) ++ rest) =
      .ok (.int n, rest) := by
  obtain ⟨c, r, heq, hc⟩ := toString_digit n
  have hnumber := number_whole hn hrest
  rw [Printer.value]
  rw [Printer.whole, heq, List.append_assoc, List.cons_append] at hnumber ⊢
  rw [value_digit fuel hc, hnumber]

theorem value_text (fuel level : Nat) (s : String) (rest : List Char) :
    value (fuel + 1) (Printer.value level (.text s) ++ rest) =
      .ok (.text s, rest) := by
  have hquoted := quotedText_written s rest
  rw [Printer.value]
  change (quotedText (Printer.quotedText s ++ rest) >>= _) = _
  rw [hquoted]
  rfl

theorem put_of_notMem {name : String} {ms : List (String × Json)}
    (h : name ∉ ms.map (·.1)) (v : Json) : put name v ms = ms ++ [(name, v)] := by
  induction ms with
  | nil => rfl
  | cons m ms ih =>
      obtain ⟨n, w⟩ := m
      rw [List.map_cons, List.mem_cons, not_or] at h
      rw [put, if_neg (Ne.symm h.1), ih h.2, List.cons_append]

theorem skip_newline_value (level outer : Nat) (v : Json) (rest : List Char) :
    skip (Printer.newline outer ++ (Printer.value level v ++ rest)) =
      Printer.value level v ++ rest :=
  (skip_newline _ _).trans (opens_value level v rest).skip

theorem opens_member (level : Nat) (m : String × Json) (rest : List Char) :
    Opens (Printer.member level m ++ rest) := by
  obtain ⟨name, v⟩ := m
  exact opens_cons (by decide)

theorem skip_newline_member (level outer : Nat) (m : String × Json)
    (rest : List Char) :
    skip (Printer.newline outer ++ (Printer.member level m ++ rest)) =
      Printer.member level m ++ rest :=
  (skip_newline _ _).trans (opens_member level m rest).skip

mutual

theorem value_written (v : Json) (hv : v.Sound) (level fuel : Nat)
    (hfuel : 2 * (Printer.value level v).length ≤ fuel) {rest : List Char}
    (hrest : Closes rest) :
    value fuel (Printer.value level v ++ rest) = .ok (v, rest) := by
  have hpos : 0 < (Printer.value level v).length := by
    have := (opens_value level v []).ne_nil
    rw [List.append_nil] at this
    exact List.length_pos_iff.2 this
  obtain ⟨fuel, rfl⟩ : ∃ n, fuel = n + 1 := ⟨fuel - 1, by omega⟩
  match v with
  | .null => rfl
  | .bool true => rfl
  | .bool false => rfl
  | .int n => cases hv with
    | int hn => exact value_whole fuel level hn hrest
  | .real x => exact value_real fuel level x hrest
  | .text s => exact value_text fuel level s rest
  | .list [] => rfl
  | .list (x :: xs) =>
      have htext : Printer.value level (.list (x :: xs)) ++ rest =
          '[' :: (Printer.newline (level + 1) ++ (Printer.value (level + 1) x ++
            (Printer.items (level + 1) xs ++
              (Printer.newline level ++ ']' :: rest)))) := by
        simp [Printer.value]
      have hskip := skip_newline_value (level + 1) (level + 1) x
        (Printer.items (level + 1) xs ++ (Printer.newline level ++ ']' :: rest))
      have hsound : ∀ y ∈ x :: xs, y.Sound := by
        cases hv with
        | list h => exact h
      have hread := items_written x xs hsound (level + 1) level fuel
        (by simp [Printer.value] at hfuel; omega) rest
      rw [htext]
      exact value_list (by rw [hskip]; exact opens_value _ _ _)
        (by rw [hskip]; exact hread)
  | .object [] => rfl
  | .object (m :: ms) =>
      have htext : Printer.value level (.object (m :: ms)) ++ rest =
          '\x7b' :: (Printer.newline (level + 1) ++
            (Printer.member (level + 1) m ++ (Printer.members (level + 1) ms ++
              (Printer.newline level ++ '\x7d' :: rest)))) := by
        simp [Printer.value]
      have hskip := skip_newline_member (level + 1) (level + 1) m
        (Printer.members (level + 1) ms ++
          (Printer.newline level ++ '\x7d' :: rest))
      have hsound : ((m :: ms).map (·.1)).Nodup ∧ ∀ y ∈ m :: ms, y.2.Sound := by
        cases hv with
        | object distinct h => exact ⟨distinct, h⟩
      have hread := members_written [] m ms hsound.1 hsound.2 (level + 1) level
        fuel (by simp [Printer.value] at hfuel; omega) rest
      rw [htext]
      exact value_object (by rw [hskip]; exact opens_member _ _ _)
        (by rw [hskip]; exact hread)
termination_by fuel

theorem items_written (v : Json) (vs : List Json)
    (hvs : ∀ x ∈ v :: vs, x.Sound) (level outer fuel : Nat)
    (hfuel : 2 * ((Printer.value level v).length +
      (Printer.items level vs).length) + 1 ≤ fuel) (tail : List Char) :
    items fuel (Printer.value level v ++ (Printer.items level vs ++
      (Printer.newline outer ++ ']' :: tail))) = .ok (v :: vs, tail) := by
  obtain ⟨fuel, rfl⟩ : ∃ n, fuel = n + 1 := ⟨fuel - 1, by omega⟩
  have hv := hvs v List.mem_cons_self
  match vs with
  | [] =>
      have hvalue := value_written v hv level fuel (by omega)
        (closes_newline (List.replicate (2 * outer) ' ' ++ ']' :: tail))
      exact items_last hvalue ((skip_newline outer _).trans rfl)
  | x :: xs =>
      have htext : Printer.items level (x :: xs) ++
          (Printer.newline outer ++ ']' :: tail) =
            ',' :: (Printer.newline level ++ (Printer.value level x ++
              (Printer.items level xs ++
                (Printer.newline outer ++ ']' :: tail)))) := by
        simp [Printer.items]
      have hvalue := value_written v hv level fuel (by omega)
        (closes_comma (Printer.newline level ++ (Printer.value level x ++
          (Printer.items level xs ++ (Printer.newline outer ++ ']' :: tail)))))
      have hskip := skip_newline_value level level x
        (Printer.items level xs ++ (Printer.newline outer ++ ']' :: tail))
      have hread := items_written x xs
        (fun y hy => hvs y (List.mem_cons_of_mem _ hy)) level outer fuel
        (by simp [Printer.items] at hfuel; omega) tail
      rw [htext]
      exact items_more hvalue rfl (hskip.symm ▸ hread)
termination_by fuel

theorem members_written (before : List (String × Json)) (m : String × Json)
    (ms : List (String × Json))
    (distinct : ((before ++ m :: ms).map (·.1)).Nodup)
    (hms : ∀ x ∈ m :: ms, x.2.Sound) (level outer fuel : Nat)
    (hfuel : 2 * ((Printer.member level m).length +
      (Printer.members level ms).length) + 1 ≤ fuel) (tail : List Char) :
    members fuel before (Printer.member level m ++ (Printer.members level ms ++
      (Printer.newline outer ++ '\x7d' :: tail))) =
        .ok (before ++ m :: ms, tail) := by
  obtain ⟨fuel, rfl⟩ : ∃ n, fuel = n + 1 := ⟨fuel - 1, by omega⟩
  obtain ⟨name, v⟩ := m
  have hv : v.Sound := hms (name, v) List.mem_cons_self
  have hput : put name v before = before ++ [(name, v)] := by
    refine put_of_notMem (fun hmem => ?_) v
    rw [List.map_append, List.nodup_append] at distinct
    exact distinct.2.2 _ hmem _ (by simp) rfl
  have hspace : ∀ rest, skip (' ' :: (Printer.value level v ++ rest)) =
      Printer.value level v ++ rest := fun rest => (opens_value level v rest).skip
  match ms with
  | [] =>
      have hvalue := value_written v hv level fuel
        (by simp [Printer.member] at hfuel; omega)
        (closes_newline (List.replicate (2 * outer) ' ' ++ '\x7d' :: tail))
      have htext : Printer.member level (name, v) ++ (Printer.members level [] ++
          (Printer.newline outer ++ '\x7d' :: tail)) =
            Printer.quotedText name ++ ':' :: ' ' :: (Printer.value level v ++
              (Printer.newline outer ++ '\x7d' :: tail)) := by
        simp [Printer.member, Printer.members]
      rw [htext, ← hput]
      exact members_last ⟨_, rfl⟩ (quotedText_written name _) rfl
        ((hspace _).symm ▸ hvalue) ((skip_newline outer _).trans rfl)
  | m' :: ms' =>
      have hvalue := value_written v hv level fuel
        (by simp [Printer.member] at hfuel; omega)
        (closes_comma (Printer.newline level ++ (Printer.member level m' ++
          (Printer.members level ms' ++
            (Printer.newline outer ++ '\x7d' :: tail)))))
      have htext : Printer.member level (name, v) ++
          (Printer.members level (m' :: ms') ++
            (Printer.newline outer ++ '\x7d' :: tail)) =
              Printer.quotedText name ++ ':' :: ' ' :: (Printer.value level v ++
                ',' :: (Printer.newline level ++ (Printer.member level m' ++
                  (Printer.members level ms' ++
                    (Printer.newline outer ++ '\x7d' :: tail))))) := by
        simp [Printer.member, Printer.members]
      have hskip := skip_newline_member level level m'
        (Printer.members level ms' ++ (Printer.newline outer ++ '\x7d' :: tail))
      have hread := members_written (before ++ [(name, v)]) m' ms'
        (by rwa [List.append_assoc])
        (fun y hy => hms y (List.mem_cons_of_mem _ hy)) level outer fuel
        (by simp [Printer.member, Printer.members] at hfuel ⊢; omega) tail
      rw [htext]
      refine (members_more ⟨_, rfl⟩ (quotedText_written name _) rfl
        ((hspace _).symm ▸ hvalue) rfl).trans ?_
      rw [hput, hskip, hread, List.append_assoc]
      rfl
termination_by fuel

end

/-- A text that begins with a byte order mark is the only one that is not
read as a value. -/
theorem document_of_value {cs : List Char} {v : Json} (hopens : Opens cs)
    (hvalue : value (2 * cs.length + 2) cs = .ok (v, [])) :
    document cs = .ok v := by
  obtain ⟨c, r, rfl⟩ := List.exists_cons_of_ne_nil hopens.ne_nil
  have hmark := (hopens.head c r rfl).2.2.2
  have hskip := hopens.skip
  have hend : skip [] = [] := rfl
  simp only [List.length_cons] at hvalue
  simp [document, hmark, hskip, hvalue, hend, bind, Except.bind, pure,
    Except.pure]

end Reader

/-- A sound value is read back from its text. -/
theorem read_write {v : Json} (hv : v.Sound) : read (write v) = .ok v := by
  have hopens := Reader.opens_value 0 v []
  have hvalue := Reader.value_written v hv 0
    (2 * (Printer.value 0 v).length + 2) (by omega) Reader.closes_nil
  rw [List.append_nil] at hopens hvalue
  rw [read, write, String.toList_ofList]
  rw [Reader.document_of_value hopens hvalue]

/-! ## What is read is sound -/

theorem names_put (name : String) (v : Json) (ms : List (String × Json)) :
    (put name v ms).map (·.1) =
      if name ∈ ms.map (·.1) then ms.map (·.1) else ms.map (·.1) ++ [name] := by
  induction ms with
  | nil => rfl
  | cons m ms ih =>
      obtain ⟨n, w⟩ := m
      by_cases hn : n = name
      · simp [put, hn]
      · rw [put, if_neg hn, List.map_cons, ih]
        simp only [List.map_cons, List.mem_cons, Ne.symm hn, false_or]
        split <;> rfl

theorem mem_put {name : String} {v : Json} {ms : List (String × Json)}
    {m : String × Json} (h : m ∈ put name v ms) : m = (name, v) ∨ m ∈ ms := by
  induction ms with
  | nil => exact .inl (List.mem_singleton.1 h)
  | cons m' ms ih =>
      obtain ⟨n, w⟩ := m'
      rw [put] at h
      split at h
      · next hn =>
          rcases List.mem_cons.1 h with rfl | h
          · exact .inl (by rw [hn])
          · exact .inr (List.mem_cons_of_mem _ h)
      · rcases List.mem_cons.1 h with rfl | h
        · exact .inr List.mem_cons_self
        · exact (ih h).imp_right (List.mem_cons_of_mem _)

theorem sound_nil : (Json.object []).Sound :=
  .object List.nodup_nil fun _ hm => nomatch hm

theorem sound_put (name : String) {v : Json} {ms : List (String × Json)}
    (hv : v.Sound) (h : (Json.object ms).Sound) :
    (Json.object (put name v ms)).Sound := by
  cases h with
  | object distinct h =>
      refine .object ?_ fun m hm => ?_
      · rw [names_put]
        split
        · exact distinct
        · next hnot =>
            exact List.nodup_append.2 ⟨distinct, List.nodup_singleton _,
              fun a ha b hb hab => hnot (by
                rw [← List.mem_singleton.1 hb, ← hab]
                exact ha)⟩
      · rcases mem_put hm with rfl | hm
        · exact hv
        · exact h m hm

namespace Reader

theorem sound_word? {cs rest : List Char} {v : Json}
    (h : word? cs = some (v, rest)) : v.Sound := by
  obtain ⟨⟨w, u⟩, hmem, hfound⟩ := List.exists_of_findSome?_eq_some h
  dsimp only at hfound
  split at hfound
  · cases hfound
    simp only [words, List.mem_cons, List.not_mem_nil, or_false,
      Prod.mk.injEq] at hmem
    rcases hmem with ⟨_, rfl⟩ | ⟨_, rfl⟩ | ⟨_, rfl⟩ | ⟨_, rfl⟩ | ⟨_, rfl⟩ |
      ⟨_, rfl⟩
    · exact .null
    · exact .bool _
    · exact .bool _
    · exact .real _
    · exact .real _
    · exact .real _
  · cases hfound

theorem sound_magnitude {s : Bool} {whole cs rest : List Char} {v : Json}
    (hwhole : ∀ c ∈ whole, c.isDigit = true)
    (h : magnitude s whole cs = .ok (v, rest)) : v.Sound := by
  rw [magnitude] at h
  split at h
  · split at h
    · cases h
    · next hlength =>
        cases h
        refine .int (Nat.lt_of_lt_of_le ?_
          (Nat.pow_le_pow_right (by decide) (Nat.not_lt.1 hlength)))
        have hlt := value_lt hwhole
        cases s <;> simpa using hlt
  · cases h
    exact .real _

theorem sound_number {cs rest : List Char} {v : Json}
    (h : number cs = .ok (v, rest)) : v.Sound := by
  unfold number at h
  split at h
  split at h
  · exact sound_magnitude (by simp) h
  · split at h
    · exact sound_magnitude (fun c hc => List.mem_takeWhile_imp hc) h
    · cases h
  · cases h

mutual

theorem sound_value {fuel : Nat} {cs rest : List Char} {v : Json}
    (h : value fuel cs = .ok (v, rest)) : v.Sound := by
  match fuel with
  | 0 => cases h
  | fuel + 1 =>
      unfold value at h
      split at h
      · obtain ⟨⟨s, r⟩, _, h⟩ := bind_eq_ok h
        cases h
        exact .text s
      · split at h
        · cases h
          exact .list nofun
        · obtain ⟨⟨vs, r⟩, hitems, h⟩ := bind_eq_ok h
          cases h
          exact .list (sound_items hitems)
      · split at h
        · cases h
          exact sound_nil
        · obtain ⟨⟨ms, r⟩, hmembers, h⟩ := bind_eq_ok h
          cases h
          exact sound_members sound_nil hmembers
      · split at h
        · next hword =>
            cases h
            exact sound_word? hword
        · exact sound_number h

theorem sound_items {fuel : Nat} {cs rest : List Char} {vs : List Json}
    (h : items fuel cs = .ok (vs, rest)) : ∀ v ∈ vs, v.Sound := by
  match fuel with
  | 0 => cases h
  | fuel + 1 =>
      unfold items at h
      obtain ⟨⟨v, r⟩, hvalue, h⟩ := bind_eq_ok h
      have hv := sound_value hvalue
      dsimp only at h
      split at h
      · cases h
        exact List.forall_mem_singleton.2 hv
      · obtain ⟨⟨vs', r'⟩, hitems, h⟩ := bind_eq_ok h
        cases h
        exact List.forall_mem_cons.2 ⟨hv, sound_items hitems⟩
      · cases h

theorem sound_members {fuel : Nat} {cs rest : List Char}
    {before ms : List (String × Json)} (hbefore : (Json.object before).Sound)
    (h : members fuel before cs = .ok (ms, rest)) : (Json.object ms).Sound := by
  match fuel with
  | 0 => cases h
  | fuel + 1 =>
      unfold members at h
      split at h
      · obtain ⟨⟨name, r⟩, _, h⟩ := bind_eq_ok h
        dsimp only at h
        split at h
        · obtain ⟨⟨v, r'⟩, hvalue, h⟩ := bind_eq_ok h
          have hnow := sound_put name (sound_value hvalue) hbefore
          dsimp only at h
          split at h
          · cases h
            exact hnow
          · exact sound_members hnow h
          · cases h
        · cases h
      · cases h

end

end Reader

/-- Only sound values are read. -/
theorem sound_of_read {s : String} {v : Json} (h : read s = .ok v) : v.Sound := by
  unfold read at h
  dsimp only at h
  split at h
  · next hdocument =>
      cases h
      unfold Reader.document at hdocument
      split at hdocument
      · cases hdocument
      · obtain ⟨⟨u, r⟩, hvalue, hdocument⟩ := bind_eq_ok hdocument
        dsimp only at hdocument
        split at hdocument
        · cases hdocument
          exact Reader.sound_value hvalue
        · cases hdocument
  · cases h
  · cases h

end Cutlist.Json
