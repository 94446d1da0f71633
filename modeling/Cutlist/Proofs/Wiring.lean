import Cutlist.Proofs.Building
import Cutlist.Proofs.Labels
import Mathlib.Tactic.ByContra
import Mathlib.Tactic.Tauto

/-!
# How the chains of a graph are wired

While a graph is put together, some of its pads are still live: a later chain
has to take each of them, or it goes to the output. `Wired` keeps the account.
What chains have taken and what is live, together, is what chains have
produced; so no pad is lost and none is used twice. An action that takes some
live labels and leaves one in their place is `Linear`, and since everything
else in the account is its frame, linear actions can be put one after another.

One more column is needed because the account is not always right. A pad that
is taken again is entered once more under `surplus`. Streams of inputs are not
in the account at all: any number of chains may read them.
-/

namespace Cutlist.FilterGraph

/-! ## What a graph produces and consumes -/

/-- The pads that chains end in. -/
def produced (g : FilterGraph) : List Label := g.chains.flatMap Chain.outputs

/-- The labels that chains take. -/
def consumed (g : FilterGraph) : List Label := g.chains.flatMap Chain.inputs

/-- Every pad that a chain takes was produced by a chain before it. -/
def TakenInOrder (chains : List Chain) : Prop :=
  ∀ n c, chains[n]? = some c → ∀ l ∈ c.inputs, l.isInput = false →
    l ∈ (chains.take n).flatMap Chain.outputs

/-- A stream belongs to one of a number of inputs. -/
def Label.Within (inputs : Nat) : Label → Prop
  | .input k _ => k < inputs
  | .pad _ => True

/-- A filter that joins streams stands alone and counts what it joins, which
are two at least. -/
def Chain.JoinsAll (c : Chain) : Prop :=
  ∀ stream n, Filter.concat stream n ∈ c.filters →
    c.filters = [.concat stream n] ∧ n = c.inputs.length ∧ 2 ≤ n

theorem Label.Within.of_pad {l : Label} {n : Nat} (h : l.isInput = false) :
    l.Within n := by
  cases l with
  | input k stream => cases h
  | pad name => trivial

/-! ## The account of a graph under way -/

/-- The account of a graph with these inputs and live labels. -/
structure Wired (ins : List Input) (surplus live : List Label)
    (g : FilterGraph) : Prop where
  registered : g.inputs = ins
  distinct : g.produced.Nodup
  named : ∀ l ∈ g.produced, Taken g.used l
  inOrder : TakenInOrder g.chains
  balance : ∀ l, l.isInput = false →
    g.consumed.count l + live.count l = g.produced.count l + surplus.count l
  entered : ∀ l ∈ surplus, l ∈ g.produced
  within : ∀ l ∈ g.consumed ++ live, l.Within ins.length
  joins : ∀ c ∈ g.chains, c.JoinsAll

/-- A name that no chain has produced yet, and that nothing else can get. -/
def Reserved (g : FilterGraph) (l : Label) : Prop :=
  Taken g.used l ∧ l ∉ g.produced

theorem produced_append (g : FilterGraph) (c : Chain) :
    { g with chains := g.chains ++ [c] }.produced = g.produced ++ c.outputs := by
  simp [produced]

theorem consumed_append (g : FilterGraph) (c : Chain) :
    { g with chains := g.chains ++ [c] }.consumed = g.consumed ++ c.inputs := by
  simp [consumed]

theorem TakenInOrder.append {chains : List Chain} {c : Chain}
    (h : TakenInOrder chains) (hc : ∀ l ∈ c.inputs, l.isInput = false →
      l ∈ chains.flatMap Chain.outputs) : TakenInOrder (chains ++ [c]) := by
  intro n d hd l hl hpad
  rcases Nat.lt_or_ge n chains.length with hlt | hge
  · rw [List.getElem?_append_left hlt] at hd
    rw [List.take_append_of_le_length (Nat.le_of_lt hlt)]
    exact h n d hd l hl hpad
  · rw [List.getElem?_append_right hge, List.getElem?_singleton] at hd
    split at hd
    · next hn =>
        cases hd
        obtain rfl : n = chains.length := by omega
        rw [List.take_left]
        exact hc l hl hpad
    · cases hd

namespace Wired

variable {ins : List Input} {surplus live rest : List Label} {g : FilterGraph}

/-- Before any chain. -/
theorem init {g : FilterGraph} (h : g.chains = []) :
    Wired g.inputs [] [] g where
  registered := rfl
  distinct := by rw [produced, h]; exact List.nodup_nil
  named := by rw [produced, h]; exact fun _ hl => nomatch hl
  inOrder := by rw [h]; exact fun _ _ hc => nomatch hc
  balance := by
    intro l _
    rw [consumed, produced, h]
    rfl
  entered := fun _ hl => nomatch hl
  within := by rw [consumed, h]; exact fun _ hl => nomatch hl
  joins := by rw [h]; exact fun _ hc => nomatch hc

theorem perm (h : Wired ins surplus live g) {live' : List Label}
    (hperm : live.Perm live') : Wired ins surplus live' g :=
  { h with
    balance := by
      intro l hl
      rw [← hperm.count_eq l]
      exact h.balance l hl
    within := by
      intro l hl
      refine h.within l ?_
      rw [List.mem_append] at hl ⊢
      exact hl.imp_right hperm.mem_iff.2 }

/-- A live pad has been produced. -/
theorem mem_produced (h : Wired ins surplus live g) {l : Label}
    (hl : l ∈ live) (hpad : l.isInput = false) : l ∈ g.produced := by
  by_contra hnot
  have hsurplus : l ∉ surplus := fun hmem => hnot (h.entered l hmem)
  have hbalance := h.balance l hpad
  rw [List.count_eq_zero.2 hnot, List.count_eq_zero.2 hsurplus] at hbalance
  have := List.count_pos_iff.2 hl
  omega

/-- A stream of an input can be read at any time. -/
theorem read (h : Wired ins surplus live g) {k : Nat} (hk : k < ins.length)
    (stream : Stream) : Wired ins surplus (.input k stream :: live) g :=
  { h with
    balance := by
      intro l hl
      rw [List.count_cons_of_ne (by rintro rfl; cases hl)]
      exact h.balance l hl
    within := by
      intro l hl
      rw [List.mem_append, List.mem_cons] at hl
      rcases hl with hl | rfl | hl
      · exact h.within l (List.mem_append_left _ hl)
      · exact hk
      · exact h.within l (List.mem_append_right _ hl) }

/-- Streams of inputs need not be read. -/
theorem unread (h : Wired ins surplus (live ++ rest) g)
    (hlive : ∀ l ∈ live, l.isInput = true) : Wired ins surplus rest g :=
  { h with
    balance := by
      intro l hl
      have hnot : l ∉ live := fun hmem => by
        rw [hlive l hmem] at hl
        cases hl
      have hbalance := h.balance l hl
      rw [List.count_append, List.count_eq_zero.2 hnot] at hbalance
      omega
    within := by
      intro l hl
      refine h.within l ?_
      rw [List.mem_append] at hl ⊢
      exact hl.imp_right (List.mem_append_right _) }

/-- What is entered when a label is taken `n` times more. -/
def again (l : Label) (n : Nat) : List Label :=
  if l.isInput then [] else List.replicate n l

theorem again_input {l : Label} (h : l.isInput = true) (n : Nat) :
    again l n = [] := if_pos h

theorem again_zero (l : Label) : again l 0 = [] := by
  rw [again, List.replicate_zero, ite_self]

theorem count_again_self {l : Label} (h : l.isInput = false) (n : Nat) :
    (again l n).count l = n := by
  rw [again, if_neg (by rw [h]; decide), List.count_replicate_self]

theorem mem_again {l x : Label} {n : Nat} (h : x ∈ again l n) :
    x = l ∧ l.isInput = false := by
  rw [again] at h
  split at h
  · cases h
  · next hpad => exact ⟨(List.mem_replicate.1 h).2, Bool.eq_false_iff.2 hpad⟩

/-- A label that is live can be taken several times, at the price of an entry
under surplus if it is a pad. -/
theorem repeated {l : Label} (h : Wired ins surplus (l :: live) g) (n : Nat) :
    Wired ins (again l n ++ surplus) (List.replicate (n + 1) l ++ live) g :=
  { h with
    balance := by
      intro x hx
      have hbalance := h.balance x hx
      rw [List.count_append, List.count_append]
      by_cases hlx : l = x
      · subst hlx
        rw [List.count_cons_self] at hbalance
        rw [count_again_self hx, List.count_replicate_self]
        omega
      · rw [List.count_cons_of_ne hlx] at hbalance
        rw [List.count_eq_zero.2 fun hmem => hlx (mem_again hmem).1.symm,
          List.count_eq_zero.2 fun hmem => hlx (List.mem_replicate.1 hmem).2.symm]
        omega
    entered := by
      intro x hx
      rcases List.mem_append.1 hx with hx | hx
      · obtain ⟨rfl, hpad⟩ := mem_again hx
        exact h.mem_produced (List.mem_cons_self ..) hpad
      · exact h.entered x hx
    within := by
      intro x hx
      refine h.within x ?_
      simp only [List.mem_append, List.mem_replicate, List.mem_cons] at hx ⊢
      tauto }

/-- A name is given out. -/
theorem reserve (h : Wired ins surplus live g) (stem : String) :
    Wired ins surplus live { g with used := countUp stem g.used } :=
  { h with named := fun l hl => (h.named l hl).countUp stem }

/-- A chain takes live labels, and its pads are live in their place. -/
theorem add {c : Chain} (h : Wired ins surplus (c.inputs ++ rest) g)
    (hdistinct : c.outputs.Nodup) (hnew : ∀ l ∈ c.outputs, Reserved g l)
    (hjoins : c.JoinsAll) :
    Wired ins surplus (c.outputs ++ rest)
      { g with chains := g.chains ++ [c] } where
  registered := h.registered
  distinct := by
    rw [produced_append, List.nodup_append]
    refine ⟨h.distinct, hdistinct, fun a ha b hb hab => ?_⟩
    subst hab
    exact (hnew a hb).2 ha
  named := by
    intro l hl
    rw [produced_append, List.mem_append] at hl
    rcases hl with hl | hl
    · exact h.named l hl
    · exact (hnew l hl).1
  inOrder := h.inOrder.append fun l hl hpad =>
    h.mem_produced (List.mem_append_left _ hl) hpad
  balance := by
    intro l hl
    have hbalance := h.balance l hl
    rw [produced_append, consumed_append]
    simp only [List.count_append] at hbalance ⊢
    omega
  entered := by
    intro l hl
    rw [produced_append]
    exact List.mem_append_left _ (h.entered l hl)
  within := by
    intro l hl
    rw [consumed_append, List.append_assoc, List.mem_append, List.mem_append,
      List.mem_append] at hl
    rcases hl with hl | hl | hl | hl
    · exact h.within l (List.mem_append_left _ hl)
    · exact h.within l (List.mem_append_right _ (List.mem_append_left _ hl))
    · exact .of_pad (hnew l hl).1.not_isInput
    · exact h.within l (List.mem_append_right _ (List.mem_append_right _ hl))
  joins := by
    intro d hd
    rcases List.mem_append.1 hd with hd | hd
    · exact h.joins d hd
    · rw [List.mem_singleton] at hd
      subst hd
      exact hjoins

end Wired

/-! ## Linear actions -/

/-- Filters of which none joins streams. -/
def Plain (filters : List Filter) : Prop :=
  ∀ stream n, Filter.concat stream n ∉ filters

theorem Chain.JoinsAll.of_plain {c : Chain} (h : Plain c.filters) :
    c.JoinsAll := fun stream n hmem => absurd hmem (h stream n)

/-- An action that takes live labels and leaves one in their place. -/
def Linear (excuse : Prop) (ins : List Input) (sources : List Label)
    (m : Build Label) : Prop :=
  ∀ g surplus rest, Wired ins surplus (sources ++ rest) g →
    Meets excuse m g fun l g' => Wired ins surplus (l :: rest) g'

section Actions

variable {excuse : Prop} {ins : List Input} {surplus live rest : List Label}
variable {sources : List Label} {g : FilterGraph} {stem : String}

/-- A fresh name is reserved, and apart from those that were reserved
before. -/
theorem fresh_reserved (h : Wired ins surplus live g)
    (hstem : isStem stem = true) :
    Meets excuse (fresh stem) g fun l g' => Wired ins surplus live g' ∧
      Reserved g' l ∧ ∀ x, Reserved g x → Reserved g' x ∧ x ≠ l := by
  have hnew := not_taken_fresh hstem g.used
  refine .fresh hstem ⟨h.reserve stem,
    ⟨taken_fresh hstem g.used, fun hl => hnew (h.named _ hl)⟩,
    fun x hx => ⟨⟨hx.1.countUp stem, hx.2⟩, ?_⟩⟩
  rintro rfl
  exact hnew hx.1

theorem addChain_wired {inputs outputs : List Label} {filters : List Filter}
    (h : Wired ins surplus (inputs ++ rest) g) (hdistinct : outputs.Nodup)
    (hnew : ∀ l ∈ outputs, Reserved g l)
    (hjoins : (⟨inputs, filters, outputs⟩ : Chain).JoinsAll) :
    Meets excuse (addChain inputs filters outputs) g fun _ g' =>
      Wired ins surplus (outputs ++ rest) g' :=
  .addChain (h.add (c := ⟨inputs, filters, outputs⟩) hdistinct hnew hjoins)

/-- A chain that joins labels ends in one pad. -/
theorem join_wired {filters : List Filter} (hstem : isStem stem = true)
    (hjoins : ∀ l, (⟨sources, filters, [l]⟩ : Chain).JoinsAll)
    (h : Wired ins surplus (sources ++ rest) g) :
    Meets excuse (join sources filters stem) g fun l g' =>
      Wired ins surplus (l :: rest) g' ∧ l.isInput = false := by
  refine .bind (fresh_reserved h hstem) fun l g' ⟨hg', hl, _⟩ => ?_
  refine .bind (addChain_wired hg' (List.pairwise_singleton _ l) ?_ (hjoins l))
    fun _ g'' hg'' => .pure ⟨hg'', hl.1.not_isInput⟩
  intro x hx
  rw [List.mem_singleton] at hx
  subst hx
  exact hl

theorem join_linear {filters : List Filter} (hstem : isStem stem = true)
    (hjoins : ∀ l, (⟨sources, filters, [l]⟩ : Chain).JoinsAll) :
    Linear excuse ins sources (join sources filters stem) :=
  fun _ _ _ h => (join_wired hstem hjoins h).imp fun _ _ hl => hl.1

theorem chain_linear {source : Label} {filters : List Filter}
    (hstem : isStem stem = true) (hplain : Plain filters) :
    Linear excuse ins [source] (chain source filters stem) :=
  join_linear hstem fun _ => .of_plain hplain

namespace Linear

theorem pass (l : Label) : Linear excuse ins [l] (pure l) :=
  fun _ _ _ h => .pure h

theorem bind {m : Build Label} {f : Label → Build Label}
    (hm : Linear excuse ins sources m)
    (hf : ∀ l, Linear excuse ins [l] (f l)) :
    Linear excuse ins sources (m >>= f) :=
  fun g surplus rest h => .bind (hm g surplus rest h)
    fun l g' hl => hf l g' surplus rest hl

/-- What is found out before leaves the graph alone. -/
theorem ask {α : Type} {m : Build α} {f : α → Build Label} {P : α → Prop}
    (hm : ∀ g, Meets excuse m g fun a g' => g' = g ∧ P a)
    (hf : ∀ a, P a → Linear excuse ins sources (f a)) :
    Linear excuse ins sources (m >>= f) := by
  intro g surplus rest h
  refine .bind (hm g) fun a g' ⟨hg, ha⟩ => ?_
  subst hg
  exact hf a ha g' surplus rest h

theorem foldlM {α : Type} {f : Label → α → Build Label} {xs : List α}
    (hf : ∀ l, ∀ x ∈ xs, Linear excuse ins [l] (f l x)) (l : Label) :
    Linear excuse ins [l] (xs.foldlM f l) := by
  intro g surplus rest h
  refine (Meets.foldlM (fun l todo g =>
    (∀ x ∈ todo, x ∈ xs) ∧ Wired ins surplus (l :: rest) g)
    (fun l x todo g ⟨hmem, hl⟩ => ?_) ⟨fun x hx => hx, h⟩).imp
    fun _ _ hdone => hdone.2
  refine (hf l x (hmem x (List.mem_cons_self ..)) g surplus rest hl).imp
    fun l' g' hl' => ⟨fun y hy => hmem y (List.mem_cons_of_mem x hy), hl'⟩

end Linear

/-- A label is taken once by each part, and the parts are live in its place. -/
theorem parts_wired {α : Type} {source : Label} {filters : α → List Filter}
    (hstem : isStem stem = true) (hplain : ∀ x, Plain (filters x))
    {xs : List α}
    (h : Wired ins surplus (List.replicate xs.length source ++ rest) g) :
    Meets excuse (xs.mapM fun x => chain source (filters x) stem) g
      fun parts g' => parts.length = xs.length ∧
        Wired ins surplus (parts ++ rest) g' := by
  refine (Meets.mapM (fun done todo g =>
    done.length + todo.length = xs.length ∧
      Wired ins surplus
        (List.replicate todo.length source ++ (done ++ rest)) g)
    (fun done x todo g ⟨hlength, hdone⟩ => ?_) ⟨Nat.zero_add _, h⟩).imp
    fun parts g' ⟨hlength, hparts⟩ => ⟨hlength, hparts⟩
  have hsource : Wired ins surplus
    ([source] ++ (List.replicate todo.length source ++ (done ++ rest))) g := hdone
  refine (chain_linear hstem (hplain x) g surplus _ hsource).imp
    fun l g' hl => ⟨?_, hl.perm ?_⟩
  · rw [List.length_append, List.length_singleton]
    rw [List.length_cons] at hlength
    omega
  · rw [List.append_assoc, List.singleton_append, ← List.append_assoc,
      ← List.append_assoc]
    exact List.perm_middle.symm

end Actions

/-! ## A finished graph -/

/-- Every pad is taken by one chain, apart from those that go to the output,
which are taken by none and are not the same. -/
structure UsedOnce (g : FilterGraph) (results : List Label) : Prop where
  once : ∀ l ∈ g.produced, l ∉ results → g.consumed.count l = 1
  untaken : ∀ l ∈ results, l.isInput = false → l ∉ g.consumed
  apart : (results.filter fun l => !l.isInput).Nodup

/-- What is true of a graph however often its pads are taken. -/
structure WellFormed (g : FilterGraph) (results : List Label) : Prop where
  producedOnce : g.produced.Nodup
  namedApart : ∀ l ∈ g.produced, l.isInput = false ∧
    ∀ k stream, l.name ≠ (Label.input k stream).name
  takenInOrder : TakenInOrder g.chains
  resultsProduced : ∀ l ∈ results, l.isInput = false → l ∈ g.produced
  within : ∀ l ∈ g.consumed ++ results, l.Within g.inputs.length
  joins : ∀ c ∈ g.chains, c.JoinsAll

namespace Wired

variable {ins : List Input} {surplus results : List Label} {g : FilterGraph}

theorem wellFormed (h : Wired ins surplus results g) : WellFormed g results where
  producedOnce := h.distinct
  namedApart := fun l hl =>
    ⟨(h.named l hl).not_isInput, (h.named l hl).name_ne_input⟩
  takenInOrder := h.inOrder
  resultsProduced := fun _ hl hpad => h.mem_produced hl hpad
  within := by rw [h.registered]; exact h.within
  joins := h.joins

theorem count_produced_le (h : Wired ins surplus results g) (l : Label) :
    g.produced.count l ≤ 1 := List.nodup_iff_count.1 h.distinct l

/-- Nothing is surplus just when every pad is used once. -/
theorem usedOnce_iff (h : Wired ins surplus results g) :
    UsedOnce g results ↔ surplus = [] := by
  constructor
  · intro honce
    by_contra hne
    obtain ⟨l, hl⟩ := List.exists_mem_of_ne_nil _ hne
    have hmem := h.entered l hl
    have hpad := (h.named l hmem).not_isInput
    have hbalance := h.balance l hpad
    have hproduced := List.count_pos_iff.2 hmem
    have hsurplus := List.count_pos_iff.2 hl
    by_cases hresult : l ∈ results
    · have hnone := List.count_eq_zero.2 (honce.untaken l hresult hpad)
      have hone := List.nodup_iff_count.1 honce.apart l
      rw [List.count_filter (by rw [hpad]; rfl)] at hone
      omega
    · have hone := honce.once l hmem hresult
      have hnone := List.count_eq_zero.2 hresult
      omega
  · rintro rfl
    have hbalance := h.balance
    simp only [List.count_nil, Nat.add_zero] at hbalance
    refine ⟨fun l hl hresult => ?_, fun l hl hpad htaken => ?_, ?_⟩
    · have hsum := hbalance l (h.named l hl).not_isInput
      have := h.count_produced_le l
      have := List.count_pos_iff.2 hl
      rw [List.count_eq_zero.2 hresult] at hsum
      omega
    · have hsum := hbalance l hpad
      have := h.count_produced_le l
      have := List.count_pos_iff.2 hl
      have := List.count_pos_iff.2 htaken
      omega
    · rw [List.nodup_iff_count]
      intro l
      by_cases hpad : l.isInput = false
      · have hsum := hbalance l hpad
        have := h.count_produced_le l
        rw [List.count_filter (by rw [hpad]; rfl)]
        omega
      · rw [List.count_eq_zero.2 fun hl => ?_]
        · exact Nat.zero_le _
        · exact hpad (by simpa using (List.mem_filter.1 hl).2)

end Wired

end Cutlist.FilterGraph
