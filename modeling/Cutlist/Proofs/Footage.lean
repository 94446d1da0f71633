import Cutlist.Proofs.FixedPlaces
import Cutlist.Proofs.Wiring
import Mathlib.Data.Real.Basic
import Mathlib.Data.Set.Image
import Mathlib.Order.Bounds.Basic

/-!
# What a graph shows

Filters move pictures in time: they cut them, play them at another speed, put
one stream after another or over another. What comes out at an instant can be
said exactly. The footage of a stream is the set of all that is seen, each at
its instant, and every filter of the picture maps footage to footage, so that
the chains of a graph determine the footage of each pad.

A recording is taken to hold a picture at every instant, which lets the
arithmetic of time speak without frame rates and without the ends of files. The
numbers of a filter stand for what they are meant to be, but for the window of
a drawing: that is compared as it is written.
-/

namespace Cutlist

open FilterGraph

/-- What may be seen: an input as it was at an instant, or a drawing. -/
inductive Sight where
  | picture (input : Nat) (time : ℝ)
  | drawing (filter : Filter)

/-- All that a stream shows, each at its instant. -/
abbrev Footage := Set (ℝ × Sight)

namespace Footage

/-- The instants at which anything is seen. -/
def instants (F : Footage) : Set ℝ := Prod.fst '' F

/-- An input as it was recorded. -/
def recording (input : Nat) : Footage := {x | x.2 = .picture input x.1}

/-- What is seen from one instant on, and before another if there is one. -/
def within (F : Footage) (start : ℝ) (stop : Option ℝ) : Footage :=
  {x | x ∈ F ∧ start ≤ x.1 ∧ ∀ e ∈ stop, x.1 < e}

def delayed (F : Footage) (delay : ℝ) : Footage := {x | (x.1 - delay, x.2) ∈ F}

/-- Footage that is played from its first instant on, at a speed. -/
def replayed (F : Footage) (speed : ℝ) : Footage :=
  {x | ∃ first t, IsLeast F.instants first ∧ (t, x.2) ∈ F ∧
    x.1 = (t - first) / speed}

/-- Footage one after another, each from where the one before it ends. -/
def joined : List Footage → Footage
  | [] => ∅
  | F :: rest => F ∪
    {x | ∃ length, IsLUB F.instants length ∧ (x.1 - length, x.2) ∈ joined rest}

/-- Footage with another laid over it for as long as it lasts. -/
def covered (base top : Footage) : Footage :=
  base ∪ {x | x ∈ top ∧ x.1 ∈ base.instants}

/-- A drawing made on footage at some instants. -/
def drawn (F : Footage) (f : Filter) (instants : Set ℝ) : Footage :=
  F ∪ {x | x.2 = .drawing f ∧ x.1 ∈ F.instants ∧ x.1 ∈ instants}

theorem mem_instants {F : Footage} {u : ℝ} :
    u ∈ F.instants ↔ ∃ sight, (u, sight) ∈ F := by
  constructor
  · rintro ⟨⟨u, sight⟩, h, rfl⟩
    exact ⟨sight, h⟩
  · rintro ⟨sight, h⟩
    exact ⟨(u, sight), h, rfl⟩

theorem instants_covered (base top : Footage) :
    (base.covered top).instants = base.instants := by
  ext u
  constructor
  · rintro ⟨x, hbase | ⟨_, hx⟩, rfl⟩
    · exact ⟨x, hbase, rfl⟩
    · exact hx
  · rintro ⟨x, hx, rfl⟩
    exact ⟨x, .inl hx, rfl⟩

theorem instants_drawn (F : Footage) (f : Filter) (w : Set ℝ) :
    (F.drawn f w).instants = F.instants := by
  ext u
  constructor
  · rintro ⟨x, hF | ⟨_, hx, _⟩, rfl⟩
    · exact ⟨x, hF, rfl⟩
    · exact hx
  · rintro ⟨x, hx, rfl⟩
    exact ⟨x, .inl hx, rfl⟩

end Footage

open Footage

namespace FilterGraph

/-! ## What filters and chains show -/

/-- The instants of a window as it is written. -/
def Window.written (w : Window) : Set ℝ :=
  Set.Icc (w.start.written 6 : ℝ) (w.stop.written 6 : ℝ)

/-- The window of a drawing. -/
def Filter.window? : Filter → Option Window
  | .drawBox _ _ _ _ _ _ w => some w
  | .drawText _ _ _ w => some w
  | _ => none

/-- What a filter makes of footage. Filters that change pictures and not times
leave it as it is. -/
noncomputable def Filter.shows (f : Filter) (ins : List Footage) : Footage :=
  let F := ins.headD ∅
  match f with
  | .trim .video start stop =>
      F.within start.value (stop.map fun t => (t.value : ℝ))
  | .restart .video => F.replayed 1
  | .retime speed => F.replayed speed.value
  | .shift later => F.delayed later.value
  | .concat .video _ => joined ins
  | .overlay _ => F.covered (ins.getD 1 ∅)
  | f => match f.window? with
    | some w => F.drawn f w.written
    | none => F

/-- What a chain makes of footage, filter by filter. -/
noncomputable def Chain.shows (c : Chain) (ins : List Footage) : Footage :=
  (c.filters.foldl (fun Fs f => [f.shows Fs]) ins).headD ∅

/-- What filters make of one footage. -/
noncomputable def runs (filters : List Filter) (F : Footage) : Footage :=
  filters.foldl (fun F f => f.shows [F]) F

theorem shows_single (inputs outputs : List Label) (filters : List Filter)
    (F : Footage) :
    (⟨inputs, filters, outputs⟩ : Chain).shows [F] = runs filters F := by
  have hfold : filters.foldl (fun Fs f => [f.shows Fs]) [F] =
      [runs filters F] := by
    induction filters generalizing F with
    | nil => rfl
    | cons f filters ih => exact ih (f.shows [F])
  rw [Chain.shows, hfold]
  rfl

/-! ## What a graph shows -/

/-- What the labels show agrees with every chain. -/
def Obeys (F : Label → Footage) (chains : List Chain) : Prop :=
  ∀ c ∈ chains, ∀ l ∈ c.outputs, F l = c.shows (c.inputs.map F)

/-- The streams of inputs show their recordings. -/
def Records (F : Label → Footage) : Prop :=
  ∀ k stream, F (.input k stream) = recording k

theorem Obeys.left {F : Label → Footage} {xs ys : List Chain}
    (h : Obeys F (xs ++ ys)) : Obeys F xs :=
  fun c hc => h c (List.mem_append_left ys hc)

theorem Obeys.right {F : Label → Footage} {xs ys : List Chain}
    (h : Obeys F (xs ++ ys)) : Obeys F ys :=
  fun c hc => h c (List.mem_append_right xs hc)

theorem Obeys.single {F : Label → Footage} {source l : Label}
    {filters : List Filter} (h : Obeys F [⟨[source], filters, [l]⟩]) :
    F l = runs filters (F source) := by
  rw [h _ (List.mem_singleton.2 rfl) l (List.mem_singleton.2 rfl)]
  exact shows_single ..

/-- One more chain screens what it makes at its outputs. -/
noncomputable def screen (F : Label → Footage) (c : Chain) : Label → Footage :=
  fun l => if l ∈ c.outputs then c.shows (c.inputs.map F) else F l

/-- Before any chain. -/
def streams : Label → Footage
  | .input k _ => recording k
  | .pad _ => ∅

/-- What each label of a graph shows. -/
noncomputable def footage (chains : List Chain) : Label → Footage :=
  chains.foldl screen streams

theorem footage_append_singleton (chains : List Chain) (c : Chain) :
    footage (chains ++ [c]) = screen (footage chains) c := by
  rw [footage, List.foldl_append]
  rfl

theorem footage_of_not_mem {chains : List Chain} {l : Label}
    (h : l ∉ chains.flatMap Chain.outputs) : footage chains l = streams l := by
  induction chains using List.reverseRecOn with
  | nil => rfl
  | append_singleton chains c ih =>
      rw [List.flatMap_append, List.mem_append, not_or] at h
      rw [footage_append_singleton, screen, if_neg (by simpa using h.2)]
      exact ih h.1

theorem TakenInOrder.of_append {chains more : List Chain}
    (h : TakenInOrder (chains ++ more)) : TakenInOrder chains := by
  intro n d hd l hl hpad
  have hlt := (List.getElem?_eq_some_iff.1 hd).1
  have htake : (chains ++ more).take n = chains.take n :=
    List.take_append_of_le_length (Nat.le_of_lt hlt)
  rw [← htake]
  exact h n d (by rw [List.getElem?_append_left hlt]; exact hd) l hl hpad

/-- What a chain takes is not what a later chain, or the chain itself, ends
in. -/
theorem TakenInOrder.not_mem_outputs {chains : List Chain} {c : Chain}
    (h : TakenInOrder (chains ++ [c]))
    (hdistinct : ((chains ++ [c]).flatMap Chain.outputs).Nodup)
    (hpads : ∀ l ∈ c.outputs, l.isInput = false) {d : Chain}
    (hd : d ∈ chains ++ [c]) {l : Label} (hl : l ∈ d.inputs) :
    l ∉ c.outputs := by
  intro hmem
  obtain ⟨n, hn⟩ := List.mem_iff_getElem?.1 hd
  have htaken := h n d hn l hl (hpads l hmem)
  have hlt : n < chains.length + 1 := by
    have := (List.getElem?_eq_some_iff.1 hn).1
    rwa [List.length_append] at this
  rw [List.take_append_of_le_length (Nat.le_of_lt_succ hlt)] at htaken
  rw [List.flatMap_append, List.nodup_append] at hdistinct
  refine hdistinct.2.2 l ?_ l (by simpa using hmem) rfl
  obtain ⟨e, he, hle⟩ := List.mem_flatMap.1 htaken
  exact List.mem_flatMap.2 ⟨e, List.mem_of_mem_take he, hle⟩

/-- In a graph whose pads are produced once and before they are taken, the
footage agrees with every chain. -/
theorem footage_obeys {chains : List Chain} (horder : TakenInOrder chains)
    (hdistinct : (chains.flatMap Chain.outputs).Nodup)
    (hpads : ∀ l ∈ chains.flatMap Chain.outputs, l.isInput = false) :
    Obeys (footage chains) chains := by
  induction chains using List.reverseRecOn with
  | nil => exact fun _ hc => nomatch hc
  | append_singleton chains c ih =>
      have hlast : ∀ l ∈ c.outputs, l.isInput = false := fun l hl =>
        hpads l (by simp [hl])
      -- No chain takes what the last one ends in, the last one included, so all
      -- of them see the footage that was there before it.
      have hkept : ∀ d ∈ chains ++ [c],
          d.inputs.map (screen (footage chains) c) =
            d.inputs.map (footage chains) := by
        refine fun d hd => List.map_congr_left fun l hl => ?_
        exact if_neg (horder.not_mem_outputs hdistinct hlast hd hl)
      rw [List.flatMap_append] at hdistinct hpads
      have hbefore := ih horder.of_append hdistinct.of_append_left
        fun l hl => hpads l (List.mem_append_left _ hl)
      rw [footage_append_singleton]
      intro d hd l hl
      rw [hkept d hd]
      rcases List.mem_append.1 hd with hmem | hmem
      · have hnot : l ∉ c.outputs := by
          intro hc
          rw [List.nodup_append] at hdistinct
          exact hdistinct.2.2 l (List.mem_flatMap.2 ⟨d, hmem, hl⟩) l
            (by simpa using hc) rfl
        rw [screen, if_neg hnot]
        exact hbefore d hmem l hl
      · rw [List.mem_singleton] at hmem
        subst hmem
        rw [screen, if_pos hl]

theorem footage_records {chains : List Chain}
    (hpads : ∀ l ∈ chains.flatMap Chain.outputs, l.isInput = false) :
    Records (footage chains) := by
  intro k stream
  refine footage_of_not_mem fun hmem => ?_
  cases hpads _ hmem

end FilterGraph

end Cutlist
