import Cutlist.Proofs.Growing
import Mathlib.Data.List.Forall2

/-!
# Two builds side by side

Projects that differ in little are built side by side, and the graphs that come
out are shown to differ in as little. What a stage does never depends on the
chains before its own, so two builds that do the same go on alike from graphs
that are alike; the one place where the chains are looked at is where a video
asks whether there are any.

When chains are alike is left open. Of a likeness it is asked that everything is
like itself, that what is alike stays so behind the same chains, and that an
empty list is like no other.
-/

namespace Cutlist.FilterGraph

/-! ## Stages do not look back -/

/-- A graph with other chains in front of its own. -/
def precededBy (before : List Chain) (g : FilterGraph) : FilterGraph :=
  { g with chains := before ++ g.chains }

/-- Whatever chains there are already, an action does the same. -/
theorem Made.run_precededBy {α : Type} {m : Build α} (h : Made m)
    (before : List Chain) (g : FilterGraph) :
    m.run.run (g.precededBy before) =
      ((m.run.run g).1, (m.run.run g).2.precededBy before) := by
  induction h generalizing g with
  | pure => rfl
  | throw => rfl
  | @bind β γ m f _ _ ihm ihf =>
      rw [Meets.run_bind, Meets.run_bind, ihm]
      cases m.run.run g with
      | mk result g' =>
          cases result with
          | ok a => exact ihf a g'
          | error e => rfl
  | fresh =>
      rw [FilterGraph.fresh]
      split
      · rfl
      · rfl
  | addChain =>
      exact congrArg (fun chains => ((.ok () : Except BuildError Unit),
        { g with chains := chains })) (List.append_assoc ..)

/-! ## Graphs that are alike -/

/-- A way in which the chains of graphs may be alike. -/
class Likeness (R : List Chain → List Chain → Prop) : Prop where
  refl : ∀ chains, R chains chains
  append : ∀ {xs ys : List Chain}, R xs ys → ∀ zs, R (xs ++ zs) (ys ++ zs)
  isEmpty : ∀ {xs ys : List Chain}, R xs ys → xs.isEmpty = ys.isEmpty

/-- Graphs that are the same except for chains that are alike. -/
structure Beside (R : List Chain → List Chain → Prop) (g g' : FilterGraph) :
    Prop where
  inputs : g.inputs = g'.inputs
  used : g.used = g'.used
  chains : R g.chains g'.chains

/-- From two graphs two actions come to the same, and to graphs that are alike. -/
def Agree (R : List Chain → List Chain → Prop) {α : Type} (m m' : Build α)
    (g g' : FilterGraph) : Prop :=
  (m.run.run g).1 = (m'.run.run g').1 ∧ Beside R (m.run.run g).2 (m'.run.run g').2

/-- Two actions that agree wherever they start. -/
def Twins (R : List Chain → List Chain → Prop) {α : Type} (m m' : Build α) :
    Prop :=
  ∀ g, Agree R m m' g g

/-- Two actions that agree wherever they start from graphs that are alike. -/
def Alongside (R : List Chain → List Chain → Prop) {α : Type} (m m' : Build α) :
    Prop := ∀ g g', Beside R g g' → Agree R m m' g g'

section Rules

variable {R : List Chain → List Chain → Prop} {α β : Type} {m m' : Build α}
variable {f f' : α → Build β}

theorem Agree.bind {g g' : FilterGraph} (hm : Agree R m m' g g')
    (hf : ∀ a, Alongside R (f a) (f' a)) :
    Agree R (m >>= f) (m' >>= f') g g' := by
  obtain ⟨hresult, hbeside⟩ := hm
  rw [Agree, Meets.run_bind, Meets.run_bind]
  revert hresult hbeside
  cases m.run.run g with
  | mk result h =>
      cases m'.run.run g' with
      | mk result' h' =>
          rintro rfl hbeside
          cases result with
          | ok a => exact hf a h h' hbeside
          | error e => exact ⟨rfl, hbeside⟩

theorem Alongside.bind (hm : Alongside R m m')
    (hf : ∀ a, Alongside R (f a) (f' a)) :
    Alongside R (m >>= f) (m' >>= f') := fun g g' h => (hm g g' h).bind hf

theorem Alongside.pure {a : α} : Alongside R (Pure.pure a) (Pure.pure a) :=
  fun _ _ hbeside => ⟨rfl, hbeside⟩

theorem Alongside.map {k : α → β} (hm : Alongside R m m') :
    Alongside R (k <$> m) (k <$> m') := by
  rw [map_eq_pure_bind, map_eq_pure_bind]
  exact hm.bind fun _ => .pure

theorem Alongside.mapM {γ : Type} {k : α → Build β} {k' : γ → Build β}
    {like : α → γ → Prop} (hk : ∀ x y, like x y → Alongside R (k x) (k' y))
    {xs : List α} {ys : List γ} (h : List.Forall₂ like xs ys) :
    Alongside R (xs.mapM k) (ys.mapM k') := by
  induction h with
  | nil => exact .pure
  | cons hxy _ ih =>
      rw [List.mapM_cons, List.mapM_cons]
      exact (hk _ _ hxy).bind fun _ => ih.bind fun _ => .pure

theorem Twins.bind (hm : Twins R m m') (hf : ∀ a, Alongside R (f a) (f' a)) :
    Twins R (m >>= f) (m' >>= f') := fun g => (hm g).bind hf

/-- There are chains in the one graph just when there are in the other. -/
theorem Alongside.ifEmpty [Likeness R] {k k' : Build α}
    (hm : Alongside R m m') (hk : Alongside R k k') :
    Alongside R
      (MonadState.get >>= fun seen : FilterGraph =>
        if seen.isEmpty = true then m else k)
      (MonadState.get >>= fun seen : FilterGraph =>
        if seen.isEmpty = true then m' else k') := by
  intro g g' hbeside
  have hempty : g.isEmpty = g'.isEmpty := Likeness.isEmpty hbeside.chains
  have hrun (a b : Build α) (h : FilterGraph) :
      (MonadState.get >>= fun seen : FilterGraph =>
        if seen.isEmpty = true then a else b).run.run h =
        if h.isEmpty = true then a.run.run h else b.run.run h := by
    rw [Meets.run_bind]
    show (if h.isEmpty = true then a else b).run.run h = _
    split <;> rfl
  rw [Agree, hrun, hrun, hempty]
  split
  · exact hm g g' hbeside
  · exact hk g g' hbeside

variable [Likeness R]

theorem Beside.refl (g : FilterGraph) : Beside R g g :=
  ⟨rfl, rfl, Likeness.refl _⟩

theorem Alongside.twins (h : Alongside R m m') : Twins R m m' :=
  fun g => h g g (.refl g)

theorem Twins.refl (m : Build α) : Twins R m m := fun _ => ⟨rfl, .refl _⟩

/-- What comes first is the same. -/
theorem Twins.after (hf : ∀ a, Twins R (f a) (f' a)) :
    Twins R (m >>= f) (m >>= f') := by
  intro g
  rw [Agree, Meets.run_bind, Meets.run_bind]
  cases m.run.run g with
  | mk result g' =>
      cases result with
      | ok a => exact hf a g'
      | error e => exact ⟨rfl, .refl _⟩

/-- An action that only adds chains agrees with itself. -/
theorem Made.alongside (h : Made m) : Alongside R m m := by
  intro g g' hbeside
  have hg : g = precededBy g.chains { g with chains := [] } := by
    rw [precededBy, List.append_nil]
  have hg' : g' = precededBy g'.chains { g with chains := [] } := by
    rw [precededBy, List.append_nil, hbeside.inputs, hbeside.used]
  rw [Agree, hg, hg', h.run_precededBy, h.run_precededBy]
  exact ⟨rfl, rfl, rfl, Likeness.append hbeside.chains _⟩

end Rules

end Cutlist.FilterGraph
