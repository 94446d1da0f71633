import Cutlist.FilterGraph

/-!
# What a build action leaves behind

A graph is put together by actions that may fail, and each of them is
specified by what it returns and what it leaves: from a graph that meets one
condition, an action either returns a value and a graph that meet another, or
fails, and then there is an `excuse`. The excuse says what has to be wrong for
an action to fail, so that one proof gives both halves: what a returned graph
is like, and that a project with nothing wrong gets one.

The rules are those of the monad, one for each primitive action, and one for
each of the two loops, which carry an invariant.
-/

namespace Cutlist.FilterGraph

/-- From a graph an action returns what meets a condition, or it fails and
there is an excuse. -/
def Meets (excuse : Prop) {α : Type} (m : Build α) (g : FilterGraph)
    (Q : α → FilterGraph → Prop) : Prop :=
  match m.run.run g with
  | (.ok a, g') => Q a g'
  | (.error _, _) => excuse

instance decidableMeets {excuse : Prop} {α : Type} [Decidable excuse]
    (m : Build α) (g : FilterGraph) (Q : α → FilterGraph → Prop)
    [∀ a g, Decidable (Q a g)] : Decidable (Meets excuse m g Q) :=
  match h : m.run.run g with
  | (.ok a, g') => decidable_of_iff (Q a g') (by rw [Meets, h])
  | (.error _, _) => decidable_of_iff excuse (by rw [Meets, h])

namespace Meets

variable {excuse : Prop} {α β : Type} {g : FilterGraph}

theorem run_bind (m : Build α) (f : α → Build β) (g : FilterGraph) :
    (m >>= f).run.run g =
      match m.run.run g with
      | (.ok a, g') => (f a).run.run g'
      | (.error e, g') => (.error e, g') := by
  rw [ExceptT.run_bind, StateT.run_bind]
  cases h : m.run.run g with
  | mk r g' =>
      cases r with
      | ok a => rfl
      | error e => rfl

theorem pure {a : α} {Q : α → FilterGraph → Prop} (h : Q a g) :
    Meets excuse (Pure.pure a) g Q := h

theorem throw {e : BuildError} {Q : α → FilterGraph → Prop} (h : excuse) :
    Meets excuse (MonadExcept.throw e) g Q := h

theorem bind {m : Build α} {f : α → Build β} {P : α → FilterGraph → Prop}
    {Q : β → FilterGraph → Prop} (hm : Meets excuse m g P)
    (hf : ∀ a g', P a g' → Meets excuse (f a) g' Q) :
    Meets excuse (m >>= f) g Q := by
  rw [Meets] at hm ⊢
  rw [run_bind]
  cases h : m.run.run g with
  | mk r g' =>
      rw [h] at hm
      cases r with
      | ok a => exact hf a g' hm
      | error e => exact hm

theorem imp {m : Build α} {P Q : α → FilterGraph → Prop}
    (hm : Meets excuse m g P) (h : ∀ a g', P a g' → Q a g') :
    Meets excuse m g Q := by
  rw [Meets] at hm ⊢
  split at hm
  · next heq => exact h _ _ hm
  · exact hm

/-- What is returned meets both conditions, whatever the second one is excused
for. -/
theorem and {other : Prop} {m : Build α} {P Q : α → FilterGraph → Prop}
    (hP : Meets excuse m g P) (hQ : Meets other m g Q) :
    Meets excuse m g fun a g' => P a g' ∧ Q a g' := by
  rw [Meets] at hP hQ ⊢
  split at hP
  · next heq =>
      rw [heq] at hQ
      exact ⟨hP, hQ⟩
  · exact hP

/-- What meets a condition is what was returned. -/
theorem ran {m : Build α} {Q : α → FilterGraph → Prop} (hm : Meets excuse m g Q) :
    Meets excuse m g fun a g' => m.run.run g = (.ok a, g') ∧ Q a g' := by
  rw [Meets] at hm ⊢
  split at hm
  · next heq => exact ⟨heq, hm⟩
  · exact hm

/-- Another excuse does as well if it covers the first one. -/
theorem excused {other : Prop} {m : Build α} {Q : α → FilterGraph → Prop}
    (hm : Meets excuse m g Q) (h : excuse → other) : Meets other m g Q := by
  rw [Meets] at hm ⊢
  split at hm
  · exact hm
  · exact h hm

theorem map {m : Build α} {f : α → β} {Q : β → FilterGraph → Prop}
    (hm : Meets excuse m g fun a g' => Q (f a) g') :
    Meets excuse (f <$> m) g Q := by
  rw [map_eq_pure_bind]
  exact bind hm fun a g' h => pure h

theorem get {Q : FilterGraph → FilterGraph → Prop} (h : Q g g) :
    Meets excuse MonadState.get g Q := h

/-! ## The primitive actions -/

theorem fresh {stem : String} {Q : Label → FilterGraph → Prop}
    (hstem : isStem stem = true)
    (h : Q (.pad s!"{stem}{count g.used stem}")
      { g with used := countUp stem g.used }) :
    Meets excuse (FilterGraph.fresh stem) g Q := by
  rw [FilterGraph.fresh, if_pos hstem]
  exact h

theorem addInput {input : Input} {Q : Nat → FilterGraph → Prop}
    (h : Q g.inputs.length { g with inputs := g.inputs ++ [input] }) :
    Meets excuse (FilterGraph.addInput input) g Q := h

theorem addChain {inputs : List Label} {filters : List Filter}
    {outputs : List Label} {Q : Unit → FilterGraph → Prop}
    (h : Q () { g with chains := g.chains ++ [⟨inputs, filters, outputs⟩] }) :
    Meets excuse (FilterGraph.addChain inputs filters outputs) g Q := h

/-! ## Loops -/

/-- Values are made one after another; the invariant sees those that were made
and what is still to come. -/
theorem mapM {f : α → Build β} (inv : List β → List α → FilterGraph → Prop)
    (step : ∀ done x todo g, inv done (x :: todo) g →
      Meets excuse (f x) g fun y g' => inv (done ++ [y]) todo g')
    {xs : List α} (h : inv [] xs g) :
    Meets excuse (xs.mapM f) g fun ys g' => inv ys [] g' := by
  have after : ∀ (todo : List α) done g, inv done todo g →
      Meets excuse (todo.mapM f) g fun ys g' => inv (done ++ ys) [] g' := by
    intro todo
    induction todo with
    | nil =>
        intro done g h
        rw [List.mapM_nil]
        refine pure ?_
        rw [List.append_nil]
        exact h
    | cons x todo ih =>
        intro done g h
        rw [List.mapM_cons]
        refine bind (step done x todo g h) fun y g' hy => ?_
        refine bind (ih _ g' hy) fun ys g'' hys => pure ?_
        rw [List.append_assoc] at hys
        exact hys
  exact after xs [] g h

/-- One value is taken through a list; the invariant sees what is still to
come. -/
theorem foldlM {f : β → α → Build β} (inv : β → List α → FilterGraph → Prop)
    (step : ∀ b x todo g, inv b (x :: todo) g →
      Meets excuse (f b x) g fun b' g' => inv b' todo g')
    {b : β} {xs : List α} (h : inv b xs g) :
    Meets excuse (xs.foldlM f b) g fun b' g' => inv b' [] g' := by
  induction xs generalizing b g with
  | nil => exact pure h
  | cons x xs ih =>
      rw [List.foldlM_cons]
      exact bind (step b x xs g h) fun b' g' hb => ih hb

/-- An action for a value that may be missing. -/
theorem optionMapM {f : α → Build β} {x : Option α}
    {Q : Option β → FilterGraph → Prop} (hnone : x = none → Q none g)
    (hsome : ∀ a, x = some a →
      Meets excuse (f a) g fun b g' => Q (some b) g') :
    Meets excuse (x.mapM f) g Q := by
  cases x with
  | none => exact hnone rfl
  | some a => exact map (hsome a rfl)

end Meets

end Cutlist.FilterGraph
