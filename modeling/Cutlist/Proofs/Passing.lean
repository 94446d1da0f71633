import Cutlist.Proofs.ShownPicture

/-!
# Pictures and sound keep to their own chains

A chain works on one kind of stream, picture or sound, from what it takes to
what it ends in, and every stage of an export keeps to the kind of the label
that it is given. That cannot be read off a label, since a pad says nothing of
what it carries, so it is proved of names first: those of pads with sound begin
with an `a`, and no other.

`Passes` says what one stage makes of one label. Its chains are of one kind,
what they draw is known, and the label that comes out is either the one that
went in, with nothing done to it, or what the last chain ends in. Stages that
pass a label on compose.
-/

namespace Cutlist

open FilterGraph Render Export

namespace FilterGraph

/-! ## Filters and chains of one kind -/

/-- The kind of stream that a filter works on. -/
def Filter.stream : Filter → Stream
  | .trim stream _ _ | .restart stream | .concat stream _ => stream
  | .tempo .. | .delay _ | .volume _ | .highpass _ | .splitAudio _ | .duck
  | .mix => .audio
  | _ => .video

/-- A filter of which nothing but a colour and a caption was written by
somebody else. -/
def Filter.Authored : Filter → Prop
  | .verbatim _ => False
  | .delay milliseconds => ∃ o : Offset, milliseconds = o.toText
  | _ => True

/-- A filter that draws a rectangle or a caption. -/
def Filter.isDrawing (f : Filter) : Bool := f.window?.isSome

/-- A filter that draws nothing. -/
structure Filter.Routine (s : Stream) (f : Filter) : Prop where
  stream : f.stream = s
  authored : f.Authored
  drawless : f.isDrawing = false

/-- The kind of stream that a name stands for. -/
def Label.stream : Label → Stream
  | .input _ stream => stream
  | .pad name => if name.toList.head? = some 'a' then .audio else .video

/-- A chain that works on one kind of stream. -/
structure Chain.On (s : Stream) (c : Chain) : Prop where
  nonempty : c.filters ≠ []
  filters : ∀ f ∈ c.filters, f.stream = s ∧ f.Authored
  labels : ∀ l ∈ c.inputs ++ c.outputs, l.stream = s
  pads : ∀ l ∈ c.outputs, l.isInput = false

/-- The drawings of chains, in order. -/
def drawn (chains : List Chain) : List Filter :=
  (chains.flatMap Chain.filters).filter Filter.isDrawing

theorem drawn_append (xs ys : List Chain) :
    drawn (xs ++ ys) = drawn xs ++ drawn ys := by
  rw [drawn, List.flatMap_append, List.filter_append]
  rfl

theorem drawn_singleton (c : Chain) :
    drawn [c] = c.filters.filter Filter.isDrawing := by
  rw [drawn, List.flatMap_singleton]

theorem drawn_of_routine {s : Stream} {chains : List Chain}
    (h : ∀ c ∈ chains, ∀ f ∈ c.filters, f.Routine s) : drawn chains = [] := by
  rw [drawn, List.filter_eq_nil_iff]
  intro f hf
  obtain ⟨c, hc, hmem⟩ := List.mem_flatMap.1 hf
  rw [(h c hc f hmem).drawless]
  exact Bool.false_ne_true

/-- A pad stands for what its stem stands for, whatever its number is. -/
theorem stream_padName {stem : String} (h : isStem stem = true) (n : Nat) :
    (Label.pad (padName stem n)).stream = (Label.pad stem).stream := by
  have hne : stem.toList ≠ [] := by
    intro hnil
    rw [isStem, hnil] at h
    cases h
  obtain ⟨c, cs, hstem⟩ := List.exists_cons_of_ne_nil hne
  rw [Label.stream, Label.stream, toList_padName, hstem]
  rfl

/-- One label is passed on as another by chains of one kind. -/
structure Passes (s : Stream) (drawing : List Filter) (source l : Label)
    (new : List Chain) : Prop where
  on : ∀ c ∈ new, c.On s
  stream : l.stream = s
  drawn : drawn new = drawing
  ends : (l = source ∧ new = []) ∨
    ∃ front c, new = front ++ [c] ∧ c.outputs = [l]

namespace Passes

variable {s : Stream} {d e : List Filter} {source l l' : Label}
variable {new more : List Chain}

theorem refl (h : l.stream = s) : Passes s [] l l [] :=
  ⟨(fun _ hc => nomatch hc), h, rfl, .inl ⟨rfl, rfl⟩⟩

theorem trans (h : Passes s d source l new) (h' : Passes s e l l' more) :
    Passes s (d ++ e) source l' (new ++ more) where
  on := List.forall_mem_append.2 ⟨h.on, h'.on⟩
  stream := h'.stream
  drawn := by rw [drawn_append, h.drawn, h'.drawn]
  ends := by
    rcases h'.ends with ⟨rfl, rfl⟩ | ⟨front, c, hmore, hc⟩
    · rw [List.append_nil]
      exact h.ends
    · exact .inr ⟨new ++ front, c, by rw [hmore, List.append_assoc], hc⟩

/-- A label that a chain ends in comes from that chain, whatever went in. -/
theorem of_ne_nil (h : Passes s d source l new) (hne : new ≠ [])
    (other : Label) : Passes s d other l new :=
  { h with ends := .inr (h.ends.resolve_left fun hnone => hne hnone.2) }

theorem behind (h : Passes s d source l new) (hne : new ≠ [])
    {before : List Chain} (hbefore : ∀ c ∈ before, c.On s) (other : Label) :
    Passes s (FilterGraph.drawn before ++ d) other l (before ++ new) where
  on := List.forall_mem_append.2 ⟨hbefore, h.on⟩
  stream := h.stream
  drawn := by rw [drawn_append, h.drawn]
  ends := by
    obtain ⟨front, c, hnew, hc⟩ := h.ends.resolve_left fun hnone => hne hnone.2
    exact .inr ⟨before ++ front, c, by rw [hnew, List.append_assoc], hc⟩

end Passes

/-! ## Actions -/

namespace Adds

variable {excuse : Prop} {α β : Type}

theorem and {other : Prop} {m : Build α} {P Q : α → List Chain → Prop}
    (hP : Adds excuse m P) (hQ : Adds other m Q) :
    Adds excuse m fun a new => P a new ∧ Q a new := by
  intro g
  refine ((hP g).and (hQ g)).imp
    fun a g' ⟨⟨new, hnew, ha⟩, new', hnew', ha'⟩ => ⟨new, hnew, ha, ?_⟩
  obtain rfl := List.append_cancel_left (hnew.symm.trans hnew')
  exact ha'

theorem mapM_forall {f : α → Build β} {P : Chain → Prop}
    (hf : ∀ x, Adds excuse (f x) fun _ new => ∀ c ∈ new, P c) (xs : List α) :
    Adds excuse (xs.mapM f) fun _ new => ∀ c ∈ new, P c := by
  induction xs with
  | nil => exact .pure fun _ hc => nomatch hc
  | cons x xs ih =>
      rw [List.mapM_cons]
      refine .bind (hf x) fun y new hnew => .bind ih fun ys more hmore => .pure ?_
      rw [List.append_nil]
      exact List.forall_mem_append.2 ⟨hnew, hmore⟩

end Adds

section Actions

variable {excuse : Prop} {s : Stream} {source : Label} {sources : List Label}
variable {filters : List Filter} {stem : String}

theorem fresh_on (hstem : isStem stem = true)
    (hs : (Label.pad stem).stream = s) :
    Adds excuse (fresh stem) fun l new =>
      new = [] ∧ l.stream = s ∧ l.isInput = false :=
  fun g => .fresh hstem ⟨[], (List.append_nil _).symm, rfl,
    (stream_padName hstem (count g.used stem)).trans hs, rfl⟩

theorem join_on (hstem : isStem stem = true)
    (hs : (Label.pad stem).stream = s) (hne : filters ≠ [])
    (hfilters : ∀ f ∈ filters, f.stream = s ∧ f.Authored)
    (hsources : ∀ l ∈ sources, l.stream = s) :
    Adds excuse (join sources filters stem) fun l new => l.stream = s ∧
      new = [⟨sources, filters, [l]⟩] ∧
      Chain.On s ⟨sources, filters, [l]⟩ := by
  refine .bind (fresh_on hstem hs) fun l new ⟨hnew, hl, hpad⟩ => ?_
  subst hnew
  refine .bind (.addChain (P := fun _ new => new = [⟨sources, filters, [l]⟩]) rfl)
    fun _ new hnew => .pure ⟨hl, by rw [hnew]; rfl, ?_⟩
  exact
    { nonempty := hne
      filters := hfilters
      labels := List.forall_mem_append.2
        ⟨hsources, List.forall_mem_singleton.2 hl⟩
      pads := List.forall_mem_singleton.2 hpad }

theorem join_passes (hstem : isStem stem = true)
    (hs : (Label.pad stem).stream = s) (hne : filters ≠ [])
    (hfilters : ∀ f ∈ filters, f.stream = s ∧ f.Authored)
    (hsources : ∀ l ∈ sources, l.stream = s) (source : Label) :
    Adds excuse (join sources filters stem) fun l new =>
      Passes s (filters.filter Filter.isDrawing) source l new ∧ new ≠ [] := by
  refine (join_on hstem hs hne hfilters hsources).imp
    fun l new ⟨hl, hnew, hon⟩ => ?_
  subst hnew
  exact ⟨⟨List.forall_mem_singleton.2 hon, hl, drawn_singleton _,
    .inr ⟨[], _, rfl, rfl⟩⟩, List.cons_ne_nil _ _⟩

theorem Filter.drawless_of_routine
    (h : ∀ f ∈ filters, f.Routine s) :
    filters.filter Filter.isDrawing = [] := by
  rw [List.filter_eq_nil_iff]
  intro f hf
  rw [(h f hf).drawless]
  exact Bool.false_ne_true

theorem join_routine (hstem : isStem stem = true)
    (hs : (Label.pad stem).stream = s) (hne : filters ≠ [])
    (hfilters : ∀ f ∈ filters, f.Routine s)
    (hsources : ∀ l ∈ sources, l.stream = s) (source : Label) :
    Adds excuse (join sources filters stem) fun l new =>
      Passes s [] source l new ∧ new ≠ [] := by
  rw [← Filter.drawless_of_routine hfilters]
  exact join_passes hstem hs hne
    (fun f hf => ⟨(hfilters f hf).stream, (hfilters f hf).authored⟩) hsources
    source

theorem join_one (f : Filter) (hf : f.Routine s) (hstem : isStem stem = true)
    (hs : (Label.pad stem).stream = s) (hsources : ∀ l ∈ sources, l.stream = s)
    (source : Label) :
    Adds excuse (join sources [f] stem) fun l new =>
      Passes s [] source l new ∧ new ≠ [] :=
  join_routine hstem hs (List.cons_ne_nil _ _) (List.forall_mem_singleton.2 hf)
    hsources source

theorem chain_routine (hstem : isStem stem = true)
    (hs : (Label.pad stem).stream = s) (hne : filters ≠ [])
    (hfilters : ∀ f ∈ filters, f.Routine s) (hsource : source.stream = s) :
    Adds excuse (chain source filters stem) fun l new =>
      Passes s [] source l new ∧ new ≠ [] :=
  join_routine hstem hs hne hfilters (List.forall_mem_singleton.2 hsource) source

theorem chain_one (f : Filter) (hf : f.Routine s) (hstem : isStem stem = true)
    (hs : (Label.pad stem).stream = s) (hsource : source.stream = s) :
    Adds excuse (chain source [f] stem) fun l new =>
      Passes s [] source l new ∧ new ≠ [] :=
  join_one f hf hstem hs (List.forall_mem_singleton.2 hsource) source

theorem chain_draws (f : Filter) (hf : f.stream = s ∧ f.Authored)
    (hdraws : f.isDrawing = true) (hstem : isStem stem = true)
    (hs : (Label.pad stem).stream = s) (hsource : source.stream = s) :
    Adds excuse (chain source [f] stem) (Passes s [f] source) := by
  refine (join_passes hstem hs (List.cons_ne_nil _ _)
    (List.forall_mem_singleton.2 hf) (List.forall_mem_singleton.2 hsource)
    source).imp fun l new ⟨hpasses, _⟩ => ?_
  rw [List.filter_cons_of_pos hdraws] at hpasses
  exact hpasses

/-- Stages that pass a label on, one after another. -/
theorem Passes.bind {m : Build Label} {f : Label → Build Label}
    {d e : List Filter} (hm : Adds excuse m (Passes s d source))
    (hf : ∀ l, l.stream = s → Adds excuse (f l) (Passes s e l)) :
    Adds excuse (m >>= f) (Passes s (d ++ e) source) :=
  .bind hm fun l _ h => (hf l h.stream).imp fun _ _ h' => h.trans h'

end Actions

end FilterGraph

end Cutlist
