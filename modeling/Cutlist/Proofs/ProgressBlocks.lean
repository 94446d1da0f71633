import Cutlist.Proofs.BreakingOff

/-!
# Progress is reported block by block

Reading goes line by line and keeps the block that was begun. What the listener
hears can be told without that state: the lines are fields, the fields are cut
after each that ends a block, and each block reports by itself. The state is the
block that was begun, the latest field first, so a block is looked up from its
end; that is where the last value of a name comes from.
-/

namespace Cutlist

namespace Run

/-! ## Fields -/

/-- The name and the value on a line, blanks around it aside: the name ends at the
first sign of equality. -/
structure Names (line : String) (field : String × String) : Prop where
  spelled : (Text.trim line).toList = field.1.toList ++ '=' :: field.2.toList
  first : '=' ∉ field.1.toList

/-- What some lines say. A line without a sign of equality is passed over. -/
inductive Say : List String → List (String × String) → Prop
  | nil : Say [] []
  | plain {line : String} {lines : List String} {fields : List (String × String)}
      (h : '=' ∉ (Text.trim line).toList) (rest : Say lines fields) :
      Say (line :: lines) fields
  | field {line : String} {lines : List String} {fields : List (String × String)}
      {field : String × String} (h : Names line field) (rest : Say lines fields) :
      Say (line :: lines) (field :: fields)

section Lines

variable {line name value : String} {field : String × String}
variable {lines : List String} {fields : List (String × String)}

theorem bne_of_notMem {cs : List Char} (h : '=' ∉ cs) :
    ∀ c ∈ cs, (c != '=') = true := by
  intro c hc
  refine bne_iff_ne.2 fun heq => h ?_
  rwa [← heq]

/-- A line is taken apart at its first sign of equality. -/
theorem field?_of_split
    (hline : (Text.trim line).toList = name.toList ++ '=' :: value.toList)
    (hname : '=' ∉ name.toList) : field? line = some (name, value) := by
  have hpass := bne_of_notMem hname
  rw [field?, hline, List.dropWhile_append_of_pos hpass,
    List.takeWhile_append_of_pos hpass]
  change some (String.ofList (name.toList ++ []), String.ofList value.toList) = _
  rw [List.append_nil, String.ofList_toList, String.ofList_toList]

theorem field?_of_notMem (h : '=' ∉ (Text.trim line).toList) :
    field? line = none := by
  rw [field?, ← List.append_nil (Text.trim line).toList,
    List.dropWhile_append_of_pos (bne_of_notMem h)]
  rfl

theorem exists_names (h : '=' ∈ (Text.trim line).toList) :
    ∃ field, Names line field := by
  obtain ⟨name, value, hsplit, hname⟩ := List.eq_append_cons_of_mem h
  refine ⟨(String.ofList name, String.ofList value), ?_, ?_⟩
  · rw [String.toList_ofList, String.toList_ofList, hsplit]
  · rwa [String.toList_ofList]

theorem field?_eq_some_iff : field? line = some field ↔ Names line field := by
  refine ⟨fun h => ?_, fun h => field?_of_split h.spelled h.first⟩
  by_cases hmem : '=' ∈ (Text.trim line).toList
  · obtain ⟨field', hnames⟩ := exists_names hmem
    have hsame := h.symm.trans (field?_of_split hnames.spelled hnames.first)
    rwa [Option.some.inj hsame]
  · exact nomatch h.symm.trans (field?_of_notMem hmem)

theorem field?_eq_none_iff :
    field? line = none ↔ '=' ∉ (Text.trim line).toList := by
  refine ⟨fun h hmem => ?_, field?_of_notMem⟩
  obtain ⟨field, hnames⟩ := exists_names hmem
  exact nomatch h.symm.trans (field?_eq_some_iff.2 hnames)

theorem say_iff : Say lines fields ↔ fields = lines.filterMap field? := by
  constructor
  · intro h
    induction h with
    | nil => rfl
    | plain h _ ih => rw [List.filterMap_cons_none (field?_eq_none_iff.2 h), ih]
    | field h _ ih => rw [List.filterMap_cons_some (field?_eq_some_iff.2 h), ih]
  · intro h
    subst h
    induction lines with
    | nil => exact .nil
    | cons line lines ih =>
        cases hfield : field? line with
        | none =>
            rw [List.filterMap_cons_none hfield]
            exact .plain (field?_eq_none_iff.1 hfield) ih
        | some field =>
            rw [List.filterMap_cons_some hfield]
            exact .field (field?_eq_some_iff.1 hfield) ih

end Lines

/-! ## Blocks -/

/-- None of the fields ends a block. -/
def IsOpen (fields : List (String × String)) : Prop :=
  ∀ f ∈ fields, f.1 ≠ "progress"

/-- Fields cut into blocks, each up to the first field that ends a block, and the
rest, which is not ended. -/
structure CutInto (fields : List (String × String))
    (bs : List (List (String × String))) (rest : List (String × String)) :
    Prop where
  whole : bs.flatten ++ rest = fields
  closed : ∀ b ∈ bs, ∃ init value, b = init ++ [("progress", value)] ∧ IsOpen init
  unfinished : IsOpen rest

section Blocks

variable {fields rest rest' init : List (String × String)}
variable {bs bs' : List (List (String × String))}

theorem cutBlocks_open (h : IsOpen init) (begun : Fields)
    (fields : List (String × String)) :
    cutBlocks begun (init ++ fields) =
      cutBlocks (init.reverse ++ begun) fields := by
  induction init generalizing begun with
  | nil => rfl
  | cons f init ih =>
      obtain ⟨hf, hinit⟩ := List.forall_mem_cons.1 h
      rw [List.cons_append, cutBlocks, if_neg hf, ih hinit, List.reverse_cons,
        List.append_assoc, List.singleton_append]

/-- The blocks are those that are read, from their ends. -/
theorem CutInto.cutBlocks_eq (h : CutInto fields bs rest) :
    cutBlocks [] fields = bs.map List.reverse := by
  induction bs generalizing fields with
  | nil =>
      rw [← h.whole, List.flatten_nil, List.nil_append, ← List.append_nil rest,
        cutBlocks_open h.unfinished]
      rfl
  | cons b bs ih =>
      obtain ⟨⟨init, value, rfl, hinit⟩, hclosed⟩ :=
        List.forall_mem_cons.1 h.closed
      have hrest := ih ⟨rfl, hclosed, h.unfinished⟩
      rw [← h.whole, List.flatten_cons, List.append_assoc, List.append_assoc,
        cutBlocks_open hinit, List.append_nil, List.singleton_append, cutBlocks,
        if_pos rfl, hrest, List.map_cons, List.reverse_append]
      rfl

theorem CutInto.unique (h : CutInto fields bs rest)
    (h' : CutInto fields bs' rest') : bs' = bs := by
  have hsame : bs'.map List.reverse = bs.map List.reverse :=
    h'.cutBlocks_eq.symm.trans h.cutBlocks_eq
  exact List.map_injective_iff.2 List.reverse_injective hsame

theorem exists_cutInto (fields : List (String × String)) :
    ∃ bs rest, CutInto fields bs rest := by
  induction fields with
  | nil => exact ⟨[], [], rfl, nofun, nofun⟩
  | cons f fields ih =>
      obtain ⟨bs, rest, hcut⟩ := ih
      by_cases hf : f.1 = "progress"
      · refine ⟨[f] :: bs, rest, ?_, ?_, hcut.unfinished⟩
        · rw [List.flatten_cons, List.append_assoc, hcut.whole,
            List.singleton_append]
        · exact List.forall_mem_cons.2 ⟨⟨[], f.2, by rw [← hf]; rfl, nofun⟩,
            hcut.closed⟩
      -- A field that ends no block stands first in the block that comes, or in the rest.
      · cases bs with
        | nil =>
            refine ⟨[], f :: rest, ?_, nofun,
              List.forall_mem_cons.2 ⟨hf, hcut.unfinished⟩⟩
            rw [← hcut.whole]
            rfl
        | cons b bs =>
            obtain ⟨⟨init, value, rfl, hinit⟩, hclosed⟩ :=
              List.forall_mem_cons.1 hcut.closed
            refine ⟨(f :: init ++ [("progress", value)]) :: bs, rest, ?_, ?_,
              hcut.unfinished⟩
            · rw [← hcut.whole]
              rfl
            · exact List.forall_mem_cons.2
                ⟨⟨f :: init, value, rfl, List.forall_mem_cons.2 ⟨hf, hinit⟩⟩, hclosed⟩

end Blocks

/-- The blocks that are complete on some lines. -/
def OnLines (lines : List String) (bs : List (List (String × String))) : Prop :=
  ∃ fields rest, Say lines fields ∧ CutInto fields bs rest

theorem existsUnique_onLines (lines : List String) : ∃! bs, OnLines lines bs := by
  obtain ⟨bs, rest, hcut⟩ := exists_cutInto (lines.filterMap field?)
  refine ⟨bs, ⟨_, rest, say_iff.2 rfl, hcut⟩, ?_⟩
  intro bs' ⟨fields, rest', hsay, hcut'⟩
  rw [say_iff.1 hsay] at hcut'
  exact hcut.unique hcut'

theorem OnLines.blocks_eq {steps : List Step} {bs : List (List (String × String))}
    (h : OnLines (steps.filterMap Step.line?) bs) :
    blocks steps = bs.map List.reverse := by
  obtain ⟨fields, rest, hsay, hcut⟩ := h
  rw [blocks, fieldsOf, ← say_iff.1 hsay]
  exact hcut.cutBlocks_eq

/-! ## One block by itself -/

/-- A block as a mapping: a field whose name comes again later is dropped. -/
def lastValues : List (String × String) → Fields
  | [] => []
  | f :: fields =>
      if f.1 ∈ fields.map Prod.fst then lastValues fields
        else f :: lastValues fields

theorem lookup_eq_none_iff {name : String} {fields : List (String × String)} :
    fields.lookup name = none ↔ name ∉ fields.map Prod.fst := by
  rw [List.lookup_eq_none_iff, List.mem_map]
  constructor
  · rintro h ⟨f, hf, hname⟩
    exact bne_iff_ne.1 (h f hf) hname.symm
  · exact fun h f hf => bne_iff_ne.2 fun heq => h ⟨f, hf, heq.symm⟩

/-- What is found first from the end of a block is the last value of the name. -/
theorem lookup_lastValues (name : String) (fields : List (String × String)) :
    (lastValues fields).lookup name = fields.reverse.lookup name := by
  induction fields with
  | nil => rfl
  | cons f fields ih =>
      obtain ⟨key, value⟩ := f
      have hlater : fields.reverse.lookup name = none ↔
          name ∉ fields.map Prod.fst := by
        rw [lookup_eq_none_iff, List.map_reverse, List.mem_reverse]
      rw [lastValues, List.reverse_cons, List.lookup_append]
      by_cases hname : name = key
      · subst hname
        split
        · next hmem =>
            obtain ⟨last, hlast⟩ := Option.ne_none_iff_exists'.1
              fun hnone => hlater.1 hnone hmem
            rw [ih, hlast]
            rfl
        · next hnew =>
            rw [hlater.2 hnew, List.lookup_cons_self]
            exact List.lookup_cons_self.symm
      · have hother : [(key, value)].lookup name = none :=
          lookup_eq_none_iff.2 fun hmem => hname (List.mem_singleton.1 hmem)
        rw [hother, Option.or_none, ← ih]
        split
        · rfl
        · rw [List.lookup_cons, beq_false_of_ne hname]

/-- What a block reports depends on no more than what is found under each name. -/
theorem Progress.ofFields_congr {a b : Fields}
    (h : ∀ name, a.lookup name = b.lookup name) (total : Option Binary64) :
    Progress.ofFields a total = Progress.ofFields b total := by
  simp only [Progress.ofFields, Block.written, Block.speed, Block.nonEmpty, h]

theorem Progress.ofFields_lastValues (b : List (String × String))
    (total : Option Binary64) :
    Progress.ofFields (lastValues b) total = Progress.ofFields b.reverse total :=
  ofFields_congr (fun name => lookup_lastValues name b) total

/-! ## What is heard -/

/-- Whether an error is a judgement about a process that was read to its end. -/
def Error.isJudgement : Error → Bool
  | .cancelled | .timedOut _ | .failed .. => true
  | .emptyCommand | .refused _ | .tooLarge | .listener => false

section Heard

variable {job : Job} {listener : Listener}

/-- A complete block that breaks nothing off is heard, or it is passed over. -/
theorem Reading.closeBlock_heard {s s' : Reading}
    (hlistener : job.listener = some listener)
    (h : s.closeBlock job = (s', none)) :
    s'.fields = [] ∧ s'.heard = s.heard ++ job.reports [s.fields] := by
  rw [closeBlock] at h
  cases hblock : Progress.ofFields s.fields job.total with
  | error fault =>
      rw [hblock] at h
      cases fault with
      | tooLarge => cases h
      | unusable =>
          cases h
          rw [reports_cons_of_error hblock]
          exact ⟨rfl, (List.append_nil s.heard).symm⟩
  | ok p =>
      rw [hblock] at h
      dsimp only at h
      rw [hlistener] at h
      dsimp only [hear] at h
      split at h
      · cases h
      · cases h
        rw [reports_cons_of_ok hblock]
        exact ⟨rfl, rfl⟩

theorem Job.reports_append (job : Job) (bs bs' : List Fields) :
    job.reports (bs ++ bs') = job.reports bs ++ job.reports bs' :=
  List.filterMap_append

/-- When reading goes on to its end, all that the blocks report is heard. -/
theorem Reading.follow_heard (hlistener : job.listener = some listener)
    (steps : List Step) {s s' : Reading} (h : follow job steps s = (s', none)) :
    s'.heard = s.heard ++ job.reports (cutBlocks s.fields (fieldsOf steps)) := by
  induction steps generalizing s with
  | nil =>
      cases h
      exact (List.append_nil _).symm
  | cons step steps ih =>
      cases step with
      -- The runner changes, but neither the block that was begun nor what was heard.
      | stop => exact ih (s := s.stop) h
      | exit => exact ih (s := s.exit) h
      | line text =>
          rw [follow] at h
          cases hfield : field? text with
          | none =>
              rw [takeLine, hfield] at h
              rw [fieldsOf_line_none hfield]
              exact ih h
          | some field =>
              rw [takeLine, hfield] at h
              rw [fieldsOf_line_some hfield, cutBlocks]
              dsimp only at h
              by_cases hprogress : field.1 = "progress"
              · rw [if_pos hprogress] at h ⊢
                rcases hclose :
                  closeBlock job { s with fields := field :: s.fields }
                  with ⟨closed, _ | why⟩
                · rw [hclose] at h
                  obtain ⟨hfields, hheard⟩ := closeBlock_heard hlistener hclose
                  rw [ih h, hheard, hfields, List.append_assoc,
                    ← job.reports_append]
                  rfl
                · rw [hclose] at h
                  cases h
              · rw [if_neg hprogress] at h ⊢
                exact ih h

end Heard

end Run

open Run

namespace Runner

variable {job : Job} {course : Course} {listener : Listener}

/-- Unless something is raised before the process is judged, the listener hears
what the blocks report, each by itself. -/
theorem heard_block_by_block (r : Runner)
    (hlistener : job.listener = some listener)
    (hread : ∀ e, (r.run job course).1.result = .error e → e.isJudgement = true) :
    (∃! bs, OnLines (course.steps.filterMap Step.line?) bs) ∧
      ∀ bs, OnLines (course.steps.filterMap Step.line?) bs →
        (r.run job course).1.heard =
          bs.filterMap fun b =>
            (Progress.ofFields (lastValues b) job.total).toOption := by
  refine ⟨existsUnique_onLines _, fun bs hbs => ?_⟩
  have hreports : job.reports (blocks course.steps) =
      bs.filterMap fun b =>
        (Progress.ofFields (lastValues b) job.total).toOption := by
    rw [hbs.blocks_eq, Job.reports, List.filterMap_map]
    simp only [Function.comp_def, Progress.ofFields_lastValues]
  rw [← hreports]
  rw [run] at hread ⊢
  split at hread
  · cases hread _ rfl
  · cases hread _ rfl
  · rw [supervise] at hread ⊢
    rcases hfollow :
      Reading.follow job course.steps { runner := start course } with
      ⟨s, _ | why⟩
    · exact Reading.follow_heard hlistener course.steps hfollow
    · rw [hfollow] at hread
      cases why with
      | tooLarge => cases hread _ rfl
      | listener => cases hread _ rfl

/-- A job with a listener that only listens. -/
def listened : Job where
  command := ["ffmpeg"]
  total := some 10
  listener := some fun _ => false

/-- Three blocks, of which the second reports nothing and the third gives a count
twice, and the beginning of a fourth. -/
def stammering : Course where
  steps := [.line "frame=150\n", .line "out_time_us=5000000\n",
    .line "speed=1.5x\n", .line "progress=continue\n", .line "frame=151\n",
    .line "out_time_us=N/A\n", .line "\n",
    .line "progress=continue\n", .line "out_time_us=5100000\n",
    .line "  out_time_us=10000000\n", .line "progress=end\n", .line "frame=300\n"]

theorem heard_block_by_block_stammering :
    listened.listener = some (fun _ => false) ∧
      (∀ e, (({} : Runner).run listened stammering).1.result = .error e →
        e.isJudgement = true) ∧
      (∃! bs, OnLines (stammering.steps.filterMap Step.line?) bs) ∧
      (∀ bs, OnLines (stammering.steps.filterMap Step.line?) bs →
        (({} : Runner).run listened stammering).1.heard =
          bs.filterMap fun b =>
            (Progress.ofFields (lastValues b) listened.total).toOption) ∧
      (({} : Runner).run listened stammering).1.heard =
        [⟨5000, some 1.5, some 50, some 150, none, none⟩,
          ⟨10000, none, some 100, none, none, none⟩] := by
  have hok : (({} : Runner).run listened stammering).1.result = .ok "" := by
    decide +kernel
  have hread : ∀ e, (({} : Runner).run listened stammering).1.result = .error e →
      e.isJudgement = true := by
    intro e he
    cases hok.symm.trans he
  obtain ⟨hcut, hheard⟩ := heard_block_by_block {} rfl hread
  exact ⟨rfl, hread, hcut, hheard, by decide +kernel⟩

end Runner

end Cutlist
