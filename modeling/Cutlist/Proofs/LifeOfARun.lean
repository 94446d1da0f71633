import Cutlist.Proofs.BreakingOff

/-!
# The life of a run

What is asked of a process decides neither whether reading it breaks off nor
where, and what breaks off does not ask what was asked. So the two, which are
told apart, are put together for a whole run: how it ends, what is done to the
process and to its time limit, and that the runner is free afterwards, whatever
was asked of it before.
-/

namespace Cutlist

namespace Run

/-! ## What is asked of the process -/

/-- Whether a process that runs, or has ended, still runs after some steps. -/
def stillRuns (alive : Bool) (steps : List Step) : Bool :=
  alive && !steps.contains .exit

/-- What is done when a process that runs, or has ended, is asked to stop in some
steps. -/
def stopEvents : Bool → List Step → List Event
  | _, [] => []
  | alive, .line _ :: steps => stopEvents alive steps
  | _, .exit :: steps => stopEvents false steps
  | true, .stop :: steps => .terminate :: .stop true :: stopEvents true steps
  | false, .stop :: steps => .stop false :: stopEvents false steps

section Steps

variable {alive : Bool} {xs ys : List Step} {e : Event}

theorem stillRuns_append :
    stillRuns alive (xs ++ ys) = stillRuns (stillRuns alive xs) ys := by
  rw [stillRuns, stillRuns, stillRuns, List.contains_append, Bool.not_or,
    Bool.and_assoc]

theorem stillRuns_cons (x : Step) :
    stillRuns alive (x :: xs) = stillRuns (stillRuns alive [x]) xs :=
  @stillRuns_append alive [x] xs

theorem stopEvents_append : stopEvents alive (xs ++ ys) =
    stopEvents alive xs ++ stopEvents (stillRuns alive xs) ys := by
  induction xs generalizing alive with
  | nil => cases alive <;> rfl
  | cons x xs ih =>
      rw [stillRuns_cons]
      cases x with
      | line text => cases alive <;> exact ih
      | exit => cases alive <;> exact ih
      | stop =>
          cases alive
          · exact congrArg (Event.stop false :: ·) ih
          · exact congrArg (fun es => Event.terminate :: Event.stop true :: es) ih

theorem mem_stopEvents (h : e ∈ stopEvents alive xs) :
    e = .terminate ∨ ∃ done, e = .stop done := by
  induction xs generalizing alive with
  | nil => cases alive <;> cases h
  | cons x xs ih =>
      cases x with
      | line text => cases alive <;> exact ih h
      | exit => cases alive <;> exact ih h
      | stop =>
          cases alive
          · rcases List.mem_cons.1 h with rfl | h
            · exact .inr ⟨false, rfl⟩
            · exact ih h
          · rcases List.mem_cons.1 h with rfl | h
            · exact .inl rfl
            rcases List.mem_cons.1 h with rfl | h
            · exact .inr ⟨true, rfl⟩
            · exact ih h

theorem notMem_stopEvents (h : e ≠ .terminate) (h' : ∀ done, e ≠ .stop done) :
    e ∉ stopEvents alive xs := by
  intro hmem
  rcases mem_stopEvents hmem with rfl | ⟨done, rfl⟩
  · exact h rfl
  · exact h' done rfl

/-- A request is granted when the process still runs. -/
theorem stop_true_mem_iff : Event.stop true ∈ stopEvents alive xs ↔
    ∃ before after, xs = before ++ .stop :: after ∧
      stillRuns alive before = true := by
  constructor
  · intro h
    induction xs generalizing alive with
    | nil => cases alive <;> cases h
    | cons x xs ih =>
        have later : ∀ b, Event.stop true ∈ stopEvents b xs →
            stillRuns alive [x] = b → ∃ before after,
              x :: xs = before ++ .stop :: after ∧
                stillRuns alive before = true := by
          rintro b hb rfl
          obtain ⟨before, after, rfl, hruns⟩ := ih hb
          refine ⟨x :: before, after, rfl, ?_⟩
          rw [← hruns]
          exact stillRuns_cons x
        cases x with
        | line text => cases alive <;> exact later _ h rfl
        | exit => cases alive <;> exact later false h rfl
        | stop =>
            cases alive
            · exact later false (List.mem_of_ne_of_mem (by decide) h) rfl
            · exact ⟨[], xs, rfl, rfl⟩
  · rintro ⟨before, after, rfl, hruns⟩
    rw [stopEvents_append, hruns]
    exact List.mem_append_right _ (List.mem_cons_of_mem _ (List.mem_cons_self ..))

end Steps

namespace Reading

/-- What has become of the runner when some steps were read. -/
structure Asked (alive : Bool) (steps : List Step) (s s' : Reading) : Prop where
  events : s'.events = s.events ++ stopEvents alive steps
  process : s'.runner.process =
    some (if stillRuns alive steps then .running else .ended)
  stopped : s'.runner.stopped =
    (s.runner.stopped || (stopEvents alive steps).contains (.stop true))

variable {alive : Bool} {job : Job} {s s' s'' : Reading} {xs ys : List Step}

theorem Asked.trans (h : Asked alive xs s s')
    (h' : Asked (stillRuns alive xs) ys s' s'') :
    Asked alive (xs ++ ys) s s'' := by
  refine ⟨?_, ?_, ?_⟩
  · rw [h'.events, h.events, stopEvents_append, List.append_assoc]
  · rw [h'.process, stillRuns_append]
  · rw [h'.stopped, h.stopped, stopEvents_append, List.contains_append,
      Bool.or_assoc]

/-- A line is read without regard to the process. -/
theorem takeLine_same (job : Job) (text : String) (s : Reading) :
    (s.takeLine job text).1.runner = s.runner ∧
      (s.takeLine job text).1.events = s.events := by
  have hclose : ∀ s : Reading, (s.closeBlock job).1.runner = s.runner ∧
      (s.closeBlock job).1.events = s.events := by
    intro s
    rw [closeBlock]
    split
    · exact ⟨rfl, rfl⟩
    · exact ⟨rfl, rfl⟩
    · split <;> exact ⟨rfl, rfl⟩
  rw [takeLine]
  split
  · exact ⟨rfl, rfl⟩
  · dsimp only
    split
    · exact hclose _
    · exact ⟨rfl, rfl⟩

theorem follow_line {text : String} (h : s.takeLine job text = (s', none))
    (steps : List Step) :
    follow job (.line text :: steps) s = follow job steps s' := by
  rw [follow, h]

theorem follow_line_broken {text : String} {why : Break}
    (h : s.takeLine job text = (s', some why)) (steps : List Step) :
    follow job (.line text :: steps) s = (s', some why) := by
  rw [follow, h]

theorem asked_line (job : Job) (text : String)
    (hs : s.runner.process = some (if alive then .running else .ended)) :
    Asked alive [.line text] s (s.takeLine job text).1 := by
  obtain ⟨hrunner, hevents⟩ := takeLine_same job text s
  refine ⟨?_, ?_, ?_⟩
  · rw [hevents]
    cases alive <;> exact (List.append_nil _).symm
  · rw [hrunner, hs]
    cases alive <;> rfl
  · rw [hrunner]
    cases alive <;> exact (Bool.or_false _).symm

theorem asked_stop
    (hs : s.runner.process = some (if alive then .running else .ended)) :
    Asked alive [.stop] s s.stop := by
  rw [stop, Runner.stop, hs]
  cases alive
  · exact ⟨congrArg (· ++ [Event.stop false]) (List.append_nil _), hs,
      (Bool.or_false _).symm⟩
  · exact ⟨List.append_assoc .., rfl, (Bool.or_true _).symm⟩

theorem asked_exit (alive : Bool) (s : Reading) :
    Asked alive [.exit] s s.exit := by
  cases alive <;>
    exact ⟨(List.append_nil _).symm, rfl, (Bool.or_false _).symm⟩

/-- What is read of some steps: all, or up to a line at which
reading breaks off. -/
structure Reads (job : Job) (alive : Bool) (steps : List Step) (s : Reading)
    (read : List Step) : Prop where
  before : read <+: steps
  same : follow job read s = follow job steps s
  asked : Asked alive read s (follow job steps s).1
  whole : (follow job steps s).2 = none → read = steps
  broken : ∀ why, (follow job steps s).2 = some why →
    ∃ init text, read = init ++ [.line text] ∧ (follow job init s).2 = none

/-- A step at which reading goes on. -/
theorem Reads.cons {step : Step} {steps read : List Step}
    (hstep : ∀ rest, follow job (step :: rest) s = follow job rest s')
    (hasked : Asked alive [step] s s')
    (h : Reads job (stillRuns alive [step]) steps s' read) :
    Reads job alive (step :: steps) s (step :: read) := by
  refine ⟨List.cons_prefix_cons.2 ⟨rfl, h.before⟩, ?_, ?_, fun hnone => ?_,
    fun why hwhy => ?_⟩
  · rw [hstep, hstep, h.same]
  · rw [hstep]
    exact hasked.trans h.asked
  · rw [hstep] at hnone
    rw [h.whole hnone]
  · rw [hstep] at hwhy
    obtain ⟨init, text, rfl, hinit⟩ := h.broken why hwhy
    exact ⟨step :: init, text, rfl, by rw [hstep, hinit]⟩

theorem exists_reads (job : Job) (steps : List Step)
    (hs : s.runner.process = some (if alive then .running else .ended)) :
    ∃ read, Reads job alive steps s read := by
  induction steps generalizing alive s with
  | nil =>
      refine ⟨[], List.prefix_rfl, rfl, ⟨?_, ?_, ?_⟩, fun _ => rfl,
        fun why hwhy => ?_⟩
      · cases alive <;> exact (List.append_nil _).symm
      · rw [follow, hs]
        cases alive <;> rfl
      · cases alive <;> exact (Bool.or_false _).symm
      · cases hwhy
  | cons step steps ih =>
      cases step with
      | stop =>
          obtain ⟨read, hread⟩ := ih (asked_stop hs).process
          exact ⟨_, hread.cons (fun _ => rfl) (asked_stop hs)⟩
      | exit =>
          obtain ⟨read, hread⟩ := ih (asked_exit alive s).process
          exact ⟨_, hread.cons (fun _ => rfl) (asked_exit alive s)⟩
      | line text =>
          have hasked := asked_line job text hs
          rcases htaken : s.takeLine job text with ⟨s', _ | why⟩
          · rw [htaken] at hasked
            obtain ⟨read, hread⟩ := ih hasked.process
            exact ⟨_, hread.cons (follow_line htaken) hasked⟩
          · rw [htaken] at hasked
            have hfollow := follow_line_broken htaken
            refine ⟨[.line text], ⟨steps, rfl⟩, ?_, ?_, fun hnone => ?_,
              fun _ _ => ⟨[], text, rfl, rfl⟩⟩
            · rw [hfollow, hfollow]
            · rw [hfollow]
              exact hasked
            · rw [hfollow] at hnone
              cases hnone

end Reading

/-! ## How a run is judged -/

section Verdicts

variable {job : Job} {course : Course} {stopped : Bool}

theorem verdict_cancelled_iff :
    verdict job course stopped = .error .cancelled ↔ stopped = true := by
  rw [verdict]
  cases stopped with
  | true => exact ⟨fun _ => rfl, fun _ => rfl⟩
  | false =>
      refine ⟨fun h => ?_, nofun⟩
      rw [if_neg Bool.false_ne_true] at h
      split at h
      · cases h
      split at h
      · split at h <;> cases h
      · cases h

theorem verdict_timedOut_iff {limit : Binary64} :
    verdict job course stopped = .error (.timedOut limit) ↔ stopped = false ∧
      job.activeLimit = some limit ∧ limit ≤ course.elapsed ∧
        course.exitCode ≠ 0 := by
  rw [verdict]
  cases stopped with
  | true => simp
  | false =>
      by_cases hcode : course.exitCode = 0
      · simp [hcode]
      · cases hlimit : job.activeLimit with
        | none => simp [hcode]
        | some seconds =>
            by_cases hlate : seconds ≤ course.elapsed
            · simp [hcode, hlate]
              rintro rfl
              exact hlate
            · simp [hcode, hlate]
              rintro rfl
              exact hlate

theorem verdict_failed_iff {code : Int} {complaint : String} :
    verdict job course stopped = .error (.failed code complaint) ↔
      stopped = false ∧
      (∀ limit, job.activeLimit = some limit → ¬ limit ≤ course.elapsed) ∧
      course.exitCode ≠ 0 ∧ code = course.exitCode ∧
      complaint = String.join course.complaints := by
  rw [verdict]
  cases stopped with
  | true => simp
  | false =>
      by_cases hcode : course.exitCode = 0
      · simp [hcode]
      · cases hlimit : job.activeLimit with
        | none => simp [hcode, eq_comm]
        | some seconds =>
            by_cases hlate : seconds ≤ course.elapsed <;>
              simp [hcode, hlate, eq_comm]

theorem verdict_ok_iff {told : String} :
    verdict job course stopped = .ok told ↔ stopped = false ∧
      course.exitCode = 0 ∧
      told = String.join course.complaints := by
  rw [verdict]
  cases stopped with
  | true => simp
  | false =>
      by_cases hcode : course.exitCode = 0
      · simp [hcode, eq_comm]
      · cases job.activeLimit with
        | none => simp [hcode]
        | some seconds =>
            by_cases hlate : seconds ≤ course.elapsed <;> simp [hcode, hlate]

end Verdicts

/-! ## A whole run -/

/-- What is read of the steps of a process: all of them, or those up to the first
line at which the run breaks off. -/
structure ReadOf (job : Job) (steps read : List Step) : Prop where
  before : read <+: steps
  whole : Quiet job steps → read = steps
  broken : ¬ Quiet job steps → ∃ init text, read = init ++ [.line text] ∧
    Quiet job init ∧ ¬ Quiet job read

/-- What is done to a process at the end of a run: it is waited for, or it is
killed and waited for, or it has ended. -/
inductive Closing (job : Job) (course : Course) (read : List Step) :
    List Event → Prop
  | waited (h : Quiet job course.steps) : Closing job course read [.wait]
  | killed (h : ¬ Quiet job course.steps)
      (hruns : stillRuns (!course.exited) read = true) :
      Closing job course read [.kill, .wait]
  | ended (h : ¬ Quiet job course.steps)
      (hended : stillRuns (!course.exited) read = false) :
      Closing job course read []

/-- What is done to a process in a run, from its start to its end. -/
structure Account (job : Job) (course : Course) (read : List Step)
    (events : List Event) : Prop where
  readOf : ReadOf job course.steps read
  events : ∃ closing, Closing job course read closing ∧
    events = (job.activeLimit.map .limitSet).toList ++
      stopEvents (!course.exited) read ++ closing ++
      (job.activeLimit.map fun _ => .limitLifted).toList

/-- How a run of a started process ends. -/
structure Lived (job : Job) (course : Course) (read : List Step)
    (report : Report) : Prop where
  account : Account job course read report.events
  kill_iff : .kill ∈ report.events ↔
    ¬ Quiet job course.steps ∧ stillRuns (!course.exited) read = true
  finished : .wait ∈ report.events ∨ stillRuns (!course.exited) read = false
  limitSet_iff : ∀ limit, .limitSet limit ∈ report.events ↔
    job.activeLimit = some limit
  limitLifted_iff : .limitLifted ∈ report.events ↔
    ∃ limit, .limitSet limit ∈ report.events
  stop_true_iff : .stop true ∈ report.events ↔ ∃ before after,
    read = before ++ .stop :: after ∧ stillRuns (!course.exited) before = true
  broken : ¬ Quiet job course.steps → ∃ why, Blames job [] (blocks read) why ∧
    report.result = .error why.error
  cancelled_iff : Quiet job course.steps →
    (report.result = .error .cancelled ↔ .stop true ∈ report.events)
  timedOut_iff : Quiet job course.steps → ∀ limit,
    report.result = .error (.timedOut limit) ↔ .stop true ∉ report.events ∧
      job.activeLimit = some limit ∧ limit ≤ course.elapsed ∧ course.exitCode ≠ 0
  failed_iff : Quiet job course.steps → ∀ code complaint,
    report.result = .error (.failed code complaint) ↔ .stop true ∉ report.events ∧
      (∀ limit, job.activeLimit = some limit → ¬ limit ≤ course.elapsed) ∧
      course.exitCode ≠ 0 ∧ code = course.exitCode ∧
      complaint = String.join course.complaints
  succeeded_iff : Quiet job course.steps → ∀ told,
    report.result = .ok told ↔ .stop true ∉ report.events ∧ course.exitCode = 0 ∧
      told = String.join course.complaints

namespace Account

variable {job : Job} {course : Course} {read : List Step} {events : List Event}

theorem exists_mem_iff (h : Account job course read events) :
    ∃ closing, Closing job course read closing ∧ ∀ e, e ∈ events ↔
      (∃ limit, job.activeLimit = some limit ∧ e = .limitSet limit) ∨
      e ∈ stopEvents (!course.exited) read ∨ e ∈ closing ∨
      (∃ limit, job.activeLimit = some limit) ∧ e = .limitLifted := by
  obtain ⟨closing, hclosing, rfl⟩ := h.events
  refine ⟨closing, hclosing, fun e => ?_⟩
  cases job.activeLimit <;> simp

theorem kill_iff (h : Account job course read events) : .kill ∈ events ↔
    ¬ Quiet job course.steps ∧ stillRuns (!course.exited) read = true := by
  obtain ⟨closing, hclosing, hmem⟩ := h.exists_mem_iff
  have hstop : Event.kill ∉ stopEvents (!course.exited) read :=
    notMem_stopEvents (by simp) (by simp)
  rw [hmem]
  cases hclosing with
  | waited hquiet => simp [hstop, hquiet]
  | killed hquiet hruns => simp [hquiet, hruns]
  | ended hquiet hended => simp [hstop, hended]

theorem finished (h : Account job course read events) :
    .wait ∈ events ∨ stillRuns (!course.exited) read = false := by
  obtain ⟨closing, hclosing, hmem⟩ := h.exists_mem_iff
  rw [hmem]
  cases hclosing with
  | waited hquiet => simp
  | killed hquiet hruns => simp
  | ended hquiet hended => exact .inr hended

theorem limitSet_iff (h : Account job course read events) (limit : Binary64) :
    .limitSet limit ∈ events ↔ job.activeLimit = some limit := by
  obtain ⟨closing, hclosing, hmem⟩ := h.exists_mem_iff
  have hstop : Event.limitSet limit ∉ stopEvents (!course.exited) read :=
    notMem_stopEvents (by simp) (by simp)
  rw [hmem]
  cases hclosing <;> simp [hstop]

theorem limitLifted_iff (h : Account job course read events) :
    .limitLifted ∈ events ↔ ∃ limit, .limitSet limit ∈ events := by
  simp only [h.limitSet_iff]
  obtain ⟨closing, hclosing, hmem⟩ := h.exists_mem_iff
  have hstop : Event.limitLifted ∉ stopEvents (!course.exited) read :=
    notMem_stopEvents (by simp) (by simp)
  rw [hmem]
  cases hclosing <;> simp [hstop]

theorem stop_mem_iff (h : Account job course read events) (done : Bool) :
    .stop done ∈ events ↔ .stop done ∈ stopEvents (!course.exited) read := by
  obtain ⟨closing, hclosing, hmem⟩ := h.exists_mem_iff
  rw [hmem]
  cases hclosing <;> simp

theorem stop_true_iff (h : Account job course read events) :
    .stop true ∈ events ↔ ∃ before after,
      read = before ++ .stop :: after ∧
        stillRuns (!course.exited) before = true := by
  rw [h.stop_mem_iff, stop_true_mem_iff]

end Account

namespace Lived

variable {job : Job} {course : Course} {read : List Step} {report : Report}

/-- A run in which nothing broke off is judged by what was asked and how
the process ended. -/
theorem of_quiet {stopped : Bool} (h : Account job course read report.events)
    (hquiet : Quiet job course.steps)
    (hstopped : stopped = true ↔ .stop true ∈ report.events)
    (hresult : report.result = verdict job course stopped) :
    Lived job course read report := by
  have hgoing : stopped = false ↔ .stop true ∉ report.events := by
    rw [← hstopped, Bool.not_eq_true]
  refine ⟨h, h.kill_iff, h.finished, h.limitSet_iff, h.limitLifted_iff,
    h.stop_true_iff, fun hloud => absurd hquiet hloud, fun _ => ?_,
    fun _ limit => ?_,
    fun _ code complaint => ?_, fun _ told => ?_⟩
  · rw [hresult, verdict_cancelled_iff, hstopped]
  · rw [hresult, verdict_timedOut_iff, hgoing]
  · rw [hresult, verdict_failed_iff, hgoing]
  · rw [hresult, verdict_ok_iff, hgoing]

theorem of_broken {why : Break} (h : Account job course read report.events)
    (hloud : ¬ Quiet job course.steps) (hwhy : Blames job [] (blocks read) why)
    (hresult : report.result = .error why.error) : Lived job course read report :=
  ⟨h, h.kill_iff, h.finished, h.limitSet_iff, h.limitLifted_iff, h.stop_true_iff,
    fun _ => ⟨why, hwhy, hresult⟩, fun hquiet => absurd hquiet hloud,
    fun hquiet => absurd hquiet hloud, fun hquiet => absurd hquiet hloud,
    fun hquiet => absurd hquiet hloud⟩

end Lived

end Run

namespace Runner

open Run

variable {job : Job} {course : Course}

theorem start_process (course : Course) : (start course).process =
    some (if (!course.exited) = true then .running else .ended) := by
  rw [start]
  cases course.exited <;> rfl

theorem readOf_of_reads {read : List Step}
    (h : Reading.Reads job (!course.exited) course.steps
      { runner := start course } read) :
    ReadOf job course.steps read := by
  refine ⟨h.before, fun hquiet => h.whole ((Reading.follow_none_iff ..).2 hquiet),
    fun hloud => ?_⟩
  cases hbroken : (Reading.follow job course.steps { runner := start course }).2 with
  | none => exact absurd ((Reading.follow_none_iff ..).1 hbroken) hloud
  | some why =>
      obtain ⟨init, text, hread, hinit⟩ := h.broken why hbroken
      refine ⟨init, text, hread, (Reading.follow_none_iff ..).1 hinit,
        fun hquiet => ?_⟩
      have hnone := (Reading.follow_none_iff job read (start course)).2 hquiet
      rw [h.same, hbroken] at hnone
      cases hnone

/-- What is done when nothing broke off. -/
theorem supervise_quiet {s : Reading}
    (h : Reading.follow job course.steps { runner := start course } = (s, none)) :
    (supervise job course).1.result = verdict job course s.runner.stopped ∧
      (supervise job course).1.events = (job.activeLimit.map .limitSet).toList ++
        s.events ++ [.wait] ++
          (job.activeLimit.map fun _ => .limitLifted).toList := by
  rw [supervise, h]
  refine ⟨rfl, ?_⟩
  cases job.activeLimit <;> rfl

/-- What is done when the run broke off. -/
theorem supervise_broken {s : Reading} {why : Break}
    (h : Reading.follow job course.steps { runner := start course } =
      (s, some why)) :
    (supervise job course).1.result = .error why.error ∧
      (supervise job course).1.events = (job.activeLimit.map .limitSet).toList ++
        s.events ++ (abandon course s.runner).1 ++
        (job.activeLimit.map fun _ => .limitLifted).toList := by
  rw [supervise, h]
  refine ⟨rfl, ?_⟩
  cases job.activeLimit <;> rfl

/-- A run of a process that was started. -/
theorem supervise_lived (job : Job) (course : Course) :
    ∃ read, Lived job course read (supervise job course).1 := by
  obtain ⟨read, hreads⟩ := Reading.exists_reads job course.steps
    (s := { runner := start course }) (start_process course)
  have hreadOf := readOf_of_reads hreads
  have hquiet := Reading.follow_none_iff job course.steps (start course)
  have hblames := Reading.follow_endsBy job read { runner := start course }
  rw [hreads.same] at hblames
  have hasked := hreads.asked
  refine ⟨read, ?_⟩
  -- All steps tell whether something broke off, and those that were read tell why.
  rcases hfollow : Reading.follow job course.steps { runner := start course } with
    ⟨s, _ | why⟩
  · rw [hfollow] at hquiet hasked
    obtain ⟨hresult, hevents⟩ := supervise_quiet hfollow
    have hasks : s.events = stopEvents (!course.exited) read := hasked.events
    have hstopped : s.runner.stopped =
        (stopEvents (!course.exited) read).contains (.stop true) := hasked.stopped
    rw [hasks] at hevents
    have haccount : Account job course read (supervise job course).1.events :=
      ⟨hreadOf, [.wait], .waited (hquiet.1 rfl), hevents⟩
    refine .of_quiet haccount (hquiet.1 rfl) ?_ hresult
    rw [haccount.stop_mem_iff, hstopped, List.contains_iff_mem]
  · rw [hfollow] at hquiet hasked hblames
    obtain ⟨hresult, hevents⟩ := supervise_broken hfollow
    have hasks : s.events = stopEvents (!course.exited) read := hasked.events
    have hprocess : s.runner.process = some
        (if stillRuns (!course.exited) read then .running else .ended) :=
      hasked.process
    have hloud : ¬ Quiet job course.steps := by
      intro h
      cases hquiet.2 h
    have hclosing : Closing job course read (abandon course s.runner).1 := by
      rw [abandon, hprocess]
      cases hruns : stillRuns (!course.exited) read with
      | true => exact .killed hloud hruns
      | false => exact .ended hloud hruns
    rw [hasks] at hevents
    exact .of_broken ⟨hreadOf, _, hclosing, hevents⟩ hloud hblames hresult

/-! ## Runs and requests -/

theorem run_started {command : List String} (hjob : job.started? = some command)
    (hcourse : course.refusal = none) (r : Runner) :
    r.run job course = supervise job course := by
  rw [run, hjob, hcourse]

/-- What a runner is asked for: to run a job, or to stop. -/
inductive Request where
  | run (job : Job) (course : Course)
  | stop

/-- The runner after a request. -/
def perform (r : Runner) : Request → Runner
  | .run job course => (r.run job course).2
  | .stop => r.stop.2

theorem supervise_free (job : Job) (course : Course) :
    (supervise job course).2.process = none := by
  rw [supervise]
  rcases Reading.follow job course.steps { runner := start course } with
    ⟨s, _ | why⟩ <;> rfl

/-- A runner that is free is free again after every request. -/
theorem perform_free {r : Runner} (h : r.process = none) (q : Request) :
    (r.perform q).process = none := by
  cases q with
  | stop =>
      rw [perform, Runner.stop, h]
      exact h
  | run job course =>
      rw [perform, run]
      split
      · exact h
      · exact h
      · exact supervise_free job course

theorem performAll_free {r : Runner} (h : r.process = none) (qs : List Request) :
    (qs.foldl perform r).process = none := by
  induction qs generalizing r with
  | nil => exact h
  | cons q qs ih => exact ih (perform_free h q)

theorem stop_free {r : Runner} (h : r.process = none) : r.stop = (false, r) := by
  rw [Runner.stop, h]

/-- How a job comes out: it has no command, it cannot be started, or it is started
and runs to its end. -/
inductive Outcome (job : Job) (course : Course) (report : Report) : Prop
  | empty (hjob : job.started? = none)
    (hresult : report.result = .error .emptyCommand)
      (hevents : report.events = [])
  | refused {why : String} (hjob : job.started?.isSome = true)
      (hcourse : course.refusal = some why)
      (hresult : report.result = .error (.refused why))
      (hevents : report.events = [])
  | lived {read : List Step} (hjob : job.started?.isSome = true)
      (hcourse : course.refusal = none) (h : Lived job course read report)

/-- What a runner does in the middle of runs and requests to stop. -/
structure Cycle (r : Runner) (job : Job) (course : Course) : Prop where
  idle : r.stop = (false, r)
  same : (r.run job course).1 = (({} : Runner).run job course).1
  outcome : Outcome job course (r.run job course).1
  free : (r.run job course).2.process = none
  idleAgain : (r.run job course).2.stop = (false, (r.run job course).2)

/-- Whatever a runner was asked for before, it is free, the next run comes out
as if nothing had been asked, and afterwards the runner is free again. -/
theorem run_cycle (qs : List Request) (job : Job) (course : Course) :
    Cycle (qs.foldl perform {}) job course := by
  have hfree := performAll_free (r := {}) rfl qs
  have hagain : ((qs.foldl perform {}).run job course).2.process = none :=
    perform_free hfree (.run job course)
  refine ⟨stop_free hfree, ?_, ?_, hagain, stop_free hagain⟩
  · rw [run, run]
    split <;> rfl
  · rw [run]
    cases hjob : job.started? with
    | none => exact .empty hjob rfl rfl
    | some command =>
        cases hcourse : course.refusal with
        | some why => exact .refused (by rw [hjob]; rfl) hcourse rfl rfl
        | none =>
            obtain ⟨read, hlived⟩ := supervise_lived job course
            exact .lived (by rw [hjob]; rfl) hcourse hlived

/-- A count of microseconds with 321 digits. -/
def countless : List Char := '1' :: List.replicate 320 '0'

theorem field?_countless :
    field? (String.ofList ("out_time_us=".toList ++ countless)) =
      some ("out_time_us", String.ofList countless) := by
  have hstrip : Text.strip Text.isBlank ("out_time_us=".toList ++ countless) =
      "out_time_us=".toList ++ countless := by
    decide +kernel
  have hname : ("out_time_us=".toList ++ countless).takeWhile (· != '=') =
      "out_time_us".toList := by
    decide +kernel
  have hvalue : ("out_time_us=".toList ++ countless).dropWhile (· != '=') =
      '=' :: countless := by
    decide +kernel
  rw [field?, Text.trim, String.toList_ofList, String.toList_ofList, hstrip,
    hname, hvalue, String.ofList_toList]

theorem wholeNumber_countless :
    Decimal.wholeNumber (String.ofList countless) = .ok (Int.pow 10 320) := by
  rw [Decimal.wholeNumber, Decimal.plain, String.toList_ofList]
  decide +kernel

theorem ofFields_countless :
    Progress.ofFields [("progress", "end"),
      ("out_time_us", String.ofList countless)]
      (some 10) = .error .tooLarge := by
  have hwritten : Block.written [("progress", "end"),
      ("out_time_us", String.ofList countless)] =
        .ok (Int.fdiv (Int.pow 10 320) 1000) := by
    change (Block.whole (String.ofList countless) >>= fun n =>
      pure (n.fdiv 1000)) = _
    rw [Block.whole, wholeNumber_countless]
    rfl
  have hpercent : Block.percent (Int.fdiv (Int.pow 10 320) 1000) (some 10) =
      .error .tooLarge := by
    decide +kernel
  rw [Progress.ofFields, hwritten]
  change (Block.percent (Int.fdiv (Int.pow 10 320) 1000) (some 10) >>= _) = _
  rw [hpercent]
  rfl

/-- A process that writes such a count, and would end well. -/
def boundless : Course where
  steps := [.line (String.ofList ("out_time_us=".toList ++ countless)),
    .line "progress=end"]

theorem blocks_boundless : blocks boundless.steps =
    [[("progress", "end"), ("out_time_us", String.ofList countless)]] := by
  have hlast : field? "progress=end" = some ("progress", "end") := by decide
  rw [blocks, boundless, fieldsOf_line_some field?_countless,
    fieldsOf_line_some hlast]
  rfl

/-- A job whose progress nobody listens to. -/
def unheard : Job where
  command := ["ffmpeg"]
  total := some 10

/-- Nobody listens and nobody asks to stop the process; the run breaks off all the
same, and kills it. -/
theorem run_boundless :
    (({} : Runner).run unheard boundless).1.result = .error .tooLarge ∧
      .kill ∈ (({} : Runner).run unheard boundless).1.events := by
  rw [run_started rfl rfl]
  obtain ⟨read, hlived⟩ := supervise_lived unheard boundless
  have hloud : ¬ Quiet unheard boundless.steps := by
    refine fun hquiet => hquiet .tooLarge (.tooLarge ?_ ofFields_countless)
    rw [blocks_boundless]
    exact List.mem_singleton_self _
  have hruns : stillRuns true read = true := by
    have hexit : Step.exit ∉ read := fun h => by
      have := hlived.account.readOf.before.subset h
      simp [boundless] at this
    simp [stillRuns, hexit]
  obtain ⟨why, hwhy, hresult⟩ := hlived.broken hloud
  refine ⟨?_, hlived.kill_iff.2 ⟨hloud, hruns⟩⟩
  rw [hresult]
  cases hwhy with
  | tooLarge => rfl
  | listener hlistener => cases hlistener

end Runner

end Cutlist
