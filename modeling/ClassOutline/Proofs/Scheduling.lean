import ClassOutline.Scan.Workers
import Mathlib

/-!
# The report of a scan does not show the scheduling

The tasks of a scan take turns in any order, and the scan may be cancelled at any point. This module
shows that nothing of that is seen in a report (`Scan.scheduled_outcome`): a scan either ends without
one, because a task found a cancellation, or its report is the one of the analyses done one after
another (`Scan.reportOn`). A slot that nothing was written to never gets into a report.

The argument is an invariant of the tasks, `Pool.Sound`. One event keeps it (`Step.sound`), so every
run does (`run_sound`). At the end all tasks have ended, and then the invariant says what is in the
slots. That there is an end to reach, however the tasks went on so far, is `exists_completion`.
-/

namespace ClassOutline

/-- How many events the task of a file still has before it, at most. -/
def TaskState.remaining : TaskState → Nat
  | .waiting => 4
  | .started => 3
  | .cleared => 2
  | .refused | .written => 1
  | .ended => 0

namespace Pool

variable {job : Job} {p p' : Pool} {e : ScanEvent}

/-! ## What an event does -/

/-- The events that can happen, each with what it needs and what it does. -/
inductive Step (job : Job) (p : Pool) : ScanEvent → Pool → Prop where
  | cancel : Step job p .cancel { p with cancelled := true }
  | start {i : Nat} (htask : p.tasks[i]? = some .waiting) (hfree : p.running < job.limit) :
      Step job p (.start i) (p.move i .started)
  | clear {i : Nat} (htask : p.tasks[i]? = some .started) (hflag : p.cancelled = false) :
      Step job p (.look i) (p.move i .cleared)
  | refuse {i : Nat} (htask : p.tasks[i]? = some .started) (hflag : p.cancelled = true) :
      Step job p (.look i) (p.move i .refused)
  | write {i : Nat} {f : ScannedFile} (htask : p.tasks[i]? = some .cleared)
      (hfile : job.files[i]? = some f) :
      Step job p (.write i) { p.move i .written with slots := p.slots.set i (job.analyze f) }
  | finish {i : Nat} (htask : p.tasks[i]? = some .written) :
      Step job p (.finish i) (p.move i .ended)
  | giveUp {i : Nat} (htask : p.tasks[i]? = some .refused) :
      Step job p (.finish i) { p.move i .ended with cancelled := true, failed := true }

theorem step_eq_some_iff : p.step job e = some p' ↔ Step job p e p' := by
  constructor
  · intro h
    cases e with
    | cancel =>
      obtain rfl : _ = p' := Option.some.inj h
      exact .cancel
    | start i =>
      simp only [step] at h
      split at h
      · rename_i hcond
        obtain rfl := Option.some.inj h
        exact .start hcond.1 hcond.2
      · cases h
    | look i =>
      simp only [step] at h
      split at h
      · rename_i htask
        obtain rfl := Option.some.inj h
        cases hflag : p.cancelled with
        | true => exact .refuse htask hflag
        | false => exact .clear htask hflag
      · cases h
    | write i =>
      simp only [step] at h
      split at h
      · rename_i f htask hfile
        obtain rfl := Option.some.inj h
        exact .write htask hfile
      · cases h
    | finish i =>
      simp only [step] at h
      split at h
      · rename_i htask
        obtain rfl := Option.some.inj h
        exact .finish htask
      · rename_i htask
        obtain rfl := Option.some.inj h
        exact .giveUp htask
      · cases h
  · intro h
    cases h <;> simp_all [step]

theorem run_cons {events : List ScanEvent} :
    p.run job (e :: events) = some p' ↔ ∃ q, Step job p e q ∧ q.run job events = some p' := by
  simp only [run, List.foldlM_cons, Option.bind_eq_bind, Option.bind_eq_some_iff, step_eq_some_iff]

theorem run_append {events more : List ScanEvent} :
    p.run job (events ++ more) = some p' ↔
      ∃ q, p.run job events = some q ∧ q.run job more = some p' := by
  simp only [run, List.foldlM_append, Option.bind_eq_bind, Option.bind_eq_some_iff]

/-- What every event keeps, a run keeps. -/
theorem run_induction {P : Pool → Prop} (hstep : ∀ p e p', Step job p e p' → P p → P p')
    {events : List ScanEvent} (hrun : p.run job events = some p') (hp : P p) : P p' := by
  induction events generalizing p with
  | nil =>
    obtain rfl := Option.some.inj hrun
    exact hp
  | cons e events ih =>
    obtain ⟨q, hq, hrest⟩ := run_cons.mp hrun
    exact ih hrest (hstep p e q hq hp)

theorem task_move {i j : Nat} {s t : TaskState} (hi : p.tasks[i]? = some s) :
    (p.move i t).tasks[j]? = if i = j then some t else p.tasks[j]? := by
  have hlt : i < p.tasks.length := (List.getElem?_eq_some_iff.mp hi).1
  simp only [move, List.getElem?_set, hlt, if_true]

/-! ## Slots -/

/-- The slot of a file holds the analysis of this file. -/
def Settled (job : Job) (p : Pool) (i : Nat) : Prop := p.slots[i]? = job.files[i]?.map job.analyze

/-- There is a task and a slot for each file and, unless a task gave up, what was written is in its
place. -/
structure Sound (job : Job) (p : Pool) : Prop where
  tasks_length : p.tasks.length = job.files.length
  slots_length : p.slots.length = job.files.length
  settled : p.failed = false →
    ∀ i, p.tasks[i]? = some .written ∨ p.tasks[i]? = some .ended → p.Settled job i

theorem initial_sound (job : Job) : Sound job (initial job.files.length) where
  tasks_length := List.length_replicate
  slots_length := List.length_replicate
  settled := by
    intro _ i h
    simp [initial, List.getElem?_replicate] at h

theorem Sound.move (hp : Sound job p) {i : Nat} {s t : TaskState} (hi : p.tasks[i]? = some s)
    (hdone : t = .written ∨ t = .ended → s = .written) : Sound job (p.move i t) where
  tasks_length := by simp [Pool.move, hp.tasks_length]
  slots_length := hp.slots_length
  settled := by
    intro hfailed j hj
    rw [task_move hi] at hj
    split at hj
    · rename_i hij
      subst hij
      -- the task that moved had written before, or it would not count now
      have hs : s = .written := hdone (by simpa using hj)
      exact hp.settled hfailed i (.inl (hs ▸ hi))
    · exact hp.settled hfailed j hj

theorem Step.sound (h : Step job p e p') (hp : Sound job p) : Sound job p' := by
  cases h with
  | cancel => exact ⟨hp.tasks_length, hp.slots_length, hp.settled⟩
  | start htask _ => exact hp.move htask (by simp)
  | clear htask _ => exact hp.move htask (by simp)
  | refuse htask _ => exact hp.move htask (by simp)
  | finish htask => exact hp.move htask (by simp)
  | giveUp htask =>
    -- from here on nothing is promised about the slots
    refine ⟨?_, hp.slots_length, fun h => absurd h (by simp)⟩
    simp [Pool.move, hp.tasks_length]
  | @write i f htask hfile =>
    have hlt : i < p.slots.length := by
      rw [hp.slots_length]
      exact (List.getElem?_eq_some_iff.mp hfile).1
    refine ⟨by simp [Pool.move, hp.tasks_length], by simp [hp.slots_length], ?_⟩
    intro hfailed j hj
    show (p.slots.set i (job.analyze f))[j]? = _
    by_cases hij : i = j
    · subst hij
      simp [hlt, hfile]
    · -- no other slot is touched
      have hj' : p.tasks[j]? = some .written ∨ p.tasks[j]? = some .ended := by
        simpa only [task_move htask, if_neg hij] using hj
      rw [List.getElem?_set, if_neg hij]
      exact hp.settled hfailed j hj'

/-- When all tasks have ended and none gave up, the slots are the analyses of the files. -/
theorem Sound.slots_eq (hp : Sound job p) (hdone : p.isDone = true) (hfailed : p.failed = false) :
    p.slots = job.files.map job.analyze := by
  apply List.ext_getElem?
  intro i
  rw [List.getElem?_map]
  by_cases hi : i < p.tasks.length
  · refine hp.settled hfailed i (.inr ?_)
    have hall := List.all_eq_true.mp hdone _ (List.getElem_mem hi)
    rw [List.getElem?_eq_getElem hi, of_decide_eq_true hall]
  · -- behind the last file there is neither a slot nor a file
    rw [hp.tasks_length] at hi
    rw [List.getElem?_eq_none (by rw [hp.slots_length]; omega),
      List.getElem?_eq_none (by omega), Option.map_none]

/-! ## Cancellation -/

/-- Without a cancellation no task gives up. -/
def Calm (p : Pool) : Prop :=
  p.cancelled = false → p.failed = false ∧ ∀ i : Nat, p.tasks[i]? ≠ some .refused

theorem Calm.move (hp : Calm p) {i : Nat} {s t : TaskState} (hi : p.tasks[i]? = some s)
    (ht : t = .refused → p.cancelled = true) : Calm (p.move i t) := by
  intro hflag
  obtain ⟨hfailed, htasks⟩ := hp hflag
  refine ⟨hfailed, fun j => ?_⟩
  rw [task_move hi]
  split
  · rintro ⟨⟩
    exact absurd (ht rfl) (by simpa [Pool.move] using hflag)
  · exact htasks j

theorem Step.calm (h : Step job p e p') (hp : Calm p) : Calm p' := by
  cases h with
  | cancel => exact fun h => absurd h (by simp)
  | start htask _ => exact hp.move htask (by simp)
  | clear htask _ => exact hp.move htask (by simp)
  | refuse htask hflag => exact hp.move htask (fun _ => hflag)
  | write htask _ => exact hp.move (t := .written) htask (by simp)
  | finish htask => exact hp.move htask (by simp)
  | giveUp htask => exact fun h => absurd h (by simp)

theorem initial_calm (n : Nat) : Calm (initial n) := by
  intro _
  refine ⟨rfl, fun i => ?_⟩
  simp [initial, List.getElem?_replicate]

/-- A task that gives up was cancelled before, so only a cancellation from outside sets the flag. -/
theorem Step.cancelled (h : Step job p e p') (hp : Calm p) (he : e ≠ .cancel)
    (hflag : p.cancelled = false) : p'.cancelled = false := by
  cases h with
  | cancel => exact absurd rfl he
  | giveUp htask => exact absurd htask ((hp hflag).2 _)
  | _ => exact hflag

theorem run_cancelled {events : List ScanEvent} (hrun : p.run job events = some p') (hp : Calm p)
    (hevents : .cancel ∉ events) (hflag : p.cancelled = false) : p'.cancelled = false := by
  induction events generalizing p with
  | nil =>
    obtain rfl := Option.some.inj hrun
    exact hflag
  | cons e events ih =>
    obtain ⟨q, hq, hrest⟩ := run_cons.mp hrun
    rw [List.mem_cons, not_or] at hevents
    exact ih hrest (hq.calm hp) hevents.2 (hq.cancelled hp (Ne.symm hevents.1) hflag)

/-- A scan that was cancelled before any task looked: whoever ends has given up. -/
structure Alarmed (p : Pool) : Prop where
  cancelled : p.cancelled = true
  tasks : ∀ (i : Nat) (s : TaskState), p.tasks[i]? = some s →
    s = .waiting ∨ s = .started ∨ s = .refused ∨ s = .ended ∧ p.failed = true

theorem Alarmed.move (hp : Alarmed p) {i : Nat} {s t : TaskState} (hi : p.tasks[i]? = some s)
    (ht : t = .started ∨ t = .refused) : Alarmed (p.move i t) where
  cancelled := hp.cancelled
  tasks := by
    intro j u hj
    rw [task_move hi] at hj
    split at hj
    · -- a task that moves on now has not ended yet
      obtain rfl := Option.some.inj hj
      exact .inr (ht.imp id .inl)
    · exact hp.tasks j u hj

theorem Step.alarmed (h : Step job p e p') (hp : Alarmed p) : Alarmed p' := by
  cases h with
  | cancel => exact ⟨rfl, hp.tasks⟩
  | start htask _ => exact hp.move htask (.inl rfl)
  | refuse htask _ => exact hp.move htask (.inr rfl)
  -- once the flag is set no task is cleared, and so none writes
  | clear _ hflag => exact absurd hp.cancelled (by simp [hflag])
  | write htask _ => exact absurd (hp.tasks _ _ htask) (by simp)
  | finish htask => exact absurd (hp.tasks _ _ htask) (by simp)
  | giveUp htask =>
    refine ⟨rfl, fun j u hj => ?_⟩
    rw [task_move htask] at hj
    split at hj
    · obtain rfl := Option.some.inj hj
      simp
    · exact (hp.tasks j u hj).imp id (Or.imp id (Or.imp id fun h => ⟨h.1, rfl⟩))

/-! ## There is an end -/

/-- How many events there still are, at most, apart from cancellations. -/
def remaining (p : Pool) : Nat := (p.tasks.map TaskState.remaining).sum

theorem remaining_move {i : Nat} {s t : TaskState} (hi : p.tasks[i]? = some s)
    (hlt : t.remaining < s.remaining) : (p.move i t).remaining < p.remaining := by
  obtain ⟨hlen, rfl⟩ := List.getElem?_eq_some_iff.mp hi
  have hlen' : i < (p.tasks.map TaskState.remaining).length := by simpa using hlen
  have hsplit := List.sum_take_add_sum_drop (p.tasks.map TaskState.remaining) i
  rw [List.drop_eq_getElem_cons hlen', List.sum_cons, List.getElem_map] at hsplit
  simp only [remaining, Pool.move, List.map_set, List.sum_set, if_pos hlen']
  omega

/-- Unless all tasks have ended, one of them can go on: one that runs always can, and if none runs
the next one may start. -/
theorem exists_step (hlimit : 0 < job.limit) (hp : Sound job p) (hdone : p.isDone = false) :
    ∃ e p', Step job p e p' ∧ p'.remaining < p.remaining := by
  by_cases hrun : ∃ (i : Nat) (s : TaskState), p.tasks[i]? = some s ∧ s.isRunning = true
  · obtain ⟨i, s, hi, hs⟩ := hrun
    cases s with
    | waiting => cases hs
    | ended => cases hs
    | started =>
      cases hflag : p.cancelled with
      | true => exact ⟨_, _, .refuse hi hflag, remaining_move hi (by decide)⟩
      | false => exact ⟨_, _, .clear hi hflag, remaining_move hi (by decide)⟩
    | cleared =>
      -- there is a file for every task
      have hlt : i < job.files.length := by
        rw [← hp.tasks_length]
        exact (List.getElem?_eq_some_iff.mp hi).1
      exact ⟨_, _, .write hi (List.getElem?_eq_getElem hlt),
        remaining_move (t := .written) hi (by decide)⟩
    | refused => exact ⟨_, _, .giveUp hi, remaining_move (t := .ended) hi (by decide)⟩
    | written => exact ⟨_, _, .finish hi, remaining_move hi (by decide)⟩
  · push Not at hrun
    have hnone : p.running = 0 := by
      rw [running, List.countP_eq_zero]
      intro s hs
      obtain ⟨i, hi⟩ := List.mem_iff_getElem?.mp hs
      exact hrun i s hi
    obtain ⟨s, hs, hne⟩ := List.all_eq_false.mp hdone
    obtain ⟨i, hi⟩ := List.mem_iff_getElem?.mp hs
    have hwait : s = .waiting := by
      have hidle := hrun i s hi
      cases s <;> simp_all [TaskState.isRunning]
    subst hwait
    exact ⟨_, _, .start hi (by omega), remaining_move hi (by decide)⟩

/-- However the tasks went on so far, they can all come to an end. -/
theorem exists_completion (hlimit : 0 < job.limit) (hp : Sound job p) :
    ∃ events p', p.run job events = some p' ∧ p'.isDone = true := by
  -- the events that remain get fewer
  induction hn : p.remaining using Nat.strongRecOn generalizing p with
  | _ n ih =>
    cases hdone : p.isDone with
    | true => exact ⟨[], p, rfl, hdone⟩
    | false =>
      obtain ⟨e, q, hstep, hlt⟩ := exists_step hlimit hp hdone
      obtain ⟨events, p', hrun, hend⟩ := ih q.remaining (hn ▸ hlt) (hstep.sound hp) rfl
      exact ⟨e :: events, p', run_cons.mpr ⟨q, hstep, hrun⟩, hend⟩

end Pool

namespace Scan

/-! ## Totals -/

/-- A result that has either an outline or an error. -/
def Coupled (r : FileResult) : Prop := r.result.isSome = true ↔ r.error = []

theorem analyzeFile_coupled (registry : Registry) (hint : Bytes) {f : ScannedFile}
    (hread : ∀ reason, f.content = .error reason → reason ≠ []) :
    Coupled (analyzeFile registry hint f) := by
  unfold Coupled analyzeFile
  split
  · rename_i reason hcontent
    simpa using hread reason hcontent
  · split <;> simp

/-- The outlines of the results without an error. -/
def outlines (results : List FileResult) : List Outline :=
  (results.filter fun r => r.error.isEmpty).filterMap fun r => r.result

/-- The totals of some results, each said on its own. -/
def totals (results : List FileResult) : Summary where
  files := results.length
  failed := results.countP fun r => !r.error.isEmpty
  classes := ((outlines results).map fun o => o.classes.length).sum
  functions := ((outlines results).map fun o => o.functions.length).sum
  relationships := ((outlines results).map fun o => o.edges.length).sum

theorem addResult?_eq {r : FileResult} (hr : Coupled r) (s : Summary) :
    addResult? s r = some (addResult s r) := by
  unfold addResult?
  rw [if_neg]
  intro h
  rw [Bool.and_eq_true, List.isEmpty_iff, Option.isNone_iff_eq_none] at h
  have hsome := hr.mpr h.1
  rw [h.2] at hsome
  cases hsome

/-- No outline is missed where the totals need one. -/
theorem summarize?_eq {results : List FileResult} (h : ∀ r ∈ results, Coupled r) :
    summarize? results = some (summarize results) := by
  unfold summarize? summarize
  generalize (⟨0, 0, 0, 0, 0⟩ : Summary) = s
  induction results generalizing s with
  | nil => rfl
  | cons r results ih =>
    rw [List.foldlM_cons, addResult?_eq (h r List.mem_cons_self), List.foldl_cons]
    exact ih (fun x hx => h x (List.mem_cons_of_mem _ hx)) _

theorem addResult_totals {results : List FileResult} {r : FileResult} (hr : Coupled r) :
    addResult (totals results) r = totals (results ++ [r]) := by
  cases he : r.error with
  | nil =>
    obtain ⟨o, ho⟩ := Option.isSome_iff_exists.mp (hr.mpr he)
    simp [addResult, totals, outlines, he, ho]
  | cons b t => simp [addResult, totals, outlines, he]

theorem summarize_eq_totals {results : List FileResult} (h : ∀ r ∈ results, Coupled r) :
    summarize results = totals results := by
  -- the totals are counted up from the left, so the last result is taken off
  induction results using List.reverseRecOn with
  | nil => rfl
  | append_singleton results r ih =>
    have hrest : summarize results = totals results :=
      ih fun x hx => h x (List.mem_append_left _ hx)
    rw [← addResult_totals (h r (by simp)), ← hrest, summarize, summarize, List.foldl_append]
    rfl

/-! ## Every schedule -/

/-- What a report says about the files it is made from. -/
structure Accounts (registry : Registry) (o : ScanOptions) (files : List ScannedFile)
    (report : Report) : Prop where
  /-- There is one entry for each file, in the order of the files: its analysis. -/
  entries : report.files = files.map (analyzeFile registry (Language.normalizeHint o.language))
  coupled : ∀ r ∈ report.files, r.result.isSome = true ↔ r.error = []
  summary : report.summary = totals report.files

section Schedules

variable {registry : Registry} {o : ScanOptions} {files : List ScannedFile}
  {revision : Option Revision} {events : List ScanEvent} {p : Pool} {e : ScanEnding}

/-- One task may always run. -/
theorem job_limit_pos (registry : Registry) (o : ScanOptions) (files : List ScannedFile) :
    0 < (job registry o files).limit := by
  show 0 < workerLimit o.concurrency
  unfold workerLimit
  split
  · decide
  · omega

theorem scheduled_eq_some (h : scheduled registry o files revision events = some e) :
    ∃ p, (Pool.initial files.length).run (job registry o files) events = some p ∧
      p.isDone = true ∧ e = ending o revision p := by
  unfold scheduled at h
  split at h
  · rename_i p hrun
    split at h
    · rename_i hdone
      exact ⟨p, hrun, hdone, (Option.some.inj h).symm⟩
    · cases h
  · cases h

theorem run_sound
    (hrun : (Pool.initial files.length).run (job registry o files) events = some p) :
    Pool.Sound (job registry o files) p :=
  Pool.run_induction (fun _ _ _ h => h.sound) hrun (Pool.initial_sound (job registry o files))

/-- Only where the scan was cancelled does a task give up. -/
theorem cancel_mem_of_failed
    (hrun : (Pool.initial files.length).run (job registry o files) events = some p)
    (hfailed : p.failed = true) : .cancel ∈ events := by
  have hcalm : p.Calm :=
    Pool.run_induction (fun _ _ _ h => h.calm) hrun (Pool.initial_calm files.length)
  by_contra hnot
  have hflag := Pool.run_cancelled hrun (Pool.initial_calm files.length) hnot rfl
  rw [(hcalm hflag).1] at hfailed
  cases hfailed

/-- If the scan was cancelled before all else, and there is anything to do, a task gives up. -/
theorem failed_of_cancel_first
    (hrun : (Pool.initial files.length).run (job registry o files) (.cancel :: events) = some p)
    (hdone : p.isDone = true) (hne : files ≠ []) : p.failed = true := by
  obtain ⟨q, hstep, hrest⟩ := Pool.run_cons.mp hrun
  cases hstep
  have halarmed : p.Alarmed := by
    apply Pool.run_induction (fun _ _ _ h => h.alarmed) hrest
    refine ⟨rfl, fun i s hi => .inl ?_⟩
    simp only [Pool.initial, List.getElem?_replicate] at hi
    split at hi
    · exact (Option.some.inj hi).symm
    · cases hi
  have hlt : 0 < p.tasks.length := by
    rw [(run_sound hrun).tasks_length]
    exact List.length_pos_iff.mpr hne
  -- the first task has ended, so it has given up
  have hended : p.tasks[0] = .ended :=
    of_decide_eq_true (List.all_eq_true.mp hdone _ (List.getElem_mem hlt))
  have hfirst := halarmed.tasks 0 .ended (by rw [List.getElem?_eq_getElem hlt, hended])
  simpa using hfirst

/-- Without tasks there is none that gives up. -/
theorem failed_of_no_files
    (hrun : (Pool.initial 0).run (job registry o []) events = some p) : p.failed = false := by
  have hsound : Pool.Sound (job registry o []) p := run_sound hrun
  have hempty : p.tasks = [] := List.length_eq_zero_iff.mp hsound.tasks_length
  -- an event of a task needs a task, so only a cancellation can happen
  refine Pool.run_induction (P := fun p => p.tasks = [] → p.failed = false) ?_ hrun (fun _ => rfl)
    hempty
  intro p e p' hstep hp hnil
  cases hstep <;> simp_all [Pool.move]

theorem analyses_coupled
    (hread : ∀ f ∈ files, ∀ reason, f.content = .error reason → reason ≠ []) :
    ∀ r ∈ files.map (analyzeFile registry (Language.normalizeHint o.language)), Coupled r := by
  intro r hr
  obtain ⟨f, hf, rfl⟩ := List.mem_map.mp hr
  exact analyzeFile_coupled _ _ (hread f hf)

/-- The report of the analyses one after another accounts for the files. -/
theorem exists_reportOn
    (hread : ∀ f ∈ files, ∀ reason, f.content = .error reason → reason ≠ []) :
    ∃ report, reportOn registry o files revision false = .ok report ∧
      Accounts registry o files report :=
  ⟨_, rfl, rfl, analyses_coupled hread, summarize_eq_totals (analyses_coupled hread)⟩

/-- Tasks that have all ended without giving up make the same report. -/
theorem ending_eq (hread : ∀ f ∈ files, ∀ reason, f.content = .error reason → reason ≠ [])
    (hp : Pool.Sound (job registry o files) p) (hdone : p.isDone = true)
    (hfailed : p.failed = false) :
    ending o revision p = .ofExcept (reportOn registry o files revision false) := by
  have hslots : p.slots = files.map (analyzeFile registry (Language.normalizeHint o.language)) :=
    hp.slots_eq hdone hfailed
  simp [ending, hfailed, hslots, summarize?_eq (analyses_coupled hread), reportOn,
    ScanEnding.ofExcept]

end Schedules

/-- **Scheduling does not show.** There is one report that accounts for the files, the one of the
analyses one after another, and however the tasks take turns the scan ends with this report, or with
an error because it was cancelled; it never needs an outline that is not there. A scan that was
cancelled before it began ends like an interrupted one, and whatever has happened so far, the scan
can come to an end. -/
theorem scheduled_outcome (registry : Registry) (o : ScanOptions) (files : List ScannedFile)
    (revision : Option Revision)
    (hread : ∀ f ∈ files, ∀ reason, f.content = .error reason → reason ≠ []) :
    ∃ report, Accounts registry o files report ∧
      reportOn registry o files revision false = .ok report ∧
      (∀ events e, scheduled registry o files revision events = some e →
        e = .report report ∨ e = .error .interrupted ∧ .cancel ∈ events) ∧
      (∀ events e, scheduled registry o files revision (.cancel :: events) = some e →
        e = .ofExcept (reportOn registry o files revision true)) ∧
      ∀ events p, (Pool.initial files.length).run (job registry o files) events = some p →
        ∃ more e, scheduled registry o files revision (events ++ more) = some e := by
  obtain ⟨report, hreport, haccounts⟩ :
      ∃ report, reportOn registry o files revision false = .ok report ∧
        Accounts registry o files report := exists_reportOn hread
  refine ⟨report, haccounts, hreport, ?_, ?_, ?_⟩
  · intro events e h
    obtain ⟨p, hrun, hdone, rfl⟩ := scheduled_eq_some h
    cases hfailed : p.failed with
    | true => exact .inr ⟨by simp [ending, hfailed], cancel_mem_of_failed hrun hfailed⟩
    | false =>
      rw [ending_eq hread (run_sound hrun) hdone hfailed, hreport]
      exact .inl rfl
  · intro events e h
    obtain ⟨p, hrun, hdone, rfl⟩ := scheduled_eq_some h
    by_cases hne : files = []
    · -- no task is there to give up
      subst hne
      exact ending_eq hread (run_sound hrun) hdone (failed_of_no_files hrun)
    · have hfailed := failed_of_cancel_first hrun hdone hne
      simp [ending, hfailed, reportOn, hne, ScanEnding.ofExcept]
  · intro events p hrun
    obtain ⟨more, p', hmore, hdone⟩ :=
      Pool.exists_completion (job_limit_pos registry o files) (run_sound hrun)
    have hall := Pool.run_append.mpr ⟨p, hrun, hmore⟩
    exact ⟨more, ending o revision p', by simp only [scheduled, hall, hdone, if_true]⟩

theorem scheduled_outcome_two_files :
    let files : List ScannedFile :=
      [⟨Bytes.ofString "a.py", .ok (Bytes.ofString "class A:\n")⟩,
        ⟨Bytes.ofString "b.py", .error (Bytes.ofString "no such file or directory")⟩]
    let o : ScanOptions := ⟨Bytes.ofString "/", [], [], false, 2, 0, []⟩
    let events : List ScanEvent :=
      [.start 1, .start 0, .look 0, .look 1, .cancel, .write 1, .finish 1, .write 0, .finish 0]
    (∀ f ∈ files, ∀ reason, f.content = .error reason → reason ≠ []) ∧
      ∃ report, Accounts .builtIn o files report ∧
        scheduled .builtIn o files none events = some (.report report) := by
  intro files o events
  have hread : ∀ f ∈ files, ∀ reason, f.content = .error reason → reason ≠ [] := by
    simp [files, Bytes.ofString, Bytes.ofCodePoint]
  obtain ⟨report, haccounts, -, hends, -, -⟩ := scheduled_outcome .builtIn o files none hread
  have hsome : (scheduled .builtIn o files none events).isSome = true := by decide +kernel
  have hnot : scheduled .builtIn o files none events ≠ some (.error .interrupted) := by
    decide +kernel
  obtain ⟨e, he⟩ := Option.isSome_iff_exists.mp hsome
  refine ⟨hread, report, haccounts, ?_⟩
  rcases hends events e he with rfl | ⟨rfl, -⟩
  · exact he
  · exact absurd he hnot

end Scan

end ClassOutline
