import ClassOutline.Scan.Report

/-!
# Workers of a scan

The files of a scan are analyzed by tasks that run at the same time, one for each file and no more
than a limit at once. A task first looks whether the scan was cancelled. If so it gives up, and the
scan with it; otherwise it analyzes its file and writes the result into its own slot. When every task
has ended, the scan ends: without a report if a task gave up, and else with the slots as results.

The tasks are a state machine. `Pool.step` says what a single event does, and a list of events is one
way in which a scan may go on: which tasks start first, how they take turns, and where in between the
scan is cancelled. `Scan.scheduled` is the ending of a scan under such a list.
-/

namespace ClassOutline

/-- How far a task is. -/
inductive TaskState where
  | waiting
  /-- It runs, and has not looked for a cancellation yet. -/
  | started
  /-- It found no cancellation and has a file to analyze. -/
  | cleared
  /-- It found a cancellation and is about to give up. -/
  | refused
  /-- Its result is in its slot. -/
  | written
  | ended
deriving DecidableEq, Repr

/-- Whether a task counts against the limit. -/
def TaskState.isRunning : TaskState → Bool
  | .waiting | .ended => false
  | _ => true

/-- What can happen next. All but a cancellation concern the task of one file. -/
inductive ScanEvent where
  | cancel
  | start (i : Nat)
  | look (i : Nat)
  | write (i : Nat)
  | finish (i : Nat)
deriving DecidableEq, Repr

/-- What there is to do: the files, how to analyze one, and how many tasks may run at once. -/
structure Job where
  files : List ScannedFile
  analyze : ScannedFile → FileResult
  limit : Nat

/-- The tasks of a scan with what they share. -/
structure Pool where
  tasks : List TaskState
  slots : List FileResult
  /-- Whether the scan was cancelled, from outside or by a task that gave up. -/
  cancelled : Bool
  /-- Whether a task gave up. -/
  failed : Bool
deriving DecidableEq, Repr

namespace Pool

/-- A slot that nothing was written to. -/
def blank : FileResult := ⟨[], [], false, none, []⟩

/-- The tasks of a number of files before any of them starts. -/
def initial (n : Nat) : Pool :=
  ⟨List.replicate n .waiting, List.replicate n blank, false, false⟩

/-- How many tasks run. -/
def running (p : Pool) : Nat := p.tasks.countP TaskState.isRunning

/-- The tasks with one of them in another state. -/
def move (p : Pool) (i : Nat) (state : TaskState) : Pool := { p with tasks := p.tasks.set i state }

/-- The tasks after an event, if it can happen. -/
def step (job : Job) (p : Pool) : ScanEvent → Option Pool
  | .cancel => some { p with cancelled := true }
  | .start i =>
    if p.tasks[i]? = some .waiting ∧ p.running < job.limit then some (p.move i .started) else none
  | .look i =>
    if p.tasks[i]? = some .started then
      some (p.move i (if p.cancelled then .refused else .cleared))
    else none
  | .write i =>
    match p.tasks[i]?, job.files[i]? with
    | some .cleared, some f =>
      some { p.move i .written with slots := p.slots.set i (job.analyze f) }
    | _, _ => none
  | .finish i =>
    match p.tasks[i]? with
    | some .written => some (p.move i .ended)
    | some .refused => some { p.move i .ended with cancelled := true, failed := true }
    | _ => none

/-- The tasks after some events, if they can happen one after another. -/
def run (job : Job) (p : Pool) (events : List ScanEvent) : Option Pool :=
  events.foldlM (step job) p

/-- Whether every task has ended. -/
def isDone (p : Pool) : Bool := p.tasks.all (· = .ended)

end Pool

/-- How a scan ends. -/
inductive ScanEnding where
  | report (r : Report)
  | error (e : ScanError)
  /-- The totals needed the outline of a file that has neither an outline nor an error. -/
  | crash
deriving DecidableEq, Repr

/-- The ending of a scan that either reports or fails. -/
def ScanEnding.ofExcept : Except ScanError Report → ScanEnding
  | .ok r => .report r
  | .error e => .error e

namespace Scan

/-- How many tasks run at once unless the options say so. -/
def defaultConcurrency : Nat := 4

/-- How many tasks may run at once. -/
def workerLimit (concurrency : Int) : Nat :=
  if concurrency ≤ 0 then defaultConcurrency else concurrency.toNat

/-- The job of a scan. -/
def job (registry : Registry) (o : ScanOptions) (files : List ScannedFile) : Job where
  files := files
  analyze := analyzeFile registry (Language.normalizeHint o.language)
  limit := workerLimit o.concurrency

/-- The totals with one more file. A file without an error has to have an outline. -/
def addResult? (s : Summary) (r : FileResult) : Option Summary :=
  if r.error.isEmpty && r.result.isNone then none else some (addResult s r)

/-- The totals over some results, each of which has an outline or an error. -/
def summarize? (results : List FileResult) : Option Summary :=
  results.foldlM addResult? ⟨0, 0, 0, 0, 0⟩

/-- The ending of a scan whose tasks have ended. -/
def ending (o : ScanOptions) (revision : Option Revision) (p : Pool) : ScanEnding :=
  if p.failed then .error .interrupted
  else
    match summarize? p.slots with
    | some totals => .report ⟨o.root, revision, p.slots, totals⟩
    | none => .crash

/-- The ending of a scan of some files under a list of events: none if the events cannot happen so or
leave a task unfinished. -/
def scheduled (registry : Registry) (o : ScanOptions) (files : List ScannedFile)
    (revision : Option Revision) (events : List ScanEvent) : Option ScanEnding :=
  match (Pool.initial files.length).run (job registry o files) events with
  | some p => if p.isDone then some (ending o revision p) else none
  | none => none

end Scan

end ClassOutline
