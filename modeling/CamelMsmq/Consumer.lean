import CamelMsmq.Runs
import CamelMsmq.TaskSpec

/-!
# `MsmqConsumer`

A consumer has `N` workers, which the executor starts over and over, and a thread
that may call `doStop`.  An action is a step of one worker, the start of a run, or
a step of `doStop`; any order of actions that are possible is a run of the system.

The executor starts no run after `shutdown()`, and never again a worker whose run
ended with a throwable.  It does not wait: runs that are in progress go on while
`doStop` closes the queues, and after it has returned.

The iterator that `closeQueues` uses is weakly consistent: it visits what lies in
the pool all the time, and it may visit anything that lay in the pool at some time
since it was made.  So the phase of `doStop` keeps two lists, of the queues that it
must and that it may still visit, and every change of the pool is observed by both.
-/

namespace Msmq

/-- A worker: where it stands, whether the executor will start it again, and how many
of its runs have ended. -/
structure Worker where
  pc : Pc
  scheduled : Bool
  runs : Nat

/-- The worker after a step of its run. -/
def Worker.goOn (w : Worker) : After → Worker
  | .goOn pc => { w with pc := pc }
  | .ended thrown => ⟨.idle, w.scheduled && thrown.isNone, w.runs + 1⟩

/-- The start of a run, up to the reading of the pool's size. -/
def Worker.start (w : Worker) (size : Nat) : Worker :=
  { w with pc := if size = 1 then .atElement else .atCreate size none }

/-- How far `doStop` is.  The iterator still has to visit `must`, and may visit `may`. -/
inductive Phase
  | running
  | shutDown
  | iterating (must may : List QueueRef)
  | closing (queue : QueueRef) (must may : List QueueRef)
  | stopped
  | failed
  deriving DecidableEq

/-- The iterator takes note of a change of the pool. -/
def Phase.observe (queues : List QueueRef) : Phase → Phase
  | iterating must may => iterating (must.filter (· ∈ queues)) (may ++ queues)
  | closing queue must may => closing queue (must.filter (· ∈ queues)) (may ++ queues)
  | phase => phase

/-- A consumer with its workers, and how far the thread is that may call `doStop`. -/
structure Consumer (N : Nat) where
  shared : Shared
  worker : Fin N → Worker
  phase : Phase

/-- What may happen: the executor starts a run, a worker takes a step of its run and is given
the answer to it, or `doStop` takes a step. -/
inductive Action (N : Nat)
  | start (w : Fin N)
  | task (w : Fin N) (ans : Answer)
  | shutdown
  | iterate
  | visit (queue : QueueRef)
  | close (hr : Hresult)
  | finish

namespace Consumer

variable {N : Nat}

/-- A new consumer after `doStart()`: `openQueues` has put `N` new queue objects into
the pool, and `N` workers are scheduled. -/
def doStart (N : Nat) : Consumer N where
  shared :=
    { queues := List.range N
      object := fun _ => .new
      heap := ⟨0, fun _ => []⟩
      calls := []
      removals := []
      deliveries := [] }
  worker := fun _ => ⟨.idle, true, 0⟩
  phase := .running

/-- The run a worker is in, or the one it will be in next. -/
def runId (c : Consumer N) (w : Fin N) : RunId := ⟨w, (c.worker w).runs⟩

/-- One action. -/
def step (endpoint : MsmqEndpoint) (c : Consumer N) : Action N → Option (Consumer N)
  | .start w =>
      match c.phase, (c.worker w).scheduled, (c.worker w).pc with
      | .running, true, .idle =>
          some { c with
            worker := Function.update c.worker w ((c.worker w).start c.shared.queues.length) }
      | _, _, _ => none
  | .task w ans =>
      match Task.step endpoint (c.runId w) c.shared (c.worker w).pc ans with
      | some (after, shared) =>
          some ⟨shared, Function.update c.worker w ((c.worker w).goOn after),
            c.phase.observe shared.queues⟩
      | none => none
  | .shutdown =>
      match c.phase with
      | .running => some { c with phase := .shutDown }
      | _ => none
  | .iterate =>
      match c.phase with
      | .shutDown => some { c with phase := .iterating c.shared.queues c.shared.queues }
      | _ => none
  | .visit queue =>
      match c.phase with
      | .iterating must may =>
          if queue ∈ may then
            if (c.shared.object queue).isOpen then
              some { c with phase := .closing queue must may }
            else some { c with phase := .iterating (must.filter (· ≠ queue)) may }
          else none
      | _ => none
  | .close hr =>
      match c.phase with
      | .closing queue must may =>
          let r := (c.shared.object queue).close hr c.shared.calls
          match r.result with
          | .ok () =>
              some { c with
                shared := c.shared.operated queue r
                phase := .iterating (must.filter (· ≠ queue)) may }
          | .error _ => some { c with shared := c.shared.operated queue r, phase := .failed }
      | _ => none
  | .finish =>
      match c.phase with
      | .iterating [] _ => some { c with phase := .stopped }
      | _ => none

/-- Everything an action can do. -/
inductive Steps (endpoint : MsmqEndpoint) (c : Consumer N) : Action N → Consumer N → Prop
  | start {w : Fin N} (hphase : c.phase = .running) (hscheduled : (c.worker w).scheduled = true)
      (hidle : (c.worker w).pc = .idle) :
      Steps endpoint c (.start w) { c with
        worker := Function.update c.worker w ((c.worker w).start c.shared.queues.length) }
  | task {w : Fin N} {ans : Answer} {after : After} {shared : Shared}
      (htask : Task.Steps endpoint (c.runId w) c.shared (c.worker w).pc ans after shared) :
      Steps endpoint c (.task w ans) ⟨shared,
        Function.update c.worker w ((c.worker w).goOn after), c.phase.observe shared.queues⟩
  | shutdown (hphase : c.phase = .running) :
      Steps endpoint c .shutdown { c with phase := .shutDown }
  | iterate (hphase : c.phase = .shutDown) :
      Steps endpoint c .iterate { c with phase := .iterating c.shared.queues c.shared.queues }
  | pass {queue : QueueRef} {must may : List QueueRef} (hphase : c.phase = .iterating must may)
      (hmay : queue ∈ may) (hopen : (c.shared.object queue).isOpen = false) :
      Steps endpoint c (.visit queue) { c with
        phase := .iterating (must.filter (· ≠ queue)) may }
  | visit {queue : QueueRef} {must may : List QueueRef} (hphase : c.phase = .iterating must may)
      (hmay : queue ∈ may) (hopen : (c.shared.object queue).isOpen = true) :
      Steps endpoint c (.visit queue) { c with phase := .closing queue must may }
  | close {hr : Hresult} {queue : QueueRef} {must may : List QueueRef}
      (hphase : c.phase = .closing queue must may)
      (hok : ((c.shared.object queue).close hr c.shared.calls).result = .ok ()) :
      Steps endpoint c (.close hr) { c with
        shared := c.shared.operated queue ((c.shared.object queue).close hr c.shared.calls)
        phase := .iterating (must.filter (· ≠ queue)) may }
  | closeFails {hr : Hresult} {queue : QueueRef} {must may : List QueueRef} {what : String}
      (hphase : c.phase = .closing queue must may)
      (herror : ((c.shared.object queue).close hr c.shared.calls).result = .error what) :
      Steps endpoint c (.close hr) { c with
        shared := c.shared.operated queue ((c.shared.object queue).close hr c.shared.calls)
        phase := .failed }
  | finish {may : List QueueRef} (hphase : c.phase = .iterating [] may) :
      Steps endpoint c .finish { c with phase := .stopped }

/-- **The list is complete.**  Proofs about the consumer go through the cases of `Steps`, where
each case has the guards that `step` has tested. -/
theorem steps_of_step {endpoint : MsmqEndpoint} {c c' : Consumer N} {act : Action N}
    (h : c.step endpoint act = some c') : Steps endpoint c act c' := by
  cases act with
  | start w =>
      simp only [step] at h
      split at h
      · cases h
        exact .start ‹_› ‹_› ‹_›
      · cases h
  | task w ans =>
      simp only [step] at h
      split at h
      · rename_i after shared htask
        cases h
        exact .task (Task.steps_of_step htask)
      · cases h
  | shutdown =>
      simp only [step] at h
      split at h
      · cases h
        exact .shutdown ‹_›
      · cases h
  | iterate =>
      simp only [step] at h
      split at h
      · cases h
        exact .iterate ‹_›
      · cases h
  | visit queue =>
      simp only [step] at h
      split at h
      · split at h
        · split at h
          · cases h
            exact .visit ‹_› ‹_› ‹_›
          · rename_i hopen
            cases h
            exact .pass ‹_› ‹_› (by simpa using hopen)
        · cases h
      · cases h
  | close hr =>
      simp only [step] at h
      split at h
      · split at h
        · cases h
          exact .close ‹_› ‹_›
        · cases h
          exact .closeFails ‹_› ‹_›
      · cases h
  | finish =>
      simp only [step] at h
      split at h
      · cases h
        exact .finish ‹_›
      · cases h

end Consumer

end Msmq
