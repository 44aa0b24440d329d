import CamelMsmq.Consumer

/-!
# Starting and stopping a consumer

The executor of a consumer is made once, in the constructor, and `doStop` shuts it
down; the pool is filled by `doStart`, and nothing ever empties it.  So a consumer can
be started once.  A second `doStart` puts `N` more queue objects into the pool, and then
the executor, which is shut down, rejects the first worker.

`Lifecycle` puts the calls of `doStart` and `doStop` around the runs of a consumer.  The
calls alternate, as Camel makes them, and in between the workers run as they do in
the other modules; `doStart_new` shows that after the first `doStart` it is the same
system.

A producer has nothing of the kind: its `doStart` does nothing, and the next `process`
opens the queue again.
-/

namespace Msmq

/-- What an executor throws that has been shut down; the message, which names task and
executor, is left out. -/
def Throwable.rejectedExecutionException : Throwable :=
  thrown .runtimeException "java.util.concurrent.RejectedExecutionException" none

/-- The worker is in no run. -/
def Pc.isIdle : Pc → Bool
  | idle => true
  | _ => false

/-- No `doStop` is under way. -/
def Phase.settled : Phase → Bool
  | running => true
  | stopped => true
  | failed => true
  | _ => false

/-- The calls of the lifecycle. -/
inductive LifecycleCall
  | doStart
  | doStop
  deriving DecidableEq

/-- A consumer, the number of queue objects it has made, and the last call.  The number gives
the next objects their references. -/
structure Lifecycle (N : Nat) where
  consumer : Consumer N
  created : Nat
  last : Option LifecycleCall

/-- What may happen: a call, or a step of a worker or of the `doStop` under way. -/
inductive LifecycleAction (N : Nat)
  | call (call : LifecycleCall)
  | step (act : Action N)

/-- What `doStart` leaves. -/
structure Started (N : Nat) where
  result : Except Throwable Unit
  consumer : Consumer N

namespace Consumer

variable {N : Nat}

/-- The constructor: an empty pool, and an executor without tasks. -/
def new (N : Nat) : Consumer N where
  shared :=
    { queues := []
      object := fun _ => .new
      heap := ⟨0, fun _ => []⟩
      calls := []
      removals := []
      deliveries := [] }
  worker := fun _ => ⟨.idle, false, 0⟩
  phase := .running

/-- `openQueues()`, where the first of the `N` new objects is `created`. -/
def openQueues (c : Consumer N) (created : Nat) : Consumer N :=
  { c with shared := { c.shared with
      queues := c.shared.queues ++ List.range' created N
      object := fun queue => if created ≤ queue then .new else c.shared.object queue } }

/-- `executor.scheduleWithFixedDelay(worker, 0, 1, NANOSECONDS)`. -/
def scheduleWithFixedDelay (c : Consumer N) (w : Fin N) : Except Throwable (Consumer N) :=
  if c.phase = .running then
    .ok { c with worker := Function.update c.worker w ⟨.idle, true, 0⟩ }
  else .error .rejectedExecutionException

/-- The loop of `doStart`. -/
def scheduleWorkers (c : Consumer N) : List (Fin N) → Started N
  | [] => ⟨.ok (), c⟩
  | w :: rest =>
      match c.scheduleWithFixedDelay w with
      | .ok c' => c'.scheduleWorkers rest
      | .error ex => ⟨.error ex, c⟩

variable {c : Consumer N}

/-- On an executor that is not shut down the workers that are left are scheduled too. -/
theorem scheduleWorkers_running (hphase : c.phase = .running) {ws : List (Fin N)}
    (hrest : ∀ v, v ∉ ws → c.worker v = ⟨.idle, true, 0⟩) :
    c.scheduleWorkers ws = ⟨.ok (), { c with worker := fun _ => ⟨.idle, true, 0⟩ }⟩ := by
  induction ws generalizing c with
  | nil =>
      have hworker : c.worker = fun _ => ⟨.idle, true, 0⟩ :=
        funext fun v => hrest v List.not_mem_nil
      rw [scheduleWorkers, ← hworker]
  | cons w rest ih =>
      let next : Consumer N := { c with worker := Function.update c.worker w ⟨.idle, true, 0⟩ }
      have hphase' : next.phase = .running := hphase
      have hrest' : ∀ v, v ∉ rest → next.worker v = ⟨.idle, true, 0⟩ := by
        intro v hnot
        by_cases hv : v = w
        · subst hv
          exact Function.update_self v _ c.worker
        · exact (Function.update_of_ne hv _ c.worker).trans
            (hrest v (List.not_mem_cons_of_ne_of_not_mem hv hnot))
      simp only [scheduleWorkers, scheduleWithFixedDelay, if_pos hphase]
      exact ih hphase' hrest'

/-- An executor that is shut down rejects the first worker. -/
theorem scheduleWorkers_rejected (hphase : c.phase ≠ .running) {ws : List (Fin N)}
    (hws : ws ≠ []) :
    c.scheduleWorkers ws = ⟨.error .rejectedExecutionException, c⟩ := by
  cases ws with
  | nil => exact absurd rfl hws
  | cons w rest => simp only [scheduleWorkers, scheduleWithFixedDelay, if_neg hphase]

/-- No step of a worker or of `doStop` brings back the executor. -/
theorem Steps.running {endpoint : MsmqEndpoint} {c' : Consumer N} {act : Action N}
    (h : Steps endpoint c act c') (hphase : c'.phase = .running) : c.phase = .running := by
  cases h with
  | start hrunning _ _ => exact hrunning
  | task htask =>
      cases hc : c.phase with
      | running => rfl
      | _ =>
          simp only [hc, Phase.observe] at hphase
          cases hphase
  | shutdown hrunning => exact hrunning
  | _ => cases hphase

end Consumer

namespace Lifecycle

variable {N : Nat}

/-- A new consumer. -/
def new (N : Nat) : Lifecycle N := ⟨.new N, 0, none⟩

/-- `doStart()`. -/
def doStart (l : Lifecycle N) : Started N :=
  (l.consumer.openQueues l.created).scheduleWorkers (List.finRange N)

/-- No call and no run is under way. -/
def Quiet (l : Lifecycle N) : Prop :=
  l.consumer.phase.settled = true ∧ ∀ w, (l.consumer.worker w).pc.isIdle = true

instance (l : Lifecycle N) : Decidable l.Quiet := inferInstanceAs (Decidable (_ ∧ _))

/-- One action.  Calls of `doStart` and `doStop` alternate, and `doStart` waits until the
runs in progress have ended.  `executor.shutdown()` may be repeated. -/
def step (endpoint : MsmqEndpoint) (l : Lifecycle N) : LifecycleAction N → Option (Lifecycle N)
  | .call .doStart =>
      if l.last ≠ some .doStart ∧ l.Quiet then
        some ⟨l.doStart.consumer, l.created + N, some .doStart⟩
      else none
  | .call .doStop =>
      if l.last ≠ some .doStop ∧ l.consumer.phase.settled = true then
        some { l with consumer := { l.consumer with phase := .shutDown }, last := some .doStop }
      else none
  | .step .shutdown => none
  | .step act => (l.consumer.step endpoint act).map fun c => { l with consumer := c }

/-- The workers the executor will start. -/
def scheduled (c : Consumer N) : List (Fin N) :=
  (List.finRange N).filter fun w => (c.worker w).scheduled

/-- The call returns and leaves `N` workers scheduled and `N` queues in the pool. -/
def StartsAll (l : Lifecycle N) : LifecycleAction N → Prop
  | .call .doStart => l.doStart.result = .ok () ∧ (scheduled l.doStart.consumer).length = N ∧
      l.doStart.consumer.shared.queues.length = N
  | _ => True

/-- `doStart` is called on an executor that has not been shut down. -/
def StartsFirst (l : Lifecycle N) : LifecycleAction N → Prop
  | .call .doStart => l.consumer.phase = .running
  | _ => True

/-- While the executor is not shut down, `doStop` has not been called; and as long as no
call has been made, the consumer is as the constructor left it. -/
structure Unstopped (l : Lifecycle N) : Prop where
  notStopped : l.consumer.phase = .running → l.last ≠ some .doStop
  constructed : l.last = none → l.consumer = .new N

variable {endpoint : MsmqEndpoint} {l l' : Lifecycle N} {act : LifecycleAction N}

/-- A new consumer takes no steps of its own. -/
theorem not_steps_new {c : Consumer N} {act : Action N} (hact : act ≠ .shutdown) :
    ¬Consumer.Steps endpoint (.new N) act c := by
  intro h
  cases h with
  | start _ hscheduled _ => cases hscheduled
  | task htask => cases htask
  | shutdown _ => exact hact rfl
  | iterate hphase => cases hphase
  | pass hphase _ _ => cases hphase
  | visit hphase _ _ => cases hphase
  | close hphase _ => cases hphase
  | closeFails hphase _ => cases hphase
  | finish hphase => cases hphase

theorem unstopped_new : (new N).Unstopped := by
  refine ⟨fun _ hlast => ?_, fun _ => rfl⟩
  cases hlast

/-- No step brings back an executor that is shut down, and before the first call nothing runs. -/
theorem Unstopped.step (hu : l.Unstopped) (h : l.step endpoint act = some l') : l'.Unstopped := by
  cases act with
  | call call =>
      cases call with
      | doStart =>
          simp only [Lifecycle.step] at h
          split at h
          · cases h
            exact ⟨fun _ hlast => (by cases hlast), fun hlast => (by cases hlast)⟩
          · cases h
      | doStop =>
          simp only [Lifecycle.step] at h
          split at h
          · cases h
            exact ⟨fun hphase => (by cases hphase), fun hlast => (by cases hlast)⟩
          · cases h
  | step act =>
      have hact : act ≠ .shutdown := by
        rintro rfl
        cases h
      have hmap : (l.consumer.step endpoint act).map (fun c => { l with consumer := c }) =
          some l' := by
        cases act with
        | shutdown => exact absurd rfl hact
        | _ => exact h
      obtain ⟨c, hc, rfl⟩ := Option.map_eq_some_iff.mp hmap
      have hsteps := Consumer.steps_of_step hc
      refine ⟨fun hphase => hu.notStopped (hsteps.running hphase), fun hlast => ?_⟩
      rw [hu.constructed hlast] at hsteps
      exact absurd hsteps (not_steps_new hact)

/-- **The first `doStart`** leaves the consumer whose runs the other modules are about: `N`
queues in the pool, `N` workers scheduled, and no run begun. -/
theorem doStart_new : (new N).doStart = ⟨.ok (), Consumer.doStart N⟩ := by
  have hphase : (Consumer.openQueues (.new N) 0).phase = .running := rfl
  show (Consumer.openQueues (.new N) 0).scheduleWorkers (List.finRange N) = _
  rw [Consumer.scheduleWorkers_running hphase fun v hnot => absurd (List.mem_finRange v) hnot]
  simp [Consumer.openQueues, Consumer.new, Consumer.doStart, List.range_eq_range']

/-- A `doStart` of a new consumer starts all. -/
theorem startsAll_of_new (hnew : l.consumer = .new N) : l.StartsAll (.call .doStart) := by
  have hphase : (l.consumer.openQueues l.created).phase = .running := by
    rw [hnew]
    rfl
  have hqueues : (l.consumer.openQueues l.created).shared.queues.length = N := by
    rw [hnew]
    simp [Consumer.openQueues, Consumer.new]
  unfold StartsAll doStart
  rw [Consumer.scheduleWorkers_running hphase fun v hnot => absurd (List.mem_finRange v) hnot]
  refine ⟨rfl, ?_, hqueues⟩
  unfold scheduled
  rw [List.filter_eq_self.mpr (by simp), List.length_finRange]

/-- **A consumer can be started once.**  Each `doStart` of a run returns and leaves `N` workers
scheduled and `N` queues in the pool exactly if none of them is called after a `doStop`.  A
start after a stop fails in both respects: the pool has the old queues besides the new ones, and
the executor that is shut down rejects the first worker. -/
theorem starts_all_iff (hN : 1 ≤ N) {acts : List (LifecycleAction N)} {finish : Lifecycle N}
    (hrun : Runs.run (step endpoint) (new N) acts = some finish) :
    Runs.EachStep (step endpoint) StartsAll (new N) acts ↔
      Runs.EachStep (step endpoint) StartsFirst (new N) acts := by
  refine Runs.eachStep_congr (step endpoint) (fun _ _ _ hu h => hu.step h) ?_ unstopped_new hrun
  intro l act l' hu h
  cases act with
  | step act => rfl
  | call call =>
      cases call with
      | doStop => rfl
      | doStart =>
          constructor
          · intro hstarts
            by_contra hphase
            have hworkers : List.finRange N ≠ [] := by
              intro hempty
              have hlength := congrArg List.length hempty
              rw [List.length_finRange, List.length_nil] at hlength
              omega
            have hopened : (l.consumer.openQueues l.created).phase ≠ .running := hphase
            have hresult := hstarts.1
            unfold doStart at hresult
            rw [Consumer.scheduleWorkers_rejected hopened hworkers] at hresult
            cases hresult
          · intro hphase
            have hnotStarted : l.last ≠ some .doStart := by
              simp only [step] at h
              split at h
              · rename_i hguard
                exact hguard.1
              · cases h
            have hnotStopped := hu.notStopped hphase
            cases hlast : l.last with
            | none => exact startsAll_of_new (hu.constructed hlast)
            | some call =>
                cases call with
                | doStart => exact absurd hlast hnotStarted
                | doStop => exact absurd hlast hnotStopped

/-- A consumer with two workers is started and stopped. -/
theorem starts_all_once :
    let endpoint : MsmqEndpoint := { remaining := some [113] }
    Runs.EachStep (step endpoint) StartsAll (new 2)
      [.call .doStart, .step (.start 1), .step (.task 1 (.created (some .nullPointerException))),
        .step (.task 1 .go), .call .doStop, .step .iterate, .step (.visit 1), .step (.visit 0),
        .step .finish] := by
  intro endpoint
  refine (starts_all_iff (by decide) rfl).mpr ?_
  refine (Runs.eachStep_cons_iff _ rfl).mpr ⟨rfl, ?_⟩
  iterate 8 refine (Runs.eachStep_cons_iff _ rfl).mpr ⟨trivial, ?_⟩
  exact Runs.eachStep_nil _ _

/-- A consumer with one worker is started, stopped and started again: the second `doStart`
throws, and the pool holds two queues. -/
theorem restart_rejected :
    let endpoint : MsmqEndpoint := { remaining := some [113] }
    ∃ l l', Runs.run (step endpoint) (new 1)
        [.call .doStart, .call .doStop, .step .iterate, .step (.visit 0), .step .finish] = some l ∧
      l.step endpoint (.call .doStart) = some l' ∧
      l.doStart.result = .error .rejectedExecutionException ∧
      l'.consumer.shared.queues.length = 2 ∧ ¬l.StartsAll (.call .doStart) := by
  refine ⟨_, _, rfl, rfl, rfl, rfl, fun hstarts => ?_⟩
  cases hstarts.1

end Lifecycle

end Msmq
