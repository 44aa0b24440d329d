import CamelMsmq.Deliveries

/-!
# Which workers survive

The executor drops a worker whose run ends with a throwable.  A run ends so exactly
when one of its steps gets an answer that the code does not handle: `Task.Benign`
lists the answers that it does.  As long as all answers are benign every worker is
still scheduled; a worker that gets another answer is lost for good.

Two facts about one step carry this.  After a benign answer a run that is in order
stays so, and if it ends it ends normally (`Steps.unharmed`).  After any other answer
the run is on its way out with a throwable, and no answer can change that any more
(`Steps.failing`, `Lost.step`).

What is handled inside the loop is little: a timeout, and what the loop takes for an
overflow, as long as the size of the next buffer is not negative.  Every other failed
receive costs a worker, a temporary failure of MSMQ included.
-/

namespace Msmq

namespace Task

/-- The answers after which a run does not end with a throwable. -/
def Benign (endpoint : MsmqEndpoint) : Pc → Answer → Prop
  | .atCreate _ _, .created thrown => thrown = none
  | .atOpen _ _ _, .opens a => a.destFormatName endpoint.remaining ≠ none ∧ a.opens = true
  | .atAllocate _ _ _, .allocates _ => 0 ≤ endpoint.initialBufferSize.toInt
  | .atReceive _ _ loop, .receives a =>
      failed a.hr = false ∨ a.hr = mqErrorIoTimeout ∨
        (a.hr = mqErrorBufferOverflow ∧ 0 ≤ (loop.initsize + endpoint.incrementBufferSize).toInt)
  | .atProcess _ _ loop, .processes (some ex) _ _ =>
      ex.isRuntimeException = true ∧ ex.getMessage = some "Message body too big" ∧
        0 ≤ (loop.initsize + endpoint.incrementBufferSize).toInt
  | _, _ => True

end Task

namespace Pc

/-- The run is on its way to end with a throwable. -/
def Failing : Pc → Prop
  | atFinally _ _ (some _) => True
  | _ => False

/-- The run is in order: it is not failing, and has a queue to give back. -/
def Unharmed : Pc → Prop
  | atFinally size queue pending => pending = none ∧ (1 < size → queue ≠ none)
  | _ => True

end Pc

namespace Task

variable {endpoint : MsmqEndpoint} {me : RunId} {sh sh' : Shared} {pc : Pc} {ans : Answer}
  {after : After} {size : Nat} {queue : QueueRef} {loop : Loop} {ex : Throwable}

/-- A throwable that is taken for an overflow does no harm. -/
theorem unharmed_raiseInLoop (hruntime : ex.isRuntimeException = true)
    (hmessage : ex.getMessage = some "Message body too big")
    (hnonneg : 0 ≤ (loop.initsize + endpoint.incrementBufferSize).toInt) :
    (∀ thrown, (raiseInLoop endpoint sh size queue loop ex).1 = .ended thrown → thrown = none) ∧
      (raiseInLoop endpoint sh size queue loop ex).1.pc.Unharmed := by
  obtain ⟨-, -, -, heq⟩ | ⟨hnot, -⟩ := raiseInLoop_cases endpoint sh size queue loop ex
  · rw [heq]
    exact ⟨fun thrown h => (nomatch h), trivial⟩
  · exact absurd ⟨hruntime, hmessage, hnonneg⟩ hnot

/-- **One benign step.**  An unharmed run stays so, and if it ends it ends normally. -/
theorem Steps.unharmed (h : Steps endpoint me sh pc ans after sh') (hs : Sound endpoint me sh pc)
    (hw : pc.WellFormed) (hpool : pc.Acquires → sh.queues ≠ []) (hb : Benign endpoint pc ans)
    (hu : pc.Unharmed) :
    (∀ thrown, after = .ended thrown → thrown = none) ∧ after.pc.Unharmed := by
  cases h with
  | noElement hnil => exact absurd hnil (hpool trivial)
  | noRemove hnil => exact absurd hnil (hpool trivial)
  | notCreated e => exact nomatch hb
  | isNull => exact absurd rfl hw
  | @notOpened size queue exchange a what herror =>
      have hok := ((sh.object queue).open_returns_iff endpoint.remaining a sh.calls).mpr hb
      rw [hok] at herror
      cases herror
  | notAllocated raw hsize =>
      have hnonneg : 0 ≤ endpoint.initialBufferSize.toInt := hb
      omega
  | overflow a hfits hhr =>
      obtain hfine | htimeout | ⟨-, hnonneg⟩ := hb
      · rw [hhr, failed_bufferOverflow] at hfine
        cases hfine
      · rw [hhr] at htimeout
        exact absurd htimeout (by decide)
      · exact unharmed_raiseInLoop rfl (Throwable.getMessage_native _) hnonneg
  | receiveFails a hfits hhr =>
      obtain hfine | htimeout | ⟨hoverflow, -⟩ := hb
      · rw [hhr.1] at hfine
        cases hfine
      · exact absurd htimeout hhr.2.1
      · exact absurd hoverflow hhr.2.2
  | notFilled a ex hfits hhr hfill => exact absurd hfill (hs.1.fill_ne_error hfits hhr ex)
  | processorThrows ex exchange writes hwrites =>
      obtain ⟨hruntime, hmessage, hnonneg⟩ := hb
      exact unharmed_raiseInLoop hruntime hmessage hnonneg
  | processed exchange writes hwrites => exact ⟨fun thrown h => (nomatch h), rfl, by simp⟩
  | giveBack hsize =>
      refine ⟨fun thrown hend => ?_, trivial⟩
      obtain rfl := After.ended.inj hend
      exact hu.1
  | giveBackNull hsize => exact absurd rfl (hu.2 hsize)
  | leave hsize =>
      refine ⟨fun thrown hend => ?_, trivial⟩
      obtain rfl := After.ended.inj hend
      exact hu.1
  | _ => exact ⟨fun thrown h => (nomatch h), trivial⟩

/-- A throwable that is not taken for an overflow. -/
theorem failing_raiseInLoop (hnot : ¬(ex.isRuntimeException = true ∧
    ex.getMessage = some "Message body too big" ∧
    0 ≤ (loop.initsize + endpoint.incrementBufferSize).toInt)) :
    (raiseInLoop endpoint sh size queue loop ex).1.pc.Failing := by
  obtain ⟨hruntime, hmessage, hnonneg, -⟩ | ⟨-, e, heq⟩ :=
    raiseInLoop_cases endpoint sh size queue loop ex
  · exact absurd ⟨hruntime, hmessage, hnonneg⟩ hnot
  · rw [heq]
    trivial

/-- **One other step.**  After an answer that is not benign the run is failing. -/
theorem Steps.failing (h : Steps endpoint me sh pc ans after sh') (hb : ¬Benign endpoint pc ans) :
    after.pc.Failing := by
  cases h with
  | created hsize => exact absurd rfl hb
  | createdLooking hsize => exact absurd rfl hb
  | notCreated e => trivial
  | @opened size queue exchange a hok =>
      exact absurd (((sh.object queue).open_returns_iff endpoint.remaining a sh.calls).mp hok) hb
  | notOpened a what herror => trivial
  | allocated raw hsize => exact absurd hsize hb
  | notAllocated raw hsize => trivial
  | timeout a hfits hhr => exact absurd (.inr (.inl hhr)) hb
  | overflow a hfits hhr =>
      apply failing_raiseInLoop
      intro h
      exact hb (.inr (.inr ⟨hhr, h.2.2⟩))
  | receiveFails a hfits hhr =>
      apply failing_raiseInLoop
      intro h
      exact absurd h.2.1 (by decide)
  | received a filled hfits hhr hfill => exact absurd (.inl hhr) hb
  | notFilled a ex hfits hhr hfill => exact absurd (.inl hhr) hb
  | processorThrows ex exchange writes hwrites =>
      apply failing_raiseInLoop
      intro h
      exact hb h
  | _ => exact absurd trivial hb

end Task

namespace Consumer

variable {N : Nat} {endpoint : MsmqEndpoint} {c c' : Consumer N} {act : Action N}

/-- The actions after which no run ends with a throwable. -/
def Benign (endpoint : MsmqEndpoint) (c : Consumer N) : Action N → Prop
  | .task w ans => Task.Benign endpoint (c.worker w).pc ans
  | _ => True

/-- Every worker is scheduled, and until `doStop` is called one that is idle can be
started. -/
def AllScheduled (endpoint : MsmqEndpoint) (c : Consumer N) : Prop :=
  ∀ w, (c.worker w).scheduled = true ∧
    ((c.worker w).pc = .idle → c.phase = .running → (c.step endpoint (.start w)).isSome = true)

/-- Every worker is scheduled and in order. -/
def Thriving (c : Consumer N) : Prop :=
  ∀ w, (c.worker w).scheduled = true ∧ (c.worker w).pc.Unharmed

/-- A worker that is scheduled and idle can be started as long as `doStop` has not been called. -/
theorem Thriving.allScheduled (ht : c.Thriving) : c.AllScheduled endpoint := by
  intro w
  have hscheduled := (ht w).1
  refine ⟨hscheduled, fun hidle hphase => ?_⟩
  simp only [step, hphase, hscheduled, hidle, Option.isSome_some]

/-- One worker that thrives moves on. -/
theorem Thriving.update (ht : c.Thriving) {w : Fin N} {x : Worker} (hx : x.scheduled = true)
    (hfine : x.pc.Unharmed) (shared : Shared) (phase : Phase) :
    Thriving (⟨shared, Function.update c.worker w x, phase⟩ : Consumer N) := by
  intro v
  by_cases hv : v = w
  · subst hv
    simp only [Function.update_self]
    exact ⟨hx, hfine⟩
  · simp only [Function.update_of_ne hv]
    exact ht v

/-- **One benign action.**  The worker that acts stays in order, and goes on being scheduled
when its run ends; `doStop` may end the runs to come, but drops no worker. -/
theorem Thriving.step (ht : c.Thriving) (hc : c.Conserved) (hs : c.Sound endpoint)
    (h : c.step endpoint act = some c') (hb : c.Benign endpoint act) : c'.Thriving := by
  cases steps_of_step h with
  | @start w hphase hscheduled hidle =>
      refine ht.update ?_ ?_ _ _
      · exact hscheduled
      · unfold Worker.start
        split <;> trivial
  | @task w ans after shared htask =>
      obtain ⟨hscheduled, hfine⟩ := ht w
      obtain ⟨hends, hfine'⟩ := htask.unharmed (hs.worker w) (hc.wellFormed w)
        (fun hacq => hc.queues_ne_nil hacq.grip) hb hfine
      refine ht.update ?_ (by rwa [Worker.pc_goOn]) _ _
      cases after with
      | goOn pc => exact hscheduled
      | ended thrown =>
          obtain rfl := hends thrown rfl
          simpa [Worker.goOn] using hscheduled
  | _ => exact ht

/-- A worker that is failing, or that the executor has dropped. -/
def Lost (c : Consumer N) (w : Fin N) : Prop :=
  (c.worker w).pc.Failing ∨ ((c.worker w).pc = .idle ∧ (c.worker w).scheduled = false)

/-- A failing run ends with a throwable in its next step, and the executor drops its worker. -/
theorem lost_goOn {me : RunId} {sh sh' : Shared} {x : Worker} {ans : Answer} {after : After}
    (h : Task.Steps endpoint me sh x.pc ans after sh')
    (hx : x.pc.Failing ∨ (x.pc = .idle ∧ x.scheduled = false)) :
    (x.goOn after).pc = .idle ∧ (x.goOn after).scheduled = false := by
  obtain ⟨pc, scheduled, runs⟩ := x
  rcases hx with hfailing | ⟨hidle, -⟩
  · cases pc with
    | atFinally size queue pending =>
        cases pending with
        | none => exact hfailing.elim
        | some e => cases h <;> exact ⟨rfl, Bool.and_false _⟩
    | _ => exact hfailing.elim
  · obtain rfl : pc = .idle := hidle
    cases h

/-- **A lost worker stays lost.**  A run that is failing can only go on to its end, which the
executor answers by dropping the worker, and it never starts a worker that it has dropped. -/
theorem Lost.step {w : Fin N} (hl : c.Lost w) (h : c.step endpoint act = some c') : c'.Lost w := by
  unfold Lost
  cases seenBy_of_step h w with
  | others hstart htask hme hrecorded hworker =>
      rw [hworker]
      exact hl
  | start hidle hscheduled hshared hworker =>
      rcases hl with hfailing | ⟨-, hdropped⟩
      · rw [hidle] at hfailing
        exact hfailing.elim
      · rw [hscheduled] at hdropped
        cases hdropped
  | task htask hworker =>
      rw [hworker]
      exact .inr (lost_goOn htask hl)

/-- **Which workers survive.**  Throughout a run whose answers are all benign every worker is
scheduled; and after any other answer to a worker, that worker is found dropped by the executor
whenever it is idle.  The second half is about one answer in any state and all that can follow,
so no later success of MSMQ, and nothing that the other workers do, brings the worker back. -/
theorem workers_scheduled (N : Nat) (endpoint : MsmqEndpoint) :
    (∀ acts, Runs.EachStep (step endpoint) (Benign endpoint) (doStart N) acts →
      Runs.Throughout (step endpoint) (AllScheduled endpoint) (doStart N) acts) ∧
    (∀ (c c' c'' : Consumer N) (w : Fin N) (ans : Answer),
      c.step endpoint (.task w ans) = some c' → ¬c.Benign endpoint (.task w ans) →
      Runs.Reachable (step endpoint) c' c'' →
      (c''.worker w).pc = .idle → (c''.worker w).scheduled = false) := by
  constructor
  · intro acts hbenign done c hprefix hrun
    have hthriving := Runs.throughout_of_eachStep (step endpoint)
      (fun c act c' (hc : c.Conserved ∧ c.Sound endpoint ∧ c.Thriving) h hok =>
        ⟨hc.1.step h, hc.2.1.step h, hc.2.2.step hc.1 hc.2.1 h hok⟩)
      ⟨conserved_doStart, sound_doStart, fun w => ⟨rfl, trivial⟩⟩ hbenign done c hprefix hrun
    exact hthriving.2.2.allScheduled
  · intro c c' c'' w ans h hharmful hreach hidle
    have hfirst : c'.Lost w := by
      cases steps_of_step h with
      | task htask =>
          unfold Lost
          simp only [Function.update_self, Worker.pc_goOn]
          exact .inl (htask.failing hharmful)
    have hlost : c''.Lost w :=
      hreach.invariant _ (Lost · w) hfirst fun _ _ _ hl hstep => hl.step hstep
    rcases hlost with hfailing | ⟨-, hdropped⟩
    · rw [hidle] at hfailing
      exact hfailing.elim
    · exact hdropped

/-- The only worker waits for a message, and stays scheduled; when its receive fails it
does not. -/
theorem workers_scheduled_waiting :
    let endpoint : MsmqEndpoint := { remaining := some [113] }
    let opened : List (Action 1) := [.start 0, .task 0 .go, .task 0 (.created none), .task 0 .go,
      .task 0 (.opens (.always 0 1 0)), .task 0 (.allocates default)]
    Runs.Throughout (step endpoint) (AllScheduled endpoint) (doStart 1)
        (opened ++ [.task 0 (.receives ⟨mqErrorIoTimeout, default, 0, []⟩)]) ∧
      ∃ c c'' : Consumer 1, Runs.run (step endpoint) (doStart 1) opened = some c ∧
        Runs.run (step endpoint) c [.task 0 (.receives ⟨mqErrorStaleHandle, default, 0, []⟩),
          .task 0 .go] = some c'' ∧
        (c''.worker 0).scheduled = false := by
  intro endpoint opened
  have hbenign : Runs.EachStep (step endpoint) (Benign endpoint) (doStart 1)
      (opened ++ [.task 0 (.receives ⟨mqErrorIoTimeout, default, 0, []⟩)]) := by
    iterate 2 refine (Runs.eachStep_cons_iff _ rfl).mpr ⟨trivial, ?_⟩
    refine (Runs.eachStep_cons_iff _ rfl).mpr ⟨rfl, ?_⟩
    refine (Runs.eachStep_cons_iff _ rfl).mpr ⟨trivial, ?_⟩
    refine (Runs.eachStep_cons_iff _ rfl).mpr ⟨⟨nofun, rfl⟩, ?_⟩
    have hsize : 0 ≤ (128 : Int32).toInt := by decide
    refine (Runs.eachStep_cons_iff _ rfl).mpr ⟨hsize, ?_⟩
    refine (Runs.eachStep_cons_iff _ rfl).mpr ⟨.inr (.inl rfl), ?_⟩
    exact Runs.eachStep_nil _ _
  have hfails : ∃ c c' c'' : Consumer 1, Runs.run (step endpoint) (doStart 1) opened = some c ∧
      c.step endpoint (.task 0 (.receives ⟨mqErrorStaleHandle, default, 0, []⟩)) = some c' ∧
      c'.step endpoint (.task 0 .go) = some c'' ∧ (c''.worker 0).pc = .idle ∧
      ¬c.Benign endpoint (.task 0 (.receives ⟨mqErrorStaleHandle, default, 0, []⟩)) := by
    refine ⟨_, _, _, rfl, rfl, rfl, rfl, ?_⟩
    intro hbenign
    obtain hfine | htimeout | ⟨hoverflow, -⟩ := hbenign
    · exact absurd hfine (by decide)
    · exact absurd htimeout (by decide)
    · exact absurd hoverflow (by decide)
  obtain ⟨hscheduled, hdropped⟩ := workers_scheduled 1 endpoint
  obtain ⟨c, c', c'', hc, hreceive, hleave, hidle, hharmful⟩ := hfails
  refine ⟨hscheduled _ hbenign, c, c'', hc, ?_, ?_⟩
  · simp only [Runs.run, hreceive, hleave, Option.bind_some]
  · have hrun : Runs.run (step endpoint) c' [.task 0 .go] = some c'' := by
      simp only [Runs.run, hleave, Option.bind_some]
    exact hdropped c c' c'' 0 _ hreceive hharmful ⟨_, hrun⟩ hidle

/-- A receive that fails costs the only worker: `doStop` has not been called, and yet
the worker is idle and will not be started again. -/
theorem worker_lost_by_receive :
    ∃ c : Consumer 1, Runs.run (step { remaining := some [113] }) (doStart 1)
        [.start 0, .task 0 .go, .task 0 (.created none), .task 0 .go,
          .task 0 (.opens (.always 0 1 0)), .task 0 (.allocates default),
          .task 0 (.receives ⟨mqErrorStaleHandle, default, 0, []⟩), .task 0 .go] = some c ∧
      c.phase = .running ∧ (c.worker 0).pc = .idle ∧
      ¬c.AllScheduled { remaining := some [113] } := by
  refine ⟨_, rfl, rfl, rfl, ?_⟩
  intro hall
  exact absurd (hall 0).1 (by decide)

end Consumer

end Msmq
