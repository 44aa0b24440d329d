import CamelMsmq.Deliveries
import CamelMsmq.Relay

/-!
# How the errors of a run come out

Four calls of a run may throw: `createExchange`, `open`, the receive and the processor.
The run ends with that throwable, with two exceptions.  The handler inside the loop
compares the text of a `RuntimeException` to recognise an overflow, so it mistakes any
other with that text for one, and fails on one without a text.  And `finally` gives a
queue back that has not been taken if `createExchange` throws.

`Task.Passes` are the answers that avoid both.  A run *ends with* a throwable if it receives
nothing more and hands nothing more over, and its next step ends it so, whatever the others
do meanwhile (`EndsWith`); that the run can take this step is part of it.

The exception that the handler throws on one without a text is another one than that, also
when both are a `NullPointerException`.  `outOfRun_noMessage_ne` is where the two are told apart.
-/

namespace Msmq

namespace Throwable

/-- What a throwable becomes on the way out of `run()`. -/
def outOfRun (ex : Throwable) : Throwable :=
  if ex.isException then ex.wrapRuntimeCamelException else ex

/-- A throwable that the handler inside the loop throws on: no `RuntimeException` with the text
of an overflow, nor one without a text, for which the handler throws a `NullPointerException` of
its own. -/
def PassesHandler (ex : Throwable) : Prop :=
  ex.isRuntimeException = true →
    ex.getMessage ≠ some "Message body too big" ∧ ex.getMessage ≠ none

/-- What may come out as `e` does. -/
theorem eq_of_outOfRun {ex : Throwable} {className : String} {message : Option String}
    (h : ex.outOfRun = (thrown .runtimeException className message).outOfRun) :
    ex = thrown .runtimeException className message ∨
      ex = camel (thrown .runtimeException className message) := by
  have hwrap : (thrown .runtimeException className message).outOfRun =
      camel (thrown .runtimeException className message) := rfl
  rw [hwrap] at h
  cases ex with
  | camel cause =>
      have hsame : (camel cause).outOfRun = camel cause := rfl
      rw [hsame] at h
      exact .inr h
  | thrown kind name text =>
      cases kind with
      | error => cases h
      | exception => cases h
      | runtimeException =>
          cases h
          exact .inl rfl
      | runtimeCamelException => cases h
  | noMessage ex => cases h

/-- The `NullPointerException` of the handler does not come out as the throwable without a text
does that it replaces, whatever that is. -/
theorem outOfRun_noMessage_ne (ex : Throwable) : ex.noMessage.outOfRun ≠ ex.outOfRun := by
  intro h
  cases ex with
  | thrown kind name text => cases kind <;> cases h
  | _ => cases h

/-- `finally` throws nothing that could have come out of the run by itself. -/
theorem outOfRun_ne_nullPointerException (ex : Throwable) :
    ex.outOfRun ≠ .nullPointerException := by
  intro h
  cases ex with
  | thrown kind name text => cases kind <;> cases h
  | _ => cases h

end Throwable

namespace Task

variable {endpoint : MsmqEndpoint} {me : RunId} {sh sh' : Shared} {pc : Pc} {ans : Answer}
  {after : After} {size : Nat} {queue : QueueRef} {loop : Loop} {ex : Throwable}

/-- Two throwables leave the loop alike if they come out alike. -/
theorem raise_inj {e e' : Throwable} (h : raise size (some queue) e = raise size (some queue) e') :
    e.outOfRun = e'.outOfRun := by
  injection h with hpc
  injection hpc with _ _ hpending
  exact Option.some.inj hpending

/-- **The handler inside the loop** throws a throwable on exactly if it passes: otherwise it has
let the buffer grow, or has thrown something else in its place. -/
theorem raiseInLoop_eq_raise_iff :
    (raiseInLoop endpoint sh size queue loop ex).1 = raise size (some queue) ex ↔
      ex.PassesHandler := by
  unfold raiseInLoop Loop.recover Throwable.PassesHandler
  cases hruntime : ex.isRuntimeException with
  | false => simp
  | true =>
      cases hmessage : ex.getMessage with
      | none =>
          simp only [if_true]
          refine ⟨fun h => ?_, fun h => absurd rfl (h trivial).2⟩
          exact absurd (raise_inj h) ex.outOfRun_noMessage_ne
      | some message =>
          by_cases htext : message = "Message body too big"
          · subst htext
            simp only [if_true]
            refine ⟨fun h => ?_, fun h => absurd rfl (h trivial).1⟩
            exfalso
            -- a larger buffer is allocated, or its size is negative
            cases halloc : ByteBuffer.allocateDirect sh.heap
                (loop.initsize + endpoint.incrementBufferSize) with
            | error e =>
                rw [halloc] at h
                obtain ⟨-, rfl⟩ := ByteBuffer.allocateDirect_error halloc
                rcases Throwable.eq_of_outOfRun (raise_inj h).symm with heq | heq
                · rw [heq] at hmessage
                  cases hmessage
                · rw [heq] at hmessage
                  exact absurd hmessage (by decide)
            | ok r =>
                rw [halloc] at h
                cases h
          · simp [htext]

/-- What the call of `createExchange`, `open`, the receive or the processor throws in a
step; an overflow is not counted. -/
def thrownBy (endpoint : MsmqEndpoint) (sh : Shared) : Pc → Answer → Option Throwable
  | .atCreate _ _, .created thrown => thrown
  | .atOpen _ queue _, .opens a =>
      match ((sh.object queue).open endpoint.remaining a sh.calls).result with
      | .error what => some (.native what)
      | .ok () => none
  | .atReceive _ queue loop, .receives a =>
      if a.hr = mqErrorBufferOverflow then none
      else match ((sh.object queue).receiveMessage loop.msmqMessage a.hr sh.calls).result with
        | .error what => some (.native what)
        | .ok _ => none
  | .atProcess _ _ _, .processes thrown _ _ => thrown
  | _, _ => none

/-- The answers after which a throwable is not replaced: `createExchange` throws only when
no queue is to be taken out of the pool, and what the processor throws passes the handler
inside the loop. -/
def Passes : Pc → Answer → Prop
  | .atCreate size _, .created (some _) => size ≤ 1
  | .atProcess _ _ _, .processes (some ex) _ _ => ex.PassesHandler
  | _, _ => True

/-- The run is about to end with a throwable. -/
def Throwing (ex : Throwable) (pc : Pc) : Prop :=
  ∃ size queue, pc = .atFinally size queue (some ex) ∧ (1 < size → queue ≠ none)

/-- Where a run can be after a throwable. -/
def Thrown : Pc → Prop
  | .atReceive _ _ _ => True
  | .atFinally _ _ _ => True
  | _ => False

/-- Inside the loop the queue is at hand. -/
theorem throwing_raiseInLoop_iff :
    Throwing ex.outOfRun (raiseInLoop endpoint sh size queue loop ex).1.pc ↔ ex.PassesHandler := by
  have hraise : (raiseInLoop endpoint sh size queue loop ex).1 = raise size (some queue) ex ↔
      ex.PassesHandler := raiseInLoop_eq_raise_iff
  rw [← hraise]
  obtain ⟨-, -, -, heq⟩ | ⟨-, e, heq⟩ := raiseInLoop_cases endpoint sh size queue loop ex <;>
    rw [heq]
  · constructor
    · rintro ⟨size, queue, hpc, -⟩
      cases hpc
    · intro h
      cases h
  · constructor
    · rintro ⟨size', queue', hpc, -⟩
      have hpending : some e.outOfRun = some ex.outOfRun := by injection hpc
      exact congrArg (fun pending => After.goOn (.atFinally size (some queue) pending)) hpending
    · intro h
      rw [h]
      exact ⟨size, some queue, rfl, nofun⟩

/-- A throwable inside the loop leads to a receive or out of the run. -/
theorem thrown_raiseInLoop : Thrown (raiseInLoop endpoint sh size queue loop ex).1.pc := by
  obtain ⟨-, -, -, heq⟩ | ⟨-, e, heq⟩ := raiseInLoop_cases endpoint sh size queue loop ex <;>
    rw [heq] <;> trivial

/-- A receive that does not overflow. -/
theorem thrownBy_receives {a : ReceiveAnswer} (hover : a.hr ≠ mqErrorBufferOverflow) :
    thrownBy endpoint sh (.atReceive size queue loop) (.receives a) =
      if failed a.hr = true ∧ a.hr ≠ mqErrorIoTimeout then some (.native "Error in receiving")
      else none := by
  simp only [thrownBy, if_neg hover, MsmqQueue.receiveMessage]
  by_cases htimeout : a.hr = mqErrorIoTimeout
  · simp [htimeout]
  · cases failed a.hr <;> simp [htimeout]

/-- A receive that brings a message does not throw. -/
theorem thrownBy_received {a : ReceiveAnswer} (hhr : failed a.hr = false) :
    thrownBy endpoint sh (.atReceive size queue loop) (.receives a) = none := by
  have hover : a.hr ≠ mqErrorBufferOverflow := by
    intro heq
    rw [heq, failed_bufferOverflow] at hhr
    cases hhr
  rw [thrownBy_receives hover, if_neg (by simp [hhr])]

/-- **One step that throws.**  The run is about to end with the throwable exactly if the answer
passes.  Whether or not it passes, the run is at one of the places where it can be after a
throwable: on its way out, or at a receive with a larger buffer. -/
theorem Steps.throwing_iff (h : Steps endpoint me sh pc ans after sh') (hw : pc.WellFormed)
    (hthrown : thrownBy endpoint sh pc ans = some ex) :
    Thrown after.pc ∧ (Throwing ex.outOfRun after.pc ↔ Passes pc ans) := by
  cases h with
  | @notCreated size queue e =>
      obtain rfl : e = ex := Option.some.inj hthrown
      refine ⟨trivial, ?_, fun hsize => ⟨size, queue, rfl, fun hmore => ?_⟩⟩
      · rintro ⟨size', queue', hpc, hqueue⟩
        show size ≤ 1
        injection hpc with hsize hsame _
        obtain ⟨hmore, hnone⟩ | ⟨hone, -⟩ := hw
        · exact absurd (hsame.symm.trans hnone) (hqueue (hsize ▸ hmore))
        · exact Nat.le_of_eq hone
      · have hle : size ≤ 1 := hsize
        omega
  | notOpened a what herror =>
      simp only [thrownBy, herror] at hthrown
      obtain rfl := Option.some.inj hthrown
      exact ⟨trivial, fun _ => trivial, fun _ => ⟨_, _, rfl, nofun⟩⟩
  | receiveFails a hfits hhr =>
      rw [thrownBy_receives hhr.2.2, if_pos ⟨hhr.1, hhr.2.1⟩] at hthrown
      obtain rfl := Option.some.inj hthrown
      refine ⟨thrown_raiseInLoop, throwing_raiseInLoop_iff.trans ⟨fun _ => trivial, fun _ _ => ?_⟩⟩
      exact ⟨by decide, nofun⟩
  | processorThrows e exchange writes hwrites =>
      obtain rfl : e = ex := Option.some.inj hthrown
      exact ⟨thrown_raiseInLoop, throwing_raiseInLoop_iff⟩
  | overflow a hfits hhr =>
      simp only [thrownBy, if_pos hhr] at hthrown
      cases hthrown
  | timeout a hfits hhr =>
      rw [thrownBy_receives (by rw [hhr]; decide), if_neg (by simp [hhr])] at hthrown
      cases hthrown
  | received a filled hfits hhr hfill =>
      rw [thrownBy_received hhr] at hthrown
      cases hthrown
  | notFilled a ex hfits hhr hfill =>
      rw [thrownBy_received hhr] at hthrown
      cases hthrown
  | opened a hok =>
      simp only [thrownBy, hok] at hthrown
      cases hthrown
  | _ => cases hthrown

/-- An answer that does not pass throws, so "all answers pass" forbids nothing but errors. -/
theorem thrownBy_of_not_passes (endpoint : MsmqEndpoint) (sh : Shared) (h : ¬Passes pc ans) :
    ∃ ex, thrownBy endpoint sh pc ans = some ex := by
  unfold Passes at h
  split at h
  · exact ⟨_, rfl⟩
  · exact ⟨_, rfl⟩
  · exact absurd trivial h

/-- A step that replaces the buffer after an answer that passes follows an overflow. -/
theorem Steps.overflow_of_grown (h : Steps endpoint me sh pc ans after sh')
    (hs : Sound endpoint me sh pc) (hp : Passes pc ans) {n : Nat} (hbefore : pc.grown? = some n)
    (hafter : after.pc.grown? = some (n + 1)) :
    ∃ a, ans = .receives a ∧ a.hr = mqErrorBufferOverflow := by
  obtain ⟨before, hn, hgrown⟩ := h.grown hs hafter
  obtain rfl : n = before := Option.some.inj (hbefore.symm.trans hn)
  have hgrows : ans.grows = true := by
    by_contra hnot
    rw [if_neg hnot] at hgrown
    omega
  unfold Answer.grows at hgrows
  split at hgrows
  · exact ⟨_, rfl, of_decide_eq_true hgrows⟩
  · rename_i ex exchange writes
    obtain ⟨hruntime, hmessage⟩ := Bool.and_eq_true_iff.mp hgrows
    cases h with
    | processorThrows _ _ _ _ => exact absurd (of_decide_eq_true hmessage) (hp hruntime).1
  · cases hgrows

end Task

namespace Consumer

variable {N : Nat} {endpoint : MsmqEndpoint} {c c' c₁ : Consumer N} {w : Fin N} {ex : Throwable}

/-- What a run has received and handed over. -/
def history (c : Consumer N) (me : RunId) : List (RunId × MqMessage) × List (RunId × Delivery) :=
  (c.shared.removals.filter (·.1 = me), c.shared.deliveries.filter (·.1 = me))

/-- However it goes on: the run that `w` is in receives nothing more and hands nothing more
over, and while it lasts, it can end, and its next step ends it with `ex`. -/
structure EndsWith (endpoint : MsmqEndpoint) (c : Consumer N) (w : Fin N) (ex : Throwable) :
    Prop where
  history : ∀ acts c₁, Runs.run (step endpoint) c acts = some c₁ →
    c₁.history (c.runId w) = c.history (c.runId w)
  next : ∀ acts c₁, Runs.run (step endpoint) c acts = some c₁ → c₁.runId w = c.runId w →
    c₁.step endpoint (.task w .go) ≠ none ∧
    ∀ ans after shared,
      Task.step endpoint (c₁.runId w) c₁.shared (c₁.worker w).pc ans = some (after, shared) →
      after = .ended (some ex)

/-- What stays true once the run is about to end: it is still about to, or it is over; and its
history is what it was. -/
structure Ending (c : Consumer N) (w : Fin N) (ex : Throwable) (c₁ : Consumer N) : Prop where
  place : (c₁.runId w = c.runId w ∧ Task.Throwing ex (c₁.worker w).pc) ∨
    (c.worker w).runs < (c₁.worker w).runs
  history : c₁.history (c.runId w) = c.history (c.runId w)

/-- A step adds to the history of its own run only. -/
theorem history_of_recorded {me other : RunId} (hr : Task.Recorded me c.shared c'.shared)
    (hne : other ≠ me) : c'.history other = c.history other := by
  have hskip : ∀ {β : Type} (news old : List (RunId × β)), (∀ x ∈ news, x.1 = me) →
      (news ++ old).filter (·.1 = other) = old.filter (·.1 = other) := by
    intro β news old hnews
    rw [List.filter_append, List.filter_eq_nil_iff.mpr, List.nil_append]
    intro x hx
    simpa [hnews x hx] using hne.symm
  obtain ⟨⟨news, hremovals, hnews⟩, ⟨news', hdeliveries, hnews'⟩⟩ := hr
  simp only [history, hremovals, hdeliveries, hskip _ _ hnews, hskip _ _ hnews']

/-- A run that is about to end with a throwable ends so in its next step, which adds
nothing to the histories. -/
theorem ended_of_throwing {me : RunId} {sh sh' : Shared} {pc : Pc} {ans : Answer} {after : After}
    (h : Task.Steps endpoint me sh pc ans after sh') (ht : Task.Throwing ex pc) :
    after = .ended (some ex) ∧ sh'.removals = sh.removals ∧ sh'.deliveries = sh.deliveries := by
  obtain ⟨size, queue, rfl, hqueue⟩ := ht
  cases h with
  | giveBack hsize => exact ⟨rfl, rfl, rfl⟩
  | giveBackNull hsize => exact absurd rfl (hqueue hsize)
  | leave hsize => exact ⟨rfl, rfl, rfl⟩

/-- A run that is about to end can do so: `finally` needs no answer from outside. -/
theorem exists_ended (endpoint : MsmqEndpoint) (me : RunId) (sh : Shared) {pc : Pc}
    (ht : Task.Throwing ex pc) :
    ∃ sh', Task.step endpoint me sh pc .go = some (.ended (some ex), sh') := by
  obtain ⟨size, queue, rfl, hqueue⟩ := ht
  simp only [Task.step]
  by_cases hsize : size > 1
  · cases queue with
    | none => exact absurd rfl (hqueue hsize)
    | some queue => exact ⟨_, if_pos hsize⟩
  · exact ⟨_, if_neg hsize⟩

/-- **One step** after a run is about to end.  It ends the run, or it is somebody else's and
leaves the run and its history as they are. -/
theorem Ending.step (he : Ending c w ex c₁) {act : Action N} {c₂ : Consumer N}
    (h : c₁.step endpoint act = some c₂) : Ending c w ex c₂ := by
  cases seenBy_of_step h w with
  | others hstart htask hme hrecorded hworker =>
      refine ⟨?_, ?_⟩
      · simp only [runId, hworker]
        exact he.place
      · rw [← he.history]
        exact history_of_recorded hrecorded fun heq => hme (congrArg RunId.worker heq)
  | start hidle hscheduled hshared hworker =>
      refine ⟨?_, ?_⟩
      · rcases he.place with ⟨-, size, queue, hpc, -⟩ | hover
        · rw [hidle] at hpc
          cases hpc
        · rw [hworker]
          exact .inr hover
      · rw [← he.history]
        simp only [Consumer.history, hshared]
  | @task _ ans after htask hworker =>
      rcases he.place with ⟨hsame, hthrowing⟩ | hover
      · obtain ⟨rfl, hremovals, hdeliveries⟩ := ended_of_throwing htask hthrowing
        have hruns : (c₁.worker w).runs = (c.worker w).runs := congrArg RunId.run hsame
        refine ⟨.inr ?_, ?_⟩
        · rw [hworker, ← hruns]
          exact Nat.lt_succ_self _
        · rw [← he.history]
          simp only [Consumer.history, hremovals, hdeliveries]
      · refine ⟨.inr ?_, ?_⟩
        · rw [hworker]
          cases after with
          | goOn pc => exact hover
          | ended thrown => exact Nat.lt_succ_of_lt hover
        · rw [← he.history]
          refine history_of_recorded htask.recorded fun heq => ?_
          have hruns : (c.worker w).runs = (c₁.worker w).runs := congrArg RunId.run heq
          omega

/-- A run that is about to end with a throwable ends with it, however long the others act
before. -/
theorem endsWith_of_throwing (ht : Task.Throwing ex (c.worker w).pc) :
    c.EndsWith endpoint w ex := by
  have hending : ∀ acts c₁, Runs.run (step endpoint) c acts = some c₁ → Ending c w ex c₁ :=
    fun acts c₁ hrun => Runs.run_invariant (step endpoint) (fun _ _ _ he h => he.step h)
      ⟨.inl ⟨rfl, ht⟩, rfl⟩ hrun
  refine ⟨fun acts c₁ hrun => (hending acts c₁ hrun).history, ?_⟩
  intro acts c₁ hrun hsame
  rcases (hending acts c₁ hrun).place with ⟨-, hthrowing⟩ | hover
  · refine ⟨?_, fun ans after shared h =>
      (ended_of_throwing (Task.steps_of_step h) hthrowing).1⟩
    obtain ⟨shared, hstep⟩ := exists_ended endpoint (c₁.runId w) c₁.shared hthrowing
    simp [step, hstep]
  · have hruns : (c₁.worker w).runs = (c.worker w).runs := congrArg RunId.run hsame
    omega

/-- A run that ends with a throwable which `finally` does not throw itself is about to end,
unless it is still in the loop. -/
theorem EndsWith.throwing (he : c.EndsWith endpoint w ex) (hpc : Task.Thrown (c.worker w).pc)
    (hne : ex ≠ .nullPointerException) : Task.Throwing ex (c.worker w).pc := by
  obtain ⟨hgo, hends⟩ := he.next [] c rfl rfl
  cases hplace : (c.worker w).pc with
  | atReceive size queue loop =>
      exfalso
      apply hgo
      simp [step, hplace, Task.step]
  | atFinally size queue pending =>
      rw [hplace] at hends
      by_cases hsize : size > 1
      · cases queue with
        | none =>
            exfalso
            have hnull := hends .go _ _ (if_pos hsize)
            injection hnull with hsome
            exact hne (Option.some.inj hsome).symm
        | some queue =>
            have hended := hends .go _ _ (if_pos hsize)
            injection hended with hsome
            exact ⟨size, some queue, by rw [hsome], fun _ => Option.some_ne_none queue⟩
      · have hended := hends .go _ _ (if_neg hsize)
        injection hended with hsome
        exact ⟨size, queue, by rw [hsome], fun hmore => absurd hmore hsize⟩
  | _ =>
      rw [hplace] at hpc
      exact hpc.elim

/-- The step does with errors what it should: if a call in it throws, the run ends with that
throwable, and the buffer is replaced only after an overflow. -/
def ErrorsComeOut (endpoint : MsmqEndpoint) (c : Consumer N) : Action N → Prop
  | .task w ans => ∀ c', c.step endpoint (.task w ans) = some c' →
      (∀ ex, Task.thrownBy endpoint c.shared (c.worker w).pc ans = some ex →
        c'.EndsWith endpoint w ex.outOfRun) ∧
      (∀ n, (c.worker w).pc.grown? = some n → (c'.worker w).pc.grown? = some (n + 1) →
        ∃ a, ans = .receives a ∧ a.hr = mqErrorBufferOverflow)
  | _ => True

/-- The answers of the run pass. -/
def Passes (c : Consumer N) : Action N → Prop
  | .task w ans => Task.Passes (c.worker w).pc ans
  | _ => True

/-- **The errors of one step** come out exactly if its answer passes. -/
theorem errorsComeOut_iff (hc : c.Conserved) (hs : c.Sound endpoint) {act : Action N}
    (h : c.step endpoint act = some c') : c.ErrorsComeOut endpoint act ↔ c.Passes act := by
  cases act with
  | task w ans =>
      cases steps_of_step h with
      | @task w ans after shared htask =>
          let c' : Consumer N := ⟨shared, Function.update c.worker w ((c.worker w).goOn after),
            c.phase.observe shared.queues⟩
          have hpc : (c'.worker w).pc = after.pc := by simp [c']
          constructor
          · intro hout
            by_contra hnot
            obtain ⟨ex, hthrown⟩ :=
              Task.thrownBy_of_not_passes endpoint c.shared hnot
            obtain ⟨hplace, hiff⟩ := htask.throwing_iff (hc.wellFormed w) hthrown
            have hends : c'.EndsWith endpoint w ex.outOfRun := (hout _ h).1 ex hthrown
            have hthrowing := hends.throwing (hpc ▸ hplace) ex.outOfRun_ne_nullPointerException
            rw [hpc] at hthrowing
            exact hnot (hiff.mp hthrowing)
          · intro hp c'' h''
            obtain rfl : c' = c'' := Option.some.inj (h.symm.trans h'')
            refine ⟨fun ex hthrown => ?_, fun n hbefore hafter => ?_⟩
            · apply endsWith_of_throwing
              rw [hpc]
              exact (htask.throwing_iff (hc.wellFormed w) hthrown).2.mpr hp
            · rw [hpc] at hafter
              exact htask.overflow_of_grown (hs.worker w) hp hbefore hafter
  | _ => exact Iff.rfl

/-- **Errors come out as they are** in every step of a run exactly if all its answers pass.  The
run goes on for any number of steps and workers, and the condition is on the single answers:
`createExchange` does not throw in a run that is to take a queue out of the pool, and the
processor throws nothing that the handler inside the loop takes for an overflow, or cannot look
at because it has no text.  Of all other errors it is said that they end their run, unchanged
but for the wrapping that the source prescribes. -/
theorem errors_come_out_iff {acts : List (Action N)} {finish : Consumer N}
    (hrun : Runs.run (step endpoint) (doStart N) acts = some finish) :
    Runs.EachStep (step endpoint) (ErrorsComeOut endpoint) (doStart N) acts ↔
      Runs.EachStep (step endpoint) Passes (doStart N) acts := by
  have hkeep : ∀ (c : Consumer N) act c', c.Conserved ∧ c.Sound endpoint →
      c.step endpoint act = some c' → c'.Conserved ∧ c'.Sound endpoint :=
    fun _ _ _ hc h => ⟨hc.1.step h, hc.2.step h⟩
  exact Runs.eachStep_congr (step endpoint) hkeep
    (fun _ _ _ hc h => errorsComeOut_iff hc.1 hc.2 h) ⟨conserved_doStart, sound_doStart⟩ hrun

/-- The queue cannot be opened. -/
theorem errors_come_out_not_opened :
    let endpoint : MsmqEndpoint := { remaining := some [113] }
    Runs.EachStep (step endpoint) (ErrorsComeOut endpoint) (doStart 1)
      [.start 0, .task 0 .go, .task 0 (.created none), .task 0 .go,
        .task 0 (.opens (.always 0xC00E000B 0 0)), .task 0 .go] := by
  intro endpoint
  have hrun : ∃ finish, Runs.run (step endpoint) (doStart 1)
      [.start 0, .task 0 .go, .task 0 (.created none), .task 0 .go,
        .task 0 (.opens (.always 0xC00E000B 0 0)), .task 0 .go] = some finish := ⟨_, rfl⟩
  obtain ⟨finish, hrun⟩ := hrun
  refine (errors_come_out_iff hrun).mpr ?_
  iterate 6 refine (Runs.eachStep_cons_iff _ rfl).mpr ⟨trivial, ?_⟩
  exact Runs.eachStep_nil _ _

/-- The processor throws a `RuntimeException` with the text of an overflow: the run goes on
receiving, and removes a second message. -/
theorem processor_error_mistaken :
    let endpoint : MsmqEndpoint := { remaining := some [113] }
    let ex : Throwable := .native "Message body too big"
    ∃ c c' c'' : Consumer 1,
      Runs.run (step endpoint) (doStart 1)
        [.start 0, .task 0 .go, .task 0 (.created none), .task 0 .go,
          .task 0 (.opens (.always 0 1 0)), .task 0 (.allocates default),
          .task 0 (.receives ⟨0, default, 0, [65]⟩)] = some c ∧
      c.step endpoint (.task 0 (.processes (some ex) .create [])) = some c' ∧
      Task.thrownBy endpoint c.shared (c.worker 0).pc (.processes (some ex) .create []) = some ex ∧
      ¬c'.EndsWith endpoint 0 ex.outOfRun ∧
      c'.step endpoint (.task 0 (.receives ⟨0, default, 0, [66]⟩)) = some c'' ∧
      (c''.history (c.runId 0)).1.length = 2 := by
  intro endpoint ex
  have hbefore : ∃ c : Consumer 1, Runs.run (step endpoint) (doStart 1)
      [.start 0, .task 0 .go, .task 0 (.created none), .task 0 .go,
        .task 0 (.opens (.always 0 1 0)), .task 0 (.allocates default),
        .task 0 (.receives ⟨0, default, 0, [65]⟩)] = some c ∧
      c.runId 0 = ⟨0, 0⟩ ∧ ∃ size queue loop, (c.worker 0).pc = .atProcess size queue loop :=
    ⟨_, rfl, rfl, _, _, _, rfl⟩
  have hsecond : (Runs.run (step { remaining := some [113] }) (doStart 1)
      ([.start 0, .task 0 .go, .task 0 (.created none), .task 0 .go,
        .task 0 (.opens (.always 0 1 0)), .task 0 (.allocates default),
        .task 0 (.receives ⟨0, default, 0, [65]⟩)] ++
      [.task 0 (.processes (some (.native "Message body too big")) .create []),
        .task 0 (.receives ⟨0, default, 0, [66]⟩)])).map
      (fun c => (c.history ⟨0, 0⟩).1.length) = some 2 := by
    decide +kernel
  obtain ⟨c, hrun, hid, size, queue, loop, hpc⟩ := hbefore
  obtain ⟨c'', hrun'', htwo⟩ := Option.map_eq_some_iff.mp hsecond
  obtain ⟨c₁, hrun₁, hrest⟩ := (Runs.run_append_iff _).mp hrun''
  obtain rfl : c₁ = c := Option.some.inj (hrun₁.symm.trans hrun)
  obtain ⟨c', hthrows, hlast⟩ := (Runs.run_cons_iff _).mp hrest
  have hreceives := (Runs.run_singleton_iff _).mp hlast
  refine ⟨c₁, c', c'', hrun, hthrows, ?_, fun hends => ?_, hreceives, ?_⟩
  · rw [hpc]
    rfl
  · -- the run is receiving again, so it cannot end with its next step
    obtain ⟨hgo, -⟩ := hends.next [] c' rfl rfl
    cases hpc' : (c'.worker 0).pc with
    | atReceive size queue loop => exact hgo (by simp [step, hpc', Task.step])
    | _ => simp [step, hpc', Task.step] at hreceives
  · rw [hid]
    exact htwo

end Consumer

end Msmq
