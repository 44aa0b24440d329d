import CamelMsmq.System

/-!
# What the workers have in their hands

Between its receive and the call of the processor a worker has one message in its hands,
and at all other times none.  So there are three kinds of steps: a successful receive
fills the hands of its worker, the call of the processor empties them and shows what was
in them, and all other steps leave all hands as they are.

`Task.Hands` says so of a step of one run, and `Consumer.Hands` of an action of the whole
consumer: the hands of the other workers do not change.  `Quiet` actions are those of the
third kind.  They neither receive a message nor call a processor, so they can be told from
the action alone.

Whoever looks at a consumer from outside, as the MSMQ queue does, needs no more than these
three cases.
-/

namespace Msmq

namespace Task

variable {endpoint : MsmqEndpoint} {me : RunId} {sh sh' : Shared} {pc : Pc} {ans : Answer}
  {after : After}

/-- The answer neither removes a message nor stands for a call of the processor. -/
def Quiet : Answer → Prop
  | .receives a => failed a.hr = true
  | .processes _ _ _ => False
  | _ => True

/-- What a step does to the hands of its worker. -/
inductive Hands (me : RunId) (sh sh' : Shared) (pc pc' : Pc) (ans : Answer) : Prop
  | quiet (hquiet : Quiet ans) (hbefore : pc.hands me.worker sh = 0)
      (hafter : pc'.hands me.worker sh' = 0) (hdeliveries : sh'.deliveries = sh.deliveries)
  | receives (a : ReceiveAnswer) (hans : ans = .receives a) (hhr : failed a.hr = false)
      (hbefore : pc.hands me.worker sh = 0)
      (hafter : pc'.hands me.worker sh' = {⟨a.bytes, a.props⟩})
      (hdeliveries : sh'.deliveries = sh.deliveries)
  | processes {size : Nat} {queue : QueueRef} {loop : Loop} {thrown : Option Throwable}
      {exchange : Exchange} {writes : List (Addr × Nat × List UInt8)} (m : MqMessage)
      (hpc : pc = .atProcess size queue loop) (hans : ans = .processes thrown exchange writes)
      (hfaithful : Faithful (loop.exchange.shown sh.heap) m)
      (hbefore : pc.hands me.worker sh = {m}) (hafter : pc'.hands me.worker sh' = 0)
      (hdeliveries : sh'.deliveries = (me, loop.exchange.shown sh.heap) :: sh.deliveries)

/-- After a throwable inside the loop the hands are empty. -/
theorem hands_raiseInLoop (endpoint : MsmqEndpoint) {shMid : Shared} {size : Nat}
    {queue : QueueRef} {loop : Loop} (ex : Throwable) (worker : Nat) :
    (raiseInLoop endpoint shMid size queue loop ex).1.pc.hands worker
        (raiseInLoop endpoint shMid size queue loop ex).2 = 0 ∧
      (raiseInLoop endpoint shMid size queue loop ex).2.deliveries = shMid.deliveries := by
  refine ⟨?_, (raiseInLoop_sameButHeap endpoint shMid size queue loop ex).deliveries⟩
  obtain ⟨-, -, -, heq⟩ | ⟨-, e, heq⟩ := raiseInLoop_cases endpoint shMid size queue loop ex <;>
    rw [heq] <;> rfl

/-- A run that is about to call the processor has one message in its hands, and what it shows is
that message. -/
theorem Sound.hands {size : Nat} {queue : QueueRef} {loop : Loop}
    (hs : Sound endpoint me sh (.atProcess size queue loop)) :
    ∃ m, Pc.hands me.worker sh (.atProcess size queue loop) = {m} ∧
      Faithful (loop.exchange.shown sh.heap) m := by
  obtain ⟨m, older, hremovals, -, hfilled⟩ := hs
  refine ⟨m, ?_, hfilled.faithful⟩
  simp only [Pc.hands, hremovals]
  rfl

/-- A step of a run fills its hands, empties them, or leaves them as they are, as its answer
says. -/
theorem Steps.hands (h : Steps endpoint me sh pc ans after sh') (hs : Sound endpoint me sh pc) :
    Hands me sh sh' pc after.pc ans := by
  cases h with
  | timeout a hfits hhr => exact .quiet (by rw [Quiet, hhr, failed_ioTimeout]) rfl rfl rfl
  | overflow a hfits hhr =>
      obtain ⟨hafter, hdeliveries⟩ := hands_raiseInLoop endpoint _ _
      exact .quiet (by rw [Quiet, hhr, failed_bufferOverflow]) rfl hafter hdeliveries
  | receiveFails a hfits hhr =>
      obtain ⟨hafter, hdeliveries⟩ := hands_raiseInLoop endpoint _ _
      exact .quiet hhr.1 rfl hafter hdeliveries
  | received a filled hfits hhr hfill =>
      refine .receives a rfl hhr rfl ?_ rfl
      simp only [After.pc, Pc.hands, removalsOf_received hhr]
      rfl
  | notFilled a ex hfits hhr hfill => exact absurd hfill (hs.1.fill_ne_error hfits hhr ex)
  | processed exchange writes hwrites =>
      obtain ⟨m, hm, hfaithful⟩ := hs.hands
      exact .processes m rfl rfl hfaithful hm rfl rfl
  | processorThrows ex exchange writes hwrites =>
      obtain ⟨m, hm, hfaithful⟩ := hs.hands
      obtain ⟨hafter, hdeliveries⟩ := hands_raiseInLoop endpoint ex _
      exact .processes m rfl rfl hfaithful hm hafter hdeliveries
  | _ => exact .quiet trivial rfl rfl rfl

end Task

namespace Consumer

variable {N : Nat} {endpoint : MsmqEndpoint} {c c' : Consumer N} {act : Action N}

/-- The action neither removes a message nor stands for a call of a processor. -/
def Quiet : Action N → Prop
  | .task _ ans => Task.Quiet ans
  | _ => True

/-- What an action does to the hands of the workers. -/
inductive Hands (c c' : Consumer N) : Action N → Prop
  | quiet {act : Action N} (hquiet : Quiet act) (hsame : c'.inHands = c.inHands)
      (hdeliveries : c'.shared.deliveries = c.shared.deliveries) : Hands c c' act
  | receives (w : Fin N) (a : ReceiveAnswer) (hhr : failed a.hr = false)
      (hbefore : c.inHands w = 0)
      (hafter : c'.inHands = Function.update c.inHands w {⟨a.bytes, a.props⟩})
      (hdeliveries : c'.shared.deliveries = c.shared.deliveries) :
      Hands c c' (.task w (.receives a))
  | processes (w : Fin N) {size : Nat} {queue : QueueRef} {loop : Loop}
      {thrown : Option Throwable} {exchange : Exchange}
      {writes : List (Addr × Nat × List UInt8)} (m : MqMessage)
      (hpc : (c.worker w).pc = .atProcess size queue loop)
      (hfaithful : Faithful (loop.exchange.shown c.shared.heap) m)
      (hbefore : c.inHands w = {m}) (hafter : c'.inHands = Function.update c.inHands w 0)
      (hdeliveries : c'.shared.deliveries =
        (c.runId w, loop.exchange.shown c.shared.heap) :: c.shared.deliveries) :
      Hands c c' (.task w (.processes thrown exchange writes))

/-- A step of worker `w` concerns its own hands only. -/
theorem inHands_task {w : Fin N} {ans : Answer} {after : After} {shared : Shared} (phase : Phase)
    (h : Task.Steps endpoint (c.runId w) c.shared (c.worker w).pc ans after shared) :
    inHands ⟨shared, Function.update c.worker w ((c.worker w).goOn after), phase⟩ =
      Function.update c.inHands w (after.pc.hands w shared) := by
  funext v
  unfold inHands
  by_cases hv : v = w
  · subst hv
    simp only [Function.update_self, Worker.pc_goOn]
  · have hothers := (h.recorded.others (n := v) fun heq => hv (Fin.ext heq)).1
    simp only [Function.update_of_ne hv, Pc.hands, hothers]

/-- A run that starts has empty hands. -/
theorem inHands_start {w : Fin N} (hidle : (c.worker w).pc = .idle) (size : Nat) :
    inHands { c with worker := Function.update c.worker w ((c.worker w).start size) } =
      c.inHands := by
  funext v
  unfold inHands
  by_cases hv : v = w
  · subst hv
    simp only [Function.update_self, hidle]
    unfold Worker.start
    split <;> rfl
  · simp only [Function.update_of_ne hv]

/-- An action of the consumer fills or empties the hands of one worker, or leaves all hands as
they are. -/
theorem Sound.hands (hs : c.Sound endpoint) (h : c.step endpoint act = some c') :
    Hands c c' act := by
  cases steps_of_step h with
  | start hphase hscheduled hidle => exact .quiet trivial (inHands_start hidle _) rfl
  | @task w ans after shared htask =>
      have hafter := inHands_task (c.phase.observe shared.queues) htask
      cases htask.hands (hs.worker w) with
      | quiet hquiet hbefore hempty hdeliveries =>
          refine .quiet hquiet ?_ hdeliveries
          have hsame : after.pc.hands w shared = c.inHands w := hempty.trans hbefore.symm
          rw [hafter, hsame, Function.update_eq_self]
      | receives a hans hhr hbefore hone hdeliveries =>
          subst hans
          refine .receives w a hhr hbefore ?_ hdeliveries
          rw [hafter]
          exact congrArg _ hone
      | processes m hpc hans hfaithful hbefore hempty hdeliveries =>
          subst hans
          refine .processes w m hpc hfaithful hbefore ?_ hdeliveries
          rw [hafter]
          exact congrArg _ hempty
  | _ => exact .quiet trivial rfl rfl

end Consumer

end Msmq
