import CamelMsmq.GrowthLoop

/-!
# The growth of the buffer ends

A message stays at the head of the queue, so every receive is answered with an overflow or
with the message.  The loop ends by delivering it exactly if one of the sizes that the
buffer runs through has room for the message and is an `int`.  If there is none, the loop
goes on for ever (an increment of zero), or an allocation fails (a negative increment, or
one that makes the sum wrap around).

To *deliver* is said of all runs and not of one: however the others go on, the number of
overflows is bounded, the worker can always make its next attempt, and once the message has
been received the worker is about to hand it over as it is.  `Underway` is the invariant of
such runs.  For the other direction `exists_attempts` builds a run with any number of attempts
in vain.
-/

namespace Msmq

/-- What MSMQ answers while the message `m` is at the head of the queue. -/
structure ReceiveAnswer.Meets (m : MqMessage) (msg : MsmqMessage) (a : ReceiveAnswer) : Prop where
  overflow : msg.cElems.toNat < m.body.length → a.hr = mqErrorBufferOverflow
  success : m.body.length ≤ msg.cElems.toNat →
    failed a.hr = false ∧ a.bytes = m.body ∧ a.props = m.props

variable {m : MqMessage}

/-- Such an answer does not remove the message from the head before it is received. -/
theorem ReceiveAnswer.Meets.atHead {msg : MsmqMessage} {a : ReceiveAnswer} (ha : a.Meets m msg) :
    a.AtHead m.body.length msg ∧ a.hr ≠ mqErrorIoTimeout ∧
      (failed a.hr = true → a.hr = mqErrorBufferOverflow) := by
  by_cases hsmall : msg.cElems.toNat < m.body.length
  · have hhr := ha.overflow hsmall
    have hne : mqErrorBufferOverflow ≠ mqErrorIoTimeout := by decide
    refine ⟨⟨fun h => ?_, fun _ => hsmall, fun h => ?_⟩, ?_, fun _ => hhr⟩
    · exact absurd (hhr.symm.trans h) hne
    · rw [hhr, failed_bufferOverflow] at h
      cases h
    · rw [hhr]
      exact hne
  · obtain ⟨hhr, hbytes, -⟩ := ha.success (not_lt.mp hsmall)
    have hother : ∀ hr, failed hr = true → a.hr ≠ hr := by
      rintro hr hfailed rfl
      rw [hhr] at hfailed
      cases hfailed
    refine ⟨⟨fun h => ?_, fun h => ?_, fun _ => by rw [hbytes]⟩, ?_, fun h => ?_⟩
    · exact absurd h (hother _ failed_ioTimeout)
    · exact absurd h (hother _ failed_bufferOverflow)
    · exact hother _ failed_ioTimeout
    · rw [hhr] at h
      cases h

namespace Task

variable {endpoint : MsmqEndpoint} {me : RunId} {sh sh' : Shared} {after : After}
  {size : Nat} {queue : QueueRef} {loop : Loop} {a : ReceiveAnswer} {K : Nat}

/-- The run is receiving, or about to hand over `m`. -/
def Underway (m : MqMessage) (me : RunId) (sh : Shared) : Pc → Prop
  | .atReceive _ _ _ => True
  | .atProcess _ _ _ => ∃ older, sh.removalsOf me.worker = (me, m) :: older
  | _ => False

/-- A run that is underway depends on the others in one respect only, and what they receive does
not touch it: the removals of its own worker. -/
theorem Underway.frame {pc : Pc} (hu : Underway m me sh pc)
    (hremovals : sh'.removalsOf me.worker = sh.removalsOf me.worker) : Underway m me sh' pc := by
  cases pc with
  | atProcess size queue loop =>
      obtain ⟨older, hpending⟩ := hu
      exact ⟨older, hremovals.trans hpending⟩
  | _ => exact hu

/-- **One receive.**  If `K` growths are enough, the run is still underway. -/
theorem Steps.underway
    (h : Steps endpoint me sh (.atReceive size queue loop) (.receives a) after sh')
    (hs : Sound endpoint me sh (.atReceive size queue loop))
    (hin : (Pc.atReceive size queue loop).InStep endpoint m.body.length)
    (hmeets : a.Meets m loop.msmqMessage) (hleast : IsLeast (endpoint.enough m.body.length) K)
    (hmax : endpoint.bufferSize K < 2 ^ 31) : Underway m me sh' after.pc := by
  obtain ⟨hhead, htimeout, hover⟩ := hmeets.atHead
  cases h with
  | timeout a hfits hhr => exact absurd hhr htimeout
  | receiveFails a hfits hhr => exact absurd (hover hhr.1) hhr.2.2
  | overflow a hfits hhr =>
      have hbefore := bufferSize_lt_of_overflow hs.1 hin (hhead.overflow hhr)
      have hnext : loop.grown + 1 ≤ K := Growth.le_of_isLeast_enough hleast hbefore
      have hstep := Growth.step_pos_of_isLeast_enough hleast (by omega)
      have hle : endpoint.bufferSize (loop.grown + 1) ≤ endpoint.bufferSize K :=
        Growth.size_mono (le_of_lt hstep) hnext
      have hsum : loop.initsize.toInt + endpoint.incrementBufferSize.toInt =
          endpoint.bufferSize (loop.grown + 1) := by
        rw [hin.1]
        exact (Growth.size_succ _ _ _).symm
      have hsmall := hs.1.sized.nonneg
      have hnonneg : 0 ≤ (loop.initsize + endpoint.incrementBufferSize).toInt := by
        rw [toInt_add_of_range (by omega) (by omega)]
        omega
      obtain ⟨-, -, -, heq⟩ | ⟨hnot, e, heq⟩ := raiseInLoop_cases endpoint
        (sh.received me queue loop a) size queue (loop.received a) (.native "Message body too big")
      · rw [heq]
        trivial
      · exact absurd ⟨rfl, rfl, hnonneg⟩ hnot
  | received a filled hfits hhr hfill =>
      have hbytes := hs.1.bytes_le hfits
      rw [hhead.success hhr, ← hs.1.cElems] at hbytes
      obtain ⟨-, hbody, hprops⟩ := hmeets.success hbytes
      refine ⟨sh.removalsOf me.worker, ?_⟩
      rw [removalsOf_received hhr, hbody, hprops]
  | notFilled a ex hfits hhr hfill => exact absurd hfill (hs.1.fill_ne_error hfits hhr ex)

/-- An overflow is not followed by a call of the processor. -/
theorem Steps.not_atProcess
    (h : Steps endpoint me sh (.atReceive size queue loop) (.receives a) after sh')
    (hover : a.hr = mqErrorBufferOverflow) {size' : Nat} {queue' : QueueRef} {loop' : Loop} :
    after.pc ≠ .atProcess size' queue' loop' := by
  have hraise : ∀ shMid loopMid ex,
      (raiseInLoop endpoint shMid size queue loopMid ex).1.pc ≠ .atProcess size' queue' loop' := by
    intro shMid loopMid ex
    obtain ⟨-, -, -, heq⟩ | ⟨-, e, heq⟩ :=
      raiseInLoop_cases endpoint shMid size queue loopMid ex <;>
      rw [heq] <;> intro h <;> cases h
  cases h with
  | timeout a hfits hhr =>
      intro h
      cases h
  | overflow a hfits hhr => exact hraise _ _ _
  | receiveFails a hfits hhr => exact hraise _ _ _
  | received a filled hfits hhr hfill =>
      rw [hover, failed_bufferOverflow] at hhr
      cases hhr
  | notFilled a ex hfits hhr hfill => exact hraise _ _ _

end Task

namespace Consumer

variable {N : Nat} {endpoint : MsmqEndpoint} {c c' c₀ : Consumer N} {w : Fin N} {K : Nat}

/-- All that worker `w` does is to receive, with `m` at the head of the queue. -/
def Meets (w : Fin N) (m : MqMessage) (c : Consumer N) : Action N → Prop
  | .task v ans => v = w → ∃ size queue loop a, (c.worker w).pc = .atReceive size queue loop ∧
      ans = .receives a ∧ a.Meets m loop.msmqMessage
  | _ => True

/-- After `k` overflows the size has not wrapped around, and the run of worker `w` can make
another attempt to receive `m`, or is about to hand `m` over. -/
def GoesOn (endpoint : MsmqEndpoint) (w : Fin N) (m : MqMessage) (k : Nat) (c : Consumer N) :
    Prop :=
  match (c.worker w).pc with
  | .atReceive _ _ loop => loop.initsize.toInt = endpoint.bufferSize k ∧
      ∃ a c', a.Meets m loop.msmqMessage ∧ c.step endpoint (.task w (.receives a)) = some c'
  | .atProcess _ _ loop => loop.initsize.toInt = endpoint.bufferSize k ∧
      Faithful (loop.exchange.shown c.shared.heap) m
  | _ => False

/-- However the others go on: as long as the run of worker `w` receives with `m` at the head
of the queue, it goes on, and not with more than a fixed number of overflows. -/
def Delivers (endpoint : MsmqEndpoint) (w : Fin N) (m : MqMessage) (c : Consumer N) : Prop :=
  ∃ K, ∀ acts c', Runs.run (step endpoint) c acts = some c' →
    Runs.EachStep (step endpoint) (Meets w m) c acts →
    overflows w acts ≤ K ∧ c'.GoesOn endpoint w m (overflows w acts)

/-- The run of worker `w` is in step, and receiving or about to hand over `m`.  This is what the
actions of others cannot change. -/
structure Underway (endpoint : MsmqEndpoint) (w : Fin N) (m : MqMessage) (c : Consumer N) :
    Prop where
  inStep : c.InStep endpoint w m.body.length
  place : Task.Underway m (c.runId w) c.shared (c.worker w).pc

/-- A receive of `m` leaves it at the head of the queue until it is received. -/
theorem Underway.atHead (hu : c.Underway endpoint w m) {act : Action N}
    (h : c.step endpoint act = some c') (hmeets : c.Meets w m act) :
    c.AtHead w m.body.length act := by
  cases act with
  | start v =>
      rintro rfl
      cases steps_of_step h with
      | start hphase hscheduled hidle =>
          have hplace := hu.place
          rw [hidle] at hplace
          exact hplace
  | task v ans =>
      intro hv
      obtain ⟨size, queue, loop, a, hpc, rfl, ha⟩ := hmeets hv
      rw [hpc]
      exact ha.atHead.1
  | _ => trivial

/-- **One step** of a run that is underway.  A step of another worker leaves the run as it is,
and one of its own is a timeout, an overflow that brings it nearer to the size that fits, or the
receive of the message. -/
theorem Underway.step (hu : c.Underway endpoint w m) {act : Action N}
    (h : c.step endpoint act = some c') (hmeets : c.Meets w m act)
    (hleast : IsLeast (endpoint.enough m.body.length) K) (hmax : endpoint.bufferSize K < 2 ^ 31) :
    c'.Underway endpoint w m := by
  refine ⟨hu.inStep.step h (hu.atHead h hmeets), ?_⟩
  have hplace := hu.place
  cases seenBy_of_step h w with
  | others hstart htask hme hrecorded hworker =>
      simp only [runId, hworker]
      exact hplace.frame (hrecorded.others hme).1
  | start hidle hscheduled hshared hworker =>
      rw [hidle] at hplace
      exact hplace.elim
  | @task _ ans after htask hworker =>
      obtain ⟨size, queue, loop, a, hpc, rfl, ha⟩ := hmeets rfl
      have hin := hu.inStep.2
      have hsound := hu.inStep.1.worker w
      rw [hpc] at htask hin hsound
      have hafter := htask.underway hsound hin ha hleast hmax
      simp only [runId, hworker]
      cases after with
      | goOn pc => exact hafter
      | ended thrown => exact hafter.elim

/-- There is an answer to the next receive that MSMQ can give while the message is at the head
of the queue: the message if there is room for it, and otherwise an overflow. -/
theorem exists_meets (m : MqMessage) {size : Nat} {queue : QueueRef} {loop : Loop}
    (hpc : (c.worker w).pc = .atReceive size queue loop)
    (hready : loop.Ready endpoint c.shared.heap) :
    ∃ a c', a.Meets m loop.msmqMessage ∧ c.step endpoint (.task w (.receives a)) = some c' := by
  have hpossible : ∀ a, loop.msmqMessage.fits a = true →
      ∃ c', c.step endpoint (.task w (.receives a)) = some c' := by
    intro a hfits
    simp [step, hpc, Task.step, hfits]
  by_cases hsmall : loop.msmqMessage.cElems.toNat < m.body.length
  · let a : ReceiveAnswer := ⟨mqErrorBufferOverflow, m.props, 0, []⟩
    obtain ⟨c', h⟩ := hpossible a (by simp [MsmqMessage.fits, hready.pElems, a])
    exact ⟨a, c', ⟨fun _ => rfl, fun hle => absurd hsmall (not_lt.mpr hle)⟩, h⟩
  · let a : ReceiveAnswer := ⟨0, m.props, 0, m.body⟩
    obtain ⟨c', h⟩ := hpossible a (by
      simp only [MsmqMessage.fits, hready.pElems, a]
      exact decide_eq_true (not_lt.mp hsmall))
    exact ⟨a, c', ⟨fun hlt => absurd hlt hsmall, fun _ => ⟨rfl, rfl, rfl⟩⟩, h⟩

/-- A run that is underway has not grown more often than is enough, can make its next attempt,
and hands the message over once it has been received. -/
theorem Underway.goesOn (hu : c.Underway endpoint w m) {k : Nat} (hk : c.Counted w k)
    (hleast : IsLeast (endpoint.enough m.body.length) K) :
    k ≤ K ∧ c.GoesOn endpoint w m k := by
  have hplace := hu.place
  have hin := hu.inStep.2
  have hsound := hu.inStep.1.worker w
  unfold GoesOn
  cases hpc : (c.worker w).pc with
  | atReceive size queue loop =>
      rw [hpc] at hin hsound
      obtain rfl : loop.grown = k := hk _ (by rw [hpc]; rfl)
      exact ⟨Growth.le_of_isLeast_enough hleast hin.2.1, hin.1, exists_meets m hpc hsound.1⟩
  | atProcess size queue loop =>
      rw [hpc] at hplace hin hsound
      obtain rfl : loop.grown = k := hk _ (by rw [hpc]; rfl)
      obtain ⟨older, hremovals⟩ := hplace
      obtain ⟨m', older', hremovals', -, hfilled⟩ := hsound
      obtain rfl : m' = m :=
        congrArg Prod.snd (List.cons.inj (hremovals'.symm.trans hremovals)).1
      exact ⟨hin.2.1.2 hleast.1, hin.1, hfilled.faithful⟩
  | _ =>
      rw [hpc] at hplace
      exact hplace.elim

/-- A run that has just allocated its first buffer, and has received nothing yet. -/
structure Fresh (endpoint : MsmqEndpoint) (w : Fin N) (c : Consumer N) : Prop where
  sound : c.Sound endpoint
  receiving : ∃ size queue loop, (c.worker w).pc = .atReceive size queue loop ∧ loop.grown = 0 ∧
    loop.initsize = endpoint.initialBufferSize ∧
    loop.msmqMessage.bodySize.toNat = loop.body.capacity

theorem Fresh.counted (hf : c.Fresh endpoint w) : c.Counted w 0 := by
  obtain ⟨size, queue, loop, hpc, hgrown, -⟩ := hf.receiving
  intro k hk
  rw [hpc] at hk
  exact (Option.some.inj hk).symm.trans hgrown

/-- With its first buffer a run is underway, whatever message it waits for. -/
theorem Fresh.underway (hf : c.Fresh endpoint w) (m : MqMessage) : c.Underway endpoint w m := by
  obtain ⟨size, queue, loop, hpc, hgrown, hinit, hbodySize⟩ := hf.receiving
  refine ⟨⟨hf.sound, ?_⟩, ?_⟩
  · rw [hpc]
    refine ⟨?_, fun j hj => ?_, hbodySize⟩
    · rw [hinit, hgrown]
      exact (Growth.size_zero _ _).symm
    · omega
  · rw [hpc]
    trivial

/-- The first size that is enough is an `int` if a later one is. -/
theorem bufferSize_lt_of_isLeast {k n : Nat} (hleast : IsLeast (endpoint.enough n) K) (hK : K ≤ k)
    (hmax : endpoint.bufferSize k < 2 ^ 31) : endpoint.bufferSize K < 2 ^ 31 := by
  rcases Nat.eq_zero_or_pos K with rfl | hpos
  · have hinit : endpoint.bufferSize 0 = endpoint.initialBufferSize.toInt := Growth.size_zero _ _
    rw [hinit]
    exact Int32.toInt_lt _
  · have hstep := Growth.step_pos_of_isLeast_enough hleast hpos
    exact lt_of_le_of_lt (Growth.size_mono (le_of_lt hstep) hK) hmax

/-- What such a run needs to deliver the message: one size that has room for it and is an `int`.
The first such size bounds the overflows. -/
theorem Fresh.delivers (hf : c.Fresh endpoint w) {k : Nat}
    (henough : (m.body.length : Int) ≤ endpoint.bufferSize k)
    (hmax : endpoint.bufferSize k < 2 ^ 31) : c.Delivers endpoint w m := by
  obtain ⟨K, hK, hleast⟩ := Growth.exists_isLeast_enough henough
  have hmaxK := bufferSize_lt_of_isLeast hleast hK hmax
  have hkeep : ∀ (c : Consumer N) act c', c.Underway endpoint w m →
      c.step endpoint act = some c' → c.Meets w m act → c'.Underway endpoint w m :=
    fun _ _ _ hu h hmeets => hu.step h hmeets hleast hmaxK
  refine ⟨K, fun acts c' hrun hmeets => ?_⟩
  have hfinish : c'.Underway endpoint w m :=
    (Runs.throughout_of_eachStep (step endpoint) hkeep (hf.underway m) hmeets).finish _ hrun
  have hhead : Runs.EachStep (step endpoint) (AtHead w m.body.length) c acts :=
    hmeets.imp _ hkeep (fun _ _ _ hu h hm => hu.atHead h hm) (hf.underway m) hrun
  have hcount := counted_overflows hf.counted hf.sound hrun hhead
  rw [Nat.zero_add] at hcount
  exact hfinish.goesOn hcount hleast

/-- **The other direction.**  If no size is enough, the loop that goes on makes any number
of attempts in vain: the induction is on this number. -/
theorem exists_attempts (hf : c.Fresh endpoint w)
    (hgoes : ∀ acts c', Runs.run (step endpoint) c acts = some c' →
      Runs.EachStep (step endpoint) (Meets w m) c acts →
      c'.GoesOn endpoint w m (overflows w acts))
    (hnone : ¬∃ k, (m.body.length : Int) ≤ endpoint.bufferSize k ∧ endpoint.bufferSize k < 2 ^ 31)
    (j : Nat) : ∃ acts c', Runs.run (step endpoint) c acts = some c' ∧
      Runs.EachStep (step endpoint) (Meets w m) c acts ∧ overflows w acts = j ∧
      ∃ size queue loop, (c'.worker w).pc = .atReceive size queue loop := by
  induction j with
  | zero =>
      obtain ⟨size, queue, loop, hpc, -⟩ := hf.receiving
      exact ⟨[], c, rfl, Runs.eachStep_nil _ _, rfl, size, queue, loop, hpc⟩
  | succ j ih =>
      obtain ⟨acts, c', hrun, hmeets, rfl, size, queue, loop, hpc⟩ := ih
      have hgo := hgoes acts c' hrun hmeets
      simp only [GoesOn, hpc] at hgo
      obtain ⟨hsize, a, c'', ha, hstep⟩ := hgo
      have hsound : c'.Sound endpoint :=
        Runs.run_invariant (step endpoint) (fun _ _ _ hs h => hs.step h) hf.sound hrun
      have hready := hsound.worker w
      rw [hpc] at hready
      have hsmall : loop.msmqMessage.cElems.toNat < m.body.length := by
        by_contra hnot
        have hcapacity := hready.1.cElems
        rw [hready.1.sized.capacity] at hcapacity
        have hnonneg := hready.1.sized.nonneg
        refine hnone ⟨overflows w acts, ?_, ?_⟩ <;> rw [← hsize]
        · omega
        · exact Int32.toInt_lt _
      have hover := ha.overflow hsmall
      let act : Action N := .task w (.receives a)
      have hrun' : Runs.run (step endpoint) c (acts ++ [act]) = some c'' :=
        (Runs.run_append_iff _).mpr ⟨c', hrun, (Runs.run_singleton_iff _).mpr hstep⟩
      have hmeets' : Runs.EachStep (step endpoint) (Meets w m) c (acts ++ [act]) := by
        refine (Runs.eachStep_append_iff _ hrun).mpr ⟨hmeets, ?_⟩
        refine (Runs.eachStep_cons_iff _ hstep).mpr ⟨fun _ => ?_, Runs.eachStep_nil _ _⟩
        exact ⟨size, queue, loop, a, hpc, rfl, ha⟩
      have hcount : overflows w (acts ++ [act]) = overflows w acts + 1 := by
        simp [overflows, act, Answer.overflows, hover]
      have hgo' := hgoes _ c'' hrun' hmeets'
      refine ⟨_, c'', hrun', hmeets', hcount, ?_⟩
      unfold GoesOn at hgo'
      cases hpc'' : (c''.worker w).pc with
      | atReceive size' queue' loop' => exact ⟨size', queue', loop', rfl⟩
      | atProcess size' queue' loop' =>
          exfalso
          cases steps_of_step hstep with
          | task htask =>
              rw [hpc] at htask
              simp only [Function.update_self, Worker.pc_goOn] at hpc''
              exact htask.not_atProcess hover hpc''
      | _ =>
          rw [hpc''] at hgo'
          exact hgo'.elim

/-- A run delivers only what fits into one of its sizes.  Otherwise it could be made to overflow
more often than any bound allows. -/
theorem Fresh.exists_enough (hf : c.Fresh endpoint w) (hd : c.Delivers endpoint w m) :
    ∃ k, (m.body.length : Int) ≤ endpoint.bufferSize k ∧ endpoint.bufferSize k < 2 ^ 31 := by
  obtain ⟨K, hK⟩ := hd
  by_contra hnone
  obtain ⟨acts, c', hrun, hmeets, hcount, -⟩ := exists_attempts hf
    (fun acts c' hrun hmeets => (hK acts c' hrun hmeets).2) hnone (K + 1)
  have hle := (hK acts c' hrun hmeets).1
  omega

/-- A run that can allocate its first buffer is fresh afterwards. -/
theorem fresh_of_allocates (hs : c₀.Sound endpoint) {raw : MsmqMessage}
    (halloc : c₀.step endpoint (.task w (.allocates raw)) = some c)
    (hcan : 0 ≤ endpoint.initialBufferSize.toInt) : c.Fresh endpoint w := by
  refine ⟨hs.step halloc, ?_⟩
  cases steps_of_step halloc with
  | task htask =>
      simp only [Function.update_self, Worker.pc_goOn]
      generalize hpc : (c₀.worker w).pc = pc at htask
      cases htask with
      | allocated _ hsize => exact ⟨_, _, _, rfl, rfl, rfl, toNat_getDirectBufferCapacity rfl⟩
      | notAllocated _ hsize => omega

/-- **When the loop ends.**  A run that has allocated its first buffer, with the message `m`
staying at the head of the queue, makes finitely many attempts that overflow, without wrapping
around, and ends by delivering `m`, exactly if one of the sizes it runs through has room for `m`
and is an `int`.  Otherwise it does not, whatever MSMQ answers within these terms: it grows in
vain for ever, or an allocation fails and the run ends without the message. -/
theorem delivers_iff (hreach : Runs.Reachable (step endpoint) (doStart N) c₀)
    {raw : MsmqMessage} (halloc : c₀.step endpoint (.task w (.allocates raw)) = some c)
    (hcan : 0 ≤ endpoint.initialBufferSize.toInt) (m : MqMessage) :
    c.Delivers endpoint w m ↔ ∃ k, (m.body.length : Int) ≤ endpoint.bufferSize k ∧
      endpoint.bufferSize k < 2 ^ 31 := by
  have hf := fresh_of_allocates (sound_of_reachable hreach) halloc hcan
  exact ⟨hf.exists_enough, fun ⟨_, henough, hmax⟩ => hf.delivers henough hmax⟩

/-- A buffer of one byte that grows by two has room for four bytes after two growths. -/
theorem delivers_iff_after_two :
    let endpoint : MsmqEndpoint :=
      { remaining := some [113], initialBufferSize := 1, incrementBufferSize := 2 }
    ∃ c₀ c : Consumer 1, c₀.step endpoint (.task 0 (.allocates default)) = some c ∧
      c.Delivers endpoint 0 ⟨[65, 66, 67, 68], default⟩ := by
  intro endpoint
  have hrun : ∃ c₀ c : Consumer 1, Runs.run (step endpoint) (doStart 1)
      [.start 0, .task 0 .go, .task 0 (.created none), .task 0 .go,
        .task 0 (.opens (.always 0 1 0))] = some c₀ ∧
      c₀.step endpoint (.task 0 (.allocates default)) = some c := ⟨_, _, rfl, rfl⟩
  obtain ⟨c₀, c, hrun, halloc⟩ := hrun
  refine ⟨c₀, c, halloc, (delivers_iff ⟨_, hrun⟩ halloc (by decide) _).mpr ⟨2, ?_, ?_⟩⟩
  · decide
  · decide

/-- A buffer of one byte whose increment is zero never has room for two bytes. -/
theorem never_delivered :
    let endpoint : MsmqEndpoint :=
      { remaining := some [113], initialBufferSize := 1, incrementBufferSize := 0 }
    ∃ c₀ c : Consumer 1, Runs.run (step endpoint) (doStart 1)
        [.start 0, .task 0 .go, .task 0 (.created none), .task 0 .go,
          .task 0 (.opens (.always 0 1 0))] = some c₀ ∧
      c₀.step endpoint (.task 0 (.allocates default)) = some c ∧
      ¬c.Delivers endpoint 0 ⟨[65, 66], default⟩ := by
  intro endpoint
  have hrun : ∃ c₀ c : Consumer 1, Runs.run (step endpoint) (doStart 1)
      [.start 0, .task 0 .go, .task 0 (.created none), .task 0 .go,
        .task 0 (.opens (.always 0 1 0))] = some c₀ ∧
      c₀.step endpoint (.task 0 (.allocates default)) = some c := ⟨_, _, rfl, rfl⟩
  obtain ⟨c₀, c, hrun, halloc⟩ := hrun
  refine ⟨c₀, c, hrun, halloc, fun hd => ?_⟩
  have hf := fresh_of_allocates (sound_of_reachable ⟨_, hrun⟩) halloc (by decide)
  obtain ⟨k, henough, -⟩ := hf.exists_enough hd
  have hsize : endpoint.bufferSize k = 1 := by simp [MsmqEndpoint.bufferSize, Growth.size, endpoint]
  rw [hsize] at henough
  exact absurd henough (by decide)

end Consumer

end Msmq
