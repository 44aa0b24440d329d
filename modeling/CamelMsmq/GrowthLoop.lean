import CamelMsmq.Growth
import CamelMsmq.Relay

/-!
# The growth of the buffer

While the message at the head of the queue does not fit, the loop replaces its buffer by
one larger by the increment.  As long as no allocation fails, the `int` sum never wraps
around: it would be negative.  So the loop stops at the first size that fits, if there is
such a size; it cannot stop otherwise.

`AtHead` is the assumption on MSMQ while a message is on its way to the head of the queue and
stays there: receives may time out, an overflow means that the buffer described is too small
for the message, and what is received is the message.  `InStep` is the invariant: after `k`
growths the buffer has the size that `k` growths give as integers, the message has fitted none
of the sizes before, and the descriptor that MSMQ is given is that of the buffer allocated
last.

That `k` is the number of overflows is counted along the run, in which other workers may act
at any time (`foldl_grow_eq_overflows`).
-/

namespace Msmq

/-- The answer is an overflow. -/
def Answer.overflows : Answer → Bool
  | .receives a => a.hr = mqErrorBufferOverflow
  | _ => false

/-- What MSMQ answers while a message of `n` bytes is on its way to the head of the queue,
and from then on stays there: a timeout writes nothing, an overflow means that the buffer
is too small, and what is received is the message. -/
structure ReceiveAnswer.AtHead (n : Nat) (msg : MsmqMessage) (a : ReceiveAnswer) : Prop where
  timeout : a.hr = mqErrorIoTimeout → a.bytes = [] ∧ a.props = msg.props ∧ a.bodySize = msg.bodySize
  overflow : a.hr = mqErrorBufferOverflow → msg.cElems.toNat < n
  success : failed a.hr = false → a.bytes.length = n

namespace MsmqEndpoint

/-- The size of the buffer after `k` growths, as an integer. -/
def bufferSize (endpoint : MsmqEndpoint) (k : Nat) : Int :=
  Growth.size endpoint.initialBufferSize.toInt endpoint.incrementBufferSize.toInt k

/-- The numbers of growths after which the buffer has room for `n` bytes. -/
def enough (endpoint : MsmqEndpoint) (n : Nat) : Set Nat :=
  Growth.enough endpoint.initialBufferSize.toInt endpoint.incrementBufferSize.toInt n

end MsmqEndpoint

/-- The values of the loop are in step: the size is not wrapped around, no smaller buffer
had room for `n` bytes, and `BODY_SIZE` is the capacity until the message is received,
which fits. -/
def Pc.InStep (endpoint : MsmqEndpoint) (n : Nat) : Pc → Prop
  | .atReceive _ _ loop =>
      loop.initsize.toInt = endpoint.bufferSize loop.grown ∧
      (∀ j, j < loop.grown → endpoint.bufferSize j < n) ∧
      loop.msmqMessage.bodySize.toNat = loop.body.capacity
  | .atProcess _ _ loop =>
      loop.initsize.toInt = endpoint.bufferSize loop.grown ∧
      IsLeast (endpoint.enough n) loop.grown ∧ loop.body.limit = n
  | _ => True

namespace Task

variable {endpoint : MsmqEndpoint} {me : RunId} {sh sh' : Shared} {pc : Pc} {ans : Answer}
  {after : After} {n : Nat}

/-- A message of `n` bytes is on its way to the head of the queue and stays there, and the
processor does not throw. -/
def AtHead (n : Nat) : Pc → Answer → Prop
  | .atReceive _ _ loop, .receives a => a.AtHead n loop.msmqMessage
  | .atProcess _ _ _, .processes thrown _ _ => thrown = none
  | _, _ => True

/-- The capacity of a buffer in step. -/
theorem capacity_eq_bufferSize {loop : Loop} (hsized : loop.Sized endpoint)
    (hsize : loop.initsize.toInt = endpoint.bufferSize loop.grown) :
    (loop.body.capacity : Int) = endpoint.bufferSize loop.grown := by
  have hnonneg := hsized.nonneg
  rw [hsized.capacity, ← hsize]
  omega

/-- A new buffer is in step. -/
theorem inStep_whole {size : Nat} {queue : QueueRef} {a : Addr} {initsize : Int32} {grown : Nat}
    (exchange : Exchange) (msg : MsmqMessage)
    (hsize : initsize.toInt = endpoint.bufferSize grown)
    (hbefore : ∀ j, j < grown → endpoint.bufferSize j < n) :
    Pc.InStep endpoint n (.atReceive size queue
      { exchange := exchange
        initsize := initsize
        body := .whole a true initsize
        msmqMessage := msg.setMsgBodyWithByteBuffer (.whole a true initsize)
        grown := grown }) :=
  ⟨hsize, hbefore, toNat_getDirectBufferCapacity rfl⟩

/-- Growing keeps in step: a sum that is accepted is not wrapped around. -/
theorem toInt_initsize_grown {loop : Loop} (hsized : loop.Sized endpoint)
    (hsize : loop.initsize.toInt = endpoint.bufferSize loop.grown)
    (hnonneg : 0 ≤ (loop.initsize + endpoint.incrementBufferSize).toInt) :
    (loop.initsize + endpoint.incrementBufferSize).toInt =
      endpoint.bufferSize (loop.grown + 1) := by
  rw [toInt_add_of_nonneg hsized.nonneg hnonneg, hsize]
  exact (Growth.size_succ _ _ _).symm

/-- An overflow means that the present size is too small as well. -/
theorem bufferSize_lt_of_overflow {heap : Heap} {size : Nat} {queue : QueueRef} {loop : Loop}
    (hready : loop.Ready endpoint heap)
    (hin : (Pc.atReceive size queue loop).InStep endpoint n)
    (hsmall : loop.msmqMessage.cElems.toNat < n) :
    ∀ j, j < loop.grown + 1 → endpoint.bufferSize j < n := by
  obtain ⟨hsize, hbefore, -⟩ := hin
  have hcapacity := capacity_eq_bufferSize hready.sized hsize
  rw [hready.cElems] at hsmall
  intro j hj
  rcases Nat.lt_succ_iff_lt_or_eq.mp hj with hlt | rfl
  · exact hbefore j hlt
  · omega

/-- **One step** keeps the loop in step. -/
theorem Steps.inStep (h : Steps endpoint me sh pc ans after sh') (hs : Sound endpoint me sh pc)
    (hin : pc.InStep endpoint n) (hhead : AtHead n pc ans) : after.pc.InStep endpoint n := by
  cases h with
  | allocated raw hsize =>
      exact inStep_whole _ _ (Growth.size_zero _ _).symm fun j hj => absurd hj (Nat.not_lt_zero j)
  | @timeout size queue loop a hfits hhr =>
      obtain ⟨hsize, hbefore, hbody⟩ := hin
      obtain ⟨-, -, hbodySize⟩ := hhead.timeout hhr
      refine ⟨hsize, hbefore, ?_⟩
      have hfailed : failed a.hr = true := by rw [hhr, failed_ioTimeout]
      simp only [Loop.received, MsmqMessage.received, if_pos hfailed, hbodySize]
      exact hbody
  | @overflow size queue loop a hfits hhr =>
      have hbefore := bufferSize_lt_of_overflow hs.1 hin (hhead.overflow hhr)
      obtain ⟨hsize, -, -⟩ := hin
      obtain ⟨-, -, hnonneg, heq⟩ | ⟨-, e, heq⟩ := raiseInLoop_cases endpoint
        (sh.received me queue loop a) size queue (loop.received a) (.native "Message body too big")
      · rw [heq]
        have hsized : (loop.received a).Sized endpoint := hs.1.sized.congr rfl rfl rfl
        exact inStep_whole _ _ (toInt_initsize_grown hsized hsize hnonneg) hbefore
      · rw [heq]
        trivial
  | @receiveFails size queue loop a hfits hhr =>
      obtain ⟨-, hmessage, -⟩ | ⟨-, e, heq⟩ := raiseInLoop_cases endpoint
        (sh.received me queue loop a) size queue (loop.received a) (.native "Error in receiving")
      · exact absurd hmessage (by decide)
      · rw [heq]
        trivial
  | @received size queue loop a filled hfits hhr hfill =>
      obtain ⟨hsize, hbefore, -⟩ := hin
      have hlength : a.bytes.length = n := hhead.success hhr
      obtain ⟨filled', hfill', -, hfilled⟩ := hs.1.fill hfits hhr
      obtain rfl : filled' = filled := Except.ok.inj (hfill'.symm.trans hfill)
      obtain ⟨hinit, hgrown⟩ := same_fill hfill
      have hbytes := hs.1.bytes_le hfits
      have hcapacity := capacity_eq_bufferSize hs.1.sized hsize
      have hsize' : filled'.initsize.toInt = endpoint.bufferSize filled'.grown := by
        rw [hinit, hgrown]
        exact hsize
      have hfits : (n : Int) ≤ endpoint.bufferSize loop.grown := by omega
      refine ⟨hsize', ?_, hfilled.limit.trans hlength⟩
      rw [hgrown]
      exact Growth.isLeast_enough_iff.mpr ⟨hfits, hbefore⟩
  | notFilled a ex hfits hhr hfill => exact absurd hfill (hs.1.fill_ne_error hfits hhr ex)
  | processorThrows ex exchange writes hwrites => cases hhead
  | _ => trivial

/-- If the processor does not throw, the buffer grows after overflows only. -/
theorem Steps.grows_eq_overflows (h : Steps endpoint me sh pc ans after sh')
    (hhead : AtHead n pc ans) : ans.grows = ans.overflows := by
  cases h with
  | processorThrows ex exchange writes hwrites => cases hhead
  | _ => rfl

end Task

namespace Consumer

variable {N : Nat} {endpoint : MsmqEndpoint} {c c' c₀ c₁ : Consumer N} {w : Fin N} {n : Nat}

/-- Worker `w` is in one run, whose message of `n` bytes is on its way to the head of the
queue and stays there, and its processor does not throw. -/
def AtHead (w : Fin N) (n : Nat) (c : Consumer N) : Action N → Prop
  | .start v => v ≠ w
  | .task v ans => v = w → Task.AtHead n (c.worker w).pc ans
  | _ => True

/-- Worker `w` passes to `MQReceiveMessage` a body descriptor that denotes exactly the
buffer it has allocated last, and a `BODY_SIZE` of its capacity. -/
def Described (w : Fin N) (c : Consumer N) : Action N → Prop
  | .task v (.receives _) => v = w → ∃ size queue loop,
      (c.worker w).pc = .atReceive size queue loop ∧
      loop.msmqMessage.pElems = some loop.body.storage ∧
      loop.msmqMessage.cElems.toNat = loop.body.capacity ∧
      loop.msmqMessage.bodySize.toNat = loop.body.capacity ∧
      (c.shared.heap.storage loop.body.storage).length = loop.body.capacity
  | _ => True

/-- How often worker `w` was answered with an overflow. -/
def overflows (w : Fin N) (acts : List (Action N)) : Nat :=
  acts.countP fun
    | .task v ans => v = w && ans.overflows
    | _ => false

theorem overflows_of_others {act : Action N} (hstart : act ≠ .start w)
    (htask : ∀ ans, act ≠ .task w ans) : overflows w [act] = 0 := by
  cases act with
  | task v ans =>
      have hv : v ≠ w := fun heq => htask ans (by rw [heq])
      simp [overflows, hv]
  | _ => rfl

/-- In a run whose processor does not throw, the answers that make the buffer grow are the
overflows. -/
theorem foldl_grow_eq_overflows {acts : List (Action N)} {k : Nat}
    (hrun : Runs.run (step endpoint) c acts = some c')
    (hhead : Runs.EachStep (step endpoint) (AtHead w n) c acts) :
    acts.foldl (grow w) k = k + overflows w acts := by
  induction acts generalizing c k with
  | nil => rfl
  | cons act rest ih =>
      obtain ⟨next, hstep, hrest⟩ := (Runs.run_cons_iff _).mp hrun
      obtain ⟨hfirst, hhead⟩ := (Runs.eachStep_cons_iff _ hstep).mp hhead
      have hgrow : grow w k act = k + overflows w [act] := by
        cases seenBy_of_step hstep w with
        | others hstart htask hme hrecorded hworker =>
            rw [grow_of_others hstart htask, overflows_of_others hstart htask]
            rfl
        | start hidle hscheduled hshared hworker => exact absurd rfl hfirst
        | @task _ ans after htask hworker =>
            rw [grow, htask.grows_eq_overflows (hfirst rfl)]
            cases hover : ans.overflows <;> simp [overflows, hover]
      rw [List.foldl_cons, ih hrest hhead, hgrow, Nat.add_assoc]
      simp [overflows, List.countP_cons, Nat.add_comm]

/-- The count of growths is a count of overflows: while a message is at the head of the queue
nothing else makes the buffer grow. -/
theorem counted_overflows {acts : List (Action N)} {k : Nat} (hk : c.Counted w k)
    (hs : c.Sound endpoint) (hrun : Runs.run (step endpoint) c acts = some c')
    (hhead : Runs.EachStep (step endpoint) (AtHead w n) c acts) :
    c'.Counted w (k + overflows w acts) := by
  rw [← foldl_grow_eq_overflows hrun hhead]
  exact hk.run hs hrun

/-- The current run of worker `w` is in step. -/
def InStep (endpoint : MsmqEndpoint) (w : Fin N) (n : Nat) (c : Consumer N) : Prop :=
  c.Sound endpoint ∧ (c.worker w).pc.InStep endpoint n

/-- Others may act as they like; only a start of the run and its own steps concern the loop. -/
theorem InStep.step (hin : c.InStep endpoint w n) {act : Action N}
    (h : c.step endpoint act = some c') (hhead : c.AtHead w n act) : c'.InStep endpoint w n := by
  refine ⟨hin.1.step h, ?_⟩
  cases seenBy_of_step h w with
  | others hstart htask hme hrecorded hworker =>
      rw [hworker]
      exact hin.2
  | start hidle hscheduled hshared hworker => exact absurd rfl hhead
  | task htask hworker =>
      rw [hworker, Worker.pc_goOn]
      exact htask.inStep (hin.1.worker w) hin.2 (hhead rfl)

/-- A run in step describes its buffer to MSMQ as it is. -/
theorem InStep.described (hin : c.InStep endpoint w n) {act : Action N}
    (h : c.step endpoint act = some c') : c.Described w act := by
  cases steps_of_step h with
  | @task v ans after shared htask =>
      cases ans with
      | receives a =>
          rintro rfl
          have hready := hin.1.worker v
          have hplace := hin.2
          cases hpc : (c.worker v).pc with
          | atReceive size queue loop =>
              rw [hpc] at hready hplace
              exact ⟨size, queue, loop, rfl, hready.1.pElems, hready.1.cElems, hplace.2.2,
                hready.1.length⟩
          | _ =>
              rw [hpc] at htask
              cases htask
      | _ => trivial
  | _ => trivial

/-- **The first size that fits.**  A run delivers a message of `n` bytes that from its
arrival has stayed at the head of the queue, after `k` overflows.  Then the buffer
delivered has the size that `k` growths give, computed without wrap-around, `k` is the least
number whose size has room for `n` bytes, and each receive has described the buffer
allocated last as it is. -/
theorem first_size_that_fits (hreach : Runs.Reachable (step endpoint) (doStart N) c₀)
    (hstart : c₀.step endpoint (.start w) = some c₁) {acts : List (Action N)}
    (hrun : Runs.run (step endpoint) c₁ acts = some c)
    (hhead : Runs.EachStep (step endpoint) (AtHead w n) c₁ acts) {exchange : Exchange}
    {writes : List (Addr × Nat × List UInt8)}
    (hdeliver : c.step endpoint (.task w (.processes none exchange writes)) = some c') :
    ∃ d body, c'.shared.deliveries = (c.runId w, d) :: c.shared.deliveries ∧
      d.exchange.body = .byteBuffer body ∧ d.content.length = n ∧
      (body.capacity : Int) = endpoint.bufferSize (overflows w acts) ∧
      IsLeast {k : Nat | (n : Int) ≤ endpoint.bufferSize k} (overflows w acts) ∧
      Runs.EachStep (step endpoint) (Described w) c₁ acts := by
  have hin₁ : c₁.InStep endpoint w n := by
    refine ⟨(sound_of_reachable hreach).step hstart, ?_⟩
    cases steps_of_step hstart with
    | start hphase hscheduled hidle =>
        simp only [Function.update_self, Worker.start]
        split <;> trivial
  have hcounted : c₁.Counted w 0 := by
    cases steps_of_step hstart with
    | start hphase hscheduled hidle =>
        intro k hk
        simp only [Function.update_self, Worker.start] at hk
        split at hk <;> exact (Option.some.inj hk).symm
  have hkeep : ∀ (c : Consumer N) act c', c.InStep endpoint w n → c.step endpoint act = some c' →
      c.AtHead w n act → c'.InStep endpoint w n := fun _ _ _ hin h hok => hin.step h hok
  have hin : c.InStep endpoint w n :=
    (Runs.throughout_of_eachStep (step endpoint) hkeep hin₁ hhead).finish _ hrun
  have hgrown : c.Counted w (overflows w acts) := by
    have hsum := counted_overflows hcounted hin₁.1 hrun hhead
    rwa [Nat.zero_add] at hsum
  have hdescribed : Runs.EachStep (step endpoint) (Described w) c₁ acts :=
    hhead.imp _ hkeep (fun _ _ _ hin h _ => hin.described h) hin₁ hrun
  have hsound := hin.1.worker w
  have hplace := hin.2
  cases steps_of_step hdeliver with
  | task htask =>
      cases hpc : (c.worker w).pc with
      | atProcess size queue loop =>
          rw [hpc] at htask hsound hplace
          have hk : loop.grown = overflows w acts := hgrown _ (by rw [hpc]; rfl)
          obtain ⟨m, older, -, -, hfilled⟩ := hsound
          obtain ⟨hsize, hleast, hlimit⟩ := hplace
          cases htask with
          | processed _ _ hwrites =>
              rw [← hk]
              refine ⟨_, loop.body, rfl, hfilled.body, ?_,
                Task.capacity_eq_bufferSize hfilled.sized hsize, hleast, hdescribed⟩
              rw [hfilled.faithful.2.1, ← hlimit, hfilled.limit]
      | _ =>
          rw [hpc] at htask
          cases htask

/-- A message of four bytes, after a timeout and two overflows of a buffer of one byte that
grows by two. -/
theorem first_size_that_fits_after_two :
    let endpoint : MsmqEndpoint :=
      { remaining := some [113], initialBufferSize := 1, incrementBufferSize := 2 }
    ∃ (d : Delivery) (body : ByteBuffer), d.exchange.body = .byteBuffer body ∧
      d.content.length = 4 ∧ (body.capacity : Int) = endpoint.bufferSize 2 ∧
      IsLeast {k : Nat | (4 : Int) ≤ endpoint.bufferSize k} 2 := by
  intro endpoint
  let raw : MsmqMessage := default
  let timeout : ReceiveAnswer := ⟨mqErrorIoTimeout, (MsmqMessage.new raw).props, 1, []⟩
  let acts : List (Action 1) := [.task 0 .go, .task 0 (.created none), .task 0 .go,
    .task 0 (.opens (.always 0 1 0)), .task 0 (.allocates raw), .task 0 (.receives timeout),
    .task 0 (.receives ⟨mqErrorBufferOverflow, default, 4, [65]⟩),
    .task 0 (.receives ⟨mqErrorBufferOverflow, default, 4, []⟩),
    .task 0 (.receives ⟨0, default, 0, [65, 66, 67, 68]⟩)]
  have hrun : ∃ c₁ c c' : Consumer 1, (doStart 1).step endpoint (.start 0) = some c₁ ∧
      Runs.run (step endpoint) c₁ acts = some c ∧
      c.step endpoint (.task 0 (.processes none .create [])) = some c' ∧
      Runs.EachStep (step endpoint) (AtHead 0 4) c₁ acts := by
    refine ⟨_, _, _, rfl, rfl, rfl, ?_⟩
    iterate 5 refine (Runs.eachStep_cons_iff _ rfl).mpr ⟨fun _ => trivial, ?_⟩
    refine (Runs.eachStep_cons_iff _ rfl).mpr ⟨fun _ => ⟨fun _ => ⟨rfl, rfl, rfl⟩, ?_, ?_⟩, ?_⟩
    · exact fun h => absurd h (by decide)
    · exact fun h => absurd h (by decide)
    iterate 2
      refine (Runs.eachStep_cons_iff _ rfl).mpr ⟨fun _ => ⟨?_, fun _ => by decide, ?_⟩, ?_⟩
      · exact fun h => absurd h (by decide)
      · exact fun h => absurd h (by decide)
    refine (Runs.eachStep_cons_iff _ rfl).mpr ⟨fun _ => ⟨?_, ?_, fun _ => rfl⟩, ?_⟩
    · exact fun h => absurd h (by decide)
    · exact fun h => absurd h (by decide)
    exact Runs.eachStep_nil _ _
  obtain ⟨c₁, c, c', hstart, hacts, hdeliver, hhead⟩ := hrun
  obtain ⟨d, body, -, hbody, hlength, hcapacity, hleast, -⟩ :=
    first_size_that_fits ⟨[], rfl⟩ hstart hacts hhead hdeliver
  exact ⟨d, body, hbody, hlength, hcapacity, hleast⟩

end Consumer

end Msmq
