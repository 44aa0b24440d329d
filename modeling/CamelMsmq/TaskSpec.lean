import CamelMsmq.ConsumerTask

/-!
# What a step of `Task.run` does

`Task.Steps` lists everything a step can do, one case for each way through the
source, with the tests made on that way.  `Task.steps_of_step` shows that the
list is complete; a proof about what a step has done goes through the list, and
`Task.step` itself is unfolded only to take a step.

A receive alone has five cases: it times out, it overflows, it fails in another
way, or it brings a message, with which the exchange can be filled or not.  The
last of these is impossible in reachable states, but that is an invariant, which
a later module proves.

Throwables inside the loop are handled in one place, so they have a lemma of
their own: `raiseInLoop_cases` says that the loop goes on with a larger buffer or
the run is on its way out, and `raiseInLoop_sameButHeap` that in both cases
nothing shared has changed but the heap.
-/

namespace Msmq

namespace Shared

variable (sh : Shared) (me : RunId) (queue : QueueRef) (loop : Loop) (a : ReceiveAnswer)
  (writes : List (Addr × Nat × List UInt8))

/-- A receive leaves the queue objects alone. -/
@[simp] theorem object_received : (sh.received me queue loop a).object = sh.object := by
  have hqueue := ((sh.object queue).receiveMessage_spec loop.msmqMessage a.hr sh.calls).1
  simp only [received, operated, hqueue, Function.update_eq_self]

@[simp] theorem calls_received : (sh.received me queue loop a).calls =
    .receiveMessage (sh.object queue).hQueue loop.msmqMessage.pElems loop.msmqMessage.cElems a.hr
      :: sh.calls :=
  ((sh.object queue).receiveMessage_spec loop.msmqMessage a.hr sh.calls).2

variable {a}

/-- A successful receive removes a message. -/
theorem removals_received (hhr : failed a.hr = false) :
    (sh.received me queue loop a).removals = (me, ⟨a.bytes, a.props⟩) :: sh.removals :=
  if_neg (by simp [hhr])

end Shared

/-- The heap is all that may have changed. -/
structure Shared.SameButHeap (sh sh' : Shared) : Prop where
  queues : sh'.queues = sh.queues
  object : sh'.object = sh.object
  calls : sh'.calls = sh.calls
  removals : sh'.removals = sh.removals
  deliveries : sh'.deliveries = sh.deliveries

/-- The loop after an `MQReceiveMessage`. -/
def Loop.received (loop : Loop) (a : ReceiveAnswer) : Loop :=
  { loop with msmqMessage := loop.msmqMessage.received a }

namespace Pc

/-- The `size` the run has read. -/
def size : Pc → Nat
  | idle => 0
  | atElement => 1
  | atCreate size _ => size
  | atRemove size _ => size
  | atIsOpen size _ _ => size
  | atOpen size _ _ => size
  | atAllocate size _ _ => size
  | atReceive size _ _ => size
  | atProcess size _ _ => size
  | atFinally size _ _ => size

/-- The queue object the run has in its variable `queue`. -/
def queue : Pc → Option QueueRef
  | idle => none
  | atElement => none
  | atCreate _ queue => queue
  | atRemove _ _ => none
  | atIsOpen _ queue _ => queue
  | atOpen _ queue _ => some queue
  | atAllocate _ queue _ => some queue
  | atReceive _ queue _ => some queue
  | atProcess _ queue _ => some queue
  | atFinally _ queue _ => queue

end Pc

namespace Task

/-- Everything a step can do. -/
inductive Steps (endpoint : MsmqEndpoint) (me : RunId) (sh : Shared) :
    Pc → Answer → After → Shared → Prop
  | element {queue rest} (hpool : sh.queues = queue :: rest) :
      Steps endpoint me sh .atElement .go (.goOn (.atCreate 1 (some queue))) sh
  | noElement (hpool : sh.queues = []) :
      Steps endpoint me sh .atElement .go (.ended (some .noSuchElementException)) sh
  | created {size queue} (hsize : 1 < size) :
      Steps endpoint me sh (.atCreate size queue) (.created none)
        (.goOn (.atRemove size .create)) sh
  | createdLooking {size queue} (hsize : size ≤ 1) :
      Steps endpoint me sh (.atCreate size queue) (.created none)
        (.goOn (.atIsOpen size queue .create)) sh
  | notCreated {size queue} (e : Throwable) :
      Steps endpoint me sh (.atCreate size queue) (.created (some e)) (raise size queue e) sh
  | remove {size exchange queue rest} (hpool : sh.queues = queue :: rest) :
      Steps endpoint me sh (.atRemove size exchange) .go
        (.goOn (.atIsOpen size (some queue) exchange)) { sh with queues := rest }
  | noRemove {size exchange} (hpool : sh.queues = []) :
      Steps endpoint me sh (.atRemove size exchange) .go
        (raise size none .noSuchElementException) sh
  | isNull {size exchange} :
      Steps endpoint me sh (.atIsOpen size none exchange) .go
        (raise size none .nullPointerException) sh
  | isOpen {size queue exchange} (hopen : (sh.object queue).isOpen = true) :
      Steps endpoint me sh (.atIsOpen size (some queue) exchange) .go
        (.goOn (.atAllocate size queue exchange)) sh
  | isNotOpen {size queue exchange} (hopen : (sh.object queue).isOpen = false) :
      Steps endpoint me sh (.atIsOpen size (some queue) exchange) .go
        (.goOn (.atOpen size queue exchange)) sh
  | opened {size queue exchange} (a : OpenAnswers)
      (hok : ((sh.object queue).open endpoint.remaining a sh.calls).result = .ok ()) :
      Steps endpoint me sh (.atOpen size queue exchange) (.opens a)
        (.goOn (.atAllocate size queue exchange))
        (sh.operated queue ((sh.object queue).open endpoint.remaining a sh.calls))
  | notOpened {size queue exchange} (a : OpenAnswers) (what : String)
      (herror : ((sh.object queue).open endpoint.remaining a sh.calls).result = .error what) :
      Steps endpoint me sh (.atOpen size queue exchange) (.opens a)
        (raise size (some queue) (.native what))
        (sh.operated queue ((sh.object queue).open endpoint.remaining a sh.calls))
  | allocated {size queue exchange} (raw : MsmqMessage)
      (hsize : 0 ≤ endpoint.initialBufferSize.toInt) :
      Steps endpoint me sh (.atAllocate size queue exchange) (.allocates raw)
        (.goOn (.atReceive size queue
          { exchange := exchange
            initsize := endpoint.initialBufferSize
            body := .whole sh.heap.next true endpoint.initialBufferSize
            msmqMessage := (MsmqMessage.new raw).setMsgBodyWithByteBuffer
              (.whole sh.heap.next true endpoint.initialBufferSize)
            grown := 0 }))
        { sh with heap := sh.heap.allocate endpoint.initialBufferSize.toInt.toNat }
  | notAllocated {size queue exchange} (raw : MsmqMessage)
      (hsize : endpoint.initialBufferSize.toInt < 0) :
      Steps endpoint me sh (.atAllocate size queue exchange) (.allocates raw)
        (raise size (some queue) .illegalArgumentException) sh
  | timeout {size queue loop} (a : ReceiveAnswer) (hfits : loop.msmqMessage.fits a = true)
      (hhr : a.hr = mqErrorIoTimeout) :
      Steps endpoint me sh (.atReceive size queue loop) (.receives a)
        (.goOn (.atReceive size queue (loop.received a))) (sh.received me queue loop a)
  | overflow {size queue loop} (a : ReceiveAnswer) (hfits : loop.msmqMessage.fits a = true)
      (hhr : a.hr = mqErrorBufferOverflow) :
      Steps endpoint me sh (.atReceive size queue loop) (.receives a)
        (raiseInLoop endpoint (sh.received me queue loop a) size queue (loop.received a)
          (.native "Message body too big")).1
        (raiseInLoop endpoint (sh.received me queue loop a) size queue (loop.received a)
          (.native "Message body too big")).2
  | receiveFails {size queue loop} (a : ReceiveAnswer) (hfits : loop.msmqMessage.fits a = true)
      (hhr : failed a.hr = true ∧ a.hr ≠ mqErrorIoTimeout ∧ a.hr ≠ mqErrorBufferOverflow) :
      Steps endpoint me sh (.atReceive size queue loop) (.receives a)
        (raiseInLoop endpoint (sh.received me queue loop a) size queue (loop.received a)
          (.native "Error in receiving")).1
        (raiseInLoop endpoint (sh.received me queue loop a) size queue (loop.received a)
          (.native "Error in receiving")).2
  | received {size queue loop} (a : ReceiveAnswer) (filled : Loop)
      (hfits : loop.msmqMessage.fits a = true) (hhr : failed a.hr = false)
      (hfill : (loop.received a).fill = .ok filled) :
      Steps endpoint me sh (.atReceive size queue loop) (.receives a)
        (.goOn (.atProcess size queue filled)) (sh.received me queue loop a)
  | notFilled {size queue loop} (a : ReceiveAnswer) (ex : Throwable)
      (hfits : loop.msmqMessage.fits a = true) (hhr : failed a.hr = false)
      (hfill : (loop.received a).fill = .error ex) :
      Steps endpoint me sh (.atReceive size queue loop) (.receives a)
        (raiseInLoop endpoint (sh.received me queue loop a) size queue (loop.received a) ex).1
        (raiseInLoop endpoint (sh.received me queue loop a) size queue (loop.received a) ex).2
  | processed {size queue loop} (exchange : Exchange) (writes : List (Addr × Nat × List UInt8))
      (hwrites : ∀ w ∈ writes, w.1 = loop.body.storage ∨ w.1 ∈ handed sh.deliveries) :
      Steps endpoint me sh (.atProcess size queue loop) (.processes none exchange writes)
        (.goOn (.atFinally size (some queue) none)) (sh.processed me loop writes)
  | processorThrows {size queue loop} (ex : Throwable) (exchange : Exchange)
      (writes : List (Addr × Nat × List UInt8))
      (hwrites : ∀ w ∈ writes, w.1 = loop.body.storage ∨ w.1 ∈ handed sh.deliveries) :
      Steps endpoint me sh (.atProcess size queue loop) (.processes (some ex) exchange writes)
        (raiseInLoop endpoint (sh.processed me loop writes) size queue
          { loop with exchange := exchange } ex).1
        (raiseInLoop endpoint (sh.processed me loop writes) size queue
          { loop with exchange := exchange } ex).2
  | giveBack {size queue pending} (hsize : 1 < size) :
      Steps endpoint me sh (.atFinally size (some queue) pending) .go (.ended pending)
        { sh with queues := sh.queues ++ [queue] }
  | giveBackNull {size pending} (hsize : 1 < size) :
      Steps endpoint me sh (.atFinally size none pending) .go
        (.ended (some .nullPointerException)) sh
  | leave {size queue pending} (hsize : size ≤ 1) :
      Steps endpoint me sh (.atFinally size queue pending) .go (.ended pending) sh

variable {endpoint : MsmqEndpoint} {me : RunId} {sh sh' : Shared} {pc : Pc} {ans : Answer}
  {after : After}

/-- A receive, by what MSMQ answers. -/
theorem steps_of_receive {size : Nat} {queue : QueueRef} {loop : Loop} {a : ReceiveAnswer}
    (hfits : loop.msmqMessage.fits a = true) :
    Steps endpoint me sh (.atReceive size queue loop) (.receives a)
      (receive endpoint me sh size queue loop a).1
      (receive endpoint me sh size queue loop a).2 := by
  unfold receive MsmqQueue.receiveMessage
  by_cases hover : a.hr = mqErrorBufferOverflow
  · simp only [if_pos hover]
    exact .overflow a hfits hover
  · by_cases htimeout : a.hr = mqErrorIoTimeout
    · simp only [if_neg hover, if_pos htimeout]
      exact .timeout a hfits htimeout
    · cases hfail : failed a.hr with
      | true =>
          simp only [if_neg hover, if_neg htimeout, if_true]
          exact .receiveFails a hfits ⟨hfail, htimeout, hover⟩
      | false =>
          simp only [if_neg hover, if_neg htimeout, Bool.false_eq_true, if_false]
          cases hfill : (loop.received a).fill with
          | error ex =>
              have hstep : Steps endpoint me sh (.atReceive size queue loop) (.receives a) _ _ :=
                .notFilled a ex hfits hfail hfill
              unfold Loop.received at hfill hstep
              rw [hfill]
              exact hstep
          | ok filled =>
              have hstep : Steps endpoint me sh (.atReceive size queue loop) (.receives a) _ _ :=
                .received a filled hfits hfail hfill
              unfold Loop.received at hfill
              rw [hfill]
              exact hstep

/-- **The list is complete.**  Whatever the answer to a step, it has gone one of these ways, and
the tests made on that way are the guards of the case. -/
theorem steps_of_step (h : step endpoint me sh pc ans = some (after, sh')) :
    Steps endpoint me sh pc ans after sh' := by
  unfold step at h
  split at h
  · split at h
    · cases h
      exact .element ‹_›
    · cases h
      exact .noElement ‹_›
  · split at h
    · cases h
      exact .created ‹_›
    · cases h
      exact .createdLooking (Nat.le_of_not_lt ‹_›)
  · cases h
    exact .notCreated _
  · split at h
    · cases h
      exact .remove ‹_›
    · cases h
      exact .noRemove ‹_›
  · cases h
    exact .isNull
  · split at h
    · cases h
      exact .isOpen ‹_›
    · rename_i hopen
      cases h
      exact .isNotOpen (by simpa using hopen)
  · dsimp only at h
    split at h
    · cases h
      exact .opened _ ‹_›
    · cases h
      exact .notOpened _ _ ‹_›
  · split at h
    · rename_i body heap halloc
      cases h
      obtain ⟨hsize, rfl, rfl⟩ := ByteBuffer.allocateDirect_ok halloc
      exact .allocated _ hsize
    · rename_i e halloc
      cases h
      obtain ⟨hsize, rfl⟩ := ByteBuffer.allocateDirect_error halloc
      rw [Int32.lt_iff_toInt_lt, Int32.toInt_zero] at hsize
      exact .notAllocated _ hsize
  · split at h
    · rename_i hfits
      have hpair := Option.some.inj h
      have hafter : _ = after := congrArg Prod.fst hpair
      have hshared : _ = sh' := congrArg Prod.snd hpair
      rw [← hafter, ← hshared]
      exact steps_of_receive hfits
    · cases h
  · split at h
    · rename_i size queue loop thrown exchange writes hwrites
      have hpair := Option.some.inj h
      have hafter : _ = after := congrArg Prod.fst hpair
      have hshared : _ = sh' := congrArg Prod.snd hpair
      rw [← hafter, ← hshared]
      have hwrites : ∀ w ∈ writes, w.1 = loop.body.storage ∨ w.1 ∈ handed sh.deliveries := by
        simpa [List.all_eq_true] using hwrites
      cases thrown with
      | none => exact .processed _ _ hwrites
      | some ex => exact .processorThrows _ _ _ hwrites
    · cases h
  · split at h
    · split at h
      · cases h
        exact .giveBack ‹_›
      · cases h
        exact .giveBackNull ‹_›
    · cases h
      exact .leave (Nat.le_of_not_lt ‹_›)
  · cases h

/-- What a throwable inside the loop leads to: it is taken for an overflow and the
buffer is replaced by a larger one, or the run is on its way out. -/
theorem raiseInLoop_cases (endpoint : MsmqEndpoint) (sh : Shared) (size : Nat) (queue : QueueRef)
    (loop : Loop) (ex : Throwable) :
    let initsize := loop.initsize + endpoint.incrementBufferSize
    (ex.isRuntimeException = true ∧ ex.getMessage = some "Message body too big" ∧
      0 ≤ initsize.toInt ∧
      raiseInLoop endpoint sh size queue loop ex =
        (.goOn (.atReceive size queue { loop with
            initsize := initsize
            body := .whole sh.heap.next true initsize
            msmqMessage := loop.msmqMessage.setMsgBodyWithByteBuffer
              (.whole sh.heap.next true initsize)
            grown := loop.grown + 1 }),
          { sh with heap := sh.heap.allocate initsize.toInt.toNat })) ∨
    (¬(ex.isRuntimeException = true ∧ ex.getMessage = some "Message body too big" ∧
        0 ≤ initsize.toInt) ∧
      ∃ e, raiseInLoop endpoint sh size queue loop ex = (raise size (some queue) e, sh)) := by
  intro initsize
  unfold raiseInLoop Loop.recover
  cases hruntime : ex.isRuntimeException with
  | false => exact .inr ⟨by simp, ex, rfl⟩
  | true =>
      cases hmessage : ex.getMessage with
      | none => exact .inr ⟨by simp, .noMessage ex, rfl⟩
      | some message =>
          by_cases htext : message = "Message body too big"
          · cases halloc : ByteBuffer.allocateDirect sh.heap initsize with
            | error e =>
                right
                have hsize := (ByteBuffer.allocateDirect_error halloc).1
                rw [Int32.lt_iff_toInt_lt, Int32.toInt_zero] at hsize
                refine ⟨fun h => absurd h.2.2 (by omega), e, ?_⟩
                simp only [if_true, if_pos htext]
                rw [halloc]
                rfl
            | ok r =>
                left
                obtain ⟨body, heap⟩ := r
                obtain ⟨hsize, rfl, rfl⟩ := ByteBuffer.allocateDirect_ok halloc
                refine ⟨rfl, by rw [htext], hsize, ?_⟩
                simp only [if_true, if_pos htext]
                rw [halloc]
                rfl
          · refine .inr ⟨fun h => htext (Option.some.inj h.2.1), ex, ?_⟩
            simp only [if_true, if_neg htext]

/-- Apart from the heap, a throwable inside the loop leaves what is shared alone. -/
theorem raiseInLoop_sameButHeap (endpoint : MsmqEndpoint) (sh : Shared) (size : Nat)
    (queue : QueueRef) (loop : Loop) (ex : Throwable) :
    sh.SameButHeap (raiseInLoop endpoint sh size queue loop ex).2 := by
  obtain ⟨-, -, -, heq⟩ | ⟨-, e, heq⟩ := raiseInLoop_cases endpoint sh size queue loop ex <;>
    rw [heq] <;> exact ⟨rfl, rfl, rfl, rfl, rfl⟩

/-- Only a successful receive removes a message, the one that MSMQ answers with. -/
theorem Steps.removals (h : Steps endpoint me sh pc ans after sh') :
    (sh'.removals = sh.removals ∧ ∀ a, ans = .receives a → failed a.hr = true) ∨
      ∃ size queue loop a, pc = .atReceive size queue loop ∧ ans = .receives a ∧
        failed a.hr = false ∧ sh'.removals = (me, ⟨a.bytes, a.props⟩) :: sh.removals := by
  have hfails : ∀ {a b : ReceiveAnswer}, failed a.hr = true → Answer.receives a = .receives b →
      failed b.hr = true := by
    intro a b hfail heq
    cases heq
    exact hfail
  cases h with
  | timeout a hfits hhr =>
      have hfail : failed a.hr = true := by rw [hhr, failed_ioTimeout]
      exact .inl ⟨if_pos hfail, fun b => hfails hfail⟩
  | overflow a hfits hhr =>
      have hfail : failed a.hr = true := by rw [hhr, failed_bufferOverflow]
      refine .inl ⟨?_, fun b => hfails hfail⟩
      rw [(raiseInLoop_sameButHeap endpoint _ _ _ _ _).removals]
      exact if_pos hfail
  | receiveFails a hfits hhr =>
      refine .inl ⟨?_, fun b => hfails hhr.1⟩
      rw [(raiseInLoop_sameButHeap endpoint _ _ _ _ _).removals]
      exact if_pos hhr.1
  | received a filled hfits hhr hfill =>
      exact .inr ⟨_, _, _, a, rfl, rfl, hhr, sh.removals_received me _ _ hhr⟩
  | notFilled a ex hfits hhr hfill =>
      refine .inr ⟨_, _, _, a, rfl, rfl, hhr, ?_⟩
      rw [(raiseInLoop_sameButHeap endpoint _ _ _ _ _).removals]
      exact sh.removals_received me _ _ hhr
  | processorThrows ex exchange writes hwrites =>
      exact .inl ⟨(raiseInLoop_sameButHeap endpoint _ _ _ _ _).removals, nofun⟩
  | _ => exact .inl ⟨rfl, nofun⟩

end Task

end Msmq
