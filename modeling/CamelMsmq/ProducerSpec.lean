import CamelMsmq.Producer

/-!
# What a producer does

A call of `process` can end in four ways, which `Outcome` lists: the queue is not
opened, the body is not turned into a buffer, there is no payload, or the message is
sent.  The lemmas before it say what the stages of the call do, each by itself.

Opening enqueues nothing and leaves the queue open exactly if it returns.  The
encoding of a buffer cannot fail: a direct one is sent itself, and for another one a
new direct buffer of the right size is made.  A send is one call to MSMQ, and what it
enqueues is read off that call.

`process_enqueues` puts them together.  It is the form in which later modules use
`process`; those that need the state of the queue or the heap as well go back to the
four outcomes.
-/

namespace Msmq

namespace ByteBuffer

/-- The buffer belongs to the heap. -/
structure Valid (heap : Heap) (b : ByteBuffer) : Prop where
  allocated : b.storage < heap.next
  length : (heap.storage b.storage).length = b.capacity

/-- As many bytes can be read through a buffer as remain in it. -/
theorem Valid.length_window {heap : Heap} {b : ByteBuffer} (hv : b.Valid heap) :
    (b.window heap).length = b.remaining := by
  have hlimit := b.limit_le
  have hlength := hv.length
  unfold window remaining
  rw [List.length_drop, List.length_take]
  omega

end ByteBuffer

namespace MsmqProducer

variable (p : MsmqProducer) (remaining : Option (List UInt8))

/-! ## Opening -/

/-- After `openConnection` the queue is open exactly if it has returned. -/
theorem isOpen_openConnection (a : OpenAnswers) (calls : List MqCall) :
    (p.openConnection remaining a calls).queue.isOpen = true ↔
      (p.openConnection remaining a calls).result = .ok () := by
  unfold openConnection
  split
  · rename_i hopen
    simp [hopen]
  · rename_i hopen
    obtain ⟨-, heq⟩ | ⟨name, cs, -, -, -, heq⟩ | ⟨name, cs, -, -, -, heq⟩ :=
      p.queue.open_cases remaining a calls <;> rw [heq] <;> simp [hopen]

/-- When `openConnection` returns: the queue was open, or the path can be converted and MSMQ
opens the queue. -/
theorem openConnection_returns_iff (a : OpenAnswers) (calls : List MqCall) :
    (p.openConnection remaining a calls).result = .ok () ↔
      p.queue.isOpen = true ∨ (a.destFormatName remaining ≠ none ∧ a.opens = true) := by
  unfold openConnection
  split
  · rename_i hopen
    exact ⟨fun _ => .inl hopen, fun _ => rfl⟩
  · rename_i hopen
    rw [p.queue.open_returns_iff]
    exact ⟨.inr, fun h => h.resolve_left hopen⟩

/-- Nor does `openConnection` count for what is read off calls of another kind. -/
theorem filterMap_openConnection {β : Type} {f : MqCall → Option β}
    (hopen : ∀ name hr h, f (.openQueue name hr h) = none)
    (hclose : ∀ h hr, f (.closeQueue h hr) = none) (a : OpenAnswers) (calls : List MqCall) :
    (p.openConnection remaining a calls).calls.filterMap f = calls.filterMap f := by
  unfold openConnection
  split
  · rfl
  · exact MsmqQueue.filterMap_open hopen hclose p.queue remaining a calls

/-- Opening the queue enqueues nothing. -/
theorem enqueued_openConnection (a : OpenAnswers) (calls : List MqCall) :
    enqueued (p.openConnection remaining a calls).calls = enqueued calls :=
  p.filterMap_openConnection remaining (fun _ _ _ => rfl) (fun _ _ => rfl) a calls

/-! ## Encoding -/

/-- A direct buffer is sent itself. -/
theorem encode_direct (heap : Heap) {b : ByteBuffer} (hdirect : b.direct = true) :
    encode heap (.byteBuffer b) = .ok ⟨some b, .byteBuffer b, heap⟩ := if_pos hdirect

/-- A new direct buffer that holds what another buffer shows. -/
structure HoldsWindow (heap heap' : Heap) (b buffer : ByteBuffer) : Prop where
  direct : buffer.direct = true
  capacity : buffer.capacity = b.remaining
  content : b.Valid heap → heap'.storage buffer.storage = b.window heap
  touched : Heap.Touched (fun _ => False) heap heap'

/-- A heap buffer is copied, and read to its end: the buffer that stays in the exchange has
nothing remaining. -/
theorem encode_heap (heap : Heap) {b : ByteBuffer} (hheap : b.direct = false) :
    ∃ buffer heap', encode heap (.byteBuffer b) =
        .ok ⟨some buffer, .byteBuffer b.exhausted, heap'⟩ ∧ HoldsWindow heap heap' b buffer := by
  have hcap := b.capacity_lt
  have hlimit := b.limit_le
  have hremaining : b.remaining < 2 ^ 31 := by
    unfold ByteBuffer.remaining
    omega
  have hn : (Int32.ofNat b.remaining).toInt = b.remaining := Int32.toInt_ofNat_of_lt hremaining
  have hnonneg : ¬Int32.ofNat b.remaining < 0 := by
    rw [Int32.lt_iff_toInt_lt, Int32.toInt_zero, hn]
    omega
  have hnat : (Int32.ofNat b.remaining).toInt.toNat = b.remaining := by rw [hn]; rfl
  have hroom : b.remaining ≤
      (ByteBuffer.whole heap.next true (.ofNat b.remaining)).remaining := by
    simp only [ByteBuffer.remaining, ByteBuffer.whole_limit, ByteBuffer.whole_position] at hnat ⊢
    omega
  let fresh := heap.allocate b.remaining
  let heap' := fresh.write heap.next 0 (b.window fresh)
  let full : ByteBuffer := { ByteBuffer.whole heap.next true (.ofNat b.remaining) with
    position := 0 + b.remaining
    position_le := by
      rw [ByteBuffer.whole_limit, hnat]
      omega }
  have hput : ByteBuffer.put fresh (.whole heap.next true (.ofNat b.remaining)) b =
      .ok (full, b.exhausted, heap') := by
    unfold ByteBuffer.put
    rw [dif_pos hroom]
    rfl
  refine ⟨full.flip, heap', ?_, rfl, hnat, ?_, ?_⟩
  · unfold encode
    simp only [hheap, Bool.false_eq_true, if_false, ByteBuffer.allocateDirect, if_neg hnonneg, hnat]
    show (ByteBuffer.put fresh (.whole heap.next true (.ofNat b.remaining)) b >>= _) = _
    rw [hput]
    rfl
  · intro hv
    have hwindow : b.window fresh = b.window heap := by
      unfold ByteBuffer.window
      rw [Heap.storage_allocate_of_ne (Nat.ne_of_lt hv.allocated)]
    show heap'.storage heap.next = _
    rw [Heap.storage_write_full, hwindow]
    rw [hwindow, hv.length_window, Heap.storage_allocate_next, List.length_replicate]
  · exact Heap.touched_write_new _ _ _ _

/-! ## Sending -/

/-- A buffer is handed to MSMQ in one call, with the handle that the queue object has and the
message made of the buffer. -/
theorem calls_send (heap : Heap) (body : ByteBuffer) (raw : MsmqMessage) (hr : Hresult)
    (calls : List MqCall) :
    (p.send heap (some body) raw hr calls).calls =
      .sendMessage p.queue.hQueue ((p.message raw body).sent heap) hr :: calls :=
  (p.queue.sendMessage_spec _ hr calls).2.1

/-- The send of a buffer enqueues its message if MSMQ answers with success. -/
theorem enqueuedSince_send (heap : Heap) (body : ByteBuffer) (raw : MsmqMessage) (hr : Hresult)
    (calls : List MqCall) :
    enqueuedSince calls (p.send heap (some body) raw hr calls).calls =
      if failed hr then [] else [(p.message raw body).sent heap] := by
  rw [calls_send, enqueuedSince_cons]
  cases hhr : failed hr <;> simp [MqCall.enqueued?, hhr]

/-! ## The whole call -/

/-- The settings of the producer do not concern the body. -/
theorem body_message (raw : MsmqMessage) (b : ByteBuffer) (heap : Heap) :
    ((p.message raw b).sent heap).body =
      (((MsmqMessage.new raw).setMsgBodyWithByteBuffer b).sent heap).body := by
  unfold message
  split <;> rfl

variable (e : Exchange) (heap : Heap) (a : ProcessAnswers) (calls : List MqCall)

/-- Everything a call of `process` can do. -/
inductive Outcome : Processed → Prop
  | notOpened {what : String}
      (hopening : (p.openConnection remaining a.opening calls).result = .error what) :
      Outcome ⟨.error (.native what),
        { p with queue := (p.openConnection remaining a.opening calls).queue }, e, heap,
        (p.openConnection remaining a.opening calls).calls⟩
  | notEncoded {ex : Throwable}
      (hopening : (p.openConnection remaining a.opening calls).result = .ok ())
      (hencode : encode heap e.body = .error ex) :
      Outcome ⟨.error ex,
        { p with queue := (p.openConnection remaining a.opening calls).queue }, e, heap,
        (p.openConnection remaining a.opening calls).calls⟩
  | noPayload {enc : Encoded}
      (hopening : (p.openConnection remaining a.opening calls).result = .ok ())
      (hencode : encode heap e.body = .ok enc) (hbuffer : enc.buffer = none) :
      Outcome ⟨.ok (),
        { p with queue := (p.openConnection remaining a.opening calls).queue },
        e.setBody enc.body, enc.heap, (p.openConnection remaining a.opening calls).calls⟩
  | sent {enc : Encoded} {body : ByteBuffer} {sent : Native Unit}
      (hopening : (p.openConnection remaining a.opening calls).result = .ok ())
      (hencode : encode heap e.body = .ok enc) (hbuffer : enc.buffer = some body)
      (hsent : (p.openConnection remaining a.opening calls).queue.sendMessage
        ((p.message a.raw body).sent enc.heap) a.sending
        (p.openConnection remaining a.opening calls).calls = sent) :
      Outcome ⟨sent.result.mapError .native, { p with queue := sent.queue },
        e.setBody enc.body, enc.heap, sent.calls⟩

/-- **The list is complete.**  A call ends in one of the four ways, with the results of its
stages that the outcome names. -/
theorem process_outcome :
    Outcome p remaining e heap a calls (p.process remaining e heap a calls) := by
  unfold process
  cases hopening : (p.openConnection remaining a.opening calls).result with
  | error what =>
      simp only [hopening]
      exact .notOpened hopening
  | ok u =>
      cases hencode : encode heap e.body with
      | error ex =>
          simp only [hopening]
          exact .notEncoded hopening hencode
      | ok enc =>
          simp only [hopening, send]
          cases hbuffer : enc.buffer with
          | none => exact .noPayload hopening hencode hbuffer
          | some body => exact .sent hopening hencode hbuffer rfl

/-- **What `process` enqueues.**  A call that throws enqueues nothing, and a call that
returns the message made of its buffer, if there is one. -/
theorem process_enqueues :
    let r := p.process remaining e heap a calls
    (∃ ex, r.result = .error ex ∧ enqueued r.calls = enqueued calls) ∨
    (r.result = .ok () ∧ ∃ enc, encode heap e.body = .ok enc ∧
      enqueued r.calls =
        (enc.buffer.map fun b => (p.message a.raw b).sent enc.heap).toList ++ enqueued calls) := by
  intro r
  have hopened := p.enqueued_openConnection remaining a.opening calls
  have houtcome : Outcome p remaining e heap a calls r := process_outcome ..
  generalize r = r at houtcome
  cases houtcome with
  | notOpened hopening => exact .inl ⟨_, rfl, hopened⟩
  | notEncoded hopening hencode => exact .inl ⟨_, rfl, hopened⟩
  | noPayload hopening hencode hbuffer =>
      exact .inr ⟨rfl, _, hencode, by rw [hbuffer]; exact hopened⟩
  | @sent enc body sent hopening hencode hbuffer hsent =>
      obtain ⟨-, hcalls, herror⟩ :=
        (p.openConnection remaining a.opening calls).queue.sendMessage_spec
          ((p.message a.raw body).sent enc.heap) a.sending
          (p.openConnection remaining a.opening calls).calls
      rw [hsent] at hcalls herror
      cases hresult : sent.result with
      | error what =>
          have hfail : failed a.sending = true := herror.mp ⟨what, hresult⟩
          refine .inl ⟨.native what, rfl, ?_⟩
          rw [hcalls, enqueued_cons, hopened]
          simp [MqCall.enqueued?, hfail]
      | ok u =>
          have hfine : failed a.sending = false := by
            rw [Bool.eq_false_iff]
            intro hfail
            obtain ⟨what, hwhat⟩ := herror.mpr hfail
            rw [hresult] at hwhat
            cases hwhat
          refine .inr ⟨rfl, enc, hencode, ?_⟩
          rw [hcalls, enqueued_cons, hopened, hbuffer]
          simp [MqCall.enqueued?, hfine]

end MsmqProducer

end Msmq
