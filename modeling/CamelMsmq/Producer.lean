import CamelMsmq.Exchange
import CamelMsmq.QueueSpec

/-!
# `MsmqProducer`

`process` runs through three stages: it opens the queue unless it is open, turns
the body into a direct buffer, and sends the message made of it.  Each stage is a
definition of its own, because other threads may act between them, and `process`
is their composition for a thread that is not interrupted.

An exception of a stage ends the call: one that the native code throws comes as a
`RuntimeException` with the same text.  A body that is neither a buffer nor a
string is only logged, and the call returns.

The string is the case with an error path of its own: `length() * 2` is computed
in `int`, so for a very long string it wraps around, and then the allocation or
the copying fails.  `encode_string` says that this is the only way to fail.
-/

namespace Msmq

/-- `MsmqProducer`. -/
structure MsmqProducer where
  queue : MsmqQueue
  deliveryPersistent : Bool
  timeToLive : Int32
  priority : Int32

/-- What the environment answers during one `process`: the opening, what the memory
of the new message holds, and the sending. -/
structure ProcessAnswers where
  opening : OpenAnswers
  raw : MsmqMessage
  sending : Hresult

/-- What `process` leaves. -/
structure Processed where
  result : Except Throwable Unit
  producer : MsmqProducer
  exchange : Exchange
  heap : Heap
  calls : List MqCall

/-- What the second stage makes of a body: the direct buffer to send, if there is a
payload, the body as it is left, and the heap. -/
structure Encoded where
  buffer : Option ByteBuffer
  body : Body
  heap : Heap

namespace MsmqProducer

/-- The constructor. -/
def new (endpoint : MsmqEndpoint) : MsmqProducer where
  queue := .new
  deliveryPersistent := endpoint.deliveryPersistent
  timeToLive := endpoint.timeToLive
  priority := endpoint.priority

/-- `if (!queue.isOpen()) openConnection()`. -/
def openConnection (p : MsmqProducer) (remaining : Option (List UInt8)) (a : OpenAnswers)
    (calls : List MqCall) : Native Unit :=
  if p.queue.isOpen then ⟨.ok (), p.queue, calls⟩ else p.queue.open remaining a calls

/-- The buffer that `process` sends for a body. -/
def encode (heap : Heap) : Body → Except Throwable Encoded
  | .byteBuffer body =>
      if body.direct then .ok ⟨some body, .byteBuffer body, heap⟩
      else do
        let (outBuffer, heap) ← ByteBuffer.allocateDirect heap (.ofNat body.remaining)
        let (outBuffer, body, heap) ← ByteBuffer.put heap outBuffer body
        .ok ⟨some outBuffer.flip, .byteBuffer body, heap⟩
  | .string s => do
      let (buffer, heap) ← ByteBuffer.allocateDirect heap (.ofNat s.length * 2)
      let heap ← buffer.putChars heap s
      .ok ⟨some buffer, .string s, heap⟩
  | body => .ok ⟨none, body, heap⟩

/-- The message that `process` builds around a buffer. -/
def message (p : MsmqProducer) (raw : MsmqMessage) (body : ByteBuffer) : MsmqMessage :=
  let msg := (MsmqMessage.new raw).setMsgBodyWithByteBuffer body
  let msg := if p.deliveryPersistent then msg.setDelivery mqMsgDeliveryRecoverable else msg
  (msg.setTimeToBeReceived p.timeToLive.toInt).setPriority p.priority.toInt

/-- The last stage: a body without payload is only logged. -/
def send (p : MsmqProducer) (heap : Heap) (buffer : Option ByteBuffer) (raw : MsmqMessage)
    (hr : Hresult) (calls : List MqCall) : Native Unit :=
  match buffer with
  | none => ⟨.ok (), p.queue, calls⟩
  | some body => p.queue.sendMessage ((p.message raw body).sent heap) hr calls

/-- `process(exchange)`. -/
def process (p : MsmqProducer) (remaining : Option (List UInt8)) (e : Exchange) (heap : Heap)
    (a : ProcessAnswers) (calls : List MqCall) : Processed :=
  let opened := p.openConnection remaining a.opening calls
  let p := { p with queue := opened.queue }
  match opened.result with
  | .error what => ⟨.error (.native what), p, e, heap, opened.calls⟩
  | .ok () =>
      match encode heap e.body with
      | .error ex => ⟨.error ex, p, e, heap, opened.calls⟩
      | .ok enc =>
          let sent := p.send enc.heap enc.buffer a.raw a.sending opened.calls
          ⟨sent.result.mapError .native, { p with queue := sent.queue }, e.setBody enc.body,
            enc.heap, sent.calls⟩

/-- A new direct buffer that holds the code units of a string and nothing else. -/
structure HoldsChars (heap heap' : Heap) (s : JString) (buffer : ByteBuffer) : Prop where
  direct : buffer.direct = true
  capacity : buffer.capacity = 2 * s.length
  content : heap'.storage buffer.storage = encodeChars s
  fresh : heap.next ≤ buffer.storage
  bounded : buffer.storage < heap'.next
  touched : Heap.Touched (fun _ => False) heap heap'

/-- `s.length() * 2` in `int` arithmetic. -/
theorem toInt_length_mul_two (n : Nat) :
    (Int32.ofNat n * 2).toInt = ((n : Int) * 2).bmod (2 ^ 32) := by
  have htwo : (2 : Int32).toInt = 2 := by decide
  rw [Int32.toInt_mul, Int32.toInt_ofNat', htwo]
  exact Int.bmod_mul_bmod

/-- **The encoding of a string** succeeds exactly if the number of its bytes is an `int`.  For a
longer one the product wraps around, and the call throws, as an allocation of a negative size or
as a copy into a buffer that is too small. -/
theorem encode_string (heap : Heap) (s : JString) :
    (2 * s.length < 2 ^ 31 ∧ ∃ buffer heap',
      encode heap (.string s) = .ok ⟨some buffer, .string s, heap'⟩ ∧
        HoldsChars heap heap' s buffer) ∨
    (2 ^ 31 ≤ 2 * s.length ∧ ∃ ex, encode heap (.string s) = .error ex) := by
  have hsize := toInt_length_mul_two s.length
  rw [Int.bmod_def] at hsize
  unfold encode
  by_cases hfits : 2 * s.length < 2 ^ 31
  · left
    have hn : (Int32.ofNat s.length * 2).toInt.toNat = 2 * s.length := by
      split at hsize <;> omega
    have hnonneg : ¬Int32.ofNat s.length * 2 < 0 := by
      rw [Int32.lt_iff_toInt_lt, Int32.toInt_zero]
      split at hsize <;> omega
    have hroom : s.length ≤
        (ByteBuffer.whole heap.next true (.ofNat s.length * 2)).remaining / 2 := by
      simp only [ByteBuffer.remaining, ByteBuffer.whole_limit, ByteBuffer.whole_position, hn]
      omega
    refine ⟨hfits, .whole heap.next true (.ofNat s.length * 2),
      (heap.allocate (2 * s.length)).write heap.next 0 (encodeChars s), ?_, ?_⟩
    · simp only [ByteBuffer.allocateDirect, if_neg hnonneg, hn]
      show (ByteBuffer.putChars (heap.allocate (2 * s.length))
        (.whole heap.next true (.ofNat s.length * 2)) s >>= _) = _
      rw [ByteBuffer.putChars, if_pos hroom]
      rfl
    · refine ⟨rfl, hn, ?_, Nat.le_refl _, Nat.lt_succ_self _, ?_⟩
      · exact Heap.storage_write_full (by simp)
      · exact Heap.touched_write_new _ _ _ _
  · right
    refine ⟨Nat.le_of_not_lt hfits, ?_⟩
    by_cases hneg : Int32.ofNat s.length * 2 < 0
    · refine ⟨.illegalArgumentException, ?_⟩
      simp only [ByteBuffer.allocateDirect, if_pos hneg]
      rfl
    · rw [Int32.lt_iff_toInt_lt, Int32.toInt_zero] at hneg
      have hlt := Int32.toInt_lt (Int32.ofNat s.length * 2)
      -- the product has wrapped around, and the buffer is too small
      have hfull : ¬s.length ≤
          (ByteBuffer.whole heap.next true (.ofNat s.length * 2)).remaining / 2 := by
        simp only [ByteBuffer.remaining, ByteBuffer.whole_limit, ByteBuffer.whole_position]
        split at hsize <;> omega
      refine ⟨.bufferOverflowException, ?_⟩
      simp only [ByteBuffer.allocateDirect, Int32.lt_iff_toInt_lt, Int32.toInt_zero, if_neg hneg]
      show (ByteBuffer.putChars (heap.allocate _)
        (.whole heap.next true (.ofNat s.length * 2)) s >>= _) = _
      rw [ByteBuffer.putChars, if_neg hfull]
      rfl

/-- `doStart()`. -/
def doStart (p : MsmqProducer) : MsmqProducer := p

/-- `doStop()`. -/
def doStop (p : MsmqProducer) (hr : Hresult) (calls : List MqCall) : Native Unit :=
  if p.queue.isOpen then p.queue.close hr calls else ⟨.ok (), p.queue, calls⟩

end MsmqProducer

end Msmq
