import CamelMsmq.ProducerSpec

/-!
# What a producer sends of a body

A direct buffer is sent with all of its storage, a heap buffer with what remains in
it, a string with its code units, and of any other body nothing is sent: it is only
logged.  The copy of a heap buffer is made with `put`, which moves the position of
the original to its limit.  So a heap buffer is sent differently from a direct one,
and differently the second time.

`Body.payload` says what is sent, `Body.consumed` what is left of the body in the
exchange.  With these two words three questions are answered:

* when a call that returns has enqueued a message (`process_enqueues_payload`);
* when the exchange can be sent a second time (`process_unchanged_iff`);
* when it makes no difference whether a buffer is direct (`process_alike_iff`).

The last two do not hold of all exchanges, and the statements say of which.
-/

namespace Msmq

namespace Body

/-- The bodies that are sent. -/
def isPayload : Body → Bool
  | .byteBuffer _ => true
  | .string _ => true
  | _ => false

/-- The bytes that are sent of a body. -/
def payload (heap : Heap) : Body → List UInt8
  | .byteBuffer b => if b.direct then heap.storage b.storage else b.window heap
  | .string s => encodeChars s
  | _ => []

/-- A body after it was encoded. -/
def consumed : Body → Body
  | .byteBuffer b => .byteBuffer (if b.direct then b else b.exhausted)
  | body => body

/-- A buffer in the body belongs to the heap. -/
def Valid (heap : Heap) (body : Body) : Prop := ∀ b, body = .byteBuffer b → b.Valid heap

variable {heap heap' : Heap} {body : Body}

/-- Only a heap buffer with bytes remaining is changed. -/
theorem consumed_eq_iff :
    body.consumed = body ↔ ∀ b, body = .byteBuffer b → b.direct = true ∨ b.remaining = 0 := by
  cases body with
  | byteBuffer b =>
      have hle := b.position_le
      cases hdirect : b.direct with
      | true => simp [consumed, hdirect]
      | false =>
          have hiff : b.exhausted = b ↔ b.remaining = 0 := by
            unfold ByteBuffer.exhausted ByteBuffer.remaining
            constructor
            · intro heq
              have hposition := congrArg ByteBuffer.position heq
              simp only at hposition
              omega
            · intro hzero
              have hposition : b.limit = b.position := by omega
              cases b
              simp only at hposition
              simp [hposition]
          simp [consumed, hdirect, hiff]
  | _ => simp [consumed]

/-- New storages make no difference to a body. -/
theorem Valid.touched (hv : body.Valid heap) (ht : Heap.Touched (fun _ => False) heap heap') :
    body.Valid heap' ∧ body.payload heap' = body.payload heap := by
  have hstorage : ∀ b, body = .byteBuffer b → heap'.storage b.storage = heap.storage b.storage :=
    fun b hb => ht.frame _ (hv b hb).allocated not_false
  refine ⟨fun b hb => ⟨?_, ?_⟩, ?_⟩
  · exact Nat.lt_of_lt_of_le (hv b hb).allocated ht.next_le
  · rw [hstorage b hb, (hv b hb).length]
  · cases body with
    | byteBuffer b => simp only [payload, ByteBuffer.window, hstorage b rfl]
    | _ => rfl

end Body

namespace MsmqProducer

/-- What the encoding of a body gives. -/
structure Encodes (heap : Heap) (body : Body) (enc : Encoded) : Prop where
  buffer : enc.buffer.isSome = body.isPayload
  left : enc.body = body.consumed
  touched : Heap.Touched (fun _ => False) heap enc.heap
  content : body.Valid heap → ∀ b, enc.buffer = some b → ∀ msg : MsmqMessage,
    ((msg.setMsgBodyWithByteBuffer b).sent enc.heap).body = body.payload heap

/-- **Encoding.**  If the encoding of a body returns, it has made the buffer that holds the
payload of the body, and left in the exchange what `Body.consumed` says. -/
theorem encode_ok {heap : Heap} {body : Body} {enc : Encoded}
    (hencode : encode heap body = .ok enc) : Encodes heap body enc := by
  cases body with
  | byteBuffer b =>
      cases hdirect : b.direct with
      | true =>
          rw [encode_direct heap hdirect] at hencode
          cases hencode
          refine ⟨rfl, by simp [Body.consumed, hdirect], .refl _, ?_⟩
          intro hv b' hb' msg
          cases hb'
          rw [body_sent_of_direct msg hdirect (hv b rfl).length]
          simp [Body.payload, hdirect]
      | false =>
          obtain ⟨buffer, heap', heq, hholds⟩ := encode_heap heap hdirect
          obtain rfl := Except.ok.inj (heq.symm.trans hencode)
          refine ⟨rfl, by simp [Body.consumed, hdirect], hholds.touched, ?_⟩
          intro hv b' hb' msg
          cases hb'
          have hcontent := hholds.content (hv b rfl)
          have hlength : (heap'.storage buffer.storage).length = buffer.capacity := by
            rw [hcontent, (hv b rfl).length_window, hholds.capacity]
          rw [body_sent_of_direct msg hholds.direct hlength, hcontent]
          simp [Body.payload, hdirect]
  | string s =>
      obtain ⟨-, buffer, heap', heq, hholds⟩ | ⟨-, ex, heq⟩ := encode_string heap s
      · obtain rfl := Except.ok.inj (heq.symm.trans hencode)
        refine ⟨rfl, rfl, hholds.touched, ?_⟩
        intro hv b' hb' msg
        cases hb'
        have hlength : (heap'.storage buffer.storage).length = buffer.capacity := by
          rw [hholds.content, length_encodeChars, hholds.capacity]
        rw [body_sent_of_direct msg hholds.direct hlength, hholds.content]
        rfl
      · rw [heq] at hencode
        cases hencode
  | null =>
      cases hencode
      exact ⟨rfl, rfl, .refl _, fun _ b hb => nomatch hb⟩
  | other =>
      cases hencode
      exact ⟨rfl, rfl, .refl _, fun _ b hb => nomatch hb⟩

/-- A buffer can always be encoded. -/
theorem encode_byteBuffer (heap : Heap) (b : ByteBuffer) :
    ∃ enc, encode heap (.byteBuffer b) = .ok enc := by
  cases hdirect : b.direct with
  | true => exact ⟨_, encode_direct heap hdirect⟩
  | false =>
      obtain ⟨buffer, heap', heq, -⟩ := encode_heap heap hdirect
      exact ⟨_, heq⟩

/-- Only the encoding of a string can fail, and it leaves the body as it was. -/
theorem consumed_of_error {heap : Heap} {body : Body} {ex : Throwable}
    (hencode : encode heap body = .error ex) : body.consumed = body := by
  cases body with
  | byteBuffer b =>
      obtain ⟨enc, henc⟩ := encode_byteBuffer heap b
      rw [henc] at hencode
      cases hencode
  | _ => rfl

/-- A body without payload does not fail to be encoded, and gives no buffer. -/
theorem encode_of_not_isPayload {heap : Heap} {body : Body} (hbody : body.isPayload = false) :
    encode heap body = .ok ⟨none, body, heap⟩ := by
  cases body with
  | byteBuffer b => cases hbody
  | string s => cases hbody
  | _ => rfl

/-- A call with a body without payload returns exactly if the queue is open by then. -/
theorem process_returns_iff_of_not_isPayload {p : MsmqProducer} {remaining : Option (List UInt8)}
    {e : Exchange} {heap : Heap} {a : ProcessAnswers} {calls : List MqCall}
    (hbody : e.body.isPayload = false) :
    (p.process remaining e heap a calls).result = .ok () ↔
      (p.openConnection remaining a.opening calls).result = .ok () := by
  unfold process
  cases hopening : (p.openConnection remaining a.opening calls).result with
  | error what => simp only [hopening, reduceCtorEq]
  | ok u =>
      simp only [hopening, encode_of_not_isPayload hbody]
      exact iff_of_true rfl trivial

/-- A call that returns enqueues one message, if the body is a buffer or a string. -/
theorem enqueued_of_returns {p : MsmqProducer} {remaining : Option (List UInt8)} {e : Exchange}
    {heap : Heap} {a : ProcessAnswers} {calls : List MqCall} :
    let r := p.process remaining e heap a calls
    r.result = .ok () →
      if e.body.isPayload then ∃ m, enqueued r.calls = m :: enqueued calls
      else enqueued r.calls = enqueued calls := by
  intro r hok
  obtain ⟨ex, herror, hcalls⟩ | ⟨-, enc, hencode, hcalls⟩ :=
    p.process_enqueues remaining e heap a calls
  · rw [herror] at hok
    cases hok
  · rw [← (encode_ok hencode).buffer]
    show if enc.buffer.isSome = true then ∃ m, enqueued r.calls = m :: enqueued calls
      else enqueued r.calls = enqueued calls
    rw [hcalls]
    cases enc.buffer with
    | none => rfl
    | some b => exact ⟨_, rfl⟩

/-- **One message for each payload.**  A call that throws enqueues nothing.  A call that
returns enqueues one message if the body is a buffer or a string, and otherwise nothing: any
other body is only logged, and then nothing but the opening of the queue can make the call
throw. -/
theorem process_enqueues_payload (p : MsmqProducer) (remaining : Option (List UInt8))
    (e : Exchange) (heap : Heap) (a : ProcessAnswers) (calls : List MqCall) :
    let r := p.process remaining e heap a calls
    (∀ ex, r.result = .error ex → enqueued r.calls = enqueued calls) ∧
    (r.result = .ok () →
      if e.body.isPayload then ∃ m, enqueued r.calls = m :: enqueued calls
      else enqueued r.calls = enqueued calls) ∧
    (e.body.isPayload = false →
      (r.result = .ok () ↔ (p.openConnection remaining a.opening calls).result = .ok ())) := by
  intro r
  refine ⟨fun ex herror => ?_, enqueued_of_returns, process_returns_iff_of_not_isPayload⟩
  obtain ⟨-, -, hcalls⟩ | ⟨hok, -⟩ := p.process_enqueues remaining e heap a calls
  · exact hcalls
  · rw [hok] at herror
    cases herror

/-- A body that is neither a buffer nor a string is dropped without an error. -/
theorem process_drops_other :
    ¬∀ (p : MsmqProducer) (remaining : Option (List UInt8)) (e : Exchange) (heap : Heap)
        (a : ProcessAnswers) (calls : List MqCall),
      e.body ≠ .null → (p.process remaining e heap a calls).result = .ok () →
        ∃ m, enqueued (p.process remaining e heap a calls).calls = m :: enqueued calls := by
  intro h
  obtain ⟨m, hm⟩ := h (.new { remaining := some [113] }) (some [113])
    (Exchange.create.setBody .other) ⟨0, fun _ => []⟩ ⟨.always 0 1 0, default, 0⟩ []
    (by decide) rfl
  cases hm

/-! ## The exchange afterwards -/

variable (p : MsmqProducer) (remaining : Option (List UInt8)) (e : Exchange) (heap : Heap)
  (a : ProcessAnswers) (calls : List MqCall)

/-- The call leaves an encoded body behind exactly if the queue has been opened, and it
only adds to the heap. -/
theorem process_leaves :
    let r := p.process remaining e heap a calls
    ((p.openConnection remaining a.opening calls).result = .ok () →
      r.exchange.body = e.body.consumed) ∧
    ((p.openConnection remaining a.opening calls).result ≠ .ok () → r.exchange.body = e.body) ∧
    Heap.Touched (fun _ => False) heap r.heap := by
  intro r
  have houtcome : p.Outcome remaining e heap a calls r := p.process_outcome ..
  generalize r = r at houtcome
  cases houtcome with
  | notOpened hopening =>
      refine ⟨fun hok => ?_, fun _ => rfl, .refl _⟩
      rw [hopening] at hok
      cases hok
  | notEncoded hopening hencode =>
      exact ⟨fun _ => (consumed_of_error hencode).symm, fun _ => rfl, .refl _⟩
  | noPayload hopening hencode hbuffer =>
      exact ⟨fun _ => (encode_ok hencode).left, fun hnot => absurd hopening hnot,
        (encode_ok hencode).touched⟩
  | sent hopening hencode hbuffer hsent =>
      exact ⟨fun _ => (encode_ok hencode).left, fun hnot => absurd hopening hnot,
        (encode_ok hencode).touched⟩

variable {p remaining e heap a calls}

/-- What is enqueued carries the payload, so the body of a message tells nothing about how the
buffer was made. -/
theorem body_of_enqueued (hvalid : e.body.Valid heap) {m : MqMessage}
    (hm : enqueued (p.process remaining e heap a calls).calls = m :: enqueued calls) :
    m.body = e.body.payload heap := by
  obtain ⟨ex, -, hcalls⟩ | ⟨-, enc, hencode, hcalls⟩ := p.process_enqueues remaining e heap a calls
  · rw [hcalls] at hm
    exact absurd hm.symm (List.cons_ne_self _ _)
  · rw [hcalls] at hm
    cases hbuffer : enc.buffer with
    | none =>
        rw [hbuffer] at hm
        exact absurd hm.symm (List.cons_ne_self _ _)
    | some b =>
        rw [hbuffer] at hm
        obtain rfl : (p.message a.raw b).sent enc.heap = m := (List.cons.inj hm).1
        rw [body_message]
        exact (encode_ok hencode).content hvalid b hbuffer _

/-- Whichever producers are given the exchanges and whatever MSMQ answers: if both are
sent, the messages have the same body. -/
def SentAlike (e : Exchange) (heap : Heap) (e' : Exchange) (heap' : Heap) : Prop :=
  ∀ (p p' : MsmqProducer) (remaining remaining' : Option (List UInt8)) (a a' : ProcessAnswers)
    (calls calls' : List MqCall) (m m' : MqMessage),
    enqueued (p.process remaining e heap a calls).calls = m :: enqueued calls →
    enqueued (p'.process remaining' e' heap' a' calls').calls = m' :: enqueued calls' →
    m'.body = m.body

/-- An unchanged body is sent again as it was: what `process` does to the heap concerns new
storages only. -/
theorem sentAlike_of_unchanged {e' : Exchange} {heap' : Heap} (hvalid : e.body.Valid heap)
    (hbody : e'.body = e.body) (ht : Heap.Touched (fun _ => False) heap heap') :
    SentAlike e heap e' heap' := by
  intro p p' remaining remaining' a a' calls calls' m m' hm hm'
  obtain ⟨hvalid', hpayload⟩ := hvalid.touched ht
  rw [body_of_enqueued hvalid hm, body_of_enqueued (hbody ▸ hvalid') hm', hbody, hpayload]

/-- **Sending does not consume the exchange** exactly if its body is not a heap buffer with
bytes remaining, or the queue cannot be opened.  What is compared is the body in the exchange,
position and limit of a buffer included, and what a second attempt would send.  A redelivery of
Camel after a failed send makes such an attempt, and with a heap buffer it sends an empty
message. -/
theorem process_unchanged_iff (hvalid : e.body.Valid heap) :
    let r := p.process remaining e heap a calls
    (r.exchange.body = e.body ∧ SentAlike e heap r.exchange r.heap) ↔
      ∀ b, e.body = .byteBuffer b → b.direct = true ∨ b.remaining = 0 ∨
        (p.queue.isOpen = false ∧
          (a.opening.destFormatName remaining = none ∨ a.opening.opens = false)) := by
  intro r
  obtain ⟨hopened, hnotOpened, htouched⟩ := p.process_leaves remaining e heap a calls
  have hreturns := p.openConnection_returns_iff remaining a.opening calls
  have hsent : r.exchange.body = e.body → SentAlike e heap r.exchange r.heap :=
    fun hbody => sentAlike_of_unchanged hvalid hbody htouched
  have hfails : (p.openConnection remaining a.opening calls).result ≠ .ok () ↔
      p.queue.isOpen = false ∧
        (a.opening.destFormatName remaining = none ∨ a.opening.opens = false) := by
    rw [Ne, hreturns]
    simp only [not_or, not_and_or, ne_eq, not_not, Bool.not_eq_true]
  by_cases hopening : (p.openConnection remaining a.opening calls).result = .ok ()
  · have hiff : e.body.consumed = e.body ↔ _ := Body.consumed_eq_iff
    rw [← hopened hopening] at hiff
    constructor
    · rintro ⟨hbody, -⟩ b hb
      rcases hiff.mp hbody b hb with hdirect | hzero
      · exact .inl hdirect
      · exact .inr (.inl hzero)
    · intro hcond
      have hbody : r.exchange.body = e.body := by
        refine hiff.mpr fun b hb => ?_
        rcases hcond b hb with hdirect | hzero | hnot
        · exact .inl hdirect
        · exact .inr hzero
        · exact absurd hopening (hfails.mpr hnot)
      exact ⟨hbody, hsent hbody⟩
  · have hbody := hnotOpened hopening
    exact ⟨fun _ b _ => .inr (.inr (hfails.mp hopening)), fun _ => ⟨hbody, hsent hbody⟩⟩

/-- A heap buffer is consumed by a send that fails, and the message of the second attempt
is empty. -/
theorem process_consumes_heap_buffer :
    let b : ByteBuffer := ⟨0, false, 0, 1, 1, by decide, by decide, by decide⟩
    let e := Exchange.create.setBody (.byteBuffer b)
    let heap : Heap := ⟨1, fun _ => [7]⟩
    let p : MsmqProducer := .new { remaining := some [113] }
    let a : ProcessAnswers := ⟨.always 0 1 0, default, 0⟩
    let r := p.process (some [113]) e heap { a with sending := mqErrorStaleHandle } []
    e.body.Valid heap ∧ r.exchange.body ≠ e.body ∧ ¬SentAlike e heap r.exchange r.heap := by
  intro b e heap p a r
  refine ⟨?_, by decide, ?_⟩
  · intro b' hb'
    cases hb'
    exact ⟨by decide, rfl⟩
  · intro halike
    have hbody := halike p p (some [113]) (some [113]) a a [] [] _ _ rfl rfl
    exact absurd hbody (by decide)

/-- A direct buffer survives a send that fails. -/
theorem process_keeps_direct_buffer :
    let b : ByteBuffer := ⟨0, true, 0, 1, 1, by decide, by decide, by decide⟩
    let e := Exchange.create.setBody (.byteBuffer b)
    let heap : Heap := ⟨1, fun _ => [7]⟩
    let p : MsmqProducer := .new { remaining := some [113] }
    let r := p.process (some [113]) e heap ⟨.always 0 1 0, default, mqErrorStaleHandle⟩ []
    r.exchange.body = e.body ∧ SentAlike e heap r.exchange r.heap := by
  intro b e heap p r
  have hbody : ∀ b', e.body = .byteBuffer b' → b' = b := by
    intro b' hb'
    cases hb'
    rfl
  refine (process_unchanged_iff fun b' hb' => ?_).mpr fun b' hb' => ?_
  · rw [hbody b' hb']
    exact ⟨by decide, rfl⟩
  · rw [hbody b' hb']
    exact .inl rfl

/-! ## Direct and heap buffers -/

/-- MSMQ opens the queue and takes the message. -/
structure Succeeds (remaining : Option (List UInt8)) (a : ProcessAnswers) : Prop where
  name : a.opening.destFormatName remaining ≠ none
  opens : a.opening.opens = true
  sends : failed a.sending = false

/-- If the calls of MSMQ succeed, a buffer is sent. -/
theorem enqueued_of_succeeds {b : ByteBuffer} (hsucceeds : Succeeds remaining a)
    (hbody : e.body = .byteBuffer b) (hvalid : b.Valid heap) :
    ∃ m, enqueued (p.process remaining e heap a calls).calls = m :: enqueued calls ∧
      m.body = e.body.payload heap := by
  have hvalid' : e.body.Valid heap := by
    intro b' hb'
    cases hbody.symm.trans hb'
    exact hvalid
  have hok : (p.process remaining e heap a calls).result = .ok () := by
    have houtcome := p.process_outcome remaining e heap a calls
    generalize p.process remaining e heap a calls = r at houtcome ⊢
    cases houtcome with
    | notOpened hopening =>
        have hreturns := (p.openConnection_returns_iff remaining a.opening calls).mpr
          (.inr ⟨hsucceeds.name, hsucceeds.opens⟩)
        rw [hopening] at hreturns
        cases hreturns
    | notEncoded hopening hencode =>
        obtain ⟨enc, henc⟩ := encode_byteBuffer heap b
        rw [hbody, henc] at hencode
        cases hencode
    | noPayload hopening hencode hbuffer => rfl
    | @sent enc body sent hopening hencode hbuffer hsent =>
        obtain ⟨-, -, herror⟩ :=
          (p.openConnection remaining a.opening calls).queue.sendMessage_spec
            ((p.message a.raw body).sent enc.heap) a.sending
            (p.openConnection remaining a.opening calls).calls
        rw [hsent] at herror
        cases hresult : sent.result with
        | ok u => rfl
        | error what =>
            have hfail := herror.mp ⟨what, hresult⟩
            rw [hsucceeds.sends] at hfail
            cases hfail
  have hone := enqueued_of_returns hok
  rw [hbody] at hone
  obtain ⟨m, hm⟩ := hone
  exact ⟨m, hm, body_of_enqueued hvalid' hm⟩

/-- Two buffers with the same capacity, content, position and limit.  Their storages may be two
or one. -/
structure SameButDirect (heap : Heap) (b b' : ByteBuffer) : Prop where
  position : b'.position = b.position
  limit : b'.limit = b.limit
  capacity : b'.capacity = b.capacity
  content : heap.storage b'.storage = heap.storage b.storage

/-- A buffer shows all of its storage exactly if position and limit stand at its ends. -/
theorem window_eq_storage_iff {b : ByteBuffer} (hvalid : b.Valid heap) :
    heap.storage b.storage = b.window heap ↔ b.position = 0 ∧ b.limit = b.capacity := by
  have hposition := b.position_le
  have hlimit := b.limit_le
  constructor
  · intro heq
    have hlength := congrArg List.length heq
    rw [hvalid.length, hvalid.length_window, ByteBuffer.remaining] at hlength
    omega
  · rintro ⟨hstart, hend⟩
    unfold ByteBuffer.window
    rw [hstart, hend, List.drop_zero, List.take_of_length_le (Nat.le_of_eq hvalid.length)]

/-- **Direct and heap buffers.**  If the calls of MSMQ succeed, a direct and a heap buffer that
agree in everything else are sent with the same body exactly if their position is 0 and their
limit the capacity.  The direct one is sent with all of its storage, and of the heap buffer only
what remains is copied. -/
theorem process_alike_iff {b b' : ByteBuffer} {e' : Exchange} {a' : ProcessAnswers}
    (hsucceeds : Succeeds remaining a) (hsucceeds' : Succeeds remaining a')
    (hbody : e.body = .byteBuffer b) (hbody' : e'.body = .byteBuffer b')
    (hdirect : b.direct = true) (hheap : b'.direct = false)
    (hvalid : b.Valid heap) (hvalid' : b'.Valid heap) (hsame : SameButDirect heap b b') :
    ∃ m m', enqueued (p.process remaining e heap a calls).calls = m :: enqueued calls ∧
      enqueued (p.process remaining e' heap a' calls).calls = m' :: enqueued calls ∧
      (m.body = m'.body ↔ b.position = 0 ∧ b.limit = b.capacity) := by
  obtain ⟨m, hm, hcontent⟩ := enqueued_of_succeeds hsucceeds hbody hvalid
  obtain ⟨m', hm', hcontent'⟩ :=
    enqueued_of_succeeds hsucceeds' hbody' hvalid'
  refine ⟨m, m', hm, hm', ?_⟩
  have hdirectContent : m.body = heap.storage b'.storage := by
    rw [hcontent, hbody, hsame.content]
    simp [Body.payload, hdirect]
  have hheapContent : m'.body = b'.window heap := by
    rw [hcontent', hbody']
    simp [Body.payload, hheap]
  rw [hdirectContent, hheapContent, window_eq_storage_iff hvalid', hsame.position, hsame.limit,
    hsame.capacity]

/-- Two buffers that show all of their storage. -/
theorem process_alike_whole :
    let b : ByteBuffer := ⟨0, true, 0, 2, 2, by decide, by decide, by decide⟩
    let b' : ByteBuffer := ⟨1, false, 0, 2, 2, by decide, by decide, by decide⟩
    let e := Exchange.create.setBody (.byteBuffer b)
    let e' := Exchange.create.setBody (.byteBuffer b')
    let heap : Heap := ⟨2, fun _ => [5, 7]⟩
    let p : MsmqProducer := .new { remaining := some [113] }
    let a : ProcessAnswers := ⟨.always 0 1 0, default, 0⟩
    ∃ m m', enqueued (p.process (some [113]) e heap a []).calls = [m] ∧
      enqueued (p.process (some [113]) e' heap a []).calls = [m'] ∧ m.body = m'.body := by
  intro b b' e e' heap p a
  have hsucceeds : Succeeds (some [113]) a := ⟨by decide, by decide, by decide⟩
  have hbody : e.body = .byteBuffer b := rfl
  have hbody' : e'.body = .byteBuffer b' := rfl
  have hvalid : b.Valid heap := ⟨by decide, rfl⟩
  have hvalid' : b'.Valid heap := ⟨by decide, rfl⟩
  obtain ⟨m, m', hm, hm', hiff⟩ :=
    process_alike_iff hsucceeds hsucceeds hbody hbody' rfl rfl hvalid hvalid' ⟨rfl, rfl, rfl, rfl⟩
  exact ⟨m, m', hm, hm', hiff.mpr ⟨rfl, rfl⟩⟩

/-- Two buffers whose first byte has been read: the direct one is sent with it, the heap
buffer without. -/
theorem process_not_alike :
    let b : ByteBuffer := ⟨0, true, 1, 2, 2, by decide, by decide, by decide⟩
    let b' : ByteBuffer := ⟨1, false, 1, 2, 2, by decide, by decide, by decide⟩
    let e := Exchange.create.setBody (.byteBuffer b)
    let e' := Exchange.create.setBody (.byteBuffer b')
    let heap : Heap := ⟨2, fun _ => [5, 7]⟩
    let p : MsmqProducer := .new { remaining := some [113] }
    let a : ProcessAnswers := ⟨.always 0 1 0, default, 0⟩
    b.Valid heap ∧ b'.Valid heap ∧ SameButDirect heap b b' ∧ Succeeds (some [113]) a ∧ ∃ m m',
      enqueued (p.process (some [113]) e heap a []).calls = [m] ∧
      enqueued (p.process (some [113]) e' heap a []).calls = [m'] ∧ m.body ≠ m'.body :=
  ⟨⟨by decide, rfl⟩, ⟨by decide, rfl⟩, ⟨rfl, rfl, rfl, rfl⟩, ⟨by decide, by decide, by decide⟩,
    _, _, rfl, rfl, by decide⟩

end MsmqProducer

end Msmq
