import Mathlib.Data.List.Forall2
import CamelMsmq.QueuePool

/-!
# Every message removed is handed over

A successful `MQReceiveMessage` removes a message for good, so what becomes of it
is up to the run that received it.  The invariant of a worker, `Task.Sound`, sets
its two histories side by side: what its runs have removed from MSMQ, and what they
have handed to the processor.  They agree entry by entry, except that between the
receive and the call of the processor one message is still in the buffer.

The step after a successful receive is the critical one.  It sets the limit of the
buffer to the size that MSMQ reports, which would throw if that were larger than the
buffer; MSMQ writes no more than the descriptor allows, so it is not (`Ready.fill`).

Buffers are accounted for as queue objects are: the storages handed to processors
and those that workers receive into are all different, so no receive can touch what
has been handed over.  `Memory` keeps this account, and `Recorded` says that a step
adds to the histories of its own run only.
-/

namespace Msmq

/-- The headers that say of a message what it is. -/
def headersOf (m : MqMessage) : MsmqConstants → Option Int
  | .appspecific => some m.props.appSpecific.toNat
  | .arrivedtime => some m.props.arrivedTime.toNat
  | .bodySize => some m.body.length
  | .bodyType => some m.props.bodyType.toNat
  | .delivery => some m.props.delivery.toNat
  | .priority => some m.props.priority.toNat
  | .senttime => some m.props.sentTime.toNat
  | .timeToBeReceived => some m.props.timeToBeReceived.toNat

/-- A delivery shows a message as it is. -/
def Faithful (d : Delivery) (m : MqMessage) : Prop :=
  (∃ b, d.exchange.body = .byteBuffer b ∧ b.position = 0 ∧ b.limit = m.body.length) ∧
  d.content = m.body ∧ d.exchange.headers = headersOf m

/-- A run hands over what it has removed. -/
def HandedOver (d : RunId × Delivery) (m : RunId × MqMessage) : Prop :=
  d.1 = m.1 ∧ Faithful d.2 m.2

namespace Shared

/-- What the runs of a worker have removed from MSMQ. -/
def removalsOf (sh : Shared) (worker : Nat) : List (RunId × MqMessage) :=
  sh.removals.filter (·.1.worker = worker)

/-- What the runs of a worker have handed to the processor. -/
def deliveriesOf (sh : Shared) (worker : Nat) : List (RunId × Delivery) :=
  sh.deliveries.filter (·.1.worker = worker)

end Shared

namespace Loop

/-- The size of the buffer: it has grown by one increment each time. -/
structure Sized (endpoint : MsmqEndpoint) (loop : Loop) : Prop where
  initsize : loop.initsize =
    endpoint.initialBufferSize + .ofNat loop.grown * endpoint.incrementBufferSize
  nonneg : 0 ≤ loop.initsize.toInt
  capacity : loop.body.capacity = loop.initsize.toInt.toNat
  direct : loop.body.direct = true
  position : loop.body.position = 0

/-- A loop that is about to receive: the body descriptor of its message denotes
exactly its buffer. -/
structure Ready (endpoint : MsmqEndpoint) (heap : Heap) (loop : Loop) : Prop where
  sized : loop.Sized endpoint
  length : (heap.storage loop.body.storage).length = loop.body.capacity
  pElems : loop.msmqMessage.pElems = some loop.body.storage
  cElems : loop.msmqMessage.cElems.toNat = loop.body.capacity

/-- A loop that is about to hand over a message: the buffer is in the exchange, its limit is the
length of the message, and what it shows is the body. -/
structure Filled (endpoint : MsmqEndpoint) (heap : Heap) (loop : Loop) (m : MqMessage) : Prop where
  sized : loop.Sized endpoint
  length : (heap.storage loop.body.storage).length = loop.body.capacity
  body : loop.exchange.body = .byteBuffer loop.body
  limit : loop.body.limit = m.body.length
  content : loop.body.window heap = m.body
  headers : loop.exchange.headers = headersOf m

variable {endpoint : MsmqEndpoint} {heap heap' : Heap} {loop : Loop} {m : MqMessage}

/-- Message and exchange do not matter for the size of the buffer. -/
theorem Sized.congr {loop' : Loop} (hs : loop.Sized endpoint)
    (hinit : loop'.initsize = loop.initsize) (hbody : loop'.body = loop.body)
    (hgrown : loop'.grown = loop.grown) : loop'.Sized endpoint where
  initsize := by rw [hinit, hgrown, hs.initsize]
  nonneg := by rw [hinit]; exact hs.nonneg
  capacity := by rw [hbody, hinit, hs.capacity]
  direct := by rw [hbody, hs.direct]
  position := by rw [hbody, hs.position]

/-- What a filled loop shows the processor is the message that was removed: its bytes up to the
limit, and its properties in the headers. -/
theorem Filled.faithful (hf : loop.Filled endpoint heap m) :
    Faithful (loop.exchange.shown heap) m := by
  refine ⟨⟨loop.body, hf.body, hf.sized.position, hf.limit⟩, ?_, hf.headers⟩
  simp only [Exchange.shown, hf.body, hf.content]

/-- Only the loop's own storage matters. -/
theorem Ready.frame (hr : loop.Ready endpoint heap)
    (hsame : heap'.storage loop.body.storage = heap.storage loop.body.storage) :
    loop.Ready endpoint heap' :=
  ⟨hr.sized, by rw [hsame, hr.length], hr.pElems, hr.cElems⟩

/-- A filled loop depends on nothing in the heap but its buffer. -/
theorem Filled.frame (hf : loop.Filled endpoint heap m)
    (hsame : heap'.storage loop.body.storage = heap.storage loop.body.storage) :
    loop.Filled endpoint heap' m := by
  refine ⟨hf.sized, by rw [hsame, hf.length], hf.body, hf.limit, ?_, hf.headers⟩
  rw [← hf.content]
  unfold ByteBuffer.window
  rw [hsame]

/-- A new buffer is ready. -/
theorem ready_whole {initsize : Int32} {grown : Nat} (exchange : Exchange) (msg : MsmqMessage)
    (hsize : initsize = endpoint.initialBufferSize + .ofNat grown * endpoint.incrementBufferSize)
    (hnonneg : 0 ≤ initsize.toInt) :
    Ready endpoint (heap.allocate initsize.toInt.toNat)
      { exchange := exchange
        initsize := initsize
        body := .whole heap.next true initsize
        msmqMessage := msg.setMsgBodyWithByteBuffer (.whole heap.next true initsize)
        grown := grown } where
  sized := ⟨hsize, hnonneg, rfl, rfl, rfl⟩
  length := by simp
  pElems := rfl
  cElems := toNat_getDirectBufferCapacity rfl

/-- A failed receive may have written to the buffer; it is still ready. -/
theorem Ready.received (hr : loop.Ready endpoint heap) (a : ReceiveAnswer) :
    (loop.received a).Ready endpoint (loop.msmqMessage.heapReceived heap a) where
  sized := hr.sized.congr rfl rfl rfl
  length := by
    have hlength : ∀ b, ((loop.msmqMessage.heapReceived heap a).storage b).length =
        (heap.storage b).length := by
      intro b
      unfold MsmqMessage.heapReceived
      rw [hr.pElems]
      exact Heap.length_storage_write heap _ _ _ _
    rw [hlength]
    exact hr.length
  pElems := hr.pElems
  cElems := hr.cElems

/-- The headers of a received message. -/
theorem headers_setHeaders (msg : MsmqMessage) (e : Exchange) :
    (setHeaders msg e).headers = fun
      | .appspecific => some msg.getAppSpecific
      | .arrivedtime => some msg.getArrivedTime
      | .bodySize => some msg.getBodySize
      | .bodyType => some msg.getBodyType
      | .delivery => some msg.getDelivery
      | .priority => some msg.getPriority
      | .senttime => some msg.getSentTime
      | .timeToBeReceived => some msg.getTimeToBeReceived := by
  funext name
  cases name <;> rfl

/-- What MSMQ writes fits into the buffer. -/
theorem Ready.bytes_le (hr : loop.Ready endpoint heap) {a : ReceiveAnswer}
    (hfits : loop.msmqMessage.fits a = true) : a.bytes.length ≤ loop.body.capacity := by
  unfold MsmqMessage.fits at hfits
  rw [hr.pElems] at hfits
  have hle : a.bytes.length ≤ loop.msmqMessage.cElems.toNat := by simpa using hfits
  rwa [hr.cElems] at hle

/-- The `BODY_SIZE` after a successful receive is the length of the body. -/
theorem getBodySize_received {msg : MsmqMessage} {a : ReceiveAnswer} (hhr : failed a.hr = false)
    (hlength : a.bytes.length < 2 ^ 31) : (msg.received a).getBodySize = a.bytes.length := by
  have hsize : a.bytes.length < UInt32.size := by
    simp only [UInt32.size]
    omega
  simp only [MsmqMessage.received, MsmqMessage.getBodySize, hhr, Bool.false_eq_true, if_false]
  rw [UInt32.toNat_ofNat_of_lt' hsize]

/-- **A successful receive fills the exchange.**  The limit is set without an
exception, and the exchange shows the message that was removed. -/
theorem Ready.fill (hr : loop.Ready endpoint heap) {a : ReceiveAnswer}
    (hfits : loop.msmqMessage.fits a = true) (hhr : failed a.hr = false) :
    ∃ filled, (loop.received a).fill = .ok filled ∧
      filled.body.storage = loop.body.storage ∧
      filled.Filled endpoint (loop.msmqMessage.heapReceived heap a) ⟨a.bytes, a.props⟩ := by
  have hbytes := hr.bytes_le hfits
  have hcap := loop.body.capacity_lt
  have hsize : (loop.msmqMessage.received a).getBodySize = a.bytes.length :=
    getBodySize_received hhr (by omega)
  have hlimit : (Int32.ofInt (loop.msmqMessage.received a).getBodySize).toInt =
      a.bytes.length := by
    rw [hsize, Int32.toInt_ofInt_of_le (by omega) (by omega)]
  have hset := ByteBuffer.setLimit_ok hlimit hbytes
  let body := loop.body.withLimit a.bytes.length hbytes
  let exchange :=
    setHeaders (loop.msmqMessage.received a) (loop.exchange.setBody (.byteBuffer body))
  refine ⟨{ loop.received a with body := body, exchange := exchange }, ?_, rfl, ?_⟩
  · unfold Loop.fill Loop.received
    rw [hset]
    rfl
  · have hheap : loop.msmqMessage.heapReceived heap a = heap.write loop.body.storage 0 a.bytes := by
      unfold MsmqMessage.heapReceived
      rw [hr.pElems]
    have hroom : a.bytes.length ≤ (heap.storage loop.body.storage).length := by
      rw [hr.length]
      exact hbytes
    refine ⟨⟨hr.sized.initsize, hr.sized.nonneg, hr.sized.capacity, hr.sized.direct, ?_⟩, ?_, rfl,
      rfl, ?_, ?_⟩
    · show min loop.body.position a.bytes.length = 0
      rw [hr.sized.position, Nat.zero_min]
    · rw [hheap, Heap.length_storage_write]
      exact hr.length
    · show (((loop.msmqMessage.heapReceived heap a).storage loop.body.storage).take
        a.bytes.length).drop (min loop.body.position a.bytes.length) = a.bytes
      rw [hheap, Heap.take_storage_write_zero hroom, hr.sized.position, Nat.zero_min]
      rfl
    · rw [headers_setHeaders]
      funext name
      cases name with
      | bodySize => exact congrArg some hsize
      | _ => rfl

/-- So the filling does not fail. -/
theorem Ready.fill_ne_error (hr : loop.Ready endpoint heap) {a : ReceiveAnswer}
    (hfits : loop.msmqMessage.fits a = true) (hhr : failed a.hr = false) (ex : Throwable) :
    (loop.received a).fill ≠ .error ex := by
  intro hfill
  obtain ⟨filled, hfilled, -⟩ := hr.fill hfits hhr
  rw [hfilled] at hfill
  cases hfill

end Loop

/-- The storage a worker receives into. -/
def Pc.buffers : Pc → Multiset Addr
  | .atReceive _ _ loop => {loop.body.storage}
  | .atProcess _ _ loop => {loop.body.storage}
  | _ => 0

namespace Task

/-- The histories of a worker agree. -/
def Settled (worker : Nat) (sh : Shared) : Prop :=
  List.Forall₂ HandedOver (sh.deliveriesOf worker) (sh.removalsOf worker)

/-- The invariant of a worker: its histories agree, but for the one message that is
in the buffer when the processor is about to be called. -/
def Sound (endpoint : MsmqEndpoint) (me : RunId) (sh : Shared) : Pc → Prop
  | .atReceive _ _ loop => loop.Ready endpoint sh.heap ∧ Settled me.worker sh
  | .atProcess _ _ loop => ∃ m older, sh.removalsOf me.worker = (me, m) :: older ∧
      List.Forall₂ HandedOver (sh.deliveriesOf me.worker) older ∧ loop.Filled endpoint sh.heap m
  | _ => Settled me.worker sh

variable {endpoint : MsmqEndpoint} {me : RunId} {sh sh' : Shared} {pc : Pc} {ans : Answer}
  {after : After} {size : Nat} {queue : QueueRef} {loop : Loop}

/-- A successful receive removes a message for its worker. -/
theorem removalsOf_received {a : ReceiveAnswer} (hhr : failed a.hr = false) :
    (sh.received me queue loop a).removalsOf me.worker =
      (me, ⟨a.bytes, a.props⟩) :: sh.removalsOf me.worker := by
  unfold Shared.removalsOf
  rw [sh.removals_received me queue loop hhr]
  exact List.filter_cons_of_pos (by simp)

/-- A failed receive removes nothing, so the histories agree as before. -/
theorem settled_received (hs : Settled me.worker sh) {a : ReceiveAnswer}
    (hhr : failed a.hr = true) : Settled me.worker (sh.received me queue loop a) := by
  have hremovals : (sh.received me queue loop a).removals = sh.removals := if_pos hhr
  unfold Settled Shared.removalsOf
  rw [hremovals]
  exact hs

/-- The call of the processor settles the histories: the message that was in the buffer has
become a delivery of the same run. -/
theorem settled_processed (hs : Sound endpoint me sh (.atProcess size queue loop))
    (writes : List (Addr × Nat × List UInt8)) :
    Settled me.worker (sh.processed me loop writes) := by
  obtain ⟨m, older, hremovals, hagree, hfilled⟩ := hs
  have hdeliveries : (sh.processed me loop writes).deliveriesOf me.worker =
      (me, loop.exchange.shown sh.heap) :: sh.deliveriesOf me.worker :=
    List.filter_cons_of_pos (by simp)
  unfold Settled
  rw [hdeliveries]
  show List.Forall₂ HandedOver _ (sh.removalsOf me.worker)
  rw [hremovals]
  exact .cons ⟨rfl, hfilled.faithful⟩ hagree

/-- After a throwable inside the loop there is a new buffer, or the run is on its way
out. -/
theorem sound_raiseInLoop (hsized : loop.Sized endpoint) (hs : Settled me.worker sh)
    (ex : Throwable) :
    Sound endpoint me (raiseInLoop endpoint sh size queue loop ex).2
      (raiseInLoop endpoint sh size queue loop ex).1.pc := by
  obtain ⟨-, -, hnonneg, heq⟩ | ⟨-, e, heq⟩ := raiseInLoop_cases endpoint sh size queue loop ex
  · rw [heq]
    refine ⟨Loop.ready_whole _ _ ?_ hnonneg, hs⟩
    rw [hsized.initsize, Int32.ofNat_add, Int32.add_mul, ← Int32.add_assoc]
    simp
  · rw [heq]
    exact hs

/-- **One step of a worker.**  Its two histories go on agreeing, and its buffer is what the next
step will rely on: of the size it was allocated with while it waits for a message, and filled
with the message once it has been received. -/
theorem Steps.sound (h : Steps endpoint me sh pc ans after sh') (hs : Sound endpoint me sh pc) :
    Sound endpoint me sh' after.pc := by
  cases h with
  | allocated raw hsize => exact ⟨Loop.ready_whole _ _ (by simp) hsize, hs⟩
  | timeout a hfits hhr =>
      obtain ⟨hready, hsettled⟩ := hs
      exact ⟨hready.received a, settled_received hsettled (by rw [hhr, failed_ioTimeout])⟩
  | overflow a hfits hhr =>
      obtain ⟨hready, hsettled⟩ := hs
      have hfailed : failed a.hr = true := by rw [hhr, failed_bufferOverflow]
      refine sound_raiseInLoop ?_ (settled_received hsettled hfailed) _
      exact hready.sized.congr rfl rfl rfl
  | receiveFails a hfits hhr =>
      obtain ⟨hready, hsettled⟩ := hs
      refine sound_raiseInLoop ?_ (settled_received hsettled hhr.1) _
      exact hready.sized.congr rfl rfl rfl
  | @received size queue loop a filled hfits hhr hfill =>
      obtain ⟨hready, hsettled⟩ := hs
      obtain ⟨filled', hfill', -, hfilled⟩ := hready.fill hfits hhr
      obtain rfl : filled' = filled := Except.ok.inj (hfill'.symm.trans hfill)
      exact ⟨⟨a.bytes, a.props⟩, sh.removalsOf me.worker, removalsOf_received hhr, hsettled,
        hfilled⟩
  | notFilled a ex hfits hhr hfill => exact absurd hfill (hs.1.fill_ne_error hfits hhr ex)
  | processed exchange writes hwrites => exact settled_processed hs writes
  | processorThrows ex exchange writes hwrites =>
      refine sound_raiseInLoop ?_ (settled_processed hs writes) _
      obtain ⟨m, older, -, -, hfilled⟩ := hs
      exact hfilled.sized.congr rfl rfl rfl
  | _ => exact hs

/-! ## Buffers -/

/-- The storages that a step from here may write to. -/
def Writes (deliveries : List (RunId × Delivery)) : Pc → Addr → Prop
  | .atReceive _ _ loop, a => a = loop.body.storage
  | .atProcess _ _ loop, a => a = loop.body.storage ∨ a ∈ handed deliveries
  | _, _ => False

/-- The writes of a processor. -/
theorem touched_writes (A : Addr → Prop) (heap : Heap) (writes : List (Addr × Nat × List UInt8))
    (hwrites : ∀ w ∈ writes, A w.1) :
    Heap.Touched A heap (writes.foldl (fun heap w => heap.write w.1 w.2.1 w.2.2) heap) ∧
      (writes.foldl (fun heap w => heap.write w.1 w.2.1 w.2.2) heap).next = heap.next := by
  induction writes generalizing heap with
  | nil => exact ⟨.refl heap, rfl⟩
  | cons w rest ih =>
      obtain ⟨htouched, hnext⟩ := ih (heap.write w.1 w.2.1 w.2.2)
        fun v hv => hwrites v (List.mem_cons_of_mem _ hv)
      have hfirst := Heap.touched_write heap w.2.1 w.2.2 (hwrites w List.mem_cons_self)
      exact ⟨hfirst.trans htouched, hnext⟩

/-- `MQReceiveMessage` writes to the buffer of the loop. -/
theorem touched_received (hready : loop.Ready endpoint sh.heap) (a : ReceiveAnswer) :
    Heap.Touched (· = loop.body.storage) sh.heap (loop.msmqMessage.heapReceived sh.heap a) ∧
      (loop.msmqMessage.heapReceived sh.heap a).next = sh.heap.next := by
  unfold MsmqMessage.heapReceived
  rw [hready.pElems]
  exact ⟨Heap.touched_write _ _ _ rfl, rfl⟩

/-- What a step means for the memory: it touches what it may write to, and the storages
handed over and received into afterwards are such storages from before, or new. -/
structure Memory (sh sh' : Shared) (pc pc' : Pc) : Prop where
  touched : Heap.Touched (Writes sh.deliveries pc) sh.heap sh'.heap
  buffers : ∃ fresh : Multiset Addr,
    (handed sh'.deliveries : Multiset Addr) + pc'.buffers ≤
      (handed sh.deliveries : Multiset Addr) + pc.buffers + fresh ∧
    (fresh = 0 ∨ (fresh = {sh.heap.next} ∧ sh'.heap.next = sh.heap.next + 1))

/-- Most steps leave heap and deliveries alone and hold on to no new buffer. -/
theorem memory_none {pc' : Pc} (hheap : sh'.heap = sh.heap)
    (hdeliveries : sh'.deliveries = sh.deliveries) (hbuffers : pc'.buffers = 0) :
    Memory sh sh' pc pc' := by
  refine ⟨hheap ▸ .refl _, 0, ?_, .inl rfl⟩
  rw [hdeliveries, hbuffers, add_zero, add_zero]
  exact Multiset.le_add_right _ _

/-- A throwable inside the loop, after a part of the step that has touched the heap. -/
theorem memory_raiseInLoop {shMid : Shared} (ex : Throwable)
    (htouched : Heap.Touched (Writes sh.deliveries pc) sh.heap shMid.heap)
    (hnext : shMid.heap.next = sh.heap.next)
    (hhanded : (handed shMid.deliveries : Multiset Addr) ≤ handed sh.deliveries + pc.buffers) :
    Memory sh (raiseInLoop endpoint shMid size queue loop ex).2 pc
      (raiseInLoop endpoint shMid size queue loop ex).1.pc := by
  obtain ⟨-, -, -, heq⟩ | ⟨-, e, heq⟩ := raiseInLoop_cases endpoint shMid size queue loop ex
  · rw [heq]
    refine ⟨htouched.trans (Heap.touched_allocate _ _), {sh.heap.next}, ?_, .inr ⟨rfl, ?_⟩⟩
    · show (handed shMid.deliveries : Multiset Addr) + {shMid.heap.next} ≤ _
      rw [hnext]
      gcongr
    · show shMid.heap.next + 1 = _
      rw [hnext]
  · rw [heq]
    refine ⟨htouched, 0, ?_, .inl rfl⟩
    show (handed shMid.deliveries : Multiset Addr) + 0 ≤ _
    rw [add_zero, add_zero]
    exact hhanded

/-- The buffer of a loop is handed over with the exchange. -/
theorem handed_processed {m : MqMessage} (hfilled : loop.Filled endpoint sh.heap m)
    (writes : List (Addr × Nat × List UInt8)) :
    handed (sh.processed me loop writes).deliveries =
      loop.body.storage :: handed sh.deliveries := by
  have hbody : (loop.exchange.shown sh.heap).exchange.body = .byteBuffer loop.body := hfilled.body
  simp only [handed, Shared.processed, List.filterMap_cons, hbody]

/-- **The memory of one step.**  It writes only where `Writes` allows, which for a worker is its
own buffer and for a processor also what has been handed over before; it allocates at most one
storage; and it keeps the account of the buffers, so none of them is handed over twice. -/
theorem Steps.memory (h : Steps endpoint me sh pc ans after sh') (hs : Sound endpoint me sh pc) :
    Memory sh sh' pc after.pc := by
  cases h with
  | allocated raw hsize =>
      refine ⟨Heap.touched_allocate _ _, {sh.heap.next}, ?_, .inr ⟨rfl, rfl⟩⟩
      show (handed sh.deliveries : Multiset Addr) + {sh.heap.next} ≤
        handed sh.deliveries + 0 + {sh.heap.next}
      rw [add_zero]
  | timeout a hfits hhr =>
      exact ⟨(touched_received hs.1 a).1, 0, le_of_eq (add_zero _).symm, .inl rfl⟩
  | overflow a hfits hhr =>
      obtain ⟨htouched, hnext⟩ := touched_received hs.1 a
      exact memory_raiseInLoop _ htouched hnext (Multiset.le_add_right _ _)
  | receiveFails a hfits hhr =>
      obtain ⟨htouched, hnext⟩ := touched_received hs.1 a
      exact memory_raiseInLoop _ htouched hnext (Multiset.le_add_right _ _)
  | received a filled hfits hhr hfill =>
      obtain ⟨filled', hfill', hstorage, -⟩ := hs.1.fill hfits hhr
      obtain rfl : filled' = filled := Except.ok.inj (hfill'.symm.trans hfill)
      refine ⟨(touched_received hs.1 a).1, 0, ?_, .inl rfl⟩
      show (handed sh.deliveries : Multiset Addr) + {filled'.body.storage} ≤ _
      rw [hstorage, add_zero]
      exact le_refl _
  | notFilled a ex hfits hhr hfill =>
      obtain ⟨htouched, hnext⟩ := touched_received hs.1 a
      exact memory_raiseInLoop _ htouched hnext (Multiset.le_add_right _ _)
  | @processed size queue loop exchange writes hwrites =>
      obtain ⟨m, older, -, -, hfilled⟩ := hs
      let A := Writes sh.deliveries (.atProcess size queue loop)
      refine ⟨(touched_writes A sh.heap writes hwrites).1, 0, ?_, .inl rfl⟩
      rw [handed_processed hfilled, ← Multiset.cons_coe, ← Multiset.singleton_add, add_comm {_}]
      exact le_of_eq rfl
  | @processorThrows size queue loop ex exchange writes hwrites =>
      obtain ⟨m, older, -, -, hfilled⟩ := hs
      let A := Writes sh.deliveries (.atProcess size queue loop)
      obtain ⟨htouched, hnext⟩ := touched_writes A sh.heap writes hwrites
      refine memory_raiseInLoop _ htouched hnext ?_
      rw [handed_processed hfilled, ← Multiset.cons_coe, ← Multiset.singleton_add, add_comm {_}]
      exact le_of_eq rfl
  | _ => exact memory_none rfl rfl rfl

/-- A receive writes to the buffer of its worker and to nothing else. -/
theorem Steps.writes_receives {a : ReceiveAnswer}
    (h : Steps endpoint me sh pc (.receives a) after sh')
    {x : Addr} (hx : Writes sh.deliveries pc x) : x ∈ pc.buffers := by
  cases h <;> exact Multiset.mem_singleton.mpr hx

/-- A step only adds to the histories, and only entries of its own run.  So what a run has done
is not changed by what happens afterwards. -/
structure Recorded (me : RunId) (sh sh' : Shared) : Prop where
  removals : ∃ news, sh'.removals = news ++ sh.removals ∧ ∀ x ∈ news, x.1 = me
  deliveries : ∃ news, sh'.deliveries = news ++ sh.deliveries ∧ ∀ x ∈ news, x.1 = me

theorem recorded_none (hremovals : sh'.removals = sh.removals)
    (hdeliveries : sh'.deliveries = sh.deliveries) : Recorded me sh sh' :=
  ⟨⟨[], hremovals, by simp⟩, ⟨[], hdeliveries, by simp⟩⟩

theorem recorded_received (a : ReceiveAnswer) : Recorded me sh (sh.received me queue loop a) := by
  cases hhr : failed a.hr with
  | true => exact recorded_none (if_pos hhr) rfl
  | false => exact ⟨⟨[_], sh.removals_received me queue loop hhr, by simp⟩, ⟨[], rfl, by simp⟩⟩

theorem recorded_processed (writes : List (Addr × Nat × List UInt8)) :
    Recorded me sh (sh.processed me loop writes) :=
  ⟨⟨[], rfl, by simp⟩, ⟨[_], rfl, by simp⟩⟩

theorem recorded_raiseInLoop {shMid : Shared} (hr : Recorded me sh shMid) (ex : Throwable) :
    Recorded me sh (raiseInLoop endpoint shMid size queue loop ex).2 := by
  have hsame := raiseInLoop_sameButHeap endpoint shMid size queue loop ex
  constructor
  · rw [hsame.removals]
    exact hr.removals
  · rw [hsame.deliveries]
    exact hr.deliveries

/-- A step adds to the histories what it has removed or handed over itself, under the number of
its own run. -/
theorem Steps.recorded (h : Steps endpoint me sh pc ans after sh') : Recorded me sh sh' := by
  cases h with
  | timeout a hfits hhr => exact recorded_received a
  | overflow a hfits hhr => exact recorded_raiseInLoop (recorded_received a) _
  | receiveFails a hfits hhr => exact recorded_raiseInLoop (recorded_received a) _
  | received a filled hfits hhr hfill => exact recorded_received a
  | notFilled a ex hfits hhr hfill => exact recorded_raiseInLoop (recorded_received a) _
  | processed exchange writes hwrites => exact recorded_processed writes
  | processorThrows ex exchange writes hwrites =>
      exact recorded_raiseInLoop (recorded_processed writes) _
  | _ => exact recorded_none rfl rfl

/-- The histories of the other workers stay. -/
theorem Recorded.others (hr : Recorded me sh sh') {n : Nat} (hne : n ≠ me.worker) :
    sh'.removalsOf n = sh.removalsOf n ∧ sh'.deliveriesOf n = sh.deliveriesOf n := by
  obtain ⟨⟨news, hremovals, hnews⟩, ⟨news', hdeliveries, hnews'⟩⟩ := hr
  constructor
  · unfold Shared.removalsOf
    rw [hremovals, List.filter_append, List.filter_eq_nil_iff.mpr, List.nil_append]
    intro x hx
    simpa [hnews x hx] using Ne.symm hne
  · unfold Shared.deliveriesOf
    rw [hdeliveries, List.filter_append, List.filter_eq_nil_iff.mpr, List.nil_append]
    intro x hx
    simpa [hnews' x hx] using Ne.symm hne

/-- What others do does not disturb a worker: its invariant is about its own
histories and its own buffer. -/
theorem Sound.frame (hs : Sound endpoint me sh pc)
    (hremovals : sh'.removalsOf me.worker = sh.removalsOf me.worker)
    (hdeliveries : sh'.deliveriesOf me.worker = sh.deliveriesOf me.worker)
    (hheap : ∀ a ∈ pc.buffers, sh'.heap.storage a = sh.heap.storage a) :
    Sound endpoint me sh' pc := by
  have hsettled : Settled me.worker sh → Settled me.worker sh' := by
    intro h
    unfold Settled
    rw [hremovals, hdeliveries]
    exact h
  cases pc with
  | atReceive size queue loop =>
      exact ⟨hs.1.frame (hheap _ (Multiset.mem_singleton_self _)), hsettled hs.2⟩
  | atProcess size queue loop =>
      obtain ⟨m, older, hpending, hagree, hfilled⟩ := hs
      refine ⟨m, older, hremovals.trans hpending, ?_,
        hfilled.frame (hheap _ (Multiset.mem_singleton_self _))⟩
      rw [hdeliveries]
      exact hagree
  | _ => exact hsettled hs

end Task

end Msmq
