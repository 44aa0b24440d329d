import CamelMsmq.SharedHeap
import CamelMsmq.Channel

/-!
# A producer, an MSMQ queue and a consumer

`P` threads send through one producer, `N` workers of one consumer receive, and the MSMQ
queue between them is used by nobody else.  All of them, and the application, run on one
heap.  Any order of their steps is a run of the system.

What a thread puts into the queue is read off the calls it makes (`enqueuedSince`).  MSMQ may
hand out any message that lies in the queue, because the order depends on priorities and on
when transactions end.  It hands out body and properties as they were sent, but for those
that it sets itself.  A message whose time to be received is not infinite may be discarded by
MSMQ at any time.

The application makes buffers, gives them to `process`, and writes to whatever it can
reach: the buffers that the component keeps to itself it cannot.

What is to be seen of a message from outside is its `Parcel`, the part that the sender fixes.
The label of a send is the parcel that the caller asked for, not the one that was sent, so
that the two are the same is a result and not a definition.
-/

namespace Msmq

/-- What a call of `process` has to send: bytes that it has copied, or what a direct
buffer of the caller holds when it is sent. -/
inductive Promise
  | copied (bytes : List UInt8)
  | caller (buffer : ByteBuffer)

/-- What is to be sent of a body that is encoded now. -/
def Body.promise (heap : Heap) : Body → Promise
  | .byteBuffer b => if b.direct then .caller b else .copied (b.window heap)
  | .string s => .copied (encodeChars s)
  | _ => .copied []

def Promise.bytes (heap : Heap) : Promise → List UInt8
  | .copied bytes => bytes
  | .caller b => heap.storage b.storage

/-- What the sender fixes of a message and MSMQ leaves as it is.  The rest, such as the times,
is not compared. -/
structure Parcel where
  bytes : List UInt8
  bodyType : UInt32
  delivery : UInt8
  priority : UInt8
  deriving DecidableEq

namespace Parcel

/-- What is to be seen of a message. -/
def of (m : MqMessage) : Parcel := ⟨m.body, m.props.bodyType, m.props.delivery, m.props.priority⟩

/-- What a call at an endpoint with these settings asks for. -/
def asked (endpoint : MsmqEndpoint) (bytes : List UInt8) : Parcel where
  bytes := bytes
  bodyType := vtArrayUi1
  delivery := if endpoint.deliveryPersistent then 1 else 0
  priority := (UInt32.ofInt endpoint.priority.toInt).toUInt8

/-- A delivery shows a parcel: its bytes from the start of the buffer to the limit, and
what the headers say. -/
structure ShownBy (p : Parcel) (d : Delivery) : Prop where
  body : ∃ b, d.exchange.body = .byteBuffer b ∧ b.position = 0 ∧ b.limit = p.bytes.length
  content : d.content = p.bytes
  bodySize : d.exchange.headers .bodySize = some p.bytes.length
  bodyType : d.exchange.headers .bodyType = some p.bodyType.toNat
  delivery : d.exchange.headers .delivery = some p.delivery.toNat
  priority : d.exchange.headers .priority = some p.priority.toNat

end Parcel

/-- MSMQ hands out a message as it was sent. -/
def Transports (m : MqMessage) (a : ReceiveAnswer) : Prop :=
  a.bytes = m.body ∧ a.props.appSpecific = m.props.appSpecific ∧
    a.props.bodyType = m.props.bodyType ∧ a.props.correlationId = m.props.correlationId ∧
    a.props.delivery = m.props.delivery ∧ a.props.priority = m.props.priority

instance (m : MqMessage) (a : ReceiveAnswer) : Decidable (Transports m a) :=
  inferInstanceAs (Decidable (_ ∧ _))

/-- The message that a worker standing here has received and is about to hand over. -/
def Pc.hands (worker : Nat) (sh : Shared) : Pc → Multiset MqMessage
  | .atProcess _ _ _ => ((sh.removalsOf worker).take 1).map (·.2)
  | _ => 0

/-- What worker `w` has received and is about to hand over. -/
def Consumer.inHands {N : Nat} (c : Consumer N) (w : Fin N) : Multiset MqMessage :=
  (c.worker w).pc.hands w c.shared

/-- A producer with its threads, the MSMQ queue and a consumer.  `promised` keeps for the
record what each thread has to send. -/
structure System (P N : Nat) where
  sender : Threads P
  receiver : Consumer N
  queue : List MqMessage
  promised : Fin P → Promise

/-- What may happen.  A receive comes with the place in the queue of the message that
MSMQ hands out. -/
inductive SystemAction (P N : Nat)
  | sender (act : ThreadAction P)
  | receiver (act : Action N) (place : Nat)
  | discard (place : Nat)
  | allocate (size : Nat)
  | write (a : Addr) (offset : Nat) (bytes : List UInt8)

namespace System

variable {P N : Nat}

/-- The machine before anything has been sent. -/
def init (P N : Nat) (endpoint : MsmqEndpoint) : System P N where
  sender := .init P endpoint (Consumer.doStart N).shared.heap
  receiver := .doStart N
  queue := []
  promised := fun _ => .copied []

def heap (s : System P N) : Heap := s.receiver.shared.heap

/-- The system with another heap. -/
def withHeap (s : System P N) (heap : Heap) : System P N :=
  { s with sender := { s.sender with heap := heap }, receiver := s.receiver.withHeap heap }

/-- The storage that a call has made for the bytes it is about to send. -/
def ownBuffer (s : System P N) (p : Fin P) : Option Addr :=
  match s.sender.thread p, s.promised p with
  | .atSend (some b), .copied _ => some b.storage
  | _, _ => none

/-- The storages that the application cannot reach. -/
def Private (s : System P N) (a : Addr) : Prop :=
  (∃ p, s.ownBuffer p = some a) ∨ ∃ w, a ∈ (s.receiver.worker w).pc.buffers

instance (s : System P N) (a : Addr) : Decidable (s.Private a) :=
  inferInstanceAs (Decidable (_ ∨ _))

/-- The application calls `process` with buffers that exist. -/
def Callable (heap : Heap) : ThreadAction P → Prop
  | .call _ e => e.body.Valid heap
  | _ => True

instance (heap : Heap) : (act : ThreadAction P) → Decidable (Callable heap act)
  | .call _ e => inferInstanceAs (Decidable (e.body.Valid heap))
  | .isOpen _ => isTrue trivial
  | .open _ _ => isTrue trivial
  | .encode _ => isTrue trivial
  | .send _ _ _ => isTrue trivial
  | .doStart => isTrue trivial
  | .doStop _ => isTrue trivial

/-- The record of what is to be sent, after a step of the threads. -/
def promise (s : System P N) : ThreadAction P → Fin P → Promise
  | .encode p =>
      match s.sender.thread p with
      | .atEncode e => Function.update s.promised p (e.body.promise s.heap)
      | _ => s.promised
  | _ => s.promised

/-- The MSMQ queue after an action of the consumer: a successful receive has removed the
message that it answers with. -/
def take (queue : List MqMessage) (place : Nat) : Action N → Option (List MqMessage)
  | .task _ (.receives a) =>
      if failed a.hr then some queue
      else
        match queue[place]? with
        | some m => if Transports m a then some (queue.eraseIdx place) else none
        | none => none
  | _ => some queue

/-- One action. -/
def step (sender receiver : MsmqEndpoint) (s : System P N) :
    SystemAction P N → Option (System P N)
  | .sender act =>
      if Callable s.heap act then
        match s.sender.step sender act with
        | some t => some
            { sender := t
              receiver := s.receiver.withHeap t.heap
              queue := s.queue ++ enqueuedSince s.sender.calls t.calls
              promised := s.promise act }
        | none => none
      else none
  | .receiver act place =>
      match take s.queue place act, s.receiver.step receiver act with
      | some queue, some c => some
          { s with
            sender := { s.sender with heap := c.shared.heap }
            receiver := c
            queue := queue }
      | _, _ => none
  | .discard place =>
      match s.queue[place]? with
      | some m =>
          if m.props.timeToBeReceived = infinite then none
          else some { s with queue := s.queue.eraseIdx place }
      | none => none
  | .allocate size => some (s.withHeap (s.heap.allocate size))
  | .write a offset bytes =>
      if s.Private a then none else some (s.withHeap (s.heap.write a offset bytes))

/-- What an action shows: a successful send shows what the caller has asked for, the call
of the processor what it is handed. -/
def label (sender : MsmqEndpoint) (s : System P N) :
    SystemAction P N → Option (Channel.Label Parcel Delivery)
  | .sender (.send p _ hr) =>
      match s.sender.thread p with
      | .atSend (some _) =>
          if failed hr then none
          else some (.send (.asked sender ((s.promised p).bytes s.heap)))
      | _ => none
  | .receiver (.task w (.processes _ _ _)) _ =>
      match (s.receiver.worker w).pc with
      | .atProcess _ _ loop => some (.deliver (loop.exchange.shown s.heap))
      | _ => none
  | .discard place => (s.queue[place]?).map fun m => .drop (.of m)
  | _ => none

/-- What is under way: in the MSMQ queue, or in the hands of a worker. -/
def transit (s : System P N) : Multiset Parcel :=
  Ledger.total (s.queue.map .of) fun w => (s.receiver.inHands w).map .of

/-- Everything an action can do. -/
inductive Steps (sender receiver : MsmqEndpoint) (s : System P N) :
    SystemAction P N → System P N → Prop
  | sender {act : ThreadAction P} {t : Threads P} (hcall : Callable s.heap act)
      (hstep : s.sender.step sender act = some t) :
      Steps sender receiver s (.sender act)
        { sender := t
          receiver := s.receiver.withHeap t.heap
          queue := s.queue ++ (s.sender.sent? act).toList
          promised := s.promise act }
  | receiver {act : Action N} {place : Nat} {queue : List MqMessage} {c : Consumer N}
      (htake : take s.queue place act = some queue)
      (hstep : s.receiver.step receiver act = some c) :
      Steps sender receiver s (.receiver act place)
        { s with
          sender := { s.sender with heap := c.shared.heap }
          receiver := c
          queue := queue }
  | discard {place : Nat} {m : MqMessage} (hm : s.queue[place]? = some m)
      (htime : m.props.timeToBeReceived ≠ infinite) :
      Steps sender receiver s (.discard place) { s with queue := s.queue.eraseIdx place }
  | allocate (size : Nat) :
      Steps sender receiver s (.allocate size) (s.withHeap (s.heap.allocate size))
  | write {a : Addr} (offset : Nat) (bytes : List UInt8) (hfree : ¬s.Private a) :
      Steps sender receiver s (.write a offset bytes)
        (s.withHeap (s.heap.write a offset bytes))

/-- **The list is complete.**  Whatever the system does is a step of the threads, of the
consumer, of MSMQ or of the application, with the guards that `step` has tested. -/
theorem steps_of_step {sender receiver : MsmqEndpoint} {s s' : System P N}
    {act : SystemAction P N} (h : s.step sender receiver act = some s') :
    Steps sender receiver s act s' := by
  cases act with
  | sender act =>
      simp only [step] at h
      split at h
      · split at h
        · rename_i hcall _ t hstep
          rw [Threads.enqueuedSince_step hstep] at h
          cases h
          exact .sender hcall hstep
        · cases h
      · cases h
  | receiver act place =>
      simp only [step] at h
      split at h
      · cases h
        exact .receiver ‹_› ‹_›
      · cases h
  | discard place =>
      simp only [step] at h
      split at h
      · split at h
        · cases h
        · cases h
          exact .discard ‹_› ‹_›
      · cases h
  | allocate size =>
      cases h
      exact .allocate size
  | write a offset bytes =>
      simp only [step] at h
      split at h
      · cases h
      · cases h
        exact .write offset bytes ‹_›

end System

end Msmq
