import CamelMsmq.Exchange
import CamelMsmq.QueueSpec

/-!
# `Task.run`

A run of a worker is cut into steps at the points where other threads can notice
it or act: every operation of the shared pool of queues, of a queue object, and
the call of the processor.  Each step is given the answer it gets from outside.
The places where a run can stand are the constructors of `Pc`, with the local
variables that are still needed there.

The error paths are those of the source.  The `catch` inside the receive loop
tells an overflow by the text of the exception and lets the buffer grow, the one
around everything wraps what it catches, and `finally` gives the queue back if the
size read at the start was above one.  A throwable that escapes ends the run, and
the executor will not start this worker again.

The shared part of the state also keeps two histories, newest first: which
messages MSMQ has removed from its queue, and what processors were handed, each
by which run.
-/

namespace Msmq

/-- The identity of a queue object. -/
abbrev QueueRef := Nat

/-- A run of a worker.  The histories name the run of each entry, so that it can be said what
one run has received and handed over. -/
structure RunId where
  worker : Nat
  run : Nat
  deriving DecidableEq

/-- What the workers of a consumer share: the pool, the queue objects, the heap, the
MSMQ calls made so far, and the two histories. -/
structure Shared where
  queues : List QueueRef
  object : QueueRef → MsmqQueue
  heap : Heap
  calls : List MqCall
  removals : List (RunId × MqMessage)
  deliveries : List (RunId × Delivery)

/-- What MSMQ answers to `MQReceiveMessage`: on success the message it removed.  On
failure nothing is removed, whatever MSMQ leaves in properties and buffer. -/
structure ReceiveAnswer where
  hr : Hresult
  props : MessageProps
  bodySize : UInt32
  bytes : List UInt8

namespace MsmqMessage

/-- MSMQ writes no more than the body descriptor allows. -/
def fits (msg : MsmqMessage) (a : ReceiveAnswer) : Bool :=
  match msg.pElems with
  | some _ => a.bytes.length ≤ msg.cElems.toNat
  | none => a.bytes.isEmpty

/-- The properties after `MQReceiveMessage`. -/
def received (msg : MsmqMessage) (a : ReceiveAnswer) : MsmqMessage :=
  { msg with
    props := a.props
    bodySize := if failed a.hr then a.bodySize else .ofNat a.bytes.length }

/-- The heap after `MQReceiveMessage`. -/
def heapReceived (msg : MsmqMessage) (heap : Heap) (a : ReceiveAnswer) : Heap :=
  match msg.pElems with
  | some address => heap.write address 0 a.bytes
  | none => heap

end MsmqMessage

/-- The variables of the receive loop; `grown` counts for the record how often the
buffer has been replaced by a larger one. -/
structure Loop where
  exchange : Exchange
  initsize : Int32
  body : ByteBuffer
  msmqMessage : MsmqMessage
  grown : Nat

namespace Loop

/-- The headers the consumer sets. -/
def setHeaders (msg : MsmqMessage) (e : Exchange) : Exchange :=
  ((((((((e.setHeader .appspecific msg.getAppSpecific)
    ).setHeader .arrivedtime msg.getArrivedTime
    ).setHeader .bodySize msg.getBodySize
    ).setHeader .bodyType msg.getBodyType
    ).setHeader .delivery msg.getDelivery
    ).setHeader .priority msg.getPriority
    ).setHeader .senttime msg.getSentTime
    ).setHeader .timeToBeReceived msg.getTimeToBeReceived

/-- From `message.setBody(body)` to the last header.  The In message refers to the
same buffer object that `body.limit` changes. -/
def fill (loop : Loop) : Except Throwable Loop := do
  let body ← loop.body.setLimit (.ofInt loop.msmqMessage.getBodySize)
  let exchange := loop.exchange.setBody (.byteBuffer body)
  .ok { loop with body := body, exchange := setHeaders loop.msmqMessage exchange }

/-- The handler `catch (RuntimeException ex)` inside the loop. -/
def recover (endpoint : MsmqEndpoint) (loop : Loop) (heap : Heap) (ex : Throwable) :
    Except Throwable (Loop × Heap) :=
  if ex.isRuntimeException then
    match ex.getMessage with
    | none => .error (.noMessage ex)
    | some message =>
        if message = "Message body too big" then do
          let initsize := loop.initsize + endpoint.incrementBufferSize
          let (body, heap) ← ByteBuffer.allocateDirect heap initsize
          .ok ({ loop with
            initsize := initsize
            body := body
            msmqMessage := loop.msmqMessage.setMsgBodyWithByteBuffer body
            grown := loop.grown + 1 }, heap)
        else .error ex
  else .error ex

end Loop

/-- Where a worker stands.  The number is the `size` that was read at the start of
the run, an absent queue is `null`. -/
inductive Pc
  | idle
  | atElement
  | atCreate (size : Nat) (queue : Option QueueRef)
  | atRemove (size : Nat) (exchange : Exchange)
  | atIsOpen (size : Nat) (queue : Option QueueRef) (exchange : Exchange)
  | atOpen (size : Nat) (queue : QueueRef) (exchange : Exchange)
  | atAllocate (size : Nat) (queue : QueueRef) (exchange : Exchange)
  | atReceive (size : Nat) (queue : QueueRef) (loop : Loop)
  | atProcess (size : Nat) (queue : QueueRef) (loop : Loop)
  | atFinally (size : Nat) (queue : Option QueueRef) (pending : Option Throwable)

/-- What a step is given from outside: nothing, the outcome of `createExchange`, the
answers to an `open`, what the memory of a new message holds, the answer to a
receive, or what the processor does.  A processor may throw, it may change the
exchange, and it may write to buffers that processors were handed. -/
inductive Answer
  | go
  | created (thrown : Option Throwable)
  | opens (a : OpenAnswers)
  | allocates (raw : MsmqMessage)
  | receives (a : ReceiveAnswer)
  | processes (thrown : Option Throwable) (exchange : Exchange)
      (writes : List (Addr × Nat × List UInt8))

/-- How it goes on after a step: at another point of the run, or the run has ended,
normally or with a throwable. -/
inductive After
  | goOn (pc : Pc)
  | ended (thrown : Option Throwable)

/-- The storages of the buffers that processors were handed. -/
def handed (deliveries : List (RunId × Delivery)) : List Addr :=
  deliveries.filterMap fun d =>
    match d.2.exchange.body with
    | .byteBuffer b => some b.storage
    | _ => none

namespace Shared

/-- The shared state after an operation of a queue object. -/
def operated {β : Type} (sh : Shared) (queue : QueueRef) (r : Native β) : Shared :=
  { sh with object := Function.update sh.object queue r.queue, calls := r.calls }

/-- The shared state after an `MQReceiveMessage`. -/
def received (sh : Shared) (me : RunId) (queue : QueueRef) (loop : Loop) (a : ReceiveAnswer) :
    Shared :=
  let r := (sh.object queue).receiveMessage loop.msmqMessage a.hr sh.calls
  { sh.operated queue r with
    heap := loop.msmqMessage.heapReceived sh.heap a
    removals := if failed a.hr then sh.removals else (me, ⟨a.bytes, a.props⟩) :: sh.removals }

/-- The shared state after a call of the processor, which writes to some buffers. -/
def processed (sh : Shared) (me : RunId) (loop : Loop) (writes : List (Addr × Nat × List UInt8)) :
    Shared :=
  { sh with
    deliveries := (me, loop.exchange.shown sh.heap) :: sh.deliveries
    heap := writes.foldl (fun heap w => heap.write w.1 w.2.1 w.2.2) sh.heap }

end Shared

namespace Task

/-- `catch (Exception e) { throw wrapRuntimeCamelException(e); }` and on to `finally`. -/
def raise (size : Nat) (queue : Option QueueRef) (e : Throwable) : After :=
  .goOn (.atFinally size queue (some (if e.isException then e.wrapRuntimeCamelException else e)))

/-- A throwable inside the receive loop. -/
def raiseInLoop (endpoint : MsmqEndpoint) (sh : Shared) (size : Nat) (queue : QueueRef)
    (loop : Loop) (ex : Throwable) : After × Shared :=
  match loop.recover endpoint sh.heap ex with
  | .ok (loop, heap) => (.goOn (.atReceive size queue loop), { sh with heap := heap })
  | .error e => (raise size (some queue) e, sh)

/-- One `queue.receiveMessage(msmqMessage, 100)`, with the filling of the exchange if
it returns true. -/
def receive (endpoint : MsmqEndpoint) (me : RunId) (sh : Shared) (size : Nat) (queue : QueueRef)
    (loop : Loop) (a : ReceiveAnswer) : After × Shared :=
  let r := (sh.object queue).receiveMessage loop.msmqMessage a.hr sh.calls
  let sh := sh.received me queue loop a
  let loop := { loop with msmqMessage := loop.msmqMessage.received a }
  match r.result with
  | .error what => raiseInLoop endpoint sh size queue loop (.native what)
  | .ok false => (.goOn (.atReceive size queue loop), sh)
  | .ok true =>
      match loop.fill with
      | .error ex => raiseInLoop endpoint sh size queue loop ex
      | .ok loop => (.goOn (.atProcess size queue loop), sh)

/-- `processor.process(exchange)`. -/
def process (endpoint : MsmqEndpoint) (me : RunId) (sh : Shared) (size : Nat) (queue : QueueRef)
    (loop : Loop) (thrown : Option Throwable) (exchange : Exchange)
    (writes : List (Addr × Nat × List UInt8)) : After × Shared :=
  let sh := sh.processed me loop writes
  match thrown with
  | none => (.goOn (.atFinally size (some queue) none), sh)
  | some ex => raiseInLoop endpoint sh size queue { loop with exchange := exchange } ex

/-- One step of `run()`. -/
def step (endpoint : MsmqEndpoint) (me : RunId) (sh : Shared) :
    Pc → Answer → Option (After × Shared)
  | .atElement, .go =>
      match sh.queues with
      | queue :: _ => some (.goOn (.atCreate 1 (some queue)), sh)
      | [] => some (.ended (some .noSuchElementException), sh)
  | .atCreate size queue, .created none =>
      if size > 1 then some (.goOn (.atRemove size .create), sh)
      else some (.goOn (.atIsOpen size queue .create), sh)
  | .atCreate size queue, .created (some e) => some (raise size queue e, sh)
  | .atRemove size exchange, .go =>
      match sh.queues with
      | queue :: rest =>
          some (.goOn (.atIsOpen size (some queue) exchange), { sh with queues := rest })
      | [] => some (raise size none .noSuchElementException, sh)
  | .atIsOpen size none _, .go => some (raise size none .nullPointerException, sh)
  | .atIsOpen size (some queue) exchange, .go =>
      if (sh.object queue).isOpen then some (.goOn (.atAllocate size queue exchange), sh)
      else some (.goOn (.atOpen size queue exchange), sh)
  | .atOpen size queue exchange, .opens a =>
      let r := (sh.object queue).open endpoint.remaining a sh.calls
      match r.result with
      | .ok () => some (.goOn (.atAllocate size queue exchange), sh.operated queue r)
      | .error what => some (raise size (some queue) (.native what), sh.operated queue r)
  | .atAllocate size queue exchange, .allocates raw =>
      match ByteBuffer.allocateDirect sh.heap endpoint.initialBufferSize with
      | .ok (body, heap) =>
          let msmqMessage := (MsmqMessage.new raw).setMsgBodyWithByteBuffer body
          some (.goOn (.atReceive size queue
            ⟨exchange, endpoint.initialBufferSize, body, msmqMessage, 0⟩), { sh with heap := heap })
      | .error e => some (raise size (some queue) e, sh)
  | .atReceive size queue loop, .receives a =>
      if loop.msmqMessage.fits a then some (receive endpoint me sh size queue loop a) else none
  | .atProcess size queue loop, .processes thrown exchange writes =>
      if writes.all fun w => w.1 = loop.body.storage || (handed sh.deliveries).contains w.1 then
        some (process endpoint me sh size queue loop thrown exchange writes)
      else none
  | .atFinally size queue pending, .go =>
      if size > 1 then
        match queue with
        | some queue => some (.ended pending, { sh with queues := sh.queues ++ [queue] })
        | none => some (.ended (some .nullPointerException), sh)
      else some (.ended pending, sh)
  | _, _ => none

end Task

end Msmq
