import CamelMsmq.NativeMessage

/-!
# `MsmqQueue`

The native queue object has two fields, the handle `hQueue` and the flag
`m_isOpen`.  Each operation is a function of the object and of what MSMQ answers
to the calls the operation makes.  It also extends the history of MSMQ calls
(newest first), from which it can be read off which handles MSMQ has given out,
which have been closed, which MSMQ has reported stale, and which messages have
been enqueued.

Nothing is assumed of the answers: MSMQ may give out a handle twice, refuse to
close an open handle, or report success and failure in any order.  Where a result
needs such an assumption, its statement names it.

`open` copies the path into a buffer of fixed length, converts it, and retries
while the queue is not found; what the conversion gives, and what the rest of the
buffer holds, are answers like the others.
-/

namespace Msmq

/-- `HRESULT`. -/
abbrev Hresult := Int32

def mqErrorQueueNotFound : Hresult := 0xC00E0003
def mqErrorBufferOverflow : Hresult := 0xC00E001A
def mqErrorIoTimeout : Hresult := 0xC00E001B
def mqErrorStaleHandle : Hresult := 0xC00E0056

/-- The macro `FAILED`. -/
def failed (hr : Hresult) : Bool := hr < 0

@[simp] theorem failed_bufferOverflow : failed mqErrorBufferOverflow = true := by decide
@[simp] theorem failed_ioTimeout : failed mqErrorIoTimeout = true := by decide
@[simp] theorem failed_staleHandle : failed mqErrorStaleHandle = true := by decide

/-- A handle other than `NULL`. -/
abbrev Handle := Nat

/-- A call to MSMQ with its answer.  A handle that is passed may be `NULL`. -/
inductive MqCall
  | openQueue (name : List UInt16) (hr : Hresult) (handle : Handle)
  | closeQueue (handle : Option Handle) (hr : Hresult)
  | sendMessage (handle : Option Handle) (message : MqMessage) (hr : Hresult)
  | receiveMessage (handle : Option Handle) (pElems : Option Addr) (cElems : UInt32)
      (hr : Hresult)
  deriving DecidableEq

namespace MqCall

/-- The handle a successful `MQOpenQueue` gave out. -/
def opened? : MqCall → Option Handle
  | openQueue _ hr h => if failed hr then none else some h
  | _ => none

/-- The handle a successful `MQCloseQueue` released. -/
def closed? : MqCall → Option Handle
  | closeQueue h hr => if failed hr then none else h
  | _ => none

/-- The handle that a send or a receive found to be stale. -/
def stale? : MqCall → Option Handle
  | sendMessage h _ hr => if hr = mqErrorStaleHandle then h else none
  | receiveMessage h _ _ hr => if hr = mqErrorStaleHandle then h else none
  | _ => none

/-- The handle passed to MSMQ. -/
def uses? : MqCall → Option Handle
  | openQueue _ _ _ => none
  | closeQueue h _ => h
  | sendMessage h _ _ => h
  | receiveMessage h _ _ _ => h

/-- The message a successful `MQSendMessage` enqueued. -/
def enqueued? : MqCall → Option MqMessage
  | sendMessage _ message hr => if failed hr then none else some message
  | _ => none

end MqCall

/-- The handles MSMQ has given out. -/
def obtained (calls : List MqCall) : List Handle := calls.filterMap MqCall.opened?

/-- The handles that have been closed successfully. -/
def closed (calls : List MqCall) : List Handle := calls.filterMap MqCall.closed?

/-- The handles MSMQ has reported stale. -/
def stale (calls : List MqCall) : List Handle := calls.filterMap MqCall.stale?

/-- The messages MSMQ has enqueued. -/
def enqueued (calls : List MqCall) : List MqMessage := calls.filterMap MqCall.enqueued?

/-- The messages MSMQ has enqueued since only the calls `before` had been made, oldest first. -/
def enqueuedSince (before calls : List MqCall) : List MqMessage :=
  ((enqueued calls).take ((enqueued calls).length - (enqueued before).length)).reverse

/-- The length of the name buffers, `MQ_MAX_Q_NAME_LEN`. -/
def mqMaxQNameLen : Nat := 124

/-- `strncpy(dest, src, n)` on a `dest` of `n` bytes. -/
def strncpy (src : List UInt8) (n : Nat) : List UInt8 :=
  src.take n ++ List.replicate (n - src.length) 0

/-- What the environment answers during one `open`.  Nothing is assumed of it here; there is an
answer to every attempt that `open` might make. -/
structure OpenAnswers where
  /-- `MultiByteToWideChar` with `CP_ACP`; `none` when it returns 0. -/
  multiByteToWideChar : List UInt8 → Option (List UInt16)
  /-- What the rest of the wide buffer happens to hold. -/
  uninitialised : List UInt16
  /-- The answers to successive `MQOpenQueue` calls. -/
  attempt : Nat → Hresult × Handle
  /-- The answer to the `MQCloseQueue` of the failure exit. -/
  close : Hresult

/-- The wide name that `open` passes to `MQOpenQueue`, if it gets that far. -/
def OpenAnswers.destFormatName (a : OpenAnswers) (path : Option (List UInt8)) :
    Option (List UInt16) :=
  path.bind fun bytes =>
    (a.multiByteToWideChar (strncpy bytes mqMaxQNameLen)).map (· ++ a.uninitialised)

/-- The native queue object.  The handle stays in it after a `close`, and also when it is stale. -/
structure MsmqQueue where
  hQueue : Option Handle
  isOpen : Bool
  deriving DecidableEq

/-- What an operation leaves: its result or the text of the `runtime_error` it
throws, the object, and the history of MSMQ calls. -/
structure Native (β : Type) where
  result : Except String β
  queue : MsmqQueue
  calls : List MqCall

namespace MsmqQueue

/-- The constructor. -/
def new : MsmqQueue := ⟨none, false⟩

/-- The variables of the retry loop of `open`. -/
structure Opening where
  hr : Hresult
  hQueue : Option Handle
  calls : List MqCall

/-- One `MQOpenQueue`; the output handle is written on success only. -/
def mqOpenQueue (name : List UInt16) (answer : Hresult × Handle) (o : Opening) : Opening where
  hr := answer.1
  hQueue := if failed answer.1 then o.hQueue else some answer.2
  calls := .openQueue name answer.1 answer.2 :: o.calls

/-- `while (hr == MQ_ERROR_QUEUE_NOT_FOUND && iCount < 120)`; `left` is
`120 - iCount` and `i` the number of calls made so far. -/
def retry (name : List UInt16) (attempt : Nat → Hresult × Handle) : Nat → Nat → Opening → Opening
  | 0, _, o => o
  | left + 1, i, o =>
      if o.hr = mqErrorQueueNotFound then
        retry name attempt left (i + 1) (mqOpenQueue name (attempt i) o)
      else o

/-- `MsmqQueue::open`. -/
def «open» (q : MsmqQueue) (path : Option (List UInt8)) (a : OpenAnswers) (calls : List MqCall) :
    Native Unit :=
  match a.destFormatName path with
  | none => ⟨.error "Error in opening the queue: invalid parameter", q, calls⟩
  | some name =>
      let first := mqOpenQueue name (a.attempt 0) ⟨0, q.hQueue, calls⟩
      let last := retry name a.attempt 120 1 first
      if failed last.hr then
        ⟨.error "Error in opening the queue", { q with hQueue := last.hQueue },
          .closeQueue last.hQueue a.close :: last.calls⟩
      else ⟨.ok (), ⟨last.hQueue, true⟩, last.calls⟩

/-- `MsmqQueue::receiveMessage`, but for what MSMQ writes into the message. -/
def receiveMessage (q : MsmqQueue) (msg : MsmqMessage) (hr : Hresult) (calls : List MqCall) :
    Native Bool :=
  let calls' := .receiveMessage q.hQueue msg.pElems msg.cElems hr :: calls
  if hr = mqErrorBufferOverflow then ⟨.error "Message body too big", q, calls'⟩
  else if hr = mqErrorIoTimeout then ⟨.ok false, q, calls'⟩
  else if failed hr then ⟨.error "Error in receiving", q, calls'⟩
  else ⟨.ok true, q, calls'⟩

/-- `MsmqQueue::sendMessage`. -/
def sendMessage (q : MsmqQueue) (message : MqMessage) (hr : Hresult) (calls : List MqCall) :
    Native Unit :=
  let calls' := .sendMessage q.hQueue message hr :: calls
  if failed hr then
    ⟨.error ("Error in sending the message, code " ++ toString hr.toInt),
      if hr = mqErrorStaleHandle then { q with isOpen := false } else q, calls'⟩
  else ⟨.ok (), q, calls'⟩

/-- `MsmqQueue::close`. -/
def close (q : MsmqQueue) (hr : Hresult) (calls : List MqCall) : Native Unit :=
  if q.hQueue.isSome then
    if failed hr then ⟨.error "Error in closing the queue", q, .closeQueue q.hQueue hr :: calls⟩
    else ⟨.ok (), { q with isOpen := false }, .closeQueue q.hQueue hr :: calls⟩
  else ⟨.ok (), { q with isOpen := false }, calls⟩

end MsmqQueue

end Msmq
