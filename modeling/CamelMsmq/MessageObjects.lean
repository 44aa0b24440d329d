import CamelMsmq.NativeQueue

/-!
# `MsmqMessage` objects in memory

An object of the class `MsmqMessage` holds the structure `props`, which is what MSMQ is
given, the two arrays of property identifiers and property values, and the bytes of message
and correlation identifier.  The constructor makes the pointers in `props` and in two of the
values point into the object itself.  The class has no copy operations of its own, so a copy
has the same pointers: they still point into the original.

A memory holds the objects that have been constructed, at addresses below `next`, the
temporaries of the JNI wrappers above, and the heap with the buffers.  Setters and getters
work on the fields of the object they are called on, but identifiers are reached through the
pointers, and so is everything that MSMQ reads and writes.

`receiveMessage` takes the message by value.  In the wrapper two temporaries are made of it,
member by member, and the second is what `MQReceiveMessage` is given; nothing is copied back.
-/

namespace Msmq

/-- The address of an object. -/
abbrev ObjRef := Nat

/-- `MsmqMessage::PropertyName`, the indices of the arrays. -/
inductive PropertyName
  | appSpecific
  | arrivedTime
  | body
  | bodyType
  | bodySize
  | correlationId
  | delivery
  | msgId
  | priority
  | sentTime
  | timeToBeReceived
  deriving DecidableEq

/-- The indices in their order; there are `NUMPROPS` of them. -/
def PropertyName.all : List PropertyName :=
  [appSpecific, arrivedTime, body, bodyType, bodySize, correlationId, delivery, msgId, priority,
    sentTime, timeToBeReceived]

/-- The identifiers `PROPID_M_...`. -/
inductive MsgPropId
  | appSpecific
  | arrivedTime
  | body
  | bodyType
  | bodySize
  | correlationId
  | delivery
  | msgId
  | priority
  | sentTime
  | timeToBeReceived
  deriving DecidableEq

/-- The types `VT_UI1`, `VT_UI4` and `VT_VECTOR | VT_UI1`. -/
inductive VarType
  | ui1
  | ui4
  | vectorUi1
  deriving DecidableEq

/-- What a `UCHAR*` can point to: the array `msgId` or `corrId` of an object, or a buffer. -/
inductive BytePtr
  | msgId (object : ObjRef)
  | corrId (object : ObjRef)
  | buffer (address : Addr)
  deriving DecidableEq

/-- `PROPVARIANT`.  Of the members of its union each property uses one, `bVal`, `ulVal` or
`caub`, which is the pair of `cElems` and `pElems`. -/
structure PropVariant where
  vt : VarType
  bVal : UInt8
  ulVal : UInt32
  cElems : UInt32
  pElems : Option BytePtr

/-- `MQMSGPROPS`: how many properties there are, and in which object the arrays lie. -/
structure MqMsgProps where
  cProp : Nat
  aPropId : ObjRef
  aPropVar : ObjRef
  deriving DecidableEq

/-- An object of the class `MsmqMessage`.  The arrays are part of the object, and `props` holds
their address. -/
structure MessageObject where
  props : MqMsgProps
  propIds : PropertyName → MsgPropId
  propVars : PropertyName → PropVariant
  msgId : Vector UInt8 20
  corrId : Vector UInt8 20

/-- The objects that have been constructed lie below `next`; what is above is free, and may hold
anything. -/
structure Memory where
  next : ObjRef
  object : ObjRef → MessageObject
  heap : Heap

/-- The bytes overwritten from the start on; an array keeps its length. -/
def overwrite (old : Vector UInt8 20) (bytes : List UInt8) : Vector UInt8 20 :=
  .ofFn fun i => (bytes[i.val]?).getD (old.get i)

namespace Memory

def setObject (mem : Memory) (o : ObjRef) (obj : MessageObject) : Memory :=
  { mem with object := Function.update mem.object o obj }

def setVar (mem : Memory) (o : ObjRef) (i : PropertyName) (var : PropVariant) : Memory :=
  mem.setObject o
    { mem.object o with propVars := Function.update (mem.object o).propVars i var }

/-- Write where a pointer points to. -/
def writeBytes (mem : Memory) (bytes : List UInt8) : BytePtr → Memory
  | .msgId o => mem.setObject o
      { mem.object o with msgId := overwrite (mem.object o).msgId bytes }
  | .corrId o => mem.setObject o
      { mem.object o with corrId := overwrite (mem.object o).corrId bytes }
  | .buffer a => { mem with heap := mem.heap.write a 0 bytes }

/-- What can be read where a pointer points to. -/
def readBytes (mem : Memory) : BytePtr → List UInt8
  | .msgId o => (mem.object o).msgId.toList
  | .corrId o => (mem.object o).corrId.toList
  | .buffer a => mem.heap.storage a

/-! ## The class `MsmqMessage` -/

/-- The constructor's assignments to a property; what it does not assign stays as it was. -/
def initialVar (o : ObjRef) (raw : PropVariant) : PropertyName → PropVariant
  | .appSpecific => { raw with vt := .ui4 }
  | .arrivedTime => { raw with vt := .ui4 }
  | .body => { raw with vt := .vectorUi1, pElems := none, cElems := 0 }
  | .bodyType => { raw with vt := .ui4, ulVal := vtArrayUi1 }
  | .bodySize => { raw with vt := .ui4, ulVal := maxMsgSize }
  | .correlationId => { raw with vt := .vectorUi1, pElems := some (.corrId o), cElems := 20 }
  | .delivery => { raw with vt := .ui1, bVal := mqMsgDeliveryExpress }
  | .msgId => { raw with vt := .vectorUi1, pElems := some (.msgId o), cElems := 20 }
  | .priority => { raw with vt := .ui1, bVal := 3 }
  | .sentTime => { raw with vt := .ui4 }
  | .timeToBeReceived => { raw with vt := .ui4, ulVal := infinite }

/-- `propIds` as the constructor fills it. -/
def initialId : PropertyName → MsgPropId
  | .appSpecific => .appSpecific
  | .arrivedTime => .arrivedTime
  | .body => .body
  | .bodyType => .bodyType
  | .bodySize => .bodySize
  | .correlationId => .correlationId
  | .delivery => .delivery
  | .msgId => .msgId
  | .priority => .priority
  | .sentTime => .sentTime
  | .timeToBeReceived => .timeToBeReceived

/-- The constructor, at the address `o` on memory that holds `raw`. -/
def construct (mem : Memory) (o : ObjRef) (raw : MessageObject) : Memory :=
  mem.setObject o
    { props := ⟨PropertyName.all.length, o, o⟩
      propIds := initialId
      propVars := fun i => initialVar o (raw.propVars i) i
      msgId := raw.msgId
      corrId := raw.corrId }

/-- `dst = src`, or the construction of `dst` as a copy of `src`: member by member. -/
def copy (mem : Memory) (dst src : ObjRef) : Memory := mem.setObject dst (mem.object src)

section Setters

variable (mem : Memory) (o : ObjRef)

/-- The value of a property. -/
def var (i : PropertyName) : PropVariant := (mem.object o).propVars i

def setUlVal (i : PropertyName) (value : UInt32) : Memory :=
  mem.setVar o i { mem.var o i with ulVal := value }

def setBVal (i : PropertyName) (value : UInt8) : Memory :=
  mem.setVar o i { mem.var o i with bVal := value }

def setAppSpecifc (app : UInt32) : Memory := mem.setUlVal o .appSpecific app

def setMsgBody (body : Option Addr) : Memory :=
  mem.setVar o .body { mem.var o .body with pElems := body.map .buffer }

/-- `setBodySize(size)`. -/
def setBodySize (size : UInt32) : Memory :=
  (mem.setVar o .body { mem.var o .body with cElems := size }).setUlVal o .bodySize size

/-- `setMsgBodyWithByteBuffer(buffer, size)`; a `long` has 32 bits. -/
def setMsgBodyWithByteBuffer (buffer : Option Addr) (size : Int32) : Memory :=
  (mem.setMsgBody o buffer).setBodySize o size.toUInt32

/-- `setCorrelationId(corrid)` copies to where the value of the property points to. -/
def setCorrelationId (corrid : Vector UInt8 20) : Memory :=
  match (mem.var o .correlationId).pElems with
  | some ptr => mem.writeBytes corrid.toList ptr
  | none => mem

def setDelivery (delivery : UInt32) : Memory := mem.setBVal o .delivery delivery.toUInt8
def setPriority (priority : UInt32) : Memory := mem.setBVal o .priority priority.toUInt8

def setTimeToBeReceived (time : UInt32) : Memory := mem.setUlVal o .timeToBeReceived time

/-- The 20 bytes that `getCorrelationId` and `getMsgId` copy from where a value points to. -/
def idBytes (i : PropertyName) : Vector UInt8 20 :=
  match (mem.var o i).pElems with
  | some ptr => overwrite (.replicate 20 0) (mem.readBytes ptr)
  | none => .replicate 20 0

/-- What the getters of an object give. -/
def getters : MessageProps where
  appSpecific := (mem.var o .appSpecific).ulVal
  arrivedTime := (mem.var o .arrivedTime).ulVal
  bodyType := (mem.var o .bodyType).ulVal
  correlationId := mem.idBytes o .correlationId
  delivery := (mem.var o .delivery).bVal
  msgId := mem.idBytes o .msgId
  priority := (mem.var o .priority).bVal
  sentTime := (mem.var o .sentTime).ulVal
  timeToBeReceived := (mem.var o .timeToBeReceived).ulVal

/-- The object as the property array that the getters show; a body lies in a buffer. -/
def view : MsmqMessage where
  props := mem.getters o
  pElems := (mem.var o .body).pElems.bind fun
    | .buffer a => some a
    | _ => none
  cElems := (mem.var o .body).cElems
  bodySize := (mem.var o .bodySize).ulVal

/-- The bytes of the body buffer. -/
def body : List UInt8 :=
  match (mem.var o .body).pElems with
  | some ptr => mem.readBytes ptr
  | none => []

end Setters

end Memory

/-! ## Receiving -/

/-- The outcome of an `MQReceiveMessage`: its answer, and what it writes for each property,
a number or bytes, if anything.  The body is the value of `PROPID_M_BODY`. -/
structure ReceiveOutcome where
  hr : Hresult
  ui1 : MsgPropId → Option UInt8
  ui4 : MsgPropId → Option UInt32
  bytes : MsgPropId → Option (List UInt8)

namespace Memory

/-- MSMQ writes the value of a property, which it finds through the pointers of `props`; of
bytes no more than there is room for. -/
def writeProp (props : MqMsgProps) (out : ReceiveOutcome) (mem : Memory) (i : PropertyName) :
    Memory :=
  let id := (mem.object props.aPropId).propIds i
  let var := mem.var props.aPropVar i
  match var.vt with
  | .ui1 => match out.ui1 id with
      | some value => mem.setBVal props.aPropVar i value
      | none => mem
  | .ui4 => match out.ui4 id with
      | some value => mem.setUlVal props.aPropVar i value
      | none => mem
  | .vectorUi1 => match out.bytes id, var.pElems with
      | some bytes, some ptr => mem.writeBytes (bytes.take var.cElems.toNat) ptr
      | _, _ => mem

/-- `MQReceiveMessage(..., &props, ...)`. -/
def mqReceiveMessage (mem : Memory) (props : MqMsgProps) (out : ReceiveOutcome) : Memory :=
  (PropertyName.all.take props.cProp).foldl (writeProp props out) mem

/-- `queue.receiveMessage(msg, timeout)` on the object `msg` itself: what it returns, and the
memory afterwards. -/
def receiveMessage (mem : Memory) (q : MsmqQueue) (msg : ObjRef) (out : ReceiveOutcome)
    (calls : List MqCall) : Native Bool × Memory :=
  (q.receiveMessage (mem.view msg) out.hr calls,
    mem.mqReceiveMessage (mem.object msg).props out)

end Memory

namespace Jni

/-- The exception of the wrapper for a message that has been deleted. -/
def nullMessage : Throwable :=
  .thrown .runtimeException "java.lang.NullPointerException"
    (some "Attempt to dereference null MsmqMessage")

/-- The wrapper of `MsmqQueue::receiveMessage`: its result, the MSMQ calls and the memory.  The
local `arg2` is constructed and then assigned the message, and the parameter `msg` is a copy of
`arg2`.  Their destructors do nothing, and neither object lives on. -/
def receiveMessage (mem : Memory) (q : MsmqQueue) (argp2 : Option ObjRef) (raw : MessageObject)
    (out : ReceiveOutcome) (calls : List MqCall) : Except Throwable Bool × List MqCall × Memory :=
  match argp2 with
  | none => (.error nullMessage, calls, mem)
  | some argp2 =>
      let arg2 := mem.next
      let msg := mem.next + 1
      let mem := mem.construct arg2 raw
      let mem := mem.copy arg2 argp2
      let mem := mem.copy msg arg2
      let (r, mem) := mem.receiveMessage q msg out calls
      (r.result.mapError .native, r.calls, mem)

/-- The wrapper of `setMsgBodyWithByteBuffer`: JNI's answers are passed on as they are, the
capacity cut to a `long`.  Nothing in it throws. -/
def setMsgBodyWithByteBuffer (mem : Memory) (o : ObjRef) (buffer : ByteBuffer) :
    Except Throwable Unit × Memory :=
  let arg2 := getDirectBufferAddress buffer
  let arg3 := Int32.ofInt (getDirectBufferCapacity buffer)
  (.ok (), mem.setMsgBodyWithByteBuffer o arg2 arg3)

end Jni

end Msmq
