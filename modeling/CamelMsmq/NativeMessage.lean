import CamelMsmq.JavaBase

/-!
# `MsmqMessage` and what MSMQ does with it

A native `MsmqMessage` is an array of MSMQ properties.  The body is not in it:
the property `BODY` is a descriptor, the address `pElems` of a buffer and its
length `cElems`, and `BODY_SIZE` is a property of its own.  `MQSendMessage` reads
the buffer the descriptor points to, `MQReceiveMessage` writes it.

A C++ `unsigned int` reaches Java as a `long` that is not negative; a Java `long`
reaches C++ with its upper half cut off.  So the setters narrow their argument
to the width of the property, without a check, and the getters widen.

That the array is a value, which setters change and nobody else, is what the code
relies on.  The class itself keeps pointers into its own memory; that it may be
taken for such an array is shown in the modules on message objects.
-/

namespace Msmq

/-- The properties of a message other than its body and body size. -/
structure MessageProps where
  appSpecific : UInt32
  arrivedTime : UInt32
  bodyType : UInt32
  correlationId : Vector UInt8 20
  delivery : UInt8
  msgId : Vector UInt8 20
  priority : UInt8
  sentTime : UInt32
  timeToBeReceived : UInt32
  deriving DecidableEq, Inhabited

/-- A message in an MSMQ queue: the bytes of the body, and the other properties as they were
sent. -/
structure MqMessage where
  body : List UInt8
  props : MessageProps
  deriving DecidableEq

/-- The property array of a native `MsmqMessage`.  Of the body it has a pointer and a length,
and the property `BODY_SIZE` beside them. -/
structure MsmqMessage where
  props : MessageProps
  pElems : Option Addr
  cElems : UInt32
  bodySize : UInt32
  deriving DecidableEq, Inhabited

/-- `MAXMSGSIZE`. -/
def maxMsgSize : UInt32 := 1024

/-- `VT_ARRAY | VT_UI1`. -/
def vtArrayUi1 : UInt32 := 0x2011

/-- `INFINITE`. -/
def infinite : UInt32 := 0xFFFFFFFF

/-- `MQMSG_DELIVERY_EXPRESS`. -/
def mqMsgDeliveryExpress : UInt8 := 0

/-- `MQMSG_DELIVERY_RECOVERABLE`. -/
def mqMsgDeliveryRecoverable : Int := 1

/-- `jenv->GetDirectBufferAddress(buffer)`: `NULL` unless the buffer is direct. -/
def getDirectBufferAddress (b : ByteBuffer) : Option Addr :=
  if b.direct then some b.storage else none

/-- `jenv->GetDirectBufferCapacity(buffer)`: -1 unless the buffer is direct. -/
def getDirectBufferCapacity (b : ByteBuffer) : Int :=
  if b.direct then b.capacity else -1

namespace MsmqMessage

/-- The constructor, on memory that holds `raw`: some properties are not set. -/
def new (raw : MsmqMessage) : MsmqMessage :=
  { props := { raw.props with
      bodyType := vtArrayUi1
      priority := 3
      delivery := mqMsgDeliveryExpress
      timeToBeReceived := infinite }
    pElems := none
    cElems := 0
    bodySize := maxMsgSize }

/-- `setMsgBodyWithByteBuffer(buffer)`: the typemap passes on the address and the
capacity of the buffer, whatever its position and limit. -/
def setMsgBodyWithByteBuffer (msg : MsmqMessage) (buffer : ByteBuffer) : MsmqMessage :=
  { msg with
    pElems := getDirectBufferAddress buffer
    cElems := UInt32.ofInt (getDirectBufferCapacity buffer)
    bodySize := UInt32.ofInt (getDirectBufferCapacity buffer) }

def setDelivery (msg : MsmqMessage) (delivery : Int) : MsmqMessage :=
  { msg with props := { msg.props with delivery := (UInt32.ofInt delivery).toUInt8 } }

def setPriority (msg : MsmqMessage) (priority : Int) : MsmqMessage :=
  { msg with props := { msg.props with priority := (UInt32.ofInt priority).toUInt8 } }

def setTimeToBeReceived (msg : MsmqMessage) (time : Int) : MsmqMessage :=
  { msg with props := { msg.props with timeToBeReceived := UInt32.ofInt time } }

def getAppSpecific (msg : MsmqMessage) : Int := msg.props.appSpecific.toNat
def getArrivedTime (msg : MsmqMessage) : Int := msg.props.arrivedTime.toNat
def getBodySize (msg : MsmqMessage) : Int := msg.bodySize.toNat
def getBodyType (msg : MsmqMessage) : Int := msg.props.bodyType.toNat
def getDelivery (msg : MsmqMessage) : Int := msg.props.delivery.toNat
def getPriority (msg : MsmqMessage) : Int := msg.props.priority.toNat
def getSentTime (msg : MsmqMessage) : Int := msg.props.sentTime.toNat
def getTimeToBeReceived (msg : MsmqMessage) : Int := msg.props.timeToBeReceived.toNat

/-- The message that `MQSendMessage` puts into a queue. -/
def sent (heap : Heap) (msg : MsmqMessage) : MqMessage where
  body := match msg.pElems with
    | some a => (heap.storage a).take msg.cElems.toNat
    | none => []
  props := msg.props

end MsmqMessage

/-- A capacity survives the way through JNI. -/
theorem toNat_getDirectBufferCapacity {b : ByteBuffer} (hdirect : b.direct = true) :
    (UInt32.ofInt (getDirectBufferCapacity b)).toNat = b.capacity := by
  have hcap := b.capacity_lt
  simp only [getDirectBufferCapacity, hdirect, if_true]
  rw [UInt32.ofInt, UInt32.toNat_ofNat']
  omega

/-- A direct buffer that is sent is sent up to its capacity, wherever its position and limit
stand. -/
theorem body_sent_of_direct {heap : Heap} {b : ByteBuffer} (msg : MsmqMessage)
    (hdirect : b.direct = true)
    (hlen : (heap.storage b.storage).length = b.capacity) :
    ((msg.setMsgBodyWithByteBuffer b).sent heap).body = heap.storage b.storage := by
  simp only [MsmqMessage.sent, MsmqMessage.setMsgBodyWithByteBuffer, getDirectBufferAddress,
    hdirect, if_true]
  rw [toNat_getDirectBufferCapacity hdirect, List.take_of_length_le (Nat.le_of_eq hlen)]

end Msmq
