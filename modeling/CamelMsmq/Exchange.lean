import CamelMsmq.NativeMessage

/-!
# Endpoint and exchange

The settings of an `MsmqEndpoint` with their defaults, and what producer and
consumer use of a Camel `Exchange`: the body and the headers of its In message.
A body is a buffer, a string, `null`, or something else that the producer does
not know how to send.  Headers that nobody has set are absent.

A *delivery* is what a processor is handed: the exchange, together with the
bytes that its buffer shows at that moment.  The bytes are part of it because
the buffer itself refers to a storage of the heap, which may be written to
later; `Delivery.text` reads them as a test of the component does.
-/

namespace Msmq

/-- `MsmqEndpoint`; `remaining` holds the bytes of the path as JNI passes them on.
The number of concurrent consumers is the parameter `N` of a consumer. -/
structure MsmqEndpoint where
  remaining : Option (List UInt8)
  deliveryPersistent : Bool := false
  timeToLive : Int32 := -1
  priority : Int32 := 3
  initialBufferSize : Int32 := 128
  incrementBufferSize : Int32 := 128

/-- What an In body can be, as far as the component tells the classes apart. -/
inductive Body
  | null
  | byteBuffer (buffer : ByteBuffer)
  | string (s : JString)
  | other
  deriving DecidableEq

/-- The header names of `MsmqConstants` that the consumer sets. -/
inductive MsmqConstants
  | appspecific
  | arrivedtime
  | bodySize
  | bodyType
  | delivery
  | priority
  | senttime
  | timeToBeReceived
  deriving DecidableEq

/-- The In message of an exchange. -/
structure Exchange where
  body : Body
  headers : MsmqConstants → Option Int

namespace Exchange

/-- `endpoint.createExchange()`. -/
def create : Exchange := ⟨.null, fun _ => none⟩

def setBody (e : Exchange) (body : Body) : Exchange := { e with body := body }

def setHeader (e : Exchange) (name : MsmqConstants) (value : Int) : Exchange :=
  { e with headers := Function.update e.headers name (some value) }

end Exchange

/-- What a processor is handed. -/
structure Delivery where
  exchange : Exchange
  content : List UInt8

/-- The exchange with the bytes its buffer shows. -/
def Exchange.shown (heap : Heap) (e : Exchange) : Delivery where
  exchange := e
  content := match e.body with
    | .byteBuffer b => b.window heap
    | _ => []

/-- `asCharBuffer().subSequence(0, BODY_SIZE / 2).toString()`, the way the tests
read a delivered body; `none` when the header is missing or out of range. -/
def Delivery.text (d : Delivery) : Option JString :=
  match d.exchange.headers .bodySize with
  | some size =>
      let chars := decodeChars d.content
      let count := (Int32.ofInt size).toInt.tdiv 2
      if 0 ≤ count ∧ count ≤ chars.length then some (chars.take count.toNat) else none
  | none => none

end Msmq
