import CamelMsmq.MessageStore
import CamelMsmq.ProducerSpec

/-!
# Sending objects, and receiving them elsewhere

`MQSendMessage` finds the properties of a message where the pointers of `props` point to, as
`MQReceiveMessage` does.  For a message with any history that is the property array which the
rest of the development sends.  So what is sent from one memory is received in another, of the
same process or not; and the message that `process` builds is its own, whatever other threads
do in the same memory meanwhile.

Three results follow from the view of a message being a value:

* `received_is_sent` puts the two wrappers together, with MSMQ in between, which stamps some
  properties and brings the rest as it was sent, if there is room for the body;
* `send_among_others` lets other threads act between the construction of a message, its setters
  and its send;
* `correlationId_round_trip` follows an identifier from one Java array to another.
-/

namespace Msmq

namespace Memory

/-! ## What MSMQ reads -/

/-- Where MSMQ finds a property: at the first index with its identifier. -/
def propIndex (mem : Memory) (props : MqMsgProps) (id : MsgPropId) : Option PropertyName :=
  (PropertyName.all.take props.cProp).find? fun i => (mem.object props.aPropId).propIds i = id

/-- The value of a property, unless it is missing. -/
def propVar (mem : Memory) (props : MqMsgProps) (id : MsgPropId) : Option PropVariant :=
  (mem.propIndex props id).map (mem.var props.aPropVar)

def readUi1 (mem : Memory) (props : MqMsgProps) (id : MsgPropId) : UInt8 :=
  ((mem.propVar props id).map (·.bVal)).getD 0

def readUi4 (mem : Memory) (props : MqMsgProps) (id : MsgPropId) : UInt32 :=
  ((mem.propVar props id).map (·.ulVal)).getD 0

/-- As many bytes of a vector as it has elements. -/
def readVector (mem : Memory) (props : MqMsgProps) (id : MsgPropId) : List UInt8 :=
  match mem.propVar props id with
  | some var => match var.pElems with
      | some ptr => (mem.readBytes ptr).take var.cElems.toNat
      | none => []
  | none => []

/-- The properties other than the body, as MSMQ reads them. -/
def readProps (mem : Memory) (props : MqMsgProps) : MessageProps where
  appSpecific := mem.readUi4 props .appSpecific
  arrivedTime := mem.readUi4 props .arrivedTime
  bodyType := mem.readUi4 props .bodyType
  correlationId := overwrite (.replicate 20 0) (mem.readVector props .correlationId)
  delivery := mem.readUi1 props .delivery
  msgId := overwrite (.replicate 20 0) (mem.readVector props .msgId)
  priority := mem.readUi1 props .priority
  sentTime := mem.readUi4 props .sentTime
  timeToBeReceived := mem.readUi4 props .timeToBeReceived

/-- The message that `MQSendMessage(..., &props, ...)` puts into the queue. -/
def mqSendMessage (mem : Memory) (props : MqMsgProps) : MqMessage :=
  ⟨mem.readVector props .body, mem.readProps props⟩

variable {mem mem' : Memory} {o m m' : ObjRef} {i : PropertyName} {id : MsgPropId}

/-- MSMQ finds every property of a linked message, in the message. -/
theorem propVar_linked (hl : Linked m (mem.object m)) (hid : initialId i = id) :
    mem.propVar (mem.object m).props id = some (mem.var m i) := by
  have hindex : (PropertyName.all.take PropertyName.all.length).find?
      (fun j => initialId j = initialId i) = some i := by
    cases i <;> decide
  subst hid
  rw [hl.props]
  simp only [propVar, propIndex, hl.propIds, hindex, Option.map_some]

theorem readUi1_linked (hl : Linked m (mem.object m)) (hid : initialId i = id) :
    mem.readUi1 (mem.object m).props id = (mem.var m i).bVal := by
  rw [readUi1, propVar_linked hl hid]
  rfl

theorem readUi4_linked (hl : Linked m (mem.object m)) (hid : initialId i = id) :
    mem.readUi4 (mem.object m).props id = (mem.var m i).ulVal := by
  rw [readUi4, propVar_linked hl hid]
  rfl

/-- An identifier is read as its getter reads it. -/
theorem readId_linked (hl : Linked m (mem.object m)) (hi : i = .msgId ∨ i = .correlationId)
    (hid : initialId i = id) :
    overwrite (.replicate 20 0) (mem.readVector (mem.object m).props id) = mem.idBytes m i := by
  obtain ⟨ptr, hptr, hsize, -, -⟩ := place_of_id hl hi
  have htwenty : UInt32.toNat 20 = 20 := rfl
  simp only [readVector, propVar_linked hl hid, hptr, hsize, htwenty, overwrite_take, idBytes]

theorem readBody_linked (hl : Linked m (mem.object m)) :
    mem.readVector (mem.object m).props .body = ((mem.view m).sent mem.heap).body := by
  have hvar := propVar_linked hl (show initialId .body = .body from rfl)
  simp only [readVector, hvar, MsmqMessage.sent, view]
  cases hptr : (mem.var m .body).pElems with
  | none => rfl
  | some ptr =>
      obtain ⟨a, rfl⟩ := hl.body ptr hptr
      rfl

theorem readProps_linked (hl : Linked m (mem.object m)) :
    mem.readProps (mem.object m).props = mem.getters m := by
  have happSpecific := readUi4_linked hl (show initialId .appSpecific = .appSpecific from rfl)
  have harrivedTime := readUi4_linked hl (show initialId .arrivedTime = .arrivedTime from rfl)
  have hbodyType := readUi4_linked hl (show initialId .bodyType = .bodyType from rfl)
  have hcorrId :=
    readId_linked hl (.inr rfl) (show initialId .correlationId = .correlationId from rfl)
  have hdelivery := readUi1_linked hl (show initialId .delivery = .delivery from rfl)
  have hmsgId := readId_linked hl (.inl rfl) (show initialId .msgId = .msgId from rfl)
  have hpriority := readUi1_linked hl (show initialId .priority = .priority from rfl)
  have hsentTime := readUi4_linked hl (show initialId .sentTime = .sentTime from rfl)
  have htime := readUi4_linked hl (show initialId .timeToBeReceived = .timeToBeReceived from rfl)
  rw [readProps, happSpecific, harrivedTime, hbodyType, hcorrId, hdelivery, hmsgId, hpriority,
    hsentTime, htime]
  rfl

/-- **What is sent** of a linked message is its property array: MSMQ follows the pointers of
`props`, and they lead to the properties of this message. -/
theorem mqSendMessage_linked (hl : Linked m (mem.object m)) :
    mem.mqSendMessage (mem.object m).props = (mem.view m).sent mem.heap := by
  rw [mqSendMessage, readBody_linked hl, readProps_linked hl]
  rfl

/-- `queue.sendMessage(msg)`. -/
def sendMessage (mem : Memory) (q : MsmqQueue) (msg : ObjRef) (hr : Hresult)
    (calls : List MqCall) : Native Unit :=
  q.sendMessage (mem.mqSendMessage (mem.object msg).props) hr calls

end Memory

namespace Jni

/-- The exception of the wrapper of `sendMessage` for a message that has been deleted. -/
def nullReference : Throwable :=
  .thrown .runtimeException "java.lang.NullPointerException"
    (some "MsmqMessage const & reference is null")

/-- The wrapper of `MsmqQueue::sendMessage`: its result, the queue object and the MSMQ calls. -/
def sendMessage (mem : Memory) (q : MsmqQueue) (arg2 : Option ObjRef) (hr : Hresult)
    (calls : List MqCall) : Except Throwable Unit × MsmqQueue × List MqCall :=
  match arg2 with
  | none => (.error nullReference, q, calls)
  | some msg =>
      let r := mem.sendMessage q msg hr calls
      (r.result.mapError .native, r.queue, r.calls)

end Jni

/-! ## From one memory to another -/

/-- What MSMQ itself sets in a message that is sent: when it was sent, when it arrived, and the
identifier that MSMQ has given it. -/
structure Stamps where
  arrivedTime : UInt32
  sentTime : UInt32
  msgId : Vector UInt8 20

def MessageProps.stamped (props : MessageProps) (stamps : Stamps) : MessageProps :=
  { props with
    arrivedTime := stamps.arrivedTime
    sentTime := stamps.sentTime
    msgId := stamps.msgId }

/-- The answer with which MSMQ hands a message out. -/
structure ReceiveAnswer.Brings (a : ReceiveAnswer) (msg : MqMessage) (stamps : Stamps) : Prop where
  hr : failed a.hr = false
  bytes : a.bytes = msg.body
  props : a.props = msg.props.stamped stamps

theorem MsmqQueue.result_receiveMessage (q : MsmqQueue) (msg : MsmqMessage) {hr : Hresult}
    (hok : failed hr = false) (calls : List MqCall) :
    (q.receiveMessage msg hr calls).result = .ok true := by
  have hoverflow : hr ≠ mqErrorBufferOverflow := by
    rintro rfl
    simp at hok
  have htimeout : hr ≠ mqErrorIoTimeout := by
    rintro rfl
    simp at hok
  simp [MsmqQueue.receiveMessage, hoverflow, htimeout, hok]

namespace Memory

variable {mem mem' : Memory} {m m' : ObjRef} {a : ReceiveAnswer}

/-- There is room for the body, and the descriptor of the body says so.  The descriptor is all
that MSMQ looks at; that the storage is as large is up to who has set it. -/
structure HasRoom (mem : Memory) (m : ObjRef) (a : ReceiveAnswer) : Prop where
  described : (mem.view m).fits a = true
  there : a.bytes.length ≤ (mem.body m).length

/-- The bytes of the body up to what the getter gives for its size. -/
def bodyUpToSize (mem : Memory) (m : ObjRef) : List UInt8 :=
  (mem.body m).take (mem.view m).bodySize.toNat

/-- The body in terms of what is seen of the message. -/
theorem body_of_view (hl : Linked m (mem.object m)) :
    mem.body m = match (mem.view m).pElems with
      | some address => mem.heap.storage address
      | none => [] := by
  simp only [view, body]
  cases hptr : (mem.var m .body).pElems with
  | none => rfl
  | some ptr =>
      obtain ⟨address, rfl⟩ := hl.body ptr hptr
      rfl

theorem body_sent (hl : Linked m (mem.object m)) :
    ((mem.view m).sent mem.heap).body = (mem.body m).take (mem.view m).cElems.toNat := by
  rw [body_of_view hl, MsmqMessage.sent]
  cases (mem.view m).pElems with
  | none => exact List.take_nil.symm
  | some address => rfl

/-- What a successful receive leaves in the body: up to the size that the message then says, the
bytes that MSMQ has brought. -/
theorem bodyUpToSize_receive (hl : mem.AllLinked) (hm : m < mem.next) (q : MsmqQueue)
    (raw : MessageObject) (hok : failed a.hr = false) (hroom : mem.HasRoom m a)
    (hsize : a.bytes.length < 2 ^ 32) (calls : List MqCall) :
    (Jni.receiveMessage mem q (some m) raw a.outcome calls).2.2.bodyUpToSize m = a.bytes := by
  obtain ⟨-, -, hview, hheap⟩ := receive_refines hl hm q raw hroom.described calls
  have hlinked := (hl m hm).keeps ((mem.keeps_receive q m raw a.outcome calls).links m hm)
  obtain ⟨hfits, hthere⟩ := hroom
  generalize (Jni.receiveMessage mem q (some m) raw a.outcome calls).2.2 = after at *
  have hbodySize : (after.view m).bodySize.toNat = a.bytes.length := by
    rw [hview, MsmqMessage.received, hok]
    exact UInt32.toNat_ofNat_of_lt' hsize
  have hptr : (after.view m).pElems = (mem.view m).pElems := by
    rw [hview]
    rfl
  rw [bodyUpToSize, hbodySize, body_of_view hlinked, hptr, hheap, MsmqMessage.heapReceived]
  rw [body_of_view (hl m hm)] at hthere
  unfold MsmqMessage.fits at hfits
  cases hdescriptor : (mem.view m).pElems with
  | none =>
      rw [hdescriptor] at hfits
      rw [List.isEmpty_iff.mp hfits]
      rfl
  | some address =>
      rw [hdescriptor] at hthere
      exact Heap.take_storage_write_zero hthere

/-- The other messages after a receive. -/
theorem view_receive_of_ne {o : ObjRef} (hl : mem.AllLinked) (hm : m < mem.next)
    (ho : o < mem.next) (hne : o ≠ m) (q : MsmqQueue) (raw : MessageObject)
    (out : ReceiveOutcome) (calls : List MqCall) :
    (Jni.receiveMessage mem q (some m) raw out calls).2.2.view o = mem.view o := by
  obtain ⟨-, -, hagree⟩ := agree_receive (hl m hm) hm q raw out calls
  have hkeeps := (mem.keeps_mqReceiveMessage (mem.object m).props out).links o ho
  rw [hagree.view ((hl o ho).keeps hkeeps) ho (hagree.object o ho)]
  exact view_of_object (hl o ho) (object_mqReceiveMessage_of_ne (hl m hm) hm hne)

/-- **What is received is what was sent.**  A message with any history is sent from one memory,
and received into a message with any history of another, whose buffer has room for the body.
Its getters give what those of the one that was sent gave, but for what MSMQ stamps, and its
body up to its size is what was sent; the other messages there are as before.  Without the room
MSMQ answers with an overflow and brings nothing. -/
theorem received_is_sent {start start' : Memory} (hstart : start.next = 0)
    (hreach : Runs.Reachable step start mem) (hm : m < mem.next) (hstart' : start'.next = 0)
    (hreach' : Runs.Reachable step start' mem') (hm' : m' < mem'.next) (q q' : MsmqQueue)
    {hr : Hresult} (hok : failed hr = false) {stamps : Stamps}
    (ha : a.Brings ((mem.view m).sent mem.heap) stamps) (hroom : mem'.HasRoom m' a)
    (calls calls' : List MqCall) (raw : MessageObject) :
    let s := Jni.sendMessage mem q (some m) hr calls
    let r := Jni.receiveMessage mem' q' (some m') raw a.outcome calls'
    s.1 = .ok () ∧ enqueued s.2.2 = (mem.view m).sent mem.heap :: enqueued calls ∧
      r.1 = .ok true ∧ r.2.2.getters m' = (mem.getters m).stamped stamps ∧
      r.2.2.bodyUpToSize m' = (mem.body m).take (mem.view m).cElems.toNat ∧
      ∀ o, o < mem'.next → o ≠ m' → r.2.2.view o = mem'.view o := by
  intro s r
  have hl := allLinked_of_reachable hstart hreach
  have hl' := allLinked_of_reachable hstart' hreach'
  have hsent := mqSendMessage_linked (hl m hm)
  have hbytes : a.bytes = (mem.body m).take (mem.view m).cElems.toNat :=
    ha.bytes.trans (body_sent (hl m hm))
  have hsize : a.bytes.length < 2 ^ 32 := by
    rw [hbytes, List.length_take]
    exact Nat.lt_of_le_of_lt (Nat.min_le_left _ _) (mem.view m).cElems.toNat_lt
  obtain ⟨hresult, -, hview, -⟩ := receive_refines hl' hm' q' raw hroom.described calls'
  refine ⟨?_, ?_, ?_, ?_, ?_, fun o ho hne => view_receive_of_ne hl' hm' ho hne q' raw _ calls'⟩
  · simp only [s, Jni.sendMessage, sendMessage, MsmqQueue.sendMessage, hok]
    rfl
  · simp only [s, Jni.sendMessage, sendMessage, hsent, MsmqQueue.sendMessage, hok]
    simp [enqueued, MqCall.enqueued?, hok]
  · have hcall : r.1 = (q'.receiveMessage (mem'.view m') a.hr calls').result.mapError .native :=
      hresult
    rw [hcall, MsmqQueue.result_receiveMessage q' _ ha.hr calls']
    rfl
  · have hprops : r.2.2.getters m' = a.props := congrArg MsmqMessage.props hview
    rw [hprops, ha.props]
    rfl
  · rw [← hbytes]
    exact bodyUpToSize_receive hl' hm' q' raw ha.hr hroom hsize calls'

/-- Two bytes are sent from one memory, and received in another that has room for three. -/
theorem received_is_sent_two_bytes :
    let raw : MessageObject := ⟨⟨0, 0, 0⟩, fun _ => .body, fun _ => ⟨.ui4, 0, 0, 0, none⟩,
      .replicate 20 0, .replicate 20 0⟩
    let start : Memory := ⟨0, fun _ => raw, ⟨0, fun _ => []⟩⟩
    let acts (bytes : List UInt8) : List MessageAction :=
      [.java ⟨1, fun _ => bytes⟩, .new raw, .set 0 (.msgBody (some 0)),
        .set 0 (.bodySize (.ofNat bytes.length))]
    ∃ (mem mem' : Memory) (a : ReceiveAnswer),
      Runs.run step start (acts [104, 105]) = some mem ∧
      Runs.run step start (acts [0, 0, 0]) = some mem' ∧
      (Jni.receiveMessage mem' .new (some 0) raw a.outcome []).2.2.bodyUpToSize 0 =
        [104, 105] := by
  intro raw start acts
  have hrun : (Runs.run step start (acts [104, 105])).map
      (fun mem => (mem.next, mem.body 0, (mem.view 0).cElems, ((mem.view 0).sent mem.heap).body)) =
      some (1, [104, 105], 2, [104, 105]) := by decide +kernel
  have hrun' : (Runs.run step start (acts [0, 0, 0])).map
      (fun mem => (mem.next, mem.body 0, (mem.view 0).pElems, (mem.view 0).cElems)) =
      some (1, [0, 0, 0], some 0, 3) := by decide +kernel
  obtain ⟨mem, hmem, hseen⟩ := Option.map_eq_some_iff.mp hrun
  obtain ⟨mem', hmem', hseen'⟩ := Option.map_eq_some_iff.mp hrun'
  simp only [Prod.mk.injEq] at hseen hseen'
  obtain ⟨hnext, hbody, hsize, hsent⟩ := hseen
  obtain ⟨hnext', hbody', hptr', hsize'⟩ := hseen'
  let stamps : Stamps := ⟨1, 2, .replicate 20 9⟩
  let a : ReceiveAnswer :=
    ⟨0, ((mem.view 0).sent mem.heap).props.stamped stamps, 0, ((mem.view 0).sent mem.heap).body⟩
  have hok : failed 0 = false := by decide
  have ha : a.Brings ((mem.view 0).sent mem.heap) stamps := ⟨hok, rfl, rfl⟩
  have hroom : mem'.HasRoom 0 a := by
    refine ⟨?_, ?_⟩
    · rw [MsmqMessage.fits, hptr', hsize']
      simp only [a, hsent]
      decide
    · simp only [a, hsent, hbody']
      decide
  have hreceived := received_is_sent rfl ⟨_, hmem⟩ (by rw [hnext]; decide) rfl ⟨_, hmem'⟩
    (by rw [hnext']; decide) .new .new hok ha hroom [] [] raw
  refine ⟨mem, mem', a, hmem, hmem', ?_⟩
  rw [hreceived.2.2.2.2.1, hbody, hsize]
  rfl

end Memory

/-! ## The message of `process` among others -/

namespace MsmqProducer

/-- What `process` does with the message it has made, up to `sendMessage`. -/
def settings (p : MsmqProducer) (o : ObjRef) (body : ByteBuffer) : List MessageAction :=
  [.set o (.msgBodyWithByteBuffer body)] ++
    (if p.deliveryPersistent then [.set o (.delivery (.ofInt mqMsgDeliveryRecoverable))] else []) ++
    [.set o (.timeToBeReceived (.ofInt p.timeToLive.toInt)),
      .set o (.priority (.ofInt p.priority.toInt))]

theorem apply_settings (p : MsmqProducer) (o : ObjRef) (body : ByteBuffer) (raw : MsmqMessage) :
    (p.settings o body).foldl MessageAction.apply (.new raw) = p.message raw body := by
  have hcut : ∀ x : Int, UInt32.ofInt ((UInt32.ofInt x).toNat : Int) = UInt32.ofInt x :=
    fun x => Memory.ofInt_toNat (.ofInt x)
  cases hpersistent : p.deliveryPersistent <;>
    simp [settings, message, hpersistent, MessageAction.apply, Setter.apply,
      MsmqMessage.setDelivery, MsmqMessage.setTimeToBeReceived, MsmqMessage.setPriority, hcut]

/-- **The message of `process` is its own.**  A thread makes a message, sets it up and sends it;
whatever other threads do with their messages in between, MSMQ is sent what the thread alone
would have sent. -/
theorem send_among_others (p : MsmqProducer) {start mem mem' mem'' : Memory}
    (hstart : start.next = 0) (hreach : Runs.Reachable Memory.step start mem)
    {raw : MessageObject} (hnew : mem.step (.new raw) = some mem')
    {acts : List MessageAction} (hrun : Runs.run Memory.step mem' acts = some mem'')
    {body : ByteBuffer} (hown : acts.filter (·.on? = some mem.next) = p.settings mem.next body)
    (hr : Hresult) (calls : List MqCall) :
    let r := p.send mem''.heap (some body) (Memory.rawArray raw) hr calls
    Jni.sendMessage mem'' p.queue (some mem.next) hr calls =
      (r.result.mapError .native, r.queue, r.calls) := by
  intro r
  have hl' := Memory.allLinked_step (Memory.allLinked_of_reachable hstart hreach) hnew
  have hnew' : mem' = { mem.construct mem.next raw with next := mem.next + 1 } :=
    (Option.some.inj hnew).symm
  have hm : mem.next < mem'.next := by
    rw [hnew']
    exact Nat.lt_succ_self _
  have hmade : mem'.view mem.next = .new (Memory.rawArray raw) := by
    rw [hnew']
    exact Memory.view_construct mem mem.next raw
  obtain ⟨hview, hl'', hm''⟩ := Memory.view_of_run hl' hrun hm
  rw [hown, hmade, apply_settings] at hview
  have hsent := Memory.mqSendMessage_linked (hl'' _ hm'')
  rw [hview] at hsent
  simp only [Jni.sendMessage, Memory.sendMessage, hsent]
  rfl

/-- Two threads set up their messages by turns, and the first one sends. -/
theorem send_among_others_turns :
    let raw : MessageObject := ⟨⟨0, 0, 0⟩, fun _ => .body, fun _ => ⟨.ui4, 0, 0, 0, none⟩,
      .replicate 20 0, .replicate 20 0⟩
    let start : Memory := ⟨0, fun _ => raw, ⟨2, fun a => if a = 0 then [104] else [105]⟩⟩
    let p : MsmqProducer := .new { remaining := none, deliveryPersistent := true, priority := 5 }
    let body : ByteBuffer := ⟨0, true, 0, 1, 1, by decide, by decide, by decide⟩
    let others : List MessageAction := [.new raw, .set 1 (.priority 7), .set 1 (.msgBody (some 1))]
    let acts := (p.settings 0 body).take 1 ++ others ++ (p.settings 0 body).drop 1
    ∃ mem, Runs.run Memory.step start (.new raw :: acts) = some mem ∧
      (enqueued (Jni.sendMessage mem p.queue (some 0) 0 []).2.2).map
        (fun m => (m.body, m.props.priority, m.props.delivery)) = [([104], 5, 1)] := by
  intro raw start p body others acts
  have hrun : (Runs.run Memory.step start (.new raw :: acts)).map (·.heap.storage 0) =
      some [104] := by decide +kernel
  obtain ⟨mem, hmem, hheap⟩ := Option.map_eq_some_iff.mp hrun
  obtain ⟨made', hmade', hrest⟩ := (Runs.run_cons_iff Memory.step).mp hmem
  have hown : acts.filter (·.on? = some start.next) = p.settings start.next body := rfl
  have hsend := p.send_among_others rfl ⟨[], rfl⟩ hmade' hrest hown 0 []
  have hsent : (p.message (Memory.rawArray raw) body).sent mem.heap =
      ⟨[104], (p.message (Memory.rawArray raw) body).props⟩ :=
    congrArg (fun bytes : List UInt8 => MqMessage.mk (bytes.take 1) _) hheap
  refine ⟨mem, hmem, ?_⟩
  rw [hsend]
  simp only [send, hsent]
  decide

end MsmqProducer

/-! ## Arrays -/

namespace Jni

def nullArray : Throwable :=
  .thrown .runtimeException "java.lang.NullPointerException" (some "null array")

def incorrectArraySize : Throwable :=
  .thrown .runtimeException "java.lang.IndexOutOfBoundsException" (some "incorrect array size")

/-- A wrapper of a function with a `byte[20]`: the array is checked and copied, and what the
function makes of the copy is copied back.  It leaves its result, the array and the memory. -/
def withArray (mem : Memory) (jarg2 : Option (List UInt8))
    (action : Vector UInt8 20 → Vector UInt8 20 × Memory) :
    Except Throwable Unit × Option (List UInt8) × Memory :=
  match jarg2 with
  | none => (.error nullArray, none, mem)
  | some bytes =>
      if h : bytes.length = 20 then
        let r := action ⟨bytes.toArray, by simpa using h⟩
        (.ok (), some r.1.toList, r.2)
      else (.error incorrectArraySize, some bytes, mem)

def setCorrelationId (mem : Memory) (o : ObjRef) (jarg2 : Option (List UInt8)) :
    Except Throwable Unit × Option (List UInt8) × Memory :=
  withArray mem jarg2 fun arg2 => (arg2, mem.setCorrelationId o arg2)

def getCorrelationId (mem : Memory) (o : ObjRef) (jarg2 : Option (List UInt8)) :
    Except Throwable Unit × Option (List UInt8) × Memory :=
  withArray mem jarg2 fun _ => (mem.idBytes o .correlationId, mem)

def getMsgId (mem : Memory) (o : ObjRef) (jarg2 : Option (List UInt8)) :
    Except Throwable Unit × Option (List UInt8) × Memory :=
  withArray mem jarg2 fun _ => (mem.idBytes o .msgId, mem)

end Jni

namespace Memory

variable {mem mem' : Memory} {o : ObjRef}

/-- The action leaves the correlation identifier of a message alone. -/
def KeepsCorrelationId (o : ObjRef) : MessageAction → Prop
  | .set p (.correlationId _) => p ≠ o
  | .receive p _ _ _ => p ≠ o
  | _ => True

theorem correlationId_apply {act : MessageAction} (hkeeps : KeepsCorrelationId o act)
    (hon : act.on? = some o) (msg : MsmqMessage) :
    (act.apply msg).props.correlationId = msg.props.correlationId := by
  cases act with
  | receive p q raw out => exact absurd (Option.some.inj hon) hkeeps
  | set p setter =>
      cases setter with
      | correlationId corrid => exact absurd (Option.some.inj hon) hkeeps
      | _ => rfl
  | _ => cases hon

/-- A correlation identifier after a run that leaves it alone. -/
theorem idBytes_of_run (hl : mem.AllLinked) (ho : o < mem.next) {acts : List MessageAction}
    (hrun : Runs.run step mem acts = some mem') (hkeeps : ∀ act ∈ acts, KeepsCorrelationId o act) :
    mem'.idBytes o .correlationId = mem.idBytes o .correlationId := by
  have hview := congrArg (·.props.correlationId) (view_of_run hl hrun ho).1
  refine Eq.trans hview ?_
  have hfold : ∀ (own : List MessageAction) (msg : MsmqMessage),
      (∀ act ∈ own, KeepsCorrelationId o act ∧ act.on? = some o) →
      (own.foldl MessageAction.apply msg).props.correlationId = msg.props.correlationId := by
    intro own
    induction own with
    | nil => exact fun _ _ => rfl
    | cons act rest ih =>
        intro msg hown
        obtain ⟨hkeep, hon⟩ := hown act List.mem_cons_self
        rw [List.foldl_cons, ih _ fun other hother => hown other (List.mem_cons_of_mem _ hother)]
        exact correlationId_apply hkeep hon msg
  refine hfold _ _ fun act hact => ?_
  obtain ⟨hmem, hon⟩ := List.mem_filter.mp hact
  exact ⟨hkeeps act hmem, by simpa using hon⟩

/-- **Correlation identifiers.**  Twenty bytes given to `setCorrelationId` are what
`getCorrelationId` copies into an array later, whatever has been done with other messages and
with other properties meanwhile. -/
theorem correlationId_round_trip {start : Memory} (hstart : start.next = 0)
    (hreach : Runs.Reachable step start mem) (ho : o < mem.next) {array array' : List UInt8}
    (harray : array.length = 20) (harray' : array'.length = 20) {acts : List MessageAction}
    (hkeeps : ∀ act ∈ acts, KeepsCorrelationId o act)
    (hrun : Runs.run step (Jni.setCorrelationId mem o (some array)).2.2 acts = some mem') :
    Jni.setCorrelationId mem o (some array) =
        (.ok (), some array, (Jni.setCorrelationId mem o (some array)).2.2) ∧
      Jni.getCorrelationId mem' o (some array') = (.ok (), some array, mem') := by
  have hl := allLinked_of_reachable hstart hreach
  let corrid : Vector UInt8 20 := ⟨array.toArray, by simpa using harray⟩
  have hset : Jni.setCorrelationId mem o (some array) =
      (.ok (), some array, mem.set o (.correlationId corrid)) := by
    simp only [Jni.setCorrelationId, Jni.withArray, dif_pos harray]
    rfl
  rw [hset] at hrun ⊢
  refine ⟨rfl, ?_⟩
  have hkeep := mem.keeps_set o (.correlationId corrid)
  have hview := view_set (hl o ho) (.correlationId corrid)
  have hid := idBytes_of_run (hl.keeps hkeep) (hkeep.next ▸ ho) hrun hkeeps
  have hset' : (mem.set o (.correlationId corrid)).idBytes o .correlationId = corrid :=
    congrArg (·.props.correlationId) hview
  simp only [Jni.getCorrelationId, Jni.withArray, dif_pos harray', hid, hset']
  rfl

/-- Twenty bytes, and a new message with a priority before they are read. -/
theorem correlationId_round_trip_others :
    let raw : MessageObject := ⟨⟨0, 0, 0⟩, fun _ => .body, fun _ => ⟨.ui4, 0, 0, 0, none⟩,
      .replicate 20 0, .replicate 20 0⟩
    let start : Memory := ⟨0, fun _ => raw, ⟨0, fun _ => []⟩⟩
    let acts : List MessageAction := [.new raw, .set 1 (.priority 5), .set 0 (.priority 7)]
    ∃ mem mem' : Memory, Runs.run step start [.new raw] = some mem ∧
      Runs.run step (Jni.setCorrelationId mem 0 (some (.replicate 20 7))).2.2 acts = some mem' ∧
      Jni.getCorrelationId mem' 0 (some (.replicate 20 0)) =
        (.ok (), some (.replicate 20 7), mem') := by
  intro raw start acts
  let array : List UInt8 := .replicate 20 7
  have hrun : (Runs.run step start [.new raw]).bind (fun mem =>
      (Runs.run step (Jni.setCorrelationId mem 0 (some array)).2.2 acts).map fun _ => mem.next) =
      some 1 := by decide +kernel
  obtain ⟨mem, hmem, hafter⟩ := Option.bind_eq_some_iff.mp hrun
  obtain ⟨mem', hmem', hnext⟩ := Option.map_eq_some_iff.mp hafter
  have hkeeps : ∀ act ∈ acts, KeepsCorrelationId 0 act := by simp [acts, KeepsCorrelationId]
  have harray : array.length = 20 := rfl
  have harray' : (List.replicate 20 (0 : UInt8)).length = 20 := rfl
  have hround := correlationId_round_trip rfl ⟨_, hmem⟩ (by rw [hnext]; decide) harray harray'
    hkeeps hmem'
  exact ⟨mem, mem', hmem, hmem', hround.2⟩

end Memory

end Msmq
