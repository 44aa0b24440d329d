import CamelMsmq.ReceiveByValue

/-!
# Messages as property arrays

Everywhere else in this development a message is the array of its properties.  That is what
can be seen of a linked object: each operation of the class does to the view of an object
what is done to the array there.

For the constructor and the setters this is a computation.  For a receive it is not, because
MSMQ writes one property after the other through pointers: it has to be seen that no write
concerns the value of another property, and that the two identifiers and the body lie in
three different places (`pointers_ne`).  Then each property afterwards is what the outcome
says for it, or what it was.

`receive_refines` is the result.  It is stated for the wrapper, temporaries and all.
-/

namespace Msmq

theorem overwrite_toList (old bytes : Vector UInt8 20) : overwrite old bytes.toList = bytes := by
  ext i hi
  simp [overwrite]

/-- Narrowing to a `long` first makes no difference. -/
theorem toUInt32_ofInt (x : Int) : (Int32.ofInt x).toUInt32 = UInt32.ofInt x := by
  apply UInt32.toNat_inj.mp
  rw [UInt32.ofInt, UInt32.toNat_ofNat']
  have hbits : (Int32.ofInt x).toUInt32.toNat = (BitVec.ofInt 32 x).toNat := rfl
  rw [hbits, BitVec.toNat_ofInt]
  omega

namespace Memory

variable {mem : Memory} {o : ObjRef} {i j : PropertyName} {v : PropVariant}

/-! ## Constructor and setters -/

@[simp] theorem var_setVar_self : (mem.setVar o i v).var o i = v := by
  simp [var, object_setVar_self]

theorem var_setVar_of_ne (hj : j ≠ i) : (mem.setVar o i v).var o j = mem.var o j := by
  simp [var, object_setVar_self, hj]

/-- A new object in which the bytes are the same that the pointer points to. -/
theorem readBytes_setObject {obj : MessageObject} {ptr : BytePtr}
    (hmsgId : ptr = .msgId o → obj.msgId = (mem.object o).msgId)
    (hcorrId : ptr = .corrId o → obj.corrId = (mem.object o).corrId) :
    (mem.setObject o obj).readBytes ptr = mem.readBytes ptr := by
  cases ptr with
  | buffer a => rfl
  | msgId p =>
      by_cases hp : p = o
      · subst hp
        simp [readBytes, setObject, hmsgId]
      · simp [readBytes, setObject, hp]
  | corrId p =>
      by_cases hp : p = o
      · subst hp
        simp [readBytes, setObject, hcorrId]
      · simp [readBytes, setObject, hp]

@[simp] theorem readBytes_setVar (ptr : BytePtr) :
    (mem.setVar o i v).readBytes ptr = mem.readBytes ptr :=
  readBytes_setObject (fun _ => rfl) (fun _ => rfl)

/-- Memory that holds `raw`, as the array of properties it happens to be. -/
def rawArray (raw : MessageObject) : MsmqMessage where
  props :=
    { appSpecific := (raw.propVars .appSpecific).ulVal
      arrivedTime := (raw.propVars .arrivedTime).ulVal
      bodyType := (raw.propVars .bodyType).ulVal
      correlationId := raw.corrId
      delivery := (raw.propVars .delivery).bVal
      msgId := raw.msgId
      priority := (raw.propVars .priority).bVal
      sentTime := (raw.propVars .sentTime).ulVal
      timeToBeReceived := (raw.propVars .timeToBeReceived).ulVal }
  pElems := none
  cElems := 0
  bodySize := 0

theorem view_construct (mem : Memory) (o : ObjRef) (raw : MessageObject) :
    (mem.construct o raw).view o = .new (rawArray raw) := by
  simp [construct, setObject, view, getters, idBytes, var, readBytes, initialVar, overwrite_toList,
    rawArray, MsmqMessage.new]

theorem view_setDelivery (mem : Memory) (o : ObjRef) (delivery : Int) :
    (mem.setDelivery o (.ofInt delivery)).view o = (mem.view o).setDelivery delivery := by
  simp [setDelivery, setBVal, view, getters, idBytes, var_setVar_of_ne, MsmqMessage.setDelivery]

theorem view_setPriority (mem : Memory) (o : ObjRef) (priority : Int) :
    (mem.setPriority o (.ofInt priority)).view o = (mem.view o).setPriority priority := by
  simp [setPriority, setBVal, view, getters, idBytes, var_setVar_of_ne, MsmqMessage.setPriority]

theorem view_setTimeToBeReceived (mem : Memory) (o : ObjRef) (time : Int) :
    (mem.setTimeToBeReceived o (.ofInt time)).view o = (mem.view o).setTimeToBeReceived time := by
  simp [setTimeToBeReceived, setUlVal, view, getters, idBytes, var_setVar_of_ne,
    MsmqMessage.setTimeToBeReceived]

theorem view_setMsgBodyWithByteBuffer (mem : Memory) (o : ObjRef) (buffer : ByteBuffer) :
    (Jni.setMsgBodyWithByteBuffer mem o buffer).2.view o =
      (mem.view o).setMsgBodyWithByteBuffer buffer := by
  have hsize := toUInt32_ofInt (getDirectBufferCapacity buffer)
  cases haddress : getDirectBufferAddress buffer <;>
    simp [Jni.setMsgBodyWithByteBuffer, setMsgBodyWithByteBuffer, setMsgBody, setBodySize, setUlVal,
      view, getters, idBytes, var_setVar_of_ne, MsmqMessage.setMsgBodyWithByteBuffer, hsize,
      haddress]

/-! ## Writing a property of a linked message -/

variable {m : ObjRef} {mem' mem'' : Memory} {out : ReceiveOutcome}

/-- What a linked message is handed to MSMQ with. -/
def ownProps (m : ObjRef) : MqMsgProps := ⟨PropertyName.all.length, m, m⟩

/-- The value of a property after MSMQ has written it; of a vector only the elements are
written. -/
def written (out : ReceiveOutcome) (i : PropertyName) (v : PropVariant) : PropVariant :=
  match i.varType with
  | .ui1 => { v with bVal := (out.ui1 (initialId i)).getD v.bVal }
  | .ui4 => { v with ulVal := (out.ui4 (initialId i)).getD v.ulVal }
  | .vectorUi1 => v

theorem setVar_var : mem.setVar o i (mem.var o i) = mem := by
  simp [setVar, setObject, var]

/-- Where a write of MSMQ goes in a linked message: a number into the value of its property, a
vector to where that property points, as much of it as there is room for. -/
theorem writeProp_linked (hl : Linked m (mem.object m)) :
    writeProp (ownProps m) out mem i =
      match i.varType with
      | .ui1 => match out.ui1 (initialId i) with
          | some value => mem.setBVal m i value
          | none => mem
      | .ui4 => match out.ui4 (initialId i) with
          | some value => mem.setUlVal m i value
          | none => mem
      | .vectorUi1 => match out.bytes (initialId i), (mem.var m i).pElems with
          | some bytes, some ptr => mem.writeBytes (bytes.take (mem.var m i).cElems.toNat) ptr
          | _, _ => mem := by
  have hid : (mem.object m).propIds = initialId := hl.propIds
  have hvt : (mem.var m i).vt = i.varType := hl.vt i
  rw [← hid, ← hvt]
  rfl

theorem writeProp_number (hl : Linked m (mem.object m)) (hi : i.varType ≠ .vectorUi1) :
    writeProp (ownProps m) out mem i = mem.setVar m i (written out i (mem.var m i)) := by
  rw [writeProp_linked hl]
  unfold written
  cases htype : i.varType with
  | vectorUi1 => exact absurd htype hi
  | ui1 =>
      cases out.ui1 (initialId i) with
      | none => exact setVar_var.symm
      | some value => rfl
  | ui4 =>
      cases out.ui4 (initialId i) with
      | none => exact setVar_var.symm
      | some value => rfl

theorem writeProp_vector (hl : Linked m (mem.object m)) (hi : i.varType = .vectorUi1) :
    writeProp (ownProps m) out mem i =
      match out.bytes (initialId i), (mem.var m i).pElems with
      | some bytes, some ptr => mem.writeBytes (bytes.take (mem.var m i).cElems.toNat) ptr
      | _, _ => mem := by
  rw [writeProp_linked hl, hi]

@[simp] theorem var_writeBytes (bytes : List UInt8) (ptr : BytePtr) :
    (mem.writeBytes bytes ptr).var o j = mem.var o j := by
  obtain ⟨msgId, corrId, hobject⟩ := mem.object_writeBytes bytes ptr o
  simp [var, hobject]

theorem readBytes_writeBytes_of_ne {bytes : List UInt8} {ptr ptr' : BytePtr} (hne : ptr' ≠ ptr) :
    (mem.writeBytes bytes ptr).readBytes ptr' = mem.readBytes ptr' := by
  cases ptr with
  | buffer a =>
      cases ptr' with
      | buffer b => exact Heap.storage_write_of_ne fun hb => hne (hb ▸ rfl)
      | _ => rfl
  | msgId p => exact readBytes_setObject (fun hsame => absurd hsame hne) (fun _ => rfl)
  | corrId p => exact readBytes_setObject (fun _ => rfl) (fun hsame => absurd hsame hne)

theorem var_writeProp_self (hl : Linked m (mem.object m)) :
    (writeProp (ownProps m) out mem i).var m i = written out i (mem.var m i) := by
  by_cases hi : i.varType = .vectorUi1
  · have hsame : written out i (mem.var m i) = mem.var m i := by simp only [written, hi]
    rw [writeProp_vector hl hi, hsame]
    split
    · exact var_writeBytes _ _
    · rfl
  · rw [writeProp_number hl hi, var_setVar_self]

/-- Where the vectors of a linked message lie. -/
theorem place_of_vector (hl : Linked m (mem.object m)) (hi : i.varType = .vectorUi1)
    {ptr : BytePtr} (hptr : (mem.var m i).pElems = some ptr) :
    (i = .msgId ∧ ptr = .msgId m) ∨ (i = .correlationId ∧ ptr = .corrId m) ∨
      (i = .body ∧ ∃ a, ptr = .buffer a) := by
  cases i with
  | msgId => exact .inl ⟨rfl, Option.some.inj (hptr.symm.trans hl.msgId.1)⟩
  | correlationId =>
      exact .inr (.inl ⟨rfl, Option.some.inj (hptr.symm.trans hl.correlationId.1)⟩)
  | body => exact .inr (.inr ⟨rfl, hl.body ptr hptr⟩)
  | _ => cases hi

/-- Different vectors lie in different places: the two identifiers in two arrays of the object,
and the body in a buffer. -/
theorem pointers_ne (hl : Linked m (mem.object m)) (hij : j ≠ i) (hi : i.varType = .vectorUi1)
    (hj : j.varType = .vectorUi1) {ptr ptr' : BytePtr} (hptr : (mem.var m i).pElems = some ptr)
    (hptr' : (mem.var m j).pElems = some ptr') : ptr' ≠ ptr := by
  rintro rfl
  obtain ⟨rfl, rfl⟩ | ⟨rfl, rfl⟩ | ⟨rfl, a, rfl⟩ := place_of_vector hl hi hptr <;>
    obtain ⟨rfl, hsame⟩ | ⟨rfl, hsame⟩ | ⟨rfl, b, hsame⟩ := place_of_vector hl hj hptr' <;>
    first
      | exact hij rfl
      | cases hsame

/-! ## Receiving into a linked message -/

/-- Nothing of the property `j` has changed: not its value, and no byte that a vector has.  The
heap counts to the body. -/
structure SameProp (m : ObjRef) (j : PropertyName) (mem mem' : Memory) : Prop where
  var : mem'.var m j = mem.var m j
  bytes : j.varType = .vectorUi1 → ∀ ptr, (mem.var m j).pElems = some ptr →
    mem'.readBytes ptr = mem.readBytes ptr
  heap : j = .body → mem'.heap = mem.heap

theorem SameProp.refl (m : ObjRef) (j : PropertyName) (mem : Memory) : SameProp m j mem mem :=
  ⟨rfl, fun _ _ _ => rfl, fun _ => rfl⟩

theorem SameProp.trans (h : SameProp m j mem mem') (h' : SameProp m j mem' mem'') :
    SameProp m j mem mem'' := by
  refine ⟨h'.var.trans h.var, fun hj ptr hptr => ?_, fun hj => (h'.heap hj).trans (h.heap hj)⟩
  rw [h'.bytes hj ptr (by rw [h.var]; exact hptr), h.bytes hj ptr hptr]

/-- Writing one property changes no other. -/
theorem sameProp_writeProp (hl : Linked m (mem.object m)) (hij : j ≠ i) :
    SameProp m j mem (writeProp (ownProps m) out mem i) := by
  by_cases hi : i.varType = .vectorUi1
  · rw [writeProp_vector hl hi]
    split
    · rename_i bytes ptr hbytes hptr
      refine ⟨var_writeBytes _ _, fun hj ptr' hptr' => ?_, fun hj => ?_⟩
      · exact readBytes_writeBytes_of_ne (pointers_ne hl hij hi hj hptr hptr')
      · obtain ⟨-, rfl⟩ | ⟨-, rfl⟩ | ⟨hbody, -⟩ := place_of_vector hl hi hptr
        · rfl
        · rfl
        · exact absurd (hj.trans hbody.symm) hij
    · exact .refl m j mem
  · rw [writeProp_number hl hi]
    exact ⟨var_setVar_of_ne hij, fun _ ptr _ => readBytes_setVar ptr, fun _ => rfl⟩

/-- No property that MSMQ writes is a pointer. -/
theorem linked_writeProp (hl : Linked m (mem.object m)) (hm : m < mem.next) (props : MqMsgProps)
    (out : ReceiveOutcome) (i : PropertyName) : Linked m ((writeProp props out mem i).object m) :=
  hl.keeps ((keeps_writeProp props out mem i).links m hm)

/-- Writing some properties leaves the others alone.  The induction is on the list of the
properties that are written. -/
theorem sameProp_foldl (hl : Linked m (mem.object m)) (hm : m < mem.next) (out : ReceiveOutcome)
    (names : List PropertyName) (hj : j ∉ names) :
    let mem' := names.foldl (writeProp (ownProps m) out) mem
    SameProp m j mem mem' ∧ Linked m (mem'.object m) ∧ mem'.next = mem.next := by
  induction names generalizing mem with
  | nil => exact ⟨.refl m j mem, hl, rfl⟩
  | cons i rest ih =>
      have hne : j ≠ i := fun heq => hj (heq ▸ List.mem_cons_self)
      have hnext := (keeps_writeProp (ownProps m) out mem i).next
      have hfirst := linked_writeProp hl hm (ownProps m) out i
      obtain ⟨hsame, hlinked, hlast⟩ := ih hfirst (hnext ▸ hm) fun hrest =>
        hj (List.mem_cons_of_mem _ hrest)
      exact ⟨(sameProp_writeProp hl hne).trans hsame, hlinked, hlast.trans hnext⟩

/-- What becomes of a property is what becomes of it when it is written: it is as before in the
memory `before`, and as afterwards in the end. -/
theorem sameProp_mqReceiveMessage (hl : Linked m (mem.object m)) (hm : m < mem.next)
    (out : ReceiveOutcome) (j : PropertyName) :
    ∃ before, SameProp m j mem before ∧ Linked m (before.object m) ∧
      SameProp m j (writeProp (ownProps m) out before j)
        (mem.mqReceiveMessage (mem.object m).props out) := by
  have hall : PropertyName.all.Nodup := by decide
  have hmem : j ∈ PropertyName.all := by cases j <;> decide
  obtain ⟨first, rest, hsplit⟩ := List.append_of_mem hmem
  rw [hsplit, List.nodup_append] at hall
  obtain ⟨-, hrest, hdisjoint⟩ := hall
  have hfirst : j ∉ first := fun hj => hdisjoint j hj j List.mem_cons_self rfl
  obtain ⟨hsame, hlinked, hnext⟩ := sameProp_foldl hl hm out first hfirst
  let before := first.foldl (writeProp (ownProps m) out) mem
  refine ⟨before, hsame, hlinked, ?_⟩
  have hm' : m < before.next := hnext ▸ hm
  have hlast := linked_writeProp hlinked hm' (ownProps m) out j
  have hnext' := (keeps_writeProp (ownProps m) out before j).next
  have hafter := sameProp_foldl hlast (hnext' ▸ hm') out rest (List.nodup_cons.mp hrest).1
  have hprops : (mem.object m).props = ownProps m := hl.props
  rw [hprops, mqReceiveMessage]
  show SameProp m j _ ((PropertyName.all.take PropertyName.all.length).foldl _ mem)
  rw [List.take_length, hsplit, List.foldl_append]
  exact hafter.1

/-- The values of the properties after a receive. -/
theorem var_mqReceiveMessage (hl : Linked m (mem.object m)) (hm : m < mem.next)
    (out : ReceiveOutcome) (j : PropertyName) :
    (mem.mqReceiveMessage (mem.object m).props out).var m j = written out j (mem.var m j) := by
  obtain ⟨before, hbefore, hlinked, hafter⟩ := sameProp_mqReceiveMessage hl hm out j
  rw [hafter.var, var_writeProp_self hlinked, hbefore.var]

/-- An identifier after a receive that writes it. -/
theorem idBytes_mqReceiveMessage (hl : Linked m (mem.object m)) (hm : m < mem.next)
    {out : ReceiveOutcome} (hj : j = .msgId ∨ j = .correlationId) {bytes : Vector UInt8 20}
    (hbytes : out.bytes (initialId j) = some bytes.toList) :
    (mem.mqReceiveMessage (mem.object m).props out).idBytes m j = bytes := by
  have hvector : j.varType = .vectorUi1 := by rcases hj with rfl | rfl <;> rfl
  obtain ⟨before, hbefore, hlinked, hafter⟩ := sameProp_mqReceiveMessage hl hm out j
  have hvar := var_mqReceiveMessage hl hm out j
  have hwritten : written out j (mem.var m j) = mem.var m j := by simp only [written, hvector]
  obtain ⟨ptr, hptr, hsize, hread⟩ : ∃ ptr, (before.var m j).pElems = some ptr ∧
      (before.var m j).cElems = 20 ∧
      (before.writeBytes (bytes.toList.take 20) ptr).readBytes ptr = bytes.toList := by
    have hall : bytes.toList.take 20 = bytes.toList := List.take_of_length_le (by simp)
    rw [hall]
    rcases hj with rfl | rfl
    · exact ⟨.msgId m, hlinked.msgId.1, hlinked.msgId.2, by
        simp [writeBytes, readBytes, setObject, overwrite_toList]⟩
    · exact ⟨.corrId m, hlinked.correlationId.1, hlinked.correlationId.2, by
        simp [writeBytes, readBytes, setObject, overwrite_toList]⟩
  have hwrite : writeProp (ownProps m) out before j =
      before.writeBytes (bytes.toList.take 20) ptr := by
    rw [writeProp_vector hlinked hvector, hbytes, hptr, hsize]
    rfl
  rw [hwrite] at hafter
  have hptr' : ((before.writeBytes (bytes.toList.take 20) ptr).var m j).pElems = some ptr := by
    rw [var_writeBytes, hptr]
  have hfinal := hafter.bytes hvector ptr hptr'
  have hptr'' : (mem.var m j).pElems = some ptr := by rw [← hbefore.var, hptr]
  simp only [idBytes, hvar, hwritten, hptr'', hfinal, hread, overwrite_toList]

/-- The heap after a receive: as much of the body as the descriptor allows has been written to
the buffer, and if there is no buffer, nothing. -/
theorem heap_mqReceiveMessage (hl : Linked m (mem.object m)) (hm : m < mem.next)
    {out : ReceiveOutcome} {bytes : List UInt8} (hbytes : out.bytes .body = some bytes) :
    (mem.mqReceiveMessage (mem.object m).props out).heap =
      match (mem.view m).pElems with
      | some a => mem.heap.write a 0 (bytes.take (mem.view m).cElems.toNat)
      | none => mem.heap := by
  obtain ⟨before, hbefore, hlinked, hafter⟩ := sameProp_mqReceiveMessage hl hm out .body
  rw [hafter.heap rfl, writeProp_vector hlinked rfl, hbefore.var, ← hbefore.heap rfl]
  have hbytes' : out.bytes (initialId .body) = some bytes := hbytes
  cases hptr : (mem.var m .body).pElems with
  | none => simp only [hbytes', view, hptr, Option.bind_none]
  | some ptr =>
      obtain ⟨a, rfl⟩ := hl.body ptr hptr
      simp only [hbytes', view, hptr, Option.bind_some]
      rfl

end Memory

/-! ## The answers of the rest of the development -/

/-- The outcome of an `MQReceiveMessage` that is answered as `a` says. -/
def ReceiveAnswer.outcome (a : ReceiveAnswer) : ReceiveOutcome where
  hr := a.hr
  ui1
    | .delivery => some a.props.delivery
    | .priority => some a.props.priority
    | _ => none
  ui4
    | .appSpecific => some a.props.appSpecific
    | .arrivedTime => some a.props.arrivedTime
    | .bodyType => some a.props.bodyType
    | .bodySize => some (if failed a.hr then a.bodySize else .ofNat a.bytes.length)
    | .sentTime => some a.props.sentTime
    | .timeToBeReceived => some a.props.timeToBeReceived
    | _ => none
  bytes
    | .body => some a.bytes
    | .correlationId => some a.props.correlationId.toList
    | .msgId => some a.props.msgId.toList
    | _ => none

namespace Memory

variable {mem : Memory} {m : ObjRef} {a : ReceiveAnswer}

/-- **What MSMQ does to the view** of a linked message: each property that it writes is written
once, through its own pointer, so the order of the writes does not matter. -/
theorem view_mqReceiveMessage (hl : Linked m (mem.object m)) (hm : m < mem.next)
    (a : ReceiveAnswer) :
    (mem.mqReceiveMessage (mem.object m).props a.outcome).view m = (mem.view m).received a := by
  have hmsgBytes : a.outcome.bytes (initialId .msgId) = some a.props.msgId.toList := rfl
  have hcorrBytes : a.outcome.bytes (initialId .correlationId) =
      some a.props.correlationId.toList := rfl
  have hmsgId := idBytes_mqReceiveMessage hl hm (.inl rfl) hmsgBytes
  have hcorrId := idBytes_mqReceiveMessage hl hm (.inr rfl) hcorrBytes
  simp only [view, getters, hmsgId, hcorrId, var_mqReceiveMessage hl hm]
  rfl

theorem heap_mqReceiveMessage_of_fits (hl : Linked m (mem.object m)) (hm : m < mem.next)
    (hfits : (mem.view m).fits a = true) :
    (mem.mqReceiveMessage (mem.object m).props a.outcome).heap =
      (mem.view m).heapReceived mem.heap a := by
  have hheap := heap_mqReceiveMessage hl hm (show a.outcome.bytes .body = some a.bytes from rfl)
  unfold MsmqMessage.fits at hfits
  rw [hheap, MsmqMessage.heapReceived]
  cases hptr : (mem.view m).pElems with
  | none => rfl
  | some address =>
      have hall : a.bytes.take (mem.view m).cElems.toNat = a.bytes := by
        rw [hptr] at hfits
        exact List.take_of_length_le (by simpa using hfits)
      simp only [hall]

/-- **A receive by value refines** the receive into a property array: it does to the view of the
message, and to the heap, what is done there. -/
theorem receive_refines (hl : mem.AllLinked) (hm : m < mem.next) (q : MsmqQueue)
    (raw : MessageObject) (hfits : (mem.view m).fits a = true) (calls : List MqCall) :
    let r := Jni.receiveMessage mem q (some m) raw a.outcome calls
    let r' := q.receiveMessage (mem.view m) a.hr calls
    r.1 = r'.result.mapError .native ∧ r.2.1 = r'.calls ∧
      r.2.2.view m = (mem.view m).received a ∧
      r.2.2.heap = (mem.view m).heapReceived mem.heap a := by
  intro r r'
  obtain ⟨hresult, hcalls, hagree⟩ := agree_receive (hl m hm) hm q raw a.outcome calls
  have hlinked : Linked m ((mem.receiveMessage q m a.outcome calls).2.object m) :=
    (hl m hm).keeps ((mem.keeps_mqReceiveMessage (mem.object m).props a.outcome).links m hm)
  refine ⟨hresult, hcalls, ?_, ?_⟩
  · rw [hagree.view hlinked hm (hagree.object m hm)]
    exact view_mqReceiveMessage (hl m hm) hm a
  · rw [hagree.heap]
    exact heap_mqReceiveMessage_of_fits (hl m hm) hm hfits

end Memory

end Msmq
