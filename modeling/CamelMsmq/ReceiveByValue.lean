import CamelMsmq.ConsumerTask
import CamelMsmq.MessageObjects
import CamelMsmq.Runs

/-!
# Receiving by value

The JNI wrapper of `receiveMessage` receives into a copy of a copy of the message.  It works
all the same: the pointers of the copies are those of the original, so what MSMQ writes it
writes into the original.  That rests on every message being *linked*, its pointers pointing
into itself, which the constructor sees to and no operation changes.

A receive by value and one by reference are compared as two runs side by side.  `Agree` says
that two memories have the same messages below some address, and the same heap: they differ in
temporaries only.  What MSMQ does through pointers to messages below that address keeps it.

`by_value_eq_by_reference` is the comparison for a message with any history.  A linked object is
also the property array that the rest of this development takes a message for, and a receive
does to it what it does there; that is left to the modules that follow.
-/

namespace Msmq

namespace PropertyName

/-- The types that the constructor gives the properties. -/
def varType : PropertyName → VarType
  | .body | .correlationId | .msgId => .vectorUi1
  | .delivery | .priority => .ui1
  | _ => .ui4

end PropertyName

/-- The pointers of the object at `o` point into the object itself, and its body lies in a
buffer. -/
structure Linked (o : ObjRef) (obj : MessageObject) : Prop where
  props : obj.props = ⟨PropertyName.all.length, o, o⟩
  propIds : obj.propIds = Memory.initialId
  vt : ∀ i, (obj.propVars i).vt = i.varType
  msgId : (obj.propVars .msgId).pElems = some (.msgId o) ∧ (obj.propVars .msgId).cElems = 20
  correlationId : (obj.propVars .correlationId).pElems = some (.corrId o) ∧
    (obj.propVars .correlationId).cElems = 20
  body : ∀ ptr, (obj.propVars .body).pElems = some ptr → ∃ a, ptr = .buffer a

/-- A change of an object that leaves its pointers alone, but for the body. -/
structure KeepsLinks (obj obj' : MessageObject) : Prop where
  props : obj'.props = obj.props
  propIds : obj'.propIds = obj.propIds
  vt : ∀ i, (obj'.propVars i).vt = (obj.propVars i).vt
  vectors : ∀ i, i ≠ .body → (obj'.propVars i).pElems = (obj.propVars i).pElems ∧
    (obj'.propVars i).cElems = (obj.propVars i).cElems
  body : (obj'.propVars .body).pElems = (obj.propVars .body).pElems ∨
    ∀ ptr, (obj'.propVars .body).pElems = some ptr → ∃ a, ptr = .buffer a

theorem KeepsLinks.refl (obj : MessageObject) : KeepsLinks obj obj :=
  ⟨rfl, rfl, fun _ => rfl, fun _ _ => ⟨rfl, rfl⟩, .inl rfl⟩

theorem KeepsLinks.trans {obj obj' obj'' : MessageObject} (h : KeepsLinks obj obj')
    (h' : KeepsLinks obj' obj'') : KeepsLinks obj obj'' := by
  refine ⟨h'.props.trans h.props, h'.propIds.trans h.propIds, fun i => (h'.vt i).trans (h.vt i),
    fun i hi => ?_, ?_⟩
  · obtain ⟨hptr, hsize⟩ := h.vectors i hi
    obtain ⟨hptr', hsize'⟩ := h'.vectors i hi
    exact ⟨hptr'.trans hptr, hsize'.trans hsize⟩
  · rcases h'.body with hsame | hbuffer
    · rcases h.body with hsame' | hbuffer
      · exact .inl (hsame.trans hsame')
      · exact .inr fun ptr hptr => hbuffer ptr (hsame ▸ hptr)
    · exact .inr hbuffer

theorem Linked.keeps {o : ObjRef} {obj obj' : MessageObject} (hl : Linked o obj)
    (hk : KeepsLinks obj obj') : Linked o obj' := by
  obtain ⟨hmsg, hmsgSize⟩ := hk.vectors .msgId (by decide)
  obtain ⟨hcorr, hcorrSize⟩ := hk.vectors .correlationId (by decide)
  refine ⟨hk.props.trans hl.props, hk.propIds.trans hl.propIds, fun i => (hk.vt i).trans (hl.vt i),
    ⟨hmsg.trans hl.msgId.1, hmsgSize.trans hl.msgId.2⟩,
    ⟨hcorr.trans hl.correlationId.1, hcorrSize.trans hl.correlationId.2⟩, fun ptr hptr => ?_⟩
  rcases hk.body with hsame | hbuffer
  · exact hl.body ptr (hsame ▸ hptr)
  · exact hbuffer ptr hptr

namespace Memory

variable {mem mem' mem'' : Memory} {o o' : ObjRef} {i j : PropertyName} {v : PropVariant}

/-! ## What the operations change -/

theorem object_setVar_of_ne (ho : o' ≠ o) : (mem.setVar o i v).object o' = mem.object o' :=
  Function.update_of_ne ho _ _

theorem object_setVar_self : (mem.setVar o i v).object o =
    { mem.object o with propVars := Function.update (mem.object o).propVars i v } :=
  Function.update_self _ _ _

@[simp] theorem next_writeBytes (bytes : List UInt8) (ptr : BytePtr) :
    (mem.writeBytes bytes ptr).next = mem.next := by
  cases ptr <;> rfl

/-- Writing bytes changes no property. -/
theorem object_writeBytes (bytes : List UInt8) (ptr : BytePtr) (o : ObjRef) :
    ∃ msgId corrId, (mem.writeBytes bytes ptr).object o =
      { mem.object o with msgId := msgId, corrId := corrId } := by
  cases ptr with
  | buffer a => exact ⟨_, _, rfl⟩
  | msgId p =>
      by_cases hp : o = p
      · subst hp
        exact ⟨_, (mem.object o).corrId, Function.update_self _ _ _⟩
      · exact ⟨(mem.object o).msgId, (mem.object o).corrId, Function.update_of_ne hp _ _⟩
  | corrId p =>
      by_cases hp : o = p
      · subst hp
        exact ⟨(mem.object o).msgId, _, Function.update_self _ _ _⟩
      · exact ⟨(mem.object o).msgId, (mem.object o).corrId, Function.update_of_ne hp _ _⟩

/-- From `mem` to `mem'` the objects below `next` have kept their pointers. -/
structure Keeps (mem mem' : Memory) : Prop where
  next : mem'.next = mem.next
  links : ∀ o, o < mem.next → KeepsLinks (mem.object o) (mem'.object o)

theorem Keeps.refl (mem : Memory) : Keeps mem mem := ⟨rfl, fun _ _ => .refl _⟩

theorem Keeps.trans (h : Keeps mem mem') (h' : Keeps mem' mem'') : Keeps mem mem'' :=
  ⟨h'.next.trans h.next, fun o ho => (h.links o ho).trans (h'.links o (h.next ▸ ho))⟩

/-- A new value of a property, with the pointer it had; that of the body may be another
buffer. -/
theorem keeps_setVar (hvt : v.vt = (mem.var o i).vt)
    (hvector : i ≠ .body → v.pElems = (mem.var o i).pElems ∧ v.cElems = (mem.var o i).cElems)
    (hbody : v.pElems = (mem.var o i).pElems ∨ ∀ ptr, v.pElems = some ptr → ∃ a, ptr = .buffer a) :
    Keeps mem (mem.setVar o i v) := by
  refine ⟨rfl, fun p _ => ?_⟩
  by_cases hp : p = o
  · subst hp
    rw [object_setVar_self]
    refine ⟨rfl, rfl, fun j => ?_, fun j hj => ?_, ?_⟩
    · by_cases hji : j = i
      · subst hji
        simpa [var] using hvt
      · simp [hji]
    · by_cases hji : j = i
      · subst hji
        simpa [var] using hvector hj
      · simp [hji]
    · by_cases hbi : PropertyName.body = i
      · subst hbi
        simpa [var] using hbody
      · exact .inl (by simp [hbi])
  · rw [object_setVar_of_ne hp]
    exact .refl _

theorem keeps_setUlVal (mem : Memory) (o : ObjRef) (i : PropertyName) (value : UInt32) :
    Keeps mem (mem.setUlVal o i value) :=
  keeps_setVar rfl (fun _ => ⟨rfl, rfl⟩) (.inl rfl)

theorem keeps_setBVal (mem : Memory) (o : ObjRef) (i : PropertyName) (value : UInt8) :
    Keeps mem (mem.setBVal o i value) :=
  keeps_setVar rfl (fun _ => ⟨rfl, rfl⟩) (.inl rfl)

theorem keeps_writeBytes (mem : Memory) (bytes : List UInt8) (ptr : BytePtr) :
    Keeps mem (mem.writeBytes bytes ptr) := by
  refine ⟨next_writeBytes bytes ptr, fun o _ => ?_⟩
  obtain ⟨msgId, corrId, hobject⟩ := mem.object_writeBytes bytes ptr o
  rw [hobject]
  exact ⟨rfl, rfl, fun _ => rfl, fun _ _ => ⟨rfl, rfl⟩, .inl rfl⟩

theorem keeps_writeProp (props : MqMsgProps) (out : ReceiveOutcome) (mem : Memory)
    (i : PropertyName) : Keeps mem (writeProp props out mem i) := by
  simp only [writeProp]
  split
  · split
    · exact keeps_setBVal _ _ _ _
    · exact .refl _
  · split
    · exact keeps_setUlVal _ _ _ _
    · exact .refl _
  · split
    · exact keeps_writeBytes _ _ _
    · exact .refl _

/-- MSMQ writes numbers and bytes, and no pointers. -/
theorem keeps_mqReceiveMessage (mem : Memory) (props : MqMsgProps) (out : ReceiveOutcome) :
    Keeps mem (mem.mqReceiveMessage props out) := by
  unfold mqReceiveMessage
  generalize PropertyName.all.take props.cProp = names
  induction names generalizing mem with
  | nil => exact .refl mem
  | cons i rest ih => exact (keeps_writeProp props out mem i).trans (ih _)

end Memory

/-! ## Histories of messages -/

/-- A setter with its argument. -/
inductive Setter
  | appSpecifc (app : UInt32)
  | msgBody (body : Option Addr)
  | msgBodyWithByteBuffer (buffer : ByteBuffer)
  | bodySize (size : UInt32)
  | correlationId (corrid : Vector UInt8 20)
  | delivery (delivery : UInt32)
  | priority (priority : UInt32)
  | timeToBeReceived (time : UInt32)

/-- What may happen: a message is made, one of its setters is called, or a receive is made into
it through JNI; and Java code may allocate buffers and write them. -/
inductive MessageAction
  | new (raw : MessageObject)
  | set (o : ObjRef) (setter : Setter)
  | receive (o : ObjRef) (q : MsmqQueue) (raw : MessageObject) (out : ReceiveOutcome)
  | java (heap : Heap)

namespace Memory

/-- A call of a setter. -/
def set (mem : Memory) (o : ObjRef) : Setter → Memory
  | .appSpecifc app => mem.setAppSpecifc o app
  | .msgBody body => mem.setMsgBody o body
  | .msgBodyWithByteBuffer buffer => (Jni.setMsgBodyWithByteBuffer mem o buffer).2
  | .bodySize size => mem.setBodySize o size
  | .correlationId corrid => mem.setCorrelationId o corrid
  | .delivery delivery => mem.setDelivery o delivery
  | .priority priority => mem.setPriority o priority
  | .timeToBeReceived time => mem.setTimeToBeReceived o time

/-- One action. -/
def step (mem : Memory) : MessageAction → Option Memory
  | .new raw => some { mem.construct mem.next raw with next := mem.next + 1 }
  | .set o setter => if o < mem.next then some (mem.set o setter) else none
  | .receive o q raw out =>
      if o < mem.next then some (Jni.receiveMessage mem q (some o) raw out []).2.2 else none
  | .java heap => some { mem with heap := heap }

/-- The messages of the memory are linked. -/
def AllLinked (mem : Memory) : Prop := ∀ o, o < mem.next → Linked o (mem.object o)

variable {mem mem' : Memory} {o : ObjRef}

/-- The constructor links the object, whatever its memory held before. -/
theorem linked_construct (mem : Memory) (o : ObjRef) (raw : MessageObject) :
    Linked o ((mem.construct o raw).object o) := by
  have hobject : (mem.construct o raw).object o = _ := Function.update_self _ _ _
  rw [hobject]
  refine ⟨rfl, rfl, fun i => ?_, ⟨rfl, rfl⟩, ⟨rfl, rfl⟩, nofun⟩
  cases i <;> rfl

theorem AllLinked.keeps (hl : mem.AllLinked) (hk : Keeps mem mem') : mem'.AllLinked := by
  intro o ho
  rw [hk.next] at ho
  exact (hl o ho).keeps (hk.links o ho)

theorem keeps_setMsgBody (mem : Memory) (o : ObjRef) (body : Option Addr) :
    Keeps mem (mem.setMsgBody o body) := by
  refine keeps_setVar rfl (fun hne => absurd rfl hne) (.inr fun ptr hptr => ?_)
  obtain ⟨a, -, ha⟩ := Option.map_eq_some_iff.mp hptr
  exact ⟨a, ha.symm⟩

theorem keeps_setBodySize (mem : Memory) (o : ObjRef) (size : UInt32) :
    Keeps mem (mem.setBodySize o size) := by
  have hsize : Keeps mem (mem.setVar o .body { mem.var o .body with cElems := size }) :=
    keeps_setVar rfl (fun hne => absurd rfl hne) (.inl rfl)
  exact hsize.trans (keeps_setUlVal _ _ _ _)

/-- No setter changes a pointer but that to the body. -/
theorem keeps_set (mem : Memory) (o : ObjRef) (setter : Setter) : Keeps mem (mem.set o setter) := by
  cases setter with
  | appSpecifc app => exact keeps_setUlVal _ _ _ _
  | msgBody body => exact keeps_setMsgBody _ _ _
  | msgBodyWithByteBuffer buffer => exact (keeps_setMsgBody _ _ _).trans (keeps_setBodySize _ _ _)
  | bodySize size => exact keeps_setBodySize _ _ _
  | correlationId corrid =>
      simp only [set, setCorrelationId]
      split
      · exact keeps_writeBytes _ _ _
      · exact .refl _
  | delivery delivery => exact keeps_setBVal _ _ _ _
  | priority priority => exact keeps_setBVal _ _ _ _
  | timeToBeReceived time => exact keeps_setUlVal _ _ _ _

/-! ## Copies -/

/-- The memory when `MQReceiveMessage` is called by value. -/
def copies (mem : Memory) (raw : MessageObject) (m : ObjRef) : Memory :=
  ((mem.construct mem.next raw).copy mem.next m).copy (mem.next + 1) mem.next

/-- The message is copied as it is. -/
theorem object_copies (raw : MessageObject) {m : ObjRef} (hm : m < mem.next) :
    (mem.copies raw m).object (mem.next + 1) = mem.object m := by
  simp [copies, copy, construct, setObject, Function.update_of_ne (Nat.ne_of_lt hm)]

/-- The memories have the same messages below `n`, and the same heap.  Above `n` they may differ
in everything. -/
structure Agree (n : ObjRef) (mem mem' : Memory) : Prop where
  object : ∀ o, o < n → mem'.object o = mem.object o
  heap : mem'.heap = mem.heap

/-- The copies are made above the messages, in the temporaries. -/
theorem agree_copies (mem : Memory) (raw : MessageObject) (m : ObjRef) :
    Agree mem.next mem (mem.copies raw m) := by
  refine ⟨fun o ho => ?_, rfl⟩
  have hne : o ≠ mem.next := Nat.ne_of_lt ho
  have hne' : o ≠ mem.next + 1 := Nat.ne_of_lt (Nat.lt_succ_of_lt ho)
  simp [copies, copy, construct, setObject, hne, hne']

namespace Agree

variable {n : ObjRef} (h : Agree n mem mem')

include h

theorem setObject {o : ObjRef} {obj obj' : MessageObject} (hobj : o < n → obj' = obj) :
    Agree n (mem.setObject o obj) (mem'.setObject o obj') := by
  refine ⟨fun p hp => ?_, h.heap⟩
  by_cases hpo : p = o
  · subst hpo
    simp [Memory.setObject, hobj hp]
  · simp [Memory.setObject, hpo, h.object p hp]

theorem var {o : ObjRef} (ho : o < n) (i : PropertyName) : mem'.var o i = mem.var o i := by
  unfold Memory.var
  rw [h.object o ho]

theorem setUlVal {o : ObjRef} (ho : o < n) (i : PropertyName) (value : UInt32) :
    Agree n (mem.setUlVal o i value) (mem'.setUlVal o i value) :=
  h.setObject fun _ => by rw [h.var ho, h.object o ho]

theorem setBVal {o : ObjRef} (ho : o < n) (i : PropertyName) (value : UInt8) :
    Agree n (mem.setBVal o i value) (mem'.setBVal o i value) :=
  h.setObject fun _ => by rw [h.var ho, h.object o ho]

theorem writeBytes (bytes : List UInt8) (ptr : BytePtr) :
    Agree n (mem.writeBytes bytes ptr) (mem'.writeBytes bytes ptr) := by
  cases ptr with
  | msgId p => exact h.setObject fun hp => by rw [h.object p hp]
  | corrId p => exact h.setObject fun hp => by rw [h.object p hp]
  | buffer a =>
      refine ⟨h.object, ?_⟩
      simp [Memory.writeBytes, h.heap]

/-- What MSMQ writes depends on the messages that `props` points to. -/
theorem writeProp {props : MqMsgProps} (hid : props.aPropId < n) (hvar : props.aPropVar < n)
    (out : ReceiveOutcome) (i : PropertyName) :
    Agree n (Memory.writeProp props out mem i) (Memory.writeProp props out mem' i) := by
  simp only [Memory.writeProp, h.object _ hid, h.var hvar]
  split
  · split
    · exact h.setBVal hvar i _
    · exact h
  · split
    · exact h.setUlVal hvar i _
    · exact h
  · split
    · exact h.writeBytes _ _
    · exact h

/-- **What MSMQ does** in memories that agree up to the messages that `props` points to. -/
theorem mqReceiveMessage {props : MqMsgProps} (hid : props.aPropId < n) (hvar : props.aPropVar < n)
    (out : ReceiveOutcome) :
    Agree n (mem.mqReceiveMessage props out) (mem'.mqReceiveMessage props out) := by
  unfold Memory.mqReceiveMessage
  generalize PropertyName.all.take props.cProp = names
  induction names generalizing mem mem' with
  | nil => exact h
  | cons i rest ih => exact ih (h.writeProp hid hvar out i)

end Agree

/-- What is seen of a linked message, of itself or through a copy. -/
theorem Agree.view {n o' : ObjRef} (h : Agree n mem mem') (hl : Linked o (mem.object o))
    (ho : o < n) (hobject : mem'.object o' = mem.object o) : mem'.view o' = mem.view o := by
  have hvar : ∀ i, mem'.var o' i = mem.var o i := fun i => by rw [Memory.var, hobject]; rfl
  have hmsgId : mem'.idBytes o' .msgId = mem.idBytes o .msgId := by
    have hptr : (mem.var o .msgId).pElems = some (.msgId o) := hl.msgId.1
    simp only [idBytes, hvar, hptr, readBytes, h.object o ho]
  have hcorrId : mem'.idBytes o' .correlationId = mem.idBytes o .correlationId := by
    have hptr : (mem.var o .correlationId).pElems = some (.corrId o) := hl.correlationId.1
    simp only [idBytes, hvar, hptr, readBytes, h.object o ho]
  simp only [Memory.view, getters, hvar, hmsgId, hcorrId]

theorem Agree.body {n : ObjRef} (h : Agree n mem mem') (hl : Linked o (mem.object o))
    (ho : o < n) : mem'.body o = mem.body o := by
  simp only [Memory.body, h.var ho]
  cases hptr : (mem.var o .body).pElems with
  | none => rfl
  | some ptr =>
      obtain ⟨a, rfl⟩ := hl.body ptr hptr
      simp only [readBytes, h.heap]

/-- A receive by value keeps the pointers of the messages. -/
theorem keeps_receive (mem : Memory) (q : MsmqQueue) (m : ObjRef) (raw : MessageObject)
    (out : ReceiveOutcome) (calls : List MqCall) :
    Keeps mem (Jni.receiveMessage mem q (some m) raw out calls).2.2 := by
  have hcopies : Keeps mem (mem.copies raw m) := by
    refine ⟨rfl, fun o ho => ?_⟩
    rw [(mem.agree_copies raw m).object o ho]
    exact .refl _
  exact hcopies.trans (keeps_mqReceiveMessage _ _ _)

/-- An action makes a linked message, or leaves the links of all messages as they are. -/
theorem allLinked_step {act : MessageAction} (hl : mem.AllLinked) (h : mem.step act = some mem') :
    mem'.AllLinked := by
  cases act with
  | new raw =>
      cases h
      intro o ho
      rcases Nat.lt_succ_iff_lt_or_eq.mp ho with hold | rfl
      · have hsame : (mem.construct mem.next raw).object o = mem.object o :=
          Function.update_of_ne (Nat.ne_of_lt hold) _ _
        exact hsame ▸ hl o hold
      · exact mem.linked_construct mem.next raw
  | set o setter =>
      obtain ⟨-, hset⟩ := Option.ite_none_right_eq_some.mp h
      cases hset
      exact hl.keeps (mem.keeps_set o setter)
  | receive o q raw out =>
      obtain ⟨-, hreceive⟩ := Option.ite_none_right_eq_some.mp h
      cases hreceive
      exact hl.keeps (mem.keeps_receive q o raw out [])
  | java heap =>
      cases h
      exact hl

/-- **Every message is linked**, whatever has been done with it: constructed, set up, received
into by value or with another buffer.  The copies that the wrapper makes are not, but they are
not among the messages. -/
theorem allLinked_of_reachable {start : Memory} (hstart : start.next = 0)
    (hreach : Runs.Reachable step start mem) : mem.AllLinked := by
  refine hreach.invariant _ AllLinked ?_ fun _ _ _ hl h => allLinked_step hl h
  intro o ho
  rw [hstart] at ho
  exact absurd ho (Nat.not_lt_zero o)

end Memory

/-- MSMQ leaves properties and body as they are. -/
def ReceiveOutcome.WritesNothing (out : ReceiveOutcome) : Prop :=
  ∀ id, out.ui1 id = none ∧ out.ui4 id = none ∧ out.bytes id = none

namespace Memory

/-- A message is in two memories the same: the object, what its getters give, and its body. -/
structure SameMessage (m : ObjRef) (mem mem' : Memory) : Prop where
  object : mem'.object m = mem.object m
  getters : mem'.getters m = mem.getters m
  view : mem'.view m = mem.view m
  body : mem'.body m = mem.body m

variable {mem mem' : Memory} {m : ObjRef}

theorem Agree.sameMessage {n : ObjRef} (h : Agree n mem mem') (hl : Linked m (mem.object m))
    (hm : m < n) : SameMessage m mem mem' := by
  have hview := h.view hl hm (h.object m hm)
  exact ⟨h.object m hm, congrArg MsmqMessage.props hview, hview, h.body hl hm⟩

theorem mqReceiveMessage_of_writesNothing {out : ReceiveOutcome} (hnone : out.WritesNothing)
    (mem : Memory) (props : MqMsgProps) : mem.mqReceiveMessage props out = mem := by
  have hprop : ∀ i, writeProp props out mem i = mem := by
    intro i
    obtain ⟨hui1, hui4, hbytes⟩ := hnone ((mem.object props.aPropId).propIds i)
    simp only [writeProp, hui1, hui4, hbytes]
    split <;> rfl
  unfold mqReceiveMessage
  generalize PropertyName.all.take props.cProp = names
  induction names with
  | nil => rfl
  | cons i rest ih => rw [List.foldl_cons, hprop, ih]

/-- A receive by value and one by reference from a linked message, side by side. -/
theorem agree_receive (hl : Linked m (mem.object m)) (hm : m < mem.next) (q : MsmqQueue)
    (raw : MessageObject) (out : ReceiveOutcome) (calls : List MqCall) :
    let byValue := Jni.receiveMessage mem q (some m) raw out calls
    let byReference := mem.receiveMessage q m out calls
    byValue.1 = byReference.1.result.mapError .native ∧ byValue.2.1 = byReference.1.calls ∧
      Agree mem.next byReference.2 byValue.2.2 := by
  intro byValue byReference
  have hcopies := mem.agree_copies raw m
  have hobject := mem.object_copies raw hm
  have hcall : q.receiveMessage ((mem.copies raw m).view (mem.next + 1)) out.hr calls =
      byReference.1 := by
    rw [hcopies.view hl hm hobject]
    rfl
  -- the copy has the pointers of the message, which point into the message
  have hid : (mem.object m).props.aPropId < mem.next := by rw [hl.props]; exact hm
  have hvar : (mem.object m).props.aPropVar < mem.next := by rw [hl.props]; exact hm
  have hmemory : byValue.2.2 = (mem.copies raw m).mqReceiveMessage (mem.object m).props out := by
    rw [← hobject]
    rfl
  refine ⟨?_, ?_, ?_⟩
  · rw [← hcall]
    rfl
  · rw [← hcall]
    rfl
  · rw [hmemory]
    exact hcopies.mqReceiveMessage hid hvar out

/-- **Receiving by value is receiving by reference.**  Whatever the history of a message, a
receive through JNI has the result and makes the call of a receive into the message itself, and
leaves the message, its getters and its body as that would; if MSMQ writes nothing, as they
were. The two copies that the wrapper makes are not copied back, and need not be: all that MSMQ
writes goes through pointers that were copied with them, and these point into the message. -/
theorem by_value_eq_by_reference {start : Memory} (hstart : start.next = 0)
    (hreach : Runs.Reachable step start mem) (hm : m < mem.next) (q : MsmqQueue)
    (raw : MessageObject) (out : ReceiveOutcome) (calls : List MqCall) :
    let byValue := Jni.receiveMessage mem q (some m) raw out calls
    let byReference := mem.receiveMessage q m out calls
    byValue.1 = byReference.1.result.mapError .native ∧ byValue.2.1 = byReference.1.calls ∧
      SameMessage m byReference.2 byValue.2.2 ∧
      (out.WritesNothing → SameMessage m mem byValue.2.2) := by
  intro byValue byReference
  have hl : Linked m (mem.object m) := allLinked_of_reachable hstart hreach m hm
  obtain ⟨hresult, hcalls, hagree⟩ := agree_receive hl hm q raw out calls
  have hl' : Linked m (byReference.2.object m) :=
    hl.keeps ((mem.keeps_mqReceiveMessage (mem.object m).props out).links m hm)
  refine ⟨hresult, hcalls, hagree.sameMessage hl' hm, fun hnone => ?_⟩
  have hsame : (mem.receiveMessage q m out calls).2 = mem :=
    mqReceiveMessage_of_writesNothing hnone mem _
  rw [hsame] at hagree
  exact hagree.sameMessage hl hm

/-- A message with a buffer of three bytes and a correlation id, into which a message of one byte
has been received, is given a message of two bytes and priority 5. -/
theorem by_value_eq_by_reference_again :
    let raw : MessageObject := ⟨⟨0, 0, 0⟩, fun _ => .body, fun _ => ⟨.ui4, 0, 0, 0, none⟩,
      .replicate 20 0, .replicate 20 0⟩
    let start : Memory := ⟨0, fun _ => raw, ⟨0, fun _ => []⟩⟩
    let outcome (priority : UInt8) (body : List UInt8) : ReceiveOutcome :=
      ⟨0, fun _ => some priority, fun _ => none, fun id => if id = .body then some body else none⟩
    let acts : List MessageAction := [.java ⟨1, fun _ => [0, 0, 0]⟩, .new raw,
      .set 0 (.msgBody (some 0)), .set 0 (.bodySize 3), .set 0 (.correlationId (.replicate 20 7)),
      .receive 0 .new raw (outcome 4 [97])]
    ∃ mem : Memory, Runs.run step start acts = some mem ∧ mem.body 0 = [97, 0, 0] ∧
      let byValue := (Jni.receiveMessage mem .new (some 0) raw (outcome 5 [104, 105]) []).2.2
      (byValue.getters 0).priority = 5 ∧ byValue.body 0 = [104, 105, 0] ∧
        (byValue.getters 0).correlationId = .replicate 20 7 ∧
        SameMessage 0 (mem.receiveMessage .new 0 (outcome 5 [104, 105]) []).2 byValue := by
  intro raw start outcome acts
  have hrun : (Runs.run step start acts).map (fun mem =>
      let byValue := (Jni.receiveMessage mem .new (some 0) raw (outcome 5 [104, 105]) []).2.2
      (mem.next, mem.body 0, (byValue.getters 0).priority, byValue.body 0,
        (byValue.getters 0).correlationId)) =
      some (1, [97, 0, 0], 5, [104, 105, 0], .replicate 20 7) := by decide +kernel
  obtain ⟨mem, hmem, hseen⟩ := Option.map_eq_some_iff.mp hrun
  simp only [Prod.mk.injEq] at hseen
  obtain ⟨hnext, hbody, hpriority, hafter, hid⟩ := hseen
  have hsame := by_value_eq_by_reference (m := 0) rfl ⟨acts, hmem⟩ (by rw [hnext]; decide) .new raw
    (outcome 5 [104, 105]) []
  exact ⟨mem, hmem, hbody, hpriority, hafter, hid, hsame.2.2.1⟩

end Memory

end Msmq
