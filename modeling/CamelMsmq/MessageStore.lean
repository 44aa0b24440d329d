import CamelMsmq.MessageViews
import CamelMsmq.Simulation

/-!
# Messages are values

The objects of `MsmqMessage` lie in one memory, full of pointers, and the JNI wrapper of
`receiveMessage` makes copies with the same pointers.  Seen through setters and getters
each message is nevertheless a value of its own: a `Store` maps the messages to property
arrays, every operation changes the array it names and no other, and `messages_are_values`
says that this is what can be seen of the memory, whatever has been done in whatever order.

The operations are those that Java code has: it constructs messages, calls their setters and
receives into them, and it writes to buffers.  Nothing in Java copies one message onto
another.  If something did, the two would share their identifiers, and the statement would
be false.  The temporaries of the wrapper do share them, and the statement is true because
nobody looks at them once the wrapper has returned.

`Shows` relates a memory to a store, and the proof goes through its preservation by each of
the four operations.
-/

namespace Msmq

namespace MsmqMessage

/-- What MSMQ leaves of the properties after it has written what `out` says. -/
def written (msg : MsmqMessage) (out : ReceiveOutcome) : MsmqMessage where
  props :=
    { appSpecific := (out.ui4 .appSpecific).getD msg.props.appSpecific
      arrivedTime := (out.ui4 .arrivedTime).getD msg.props.arrivedTime
      bodyType := (out.ui4 .bodyType).getD msg.props.bodyType
      correlationId := overwrite msg.props.correlationId ((out.bytes .correlationId).getD [])
      delivery := (out.ui1 .delivery).getD msg.props.delivery
      msgId := overwrite msg.props.msgId ((out.bytes .msgId).getD [])
      priority := (out.ui1 .priority).getD msg.props.priority
      sentTime := (out.ui4 .sentTime).getD msg.props.sentTime
      timeToBeReceived := (out.ui4 .timeToBeReceived).getD msg.props.timeToBeReceived }
  pElems := msg.pElems
  cElems := msg.cElems
  bodySize := (out.ui4 .bodySize).getD msg.bodySize

/-- The heap after MSMQ has written the body, as far as there is room for it. -/
def heapWritten (msg : MsmqMessage) (heap : Heap) (out : ReceiveOutcome) : Heap :=
  match msg.pElems, out.bytes .body with
  | some a, some bytes => heap.write a 0 (bytes.take msg.cElems.toNat)
  | _, _ => heap

end MsmqMessage

/-- What a setter does to a property array. -/
def Setter.apply (msg : MsmqMessage) : Setter → MsmqMessage
  | .appSpecifc app => { msg with props := { msg.props with appSpecific := app } }
  | .msgBody body => { msg with pElems := body }
  | .msgBodyWithByteBuffer buffer => msg.setMsgBodyWithByteBuffer buffer
  | .bodySize size => { msg with cElems := size, bodySize := size }
  | .correlationId corrid => { msg with props := { msg.props with correlationId := corrid } }
  | .delivery value => msg.setDelivery value.toNat
  | .priority value => msg.setPriority value.toNat
  | .timeToBeReceived time => msg.setTimeToBeReceived time.toNat

/-- The messages as values: to each message an array, without any pointer to another. -/
structure Store where
  next : ObjRef
  message : ObjRef → MsmqMessage
  heap : Heap

namespace Store

def put (st : Store) (o : ObjRef) (msg : MsmqMessage) : Store :=
  { st with message := Function.update st.message o msg }

theorem message_put_self (st : Store) (o : ObjRef) (msg : MsmqMessage) :
    (st.put o msg).message o = msg := Function.update_self _ _ _

theorem message_put_of_ne (st : Store) {o p : ObjRef} (hne : p ≠ o) (msg : MsmqMessage) :
    (st.put o msg).message p = st.message p := Function.update_of_ne hne _ _

/-- One action, on values. -/
def step (st : Store) : MessageAction → Option Store
  | .new raw => some { st.put st.next (.new (Memory.rawArray raw)) with next := st.next + 1 }
  | .set o setter => if o < st.next then some (st.put o (setter.apply (st.message o))) else none
  | .receive o _ _ out =>
      if o < st.next then
        some
          { st.put o ((st.message o).written out) with
            heap := (st.message o).heapWritten st.heap out }
      else none
  | .java heap => some { st with heap := heap }

/-- The store that a memory looks like. -/
def of (mem : Memory) : Store := ⟨mem.next, mem.view, mem.heap⟩

/-- A memory looks like a store: its messages are linked, and each is seen as the array that the
store has for it. -/
structure Shows (mem : Memory) (st : Store) : Prop where
  linked : mem.AllLinked
  next : mem.next = st.next
  message : ∀ o, o < mem.next → mem.view o = st.message o
  heap : mem.heap = st.heap

end Store

namespace Memory

variable {mem mem' : Memory} {o o' m : ObjRef} {i j : PropertyName} {out : ReceiveOutcome}

/-! ## One operation and the other messages -/

/-- What is seen of a linked message depends on its object only. -/
theorem view_of_object (hl : Linked o (mem.object o)) (hobject : mem'.object o = mem.object o) :
    mem'.view o = mem.view o := by
  have hvar : ∀ i, mem'.var o i = mem.var o i := fun i => by rw [var, hobject]; rfl
  have hmsgId : (mem.var o .msgId).pElems = some (.msgId o) := hl.msgId.1
  have hcorrId : (mem.var o .correlationId).pElems = some (.corrId o) := hl.correlationId.1
  simp only [view, getters, idBytes, hvar, hmsgId, hcorrId, readBytes, hobject]

theorem object_writeBytes_of_ne {bytes : List UInt8} {ptr : BytePtr} (hmsgId : ptr ≠ .msgId o)
    (hcorrId : ptr ≠ .corrId o) : (mem.writeBytes bytes ptr).object o = mem.object o := by
  cases ptr with
  | buffer a => rfl
  | msgId p => exact Function.update_of_ne (fun heq => hmsgId (by rw [heq])) _ _
  | corrId p => exact Function.update_of_ne (fun heq => hcorrId (by rw [heq])) _ _

/-- A setter leaves the other objects alone, and the heap. -/
theorem object_set_of_ne (hl : Linked o (mem.object o)) (hne : o' ≠ o) (setter : Setter) :
    (mem.set o setter).object o' = mem.object o' := by
  have hvar : ∀ mem i v, (setVar mem o i v).object o' = mem.object o' :=
    fun _ _ _ => object_setVar_of_ne hne
  cases setter with
  | correlationId corrid =>
      have hptr : (mem.var o .correlationId).pElems = some (.corrId o) := hl.correlationId.1
      simp only [set, setCorrelationId, hptr]
      exact Function.update_of_ne hne _ _
  | appSpecifc app => exact hvar _ _ _
  | msgBody body => exact hvar _ _ _
  | msgBodyWithByteBuffer buffer => exact (hvar _ _ _).trans ((hvar _ _ _).trans (hvar _ _ _))
  | bodySize size => exact (hvar _ _ _).trans (hvar _ _ _)
  | delivery value => exact hvar _ _ _
  | priority value => exact hvar _ _ _
  | timeToBeReceived time => exact hvar _ _ _

theorem heap_set (hl : Linked o (mem.object o)) (setter : Setter) :
    (mem.set o setter).heap = mem.heap := by
  cases setter with
  | correlationId corrid =>
      have hptr : (mem.var o .correlationId).pElems = some (.corrId o) := hl.correlationId.1
      simp only [set, setCorrelationId, hptr]
      rfl
  | _ => rfl

theorem ofInt_toNat (x : UInt32) : UInt32.ofInt x.toNat = x := by
  apply UInt32.toNat_inj.mp
  have hx := x.toNat_lt
  rw [UInt32.ofInt, UInt32.toNat_ofNat']
  omega

/-- **A setter** does to the view of a linked message what it does to an array.  For the two
identifiers that is because their pointers point into the message itself. -/
theorem view_set (hl : Linked o (mem.object o)) (setter : Setter) :
    (mem.set o setter).view o = setter.apply (mem.view o) := by
  cases setter with
  | appSpecifc app =>
      simp [set, setAppSpecifc, setUlVal, view, getters, idBytes, var_setVar_of_ne, Setter.apply]
  | msgBody body =>
      cases body <;>
        simp [set, setMsgBody, view, getters, idBytes, var_setVar_of_ne, Setter.apply]
  | msgBodyWithByteBuffer buffer => exact view_setMsgBodyWithByteBuffer mem o buffer
  | bodySize size =>
      simp [set, setBodySize, setUlVal, view, getters, idBytes, var_setVar_of_ne, Setter.apply]
  | correlationId corrid =>
      have hptr : (mem.var o .correlationId).pElems = some (.corrId o) := hl.correlationId.1
      have hmsgId : (mem.var o .msgId).pElems = some (.msgId o) := hl.msgId.1
      have hread : (mem.writeBytes corrid.toList (.corrId o)).readBytes (.corrId o) =
          corrid.toList := by
        simp [writeBytes, readBytes, setObject, overwrite_toList]
      have hother : (mem.writeBytes corrid.toList (.corrId o)).readBytes (.msgId o) =
          mem.readBytes (.msgId o) :=
        readBytes_writeBytes_of_ne fun hsame => by cases hsame
      simp only [set, setCorrelationId, hptr, view, getters, idBytes, var_writeBytes, hmsgId, hread,
        hother, overwrite_toList, Setter.apply]
  | delivery value =>
      have hview := view_setDelivery mem o value.toNat
      rw [ofInt_toNat] at hview
      exact hview
  | priority value =>
      have hview := view_setPriority mem o value.toNat
      rw [ofInt_toNat] at hview
      exact hview
  | timeToBeReceived time =>
      have hview := view_setTimeToBeReceived mem o time.toNat
      rw [ofInt_toNat] at hview
      exact hview

/-! ## A receive, whatever MSMQ writes -/

/-- MSMQ writes into the message that it is given, and into no other. -/
theorem object_writeProp_of_ne (hl : Linked m (mem.object m)) (hne : o ≠ m) :
    (writeProp (ownProps m) out mem i).object o = mem.object o := by
  by_cases hi : i.varType = .vectorUi1
  · rw [writeProp_vector hl hi]
    split
    · rename_i bytes ptr hbytes hptr
      have hplace := place_of_vector hl hi hptr
      refine object_writeBytes_of_ne ?_ ?_ <;> rintro rfl <;> simp [hne] at hplace
    · rfl
  · rw [writeProp_number hl hi]
    exact object_setVar_of_ne hne

theorem object_mqReceiveMessage_of_ne (hl : Linked m (mem.object m)) (hm : m < mem.next)
    (hne : o ≠ m) :
    (mem.mqReceiveMessage (mem.object m).props out).object o = mem.object o := by
  rw [hl.props]
  show ((PropertyName.all.take PropertyName.all.length).foldl (writeProp (ownProps m) out)
    mem).object o = _
  generalize PropertyName.all.take PropertyName.all.length = names
  induction names generalizing mem with
  | nil => rfl
  | cons i rest ih =>
      have hnext := (keeps_writeProp (ownProps m) out mem i).next
      have hrest := ih (linked_writeProp hl hm (ownProps m) out i) (hnext ▸ hm)
      exact hrest.trans (object_writeProp_of_ne hl hne)

theorem overwrite_take (old : Vector UInt8 20) (bytes : List UInt8) :
    overwrite old (bytes.take 20) = overwrite old bytes := by
  ext i hi
  simp [overwrite]

theorem overwrite_nil (old : Vector UInt8 20) : overwrite old [] = old := by
  ext i hi
  simp only [overwrite, Vector.getElem_ofFn, List.getElem?_nil, Option.getD_none]
  rfl

/-- Where an identifier of a linked message lies: reading there gives what the getter gives, and
what is written there is read back, as far as the 20 bytes go. -/
theorem place_of_id (hl : Linked m (mem.object m)) (hj : j = .msgId ∨ j = .correlationId) :
    ∃ ptr, (mem.var m j).pElems = some ptr ∧ (mem.var m j).cElems = 20 ∧
      mem.readBytes ptr = (mem.idBytes m j).toList ∧
      ∀ bytes, (mem.writeBytes bytes ptr).readBytes ptr =
        (overwrite (mem.idBytes m j) bytes).toList := by
  rcases hj with rfl | rfl
  · have hptr : (mem.var m .msgId).pElems = some (.msgId m) := hl.msgId.1
    refine ⟨_, hptr, hl.msgId.2, ?_, fun bytes => ?_⟩
    · simp only [idBytes, hptr, readBytes, overwrite_toList]
    · simp [idBytes, hptr, writeBytes, readBytes, setObject, overwrite_toList]
  · have hptr : (mem.var m .correlationId).pElems = some (.corrId m) := hl.correlationId.1
    refine ⟨_, hptr, hl.correlationId.2, ?_, fun bytes => ?_⟩
    · simp only [idBytes, hptr, readBytes, overwrite_toList]
    · simp [idBytes, hptr, writeBytes, readBytes, setObject, overwrite_toList]

/-- An identifier after a receive.  MSMQ may write none, one or both. -/
theorem idBytes_written (hl : Linked m (mem.object m)) (hm : m < mem.next) (out : ReceiveOutcome)
    (hj : j = .msgId ∨ j = .correlationId) :
    (mem.mqReceiveMessage (mem.object m).props out).idBytes m j =
      overwrite (mem.idBytes m j) ((out.bytes (initialId j)).getD []) := by
  have hvector : j.varType = .vectorUi1 := by rcases hj with rfl | rfl <;> rfl
  obtain ⟨before, hbefore, hlinked, hafter⟩ := sameProp_mqReceiveMessage hl hm out j
  have hwritten : written out j (mem.var m j) = mem.var m j := by simp only [written, hvector]
  have hvar := (var_mqReceiveMessage hl hm out j).trans hwritten
  obtain ⟨ptr, hptr, hsize, hread, hwrite⟩ := place_of_id hlinked hj
  have hptr' : (mem.var m j).pElems = some ptr := by rw [← hbefore.var, hptr]
  have hid : before.idBytes m j = mem.idBytes m j := by
    simp only [idBytes, hptr, hptr', hbefore.bytes hvector ptr hptr']
  have hbytes : (writeProp (ownProps m) out before j).readBytes ptr =
      (overwrite (mem.idBytes m j) ((out.bytes (initialId j)).getD [])).toList := by
    have hroom : UInt32.toNat 20 = 20 := rfl
    rw [writeProp_vector hlinked hvector, hptr, hsize, hroom, ← hid]
    cases out.bytes (initialId j) with
    | none => simpa only [Option.getD_none, overwrite_nil] using hread
    | some bytes => simpa only [Option.getD_some, overwrite_take] using hwrite (bytes.take 20)
  have hptr'' : ((writeProp (ownProps m) out before j).var m j).pElems = some ptr := by
    rw [← hafter.var, hvar, hptr']
  have hfinal := hafter.bytes hvector ptr hptr''
  simp only [idBytes, hvar, hptr', hfinal, hbytes, overwrite_toList]

theorem view_written (hl : Linked m (mem.object m)) (hm : m < mem.next) (out : ReceiveOutcome) :
    (mem.mqReceiveMessage (mem.object m).props out).view m = (mem.view m).written out := by
  have hmsgId := idBytes_written hl hm out (.inl rfl)
  have hcorrId := idBytes_written hl hm out (.inr rfl)
  simp only [view, getters, hmsgId, hcorrId, var_mqReceiveMessage hl hm]
  rfl

theorem heap_written (hl : Linked m (mem.object m)) (hm : m < mem.next) (out : ReceiveOutcome) :
    (mem.mqReceiveMessage (mem.object m).props out).heap =
      (mem.view m).heapWritten mem.heap out := by
  cases hbytes : out.bytes .body with
  | some bytes =>
      rw [heap_mqReceiveMessage hl hm hbytes, MsmqMessage.heapWritten, hbytes]
      cases (mem.view m).pElems <;> rfl
  | none =>
      obtain ⟨before, hbefore, hlinked, hafter⟩ := sameProp_mqReceiveMessage hl hm out .body
      have hbytes' : out.bytes (initialId .body) = none := hbytes
      have hsame : writeProp (ownProps m) out before .body = before := by
        rw [writeProp_vector hlinked rfl, hbytes']
      rw [hafter.heap rfl, hsame, hbefore.heap rfl, MsmqMessage.heapWritten, hbytes]
      cases (mem.view m).pElems <;> rfl

end Memory

namespace Store

variable {mem mem' : Memory} {st : Store} {act : MessageAction}

/-! ## The simulation -/

theorem shows_of (hl : mem.AllLinked) : Shows mem (of mem) := ⟨hl, rfl, fun _ _ => rfl, rfl⟩

variable (h : Shows mem st)

include h

/-- A change of one message: of the memory and of the store. -/
theorem Shows.message_put {o p : ObjRef} {msg : MsmqMessage} (hp : p ≠ o → p < mem.next)
    (hself : mem'.view o = msg) (hother : p ≠ o → mem'.object p = mem.object p) :
    mem'.view p = (st.put o msg).message p := by
  by_cases hpo : p = o
  · subst hpo
    exact hself.trans (st.message_put_self p msg).symm
  · have hsame := Memory.view_of_object (h.linked p (hp hpo)) (hother hpo)
    rw [hsame, h.message p (hp hpo)]
    exact (st.message_put_of_ne hpo msg).symm

/-- A new message is a new array, whatever its memory held before. -/
theorem Shows.new (raw : MessageObject) :
    Shows { mem.construct mem.next raw with next := mem.next + 1 }
      { st.put st.next (.new (Memory.rawArray raw)) with next := st.next + 1 } := by
  have hstep : mem.step (.new raw) =
      some { mem.construct mem.next raw with next := mem.next + 1 } := rfl
  refine ⟨Memory.allLinked_step h.linked hstep, congrArg (· + 1) h.next, fun o ho => ?_, h.heap⟩
  rw [← h.next]
  refine h.message_put (fun hne => ?_) (Memory.view_construct mem mem.next raw)
    fun hne => Function.update_of_ne hne _ _
  exact Nat.lt_of_le_of_ne (Nat.le_of_lt_succ ho) hne

/-- A setter changes the array of its message, and no other. -/
theorem Shows.set {o : ObjRef} (ho : o < mem.next) (setter : Setter) :
    Shows (mem.set o setter) (st.put o (setter.apply (st.message o))) := by
  have hl := h.linked o ho
  have hk := mem.keeps_set o setter
  refine ⟨h.linked.keeps hk, hk.next.trans h.next, fun p hp => ?_,
    (Memory.heap_set hl setter).trans h.heap⟩
  refine h.message_put (fun _ => hk.next ▸ hp) ?_ fun hne => Memory.object_set_of_ne hl hne setter
  rw [Memory.view_set hl setter, h.message o ho]

/-- A receive writes what MSMQ gives into the array of its message, and the body into the heap.
This is the step with the two copies. -/
theorem Shows.receive {o : ObjRef} (ho : o < mem.next) (q : MsmqQueue) (raw : MessageObject)
    (out : ReceiveOutcome) :
    Shows (Jni.receiveMessage mem q (some o) raw out []).2.2
      { st.put o ((st.message o).written out) with
        heap := (st.message o).heapWritten st.heap out } := by
  have hl := h.linked o ho
  have hk := mem.keeps_receive q o raw out []
  have hkeeps := mem.keeps_mqReceiveMessage (mem.object o).props out
  obtain ⟨-, -, hagree⟩ := Memory.agree_receive hl ho q raw out []
  refine ⟨h.linked.keeps hk, hk.next.trans h.next, fun p hp => ?_, ?_⟩
  · -- the wrapper's copies are gone: what is left is a receive by reference
    rw [hk.next] at hp
    rw [hagree.view ((h.linked p hp).keeps (hkeeps.links p hp)) hp (hagree.object p hp)]
    refine h.message_put (fun _ => hp) ?_ fun hne =>
      Memory.object_mqReceiveMessage_of_ne hl ho hne
    rw [← h.message o ho]
    exact Memory.view_written hl ho out
  · rw [hagree.heap, ← h.message o ho, ← h.heap]
    exact Memory.heap_written hl ho out

/-- What Java code does to buffers concerns no array. -/
theorem Shows.java (heap : Heap) :
    Shows { mem with heap := heap } { st with heap := heap } := by
  refine ⟨h.linked, h.next, fun o ho => ?_, rfl⟩
  refine Eq.trans ?_ (h.message o ho)
  have hobject : ({ mem with heap := heap } : Memory).object o = mem.object o := rfl
  exact Memory.view_of_object (h.linked o ho) hobject

/-- One action of the memory is that action on values. -/
theorem Shows.step (hstep : mem.step act = some mem') :
    ∃ st', Store.step st act = some st' ∧ Shows mem' st' := by
  cases act with
  | new raw =>
      cases hstep
      exact ⟨_, rfl, h.new raw⟩
  | set o setter =>
      obtain ⟨ho, hset⟩ := Option.ite_none_right_eq_some.mp hstep
      have hst : o < st.next := h.next ▸ ho
      cases hset
      exact ⟨_, by rw [Store.step, if_pos hst], h.set ho setter⟩
  | receive o q raw out =>
      obtain ⟨ho, hreceive⟩ := Option.ite_none_right_eq_some.mp hstep
      have hst : o < st.next := h.next ▸ ho
      cases hreceive
      exact ⟨_, by rw [Store.step, if_pos hst], h.receive ho q raw out⟩
  | java heap =>
      cases hstep
      exact ⟨_, rfl, h.java heap⟩

omit h

/-- The rule for runs, at a memory and its store: every step of the memory has a step of the
store beside it. -/
theorem shows_of_run {start : Memory} {acts : List MessageAction} (hl : start.AllLinked)
    (hrun : Runs.run Memory.step start acts = some mem) :
    ∃ st, Runs.run step (of start) acts = some st ∧ Shows mem st := by
  have hmatch : ∀ mem st act mem', Shows mem st → Memory.step mem act = some mem' →
      ∃ st', step st act = some st' ∧ Shows mem' st' := fun _ _ _ _ h hstep => h.step hstep
  exact Runs.run_lockstep hmatch (shows_of hl) hrun

end Store

theorem Memory.allLinked_of_next {mem : Memory} (hnext : mem.next = 0) : mem.AllLinked :=
  fun o ho => absurd (hnext ▸ ho) (Nat.not_lt_zero o)

/-- **Messages are values.**  Whatever is done with the messages of a memory, in whatever order,
the getters of each show what the operations on values give.  A run on the memory, with all its
pointers and temporaries, has a run on a store of arrays beside it, and the two agree on every
message and on the heap.  In particular no operation on one message shows in another. -/
theorem messages_are_values {start mem : Memory} {acts : List MessageAction}
    (hstart : start.next = 0) (hrun : Runs.run Memory.step start acts = some mem) :
    ∃ st, Runs.run Store.step (.of start) acts = some st ∧ mem.next = st.next ∧
      (∀ o, o < mem.next → mem.view o = st.message o) ∧ mem.heap = st.heap := by
  obtain ⟨st, hst, hshows⟩ := Store.shows_of_run (Memory.allLinked_of_next hstart) hrun
  exact ⟨st, hst, hshows.next, hshows.message, hshows.heap⟩

/-- Of two messages one is given priority 5, and a message of priority 7 is received into the
other. -/
theorem messages_are_values_two :
    let raw : MessageObject := ⟨⟨0, 0, 0⟩, fun _ => .body, fun _ => ⟨.ui4, 0, 0, 0, none⟩,
      .replicate 20 0, .replicate 20 0⟩
    let start : Memory := ⟨0, fun _ => raw, ⟨0, fun _ => []⟩⟩
    let out : ReceiveOutcome := ⟨0, fun _ => some 7, fun _ => none, fun _ => none⟩
    let acts : List MessageAction :=
      [.new raw, .new raw, .set 0 (.priority 5), .receive 1 .new raw out]
    ∃ mem st, Runs.run Memory.step start acts = some mem ∧
      Runs.run Store.step (.of start) acts = some st ∧
      (st.message 0).props.priority = 5 ∧ (st.message 1).props.priority = 7 := by
  intro raw start out acts
  have hrun : (Runs.run Memory.step start acts).map
      (fun mem => (mem.next, (mem.view 0).props.priority, (mem.view 1).props.priority)) =
      some (2, 5, 7) := by
    decide +kernel
  obtain ⟨mem, hmem, hseen⟩ := Option.map_eq_some_iff.mp hrun
  obtain ⟨hnext, hpriorities⟩ := Prod.mk.inj hseen
  obtain ⟨hfirst, hsecond⟩ := Prod.mk.inj hpriorities
  obtain ⟨st, hst, -, hview, -⟩ := messages_are_values rfl hmem
  refine ⟨mem, st, hmem, hst, ?_, ?_⟩
  · rw [← hview 0 (by rw [hnext]; decide), hfirst]
  · rw [← hview 1 (by rw [hnext]; decide), hsecond]

/-! ## The history of one message -/

namespace MessageAction

/-- The message that an action names. -/
def on? : MessageAction → Option ObjRef
  | .set o _ => some o
  | .receive o _ _ _ => some o
  | _ => none

/-- What an action does to the message it names. -/
def apply (msg : MsmqMessage) : MessageAction → MsmqMessage
  | .set _ setter => setter.apply msg
  | .receive _ _ _ out => msg.written out
  | _ => msg

end MessageAction

namespace Store

variable {st st' : Store} {o : ObjRef} {act : MessageAction}

/-- An action changes the message it names and no other. -/
theorem message_step (hstep : st.step act = some st') (ho : o < st.next) :
    st'.message o = (if act.on? = some o then act.apply (st.message o) else st.message o) ∧
      st.next ≤ st'.next := by
  have hput : ∀ p msg, p < st.next → (st.put p msg).message o =
      if p = o then msg else st.message o := by
    intro p msg hp
    by_cases hpo : p = o
    · subst hpo
      rw [message_put_self, if_pos rfl]
    · rw [message_put_of_ne st (Ne.symm hpo), if_neg hpo]
  cases act with
  | new raw =>
      cases hstep
      exact ⟨message_put_of_ne st (Nat.ne_of_lt ho) _, Nat.le_succ _⟩
  | set p setter =>
      obtain ⟨hp, hset⟩ := Option.ite_none_right_eq_some.mp hstep
      cases hset
      refine ⟨(hput p _ hp).trans ?_, Nat.le_refl _⟩
      by_cases hpo : p = o <;> simp [MessageAction.on?, MessageAction.apply, hpo]
  | receive p q raw out =>
      obtain ⟨hp, hreceive⟩ := Option.ite_none_right_eq_some.mp hstep
      cases hreceive
      refine ⟨(hput p _ hp).trans ?_, Nat.le_refl _⟩
      by_cases hpo : p = o <;> simp [MessageAction.on?, MessageAction.apply, hpo]
  | java heap =>
      cases hstep
      exact ⟨rfl, Nat.le_refl _⟩

/-- A message is what the actions that name it make of it.  The induction is on the run. -/
theorem message_run {acts : List MessageAction} (hrun : Runs.run step st acts = some st')
    (ho : o < st.next) :
    st'.message o = (acts.filter (·.on? = some o)).foldl MessageAction.apply (st.message o) ∧
      o < st'.next := by
  induction acts generalizing st with
  | nil =>
      obtain rfl : st = st' := Option.some.inj hrun
      exact ⟨rfl, ho⟩
  | cons act rest ih =>
      obtain ⟨middle, hstep, hrest⟩ := (Runs.run_cons_iff step).mp hrun
      obtain ⟨hmessage, hnext⟩ := message_step hstep ho
      obtain ⟨hlast, ho'⟩ := ih hrest (Nat.lt_of_lt_of_le ho hnext)
      refine ⟨?_, ho'⟩
      rw [hlast, hmessage]
      by_cases hon : act.on? = some o <;> simp [hon]

end Store

/-- What is seen of a message is what has been done with it, whatever has been done with others
in between. -/
theorem Memory.view_of_run {mem mem' : Memory} {o : ObjRef} {acts : List MessageAction}
    (hl : mem.AllLinked) (hrun : Runs.run Memory.step mem acts = some mem') (ho : o < mem.next) :
    mem'.view o = (acts.filter (·.on? = some o)).foldl MessageAction.apply (mem.view o) ∧
      mem'.AllLinked ∧ o < mem'.next := by
  obtain ⟨st, hst, hshows⟩ := Store.shows_of_run hl hrun
  obtain ⟨hmessage, ho'⟩ := Store.message_run hst ho
  rw [← hshows.next] at ho'
  exact ⟨(hshows.message o ho').trans hmessage, hshows.linked, ho'⟩

end Msmq
