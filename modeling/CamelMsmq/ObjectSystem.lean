import CamelMsmq.TaskObjects
import CamelMsmq.Transmission

/-!
# The system on message objects

`System` has messages as arrays of properties, and a thread makes, sets up and sends its message
in one step.  Here all messages are objects in one memory, those that the workers receive into
and those that the sending threads make, and a thread makes its message, calls one setter after
the other and sends it, while others go on.

The invariant `Tidy` says who has which message: every object is linked and belongs to one
thread or worker at most.  So whoever acts changes a message of his own, and what the others see
of theirs stays (`Tidy.moves`).  The steps of a thread between the construction and the send are
not to be seen at all, because what is sent depends on the finished message only.

`objects_refine` says that every run of this system looks like a run of `System` with the same
trace: nothing of what threads and workers do to each other's memory can be noticed.
-/

namespace Msmq

/-- A worker that receives into an object. -/
structure ObjectWorker where
  pc : ObjectPc
  scheduled : Bool
  runs : Nat

namespace ObjectWorker

def seen (mem : Memory) (w : ObjectWorker) : Worker := ⟨w.pc.seen mem, w.scheduled, w.runs⟩

/-- The worker after a step of its run. -/
def goOn (w : ObjectWorker) : ObjectAfter → ObjectWorker
  | .goOn pc => { w with pc := pc }
  | .ended thrown => ⟨.outside .idle, w.scheduled && thrown.isNone, w.runs + 1⟩

/-- The start of a run. -/
def start (w : ObjectWorker) (size : Nat) : ObjectWorker :=
  { w with pc := .outside (if size = 1 then .atElement else .atCreate size none) }

end ObjectWorker

/-- A message that a thread makes in `process`: where it lies, what its memory held before, for
the record, and the setters that are still to be called. -/
structure Making where
  message : ObjRef
  raw : MessageObject
  todo : List MessageAction

/-- The step is the send of a message. -/
def Threads.sendsMessage {P : Nat} (s : Threads P) : ThreadAction P → Bool
  | .send p _ _ =>
      match s.thread p with
      | .atSend (some _) => true
      | _ => false
  | _ => false

/-- The action is a step of `doStop`. -/
def Action.isStop {N : Nat} : Action N → Bool
  | start _ => false
  | task _ _ => false
  | _ => true

/-- A producer with its threads, the MSMQ queue and a consumer; the messages lie in a memory.
`making` are the messages that threads have made and not yet sent. -/
structure ObjectSystem (P N : Nat) where
  sender : Threads P
  making : Fin P → Option Making
  objects : ObjectShared
  worker : Fin N → ObjectWorker
  phase : Phase
  queue : List MqMessage
  promised : Fin P → Promise

/-- What may happen.  A thread that has a buffer to send makes a message, sets it up and sends
it; all other steps of the threads are those of `Threads`. -/
inductive ObjectAction (P N : Nat)
  | sender (act : ThreadAction P)
  | make (p : Fin P) (raw : MessageObject)
  | set (p : Fin P)
  | send (p : Fin P) (hr : Hresult)
  | start (w : Fin N)
  | task (w : Fin N) (ans : ObjectAnswer) (place : Nat)
  | stop (act : Action N)
  | discard (place : Nat)
  | allocate (size : Nat)
  | write (a : Addr) (offset : Nat) (bytes : List UInt8)

namespace ObjectSystem

variable {P N : Nat}

/-- Before anything has been sent; the memory has no messages yet. -/
def init (P N : Nat) (endpoint : MsmqEndpoint) (object : ObjRef → MessageObject) :
    ObjectSystem P N where
  sender := .init P endpoint (Consumer.doStart N).shared.heap
  making := fun _ => none
  objects := ⟨(Consumer.doStart N).shared, 0, object⟩
  worker := fun _ => ⟨.outside .idle, true, 0⟩
  phase := .running
  queue := []
  promised := fun _ => .copied []

def memory (s : ObjectSystem P N) : Memory := s.objects.memory

def heap (s : ObjectSystem P N) : Heap := s.objects.shared.heap

/-- The consumer with what the getters show of its messages. -/
def consumer (s : ObjectSystem P N) : Consumer N :=
  ⟨s.objects.shared, fun w => (s.worker w).seen s.memory, s.phase⟩

/-- The system with what the getters show of the messages. -/
def seen (s : ObjectSystem P N) : System P N := ⟨s.sender, s.consumer, s.queue, s.promised⟩

/-- The system with another heap. -/
def withHeap (s : ObjectSystem P N) (heap : Heap) : ObjectSystem P N :=
  { s with
    sender := { s.sender with heap := heap }
    objects := s.objects.withMemory { s.memory with heap := heap } }

/-- One action. -/
def step (sender receiver : MsmqEndpoint) (s : ObjectSystem P N) :
    ObjectAction P N → Option (ObjectSystem P N)
  | .sender act =>
      if System.Callable s.heap act ∧ s.sender.sendsMessage act = false then
        match s.sender.step sender act with
        | some t => some { s.withHeap t.heap with sender := t, promised := s.seen.promise act }
        | none => none
      else none
  | .make p raw =>
      match s.sender.thread p, s.making p with
      | .atSend (some body), none =>
          let o := s.objects.next
          let making : Making := ⟨o, raw, s.sender.producer.settings o body⟩
          some { s with
            making := Function.update s.making p (some making)
            objects := s.objects.withMemory { s.memory.construct o raw with next := o + 1 } }
      | _, _ => none
  | .set p =>
      match s.making p with
      | some ⟨o, raw, act :: rest⟩ =>
          match s.memory.step act with
          | some mem => some { s with
              making := Function.update s.making p (some ⟨o, raw, rest⟩)
              objects := s.objects.withMemory mem }
          | none => none
      | _ => none
  | .send p hr =>
      match s.making p with
      | some ⟨o, _, []⟩ =>
          let r := Jni.sendMessage s.memory s.sender.producer.queue (some o) hr s.sender.calls
          let producer := { s.sender.producer with queue := r.2.1 }
          some { s with
            sender := { s.sender with producer := producer, calls := r.2.2 }.goOn p .idle
            making := Function.update s.making p none
            queue := s.queue ++ enqueuedSince s.sender.calls r.2.2 }
      | _ => none
  | .start w =>
      match s.phase, (s.worker w).scheduled, (s.worker w).pc with
      | .running, true, .outside .idle => some { s with
          worker := Function.update s.worker w
            ((s.worker w).start s.objects.shared.queues.length) }
      | _, _, _ => none
  | .task w ans place =>
      match System.take s.queue place (.task w ans.seen),
        ObjectTask.step receiver ⟨w, (s.worker w).runs⟩ s.objects (s.worker w).pc ans with
      | some queue, some (after, objects) => some { s with
          sender := { s.sender with heap := objects.shared.heap }
          objects := objects
          worker := Function.update s.worker w ((s.worker w).goOn after)
          phase := s.phase.observe objects.shared.queues
          queue := queue }
      | _, _ => none
  | .stop act =>
      if act.isStop then
        match s.consumer.step receiver act with
        | some c => some { s with
            objects := { s.objects with shared := c.shared }
            phase := c.phase }
        | none => none
      else none
  | .discard place =>
      match s.queue[place]? with
      | some m =>
          if m.props.timeToBeReceived = infinite then none
          else some { s with queue := s.queue.eraseIdx place }
      | none => none
  | .allocate size => some (s.withHeap (s.heap.allocate size))
  | .write a offset bytes =>
      if s.seen.Private a then none else some (s.withHeap (s.heap.write a offset bytes))

/-- What an action shows. -/
def label (sender : MsmqEndpoint) (s : ObjectSystem P N) :
    ObjectAction P N → Option (Channel.Label Parcel Delivery)
  | .send p hr =>
      if failed hr then none
      else some (.send (.asked sender ((s.promised p).bytes s.heap)))
  | .task w (.processes _ _ _) _ =>
      match (s.worker w).pc with
      | .atProcess _ _ loop =>
          some (.deliver ((loop.exchange).shown s.heap))
      | _ => none
  | .discard place => (s.queue[place]?).map fun m => .drop (.of m)
  | _ => none

/-! ## Whose message is whose -/

/-- The message of a thread or of a worker. -/
def message? (s : ObjectSystem P N) : Fin P ⊕ Fin N → Option ObjRef
  | .inl p => (s.making p).map (·.message)
  | .inr w => (s.worker w).pc.message?

/-- A message that a thread makes: with the setters that are still to come it will be what
`process` sends. -/
structure Made (sender : MsmqEndpoint) (s : ObjectSystem P N) (p : Fin P) (m : Making) : Prop where
  buffer : ∃ body, s.sender.thread p = .atSend (some body) ∧
    m.todo.foldl MessageAction.apply (s.memory.view m.message) =
      (MsmqProducer.new sender).message (Memory.rawArray m.raw) body
  sets : ∀ act ∈ m.todo, ∃ setter, act = .set m.message setter

/-- Every message is linked and belongs to one thread or worker at most, and threads make what
they are to send. -/
structure Tidy (sender : MsmqEndpoint) (s : ObjectSystem P N) : Prop where
  linked : s.memory.AllLinked
  bounded : ∀ i o, s.message? i = some o → o < s.memory.next
  own : ∀ i j o, s.message? i = some o → s.message? j = some o → i = j
  made : ∀ p m, s.making p = some m → s.Made sender p m

variable {sender receiver : MsmqEndpoint} {s s' : ObjectSystem P N} {i j : Fin P ⊕ Fin N}
  {own' : Option ObjRef}

theorem tidy_init (endpoint : MsmqEndpoint) (object : ObjRef → MessageObject) :
    (init P N endpoint object).Tidy sender := by
  have hnone : ∀ i, (init P N endpoint object).message? i = none := by
    intro i
    cases i <;> rfl
  refine ⟨Memory.allLinked_of_next rfl, fun i o ho => ?_, fun i j o ho => ?_, fun p m hm => ?_⟩
  · rw [hnone] at ho
    cases ho
  · rw [hnone] at ho
    cases ho
  · cases hm

/-- **One of them acts**, on its own message.  The step may give the message up or make a new
one, and all others still have theirs. -/
theorem Tidy.moves (ht : s.Tidy sender)
    (hmoves : Memory.Moves (s.message? i) own' s.memory s'.memory)
    (hmessage : s'.message? = Function.update s.message? i own')
    (hmade : ∀ p m, s'.making p = some m → s'.Made sender p m) : s'.Tidy sender := by
  have hself : s'.message? i = own' := by rw [hmessage, Function.update_self]
  have hother : ∀ j, j ≠ i → s'.message? j = s.message? j := fun j hj => by
    rw [hmessage, Function.update_of_ne hj]
  -- what is new in one's hands is in nobody else's
  have hapart : ∀ j o, j ≠ i → s'.message? i = some o → s'.message? j ≠ some o := by
    intro j o hj hi ho
    rw [hother j hj] at ho
    rcases hmoves.owned o (hself ▸ hi) with hold | hnew
    · exact hj (ht.own j i o ho hold)
    · exact Nat.not_lt_of_le hnew (ht.bounded j o ho)
  refine ⟨hmoves.linked, fun j o ho => ?_, fun j k o hj hk => ?_, hmade⟩
  · by_cases hj : j = i
    · subst hj
      exact hmoves.bounded o (hself ▸ ho)
    · rw [hother j hj] at ho
      exact Nat.lt_of_lt_of_le (ht.bounded j o ho) hmoves.next_le
  · by_cases hji : j = i
    · by_cases hki : k = i
      · rw [hji, hki]
      · exact absurd hk (hapart k o hki (hji ▸ hj))
    · by_cases hki : k = i
      · exact absurd hj (hapart j o hji (hki ▸ hk))
      · rw [hother j hji] at hj
        rw [hother k hki] at hk
        exact ht.own j k o hj hk

/-- What the others see of their messages stays, because whoever acts keeps to the message that
he has. -/
theorem Tidy.view_others (ht : s.Tidy sender) {mem : Memory}
    (hmoves : Memory.Moves (s.message? i) own' s.memory mem) (hj : j ≠ i) {o : ObjRef}
    (ho : s.message? j = some o) : mem.view o = s.memory.view o :=
  hmoves.others o (ht.bounded j o ho) fun hi => hj (ht.own j i o ho hi)

theorem seen_congr {mem mem' : Memory} {pc : ObjectPc}
    (hview : ∀ o, pc.message? = some o → mem'.view o = mem.view o) :
    pc.seen mem' = pc.seen mem := by
  cases pc with
  | outside pc => rfl
  | atReceive size queue loop =>
      simp only [ObjectPc.seen, ObjectLoop.seen, hview loop.msmqMessage rfl]
  | atProcess size queue loop =>
      simp only [ObjectPc.seen, ObjectLoop.seen, hview loop.msmqMessage rfl]

/-- A worker that does not act looks as before. -/
theorem Tidy.seen_others (ht : s.Tidy sender) {mem : Memory} {w : Fin N}
    (hmoves : Memory.Moves (s.message? i) own' s.memory mem) (hw : .inr w ≠ i) :
    (s.worker w).seen mem = (s.worker w).seen s.memory := by
  have hpc : (s.worker w).pc.seen mem = (s.worker w).pc.seen s.memory :=
    seen_congr fun o ho => ht.view_others hmoves hw ho
  simp only [ObjectWorker.seen, hpc]

/-! ## One action -/

/-- The action is one of `System` that shows the same, or nothing is to be seen of it. -/
def Matches (sender receiver : MsmqEndpoint) (s : ObjectSystem P N) (act : ObjectAction P N)
    (s' : ObjectSystem P N) : Prop :=
  (s'.seen = s.seen ∧ s.label sender act = none) ∨
    ∃ act', s.seen.step sender receiver act' = some s'.seen ∧
      s.seen.label sender act' = s.label sender act

theorem Made.congr {p : Fin P} {m : Making} (hm : s.Made sender p m)
    (hthread : s'.sender.thread p = s.sender.thread p)
    (hview : s'.memory.view m.message = s.memory.view m.message) : s'.Made sender p m := by
  obtain ⟨body, hpc, hmessage⟩ := hm.buffer
  refine ⟨⟨body, hthread.trans hpc, ?_⟩, hm.sets⟩
  rw [hview]
  exact hmessage

/-- The message of a thread is among the messages. -/
theorem message?_making {p : Fin P} {m : Making} (hm : s.making p = some m) :
    s.message? (.inl p) = some m.message := by
  simp only [message?, hm, Option.map_some]

/-- The heap changes, and nothing else; the messages do not depend on it. -/
theorem Tidy.withHeap (ht : s.Tidy sender) (heap : Heap) :
    (s.withHeap heap).Tidy sender ∧ (s.withHeap heap).seen = s.seen.withHeap heap := by
  have hview : ∀ i o, s.message? i = some o →
      (s.withHeap heap).memory.view o = s.memory.view o :=
    fun i o ho => Memory.view_of_object (ht.linked o (ht.bounded i o ho)) rfl
  refine ⟨⟨ht.linked, ht.bounded, ht.own, fun p m hm => ?_⟩, ?_⟩
  · exact (ht.made p m hm).congr rfl (hview _ _ (message?_making hm))
  · have hworker : ∀ w,
        (s.worker w).seen (s.withHeap heap).memory = (s.worker w).seen s.memory := by
      intro w
      have hpc : (s.worker w).pc.seen (s.withHeap heap).memory = (s.worker w).pc.seen s.memory :=
        seen_congr fun o ho => hview (.inr w) o ho
      simp only [ObjectWorker.seen, hpc]
    show (⟨_, ⟨_, fun w => (s.worker w).seen (s.withHeap heap).memory, _⟩, _, _⟩ : System P N) = _
    simp only [hworker]
    rfl

end ObjectSystem

namespace Threads

variable {P : Nat} {endpoint : MsmqEndpoint} {s t : Threads P} {act : ThreadAction P}

/-- A thread that has a buffer to send waits while nothing is sent. -/
theorem thread_of_waiting {p : Fin P} {body : ByteBuffer}
    (hpc : s.thread p = .atSend (some body)) (hnot : s.sendsMessage act = false)
    (h : s.step endpoint act = some t) : t.thread p = .atSend (some body) := by
  have hgoOn : ∀ {w : Fin P} {place : Sending}, s.thread w ≠ .atSend (some body) →
      Function.update s.thread w place p = .atSend (some body) := by
    intro w place hw
    have hne : p ≠ w := fun heq => hw (heq ▸ hpc)
    rw [Function.update_of_ne hne, hpc]
  cases steps_of_step h with
  | call e hidle => exact hgoOn (by simp [hidle])
  | isOpen hw hplace => exact hgoOn (by simp [hw])
  | «open» a hw hplace => exact hgoOn (by simp [hw])
  | encode hw hencode => exact hgoOn (by simp [hw])
  | notEncoded hw => exact hgoOn (by simp [hw])
  | @send w buffer raw hr hw =>
      refine hgoOn fun heq => ?_
      simp [sendsMessage, heq] at hnot
  | doStart => exact hpc
  | doStop hr hidle => exact hpc

theorem sent?_of_not_sends (hnot : s.sendsMessage act = false) : s.sent? act = none := by
  cases hsent : s.sent? act with
  | none => rfl
  | some m =>
      obtain ⟨p, b, raw, hr, rfl, hpc, -, -⟩ := sent?_eq_some hsent
      simp [sendsMessage, hpc] at hnot

end Threads

namespace ObjectSystem

variable {P N : Nat} {sender receiver : MsmqEndpoint} {s s' : ObjectSystem P N}

/-- **A step of the threads** that sends nothing. -/
theorem Tidy.step_sender (ht : s.Tidy sender) (hs : s.seen.Sound sender receiver)
    {act : ThreadAction P} {t : Threads P} (hcall : System.Callable s.heap act)
    (hnot : s.sender.sendsMessage act = false) (hstep : s.sender.step sender act = some t) :
    let s' : ObjectSystem P N :=
      { s.withHeap t.heap with sender := t, promised := s.seen.promise act }
    s'.Tidy sender ∧ s.Matches sender receiver (.sender act) s' := by
  intro s'
  obtain ⟨ht', hseen⟩ := ht.withHeap t.heap
  have hsent : s.seen.sender.sent? act = none := Threads.sent?_of_not_sends hnot
  refine ⟨⟨ht'.linked, ht'.bounded, ht'.own, fun p m hm => ?_⟩, .inr ⟨.sender act, ?_, ?_⟩⟩
  · obtain ⟨body, hpc, -⟩ := (ht.made p m hm).buffer
    have hthread : t.thread p = s.sender.thread p := by
      rw [hpc]
      exact Threads.thread_of_waiting hpc hnot hstep
    exact (ht'.made p m hm).congr hthread rfl
  · have hcall : System.Callable s.seen.heap act := hcall
    have hstep : s.seen.sender.step sender act = some t := hstep
    have hconsumer : s'.consumer = s.consumer.withHeap t.heap := congrArg System.receiver hseen
    have hnothing : enqueuedSince s.seen.sender.calls t.calls = [] := by
      rw [Threads.enqueuedSince_step hstep, hsent, Option.toList_none]
    simp only [System.step, if_pos hcall, hstep, hnothing, List.append_nil]
    show _ = some (⟨t, s'.consumer, _, _⟩ : System P N)
    rw [hconsumer]
    rfl
  · rw [hs.label_sender act, hsent]
    rfl

/-- **A thread goes on with its message**; the others see theirs as before. -/
theorem Tidy.maker (ht : s.Tidy sender) {p : Fin P} {x : Option Making}
    (hmaking : s'.making = Function.update s.making p x) (hworker : s'.worker = s.worker)
    (hmoves : Memory.Moves (s.message? (.inl p)) (x.map (·.message)) s.memory s'.memory)
    (hthread : ∀ q, q ≠ p → s'.sender.thread q = s.sender.thread q)
    (hmade : ∀ m, x = some m → s'.Made sender p m) :
    s'.Tidy sender ∧
      (fun w => (s'.worker w).seen s'.memory) = fun w => (s.worker w).seen s.memory := by
  have hmessage : s'.message? = Function.update s.message? (.inl p) (x.map (·.message)) := by
    funext i
    cases i with
    | inl q =>
        by_cases hq : q = p
        · subst hq
          simp only [message?, hmaking, Function.update_self]
        · have hne : (Sum.inl q : Fin P ⊕ Fin N) ≠ .inl p := fun heq => hq (Sum.inl.inj heq)
          rw [Function.update_of_ne hne]
          simp only [message?, hmaking, Function.update_of_ne hq]
    | inr w =>
        rw [Function.update_of_ne (by simp)]
        simp only [message?, hworker]
  refine ⟨ht.moves hmoves hmessage fun q m hm => ?_, ?_⟩
  · by_cases hq : q = p
    · subst hq
      rw [hmaking, Function.update_self] at hm
      exact hmade m hm
    · rw [hmaking, Function.update_of_ne hq] at hm
      have hne : (Sum.inl q : Fin P ⊕ Fin N) ≠ .inl p := fun heq => hq (Sum.inl.inj heq)
      exact (ht.made q m hm).congr (hthread q hq) (ht.view_others hmoves hne (message?_making hm))
  · funext w
    rw [hworker]
    exact ht.seen_others hmoves (by simp)

/-- The settings are all that a message needs of its producer. -/
theorem message_of_configured {producer : MsmqProducer}
    (hp : ProducerState.Configured sender producer) (raw : MsmqMessage) (body : ByteBuffer) :
    producer.message raw body = (MsmqProducer.new sender).message raw body := by
  unfold MsmqProducer.message
  rw [hp.deliveryPersistent, hp.timeToLive, hp.priority]
  rfl

/-- Between the construction and the send come setters only. -/
theorem exists_setter {producer : MsmqProducer} {o : ObjRef} {body : ByteBuffer}
    {act : MessageAction} (hact : act ∈ producer.settings o body) :
    ∃ setter, act = .set o setter := by
  simp only [MsmqProducer.settings, List.mem_append, List.mem_cons, List.not_mem_nil,
    or_false] at hact
  rcases hact with (rfl | hdelivery) | rfl | rfl
  · exact ⟨_, rfl⟩
  · split at hdelivery
    · exact ⟨_, List.mem_singleton.mp hdelivery⟩
    · cases hdelivery
  · exact ⟨_, rfl⟩
  · exact ⟨_, rfl⟩

/-- A thread works on its message: nothing of that is to be seen. -/
theorem seen_eq_of_maker {objects : ObjectShared} {making : Fin P → Option Making}
    (hheap : objects.shared.heap = s.heap)
    (hworkers : (fun w => (s.worker w).seen objects.memory) =
      fun w => (s.worker w).seen s.memory)
    (hshared : objects.shared = { s.objects.shared with heap := objects.shared.heap }) :
    seen { s with making := making, objects := objects } = s.seen := by
  show (⟨_, ⟨objects.shared, fun w => (s.worker w).seen objects.memory, _⟩, _, _⟩ :
    System P N) = _
  rw [hworkers, hshared, hheap]
  rfl

/-- A thread **makes its message**. -/
theorem Tidy.step_make (ht : s.Tidy sender) (hs : s.seen.Sound sender receiver) {p : Fin P}
    (raw : MessageObject) {body : ByteBuffer} (hpc : s.sender.thread p = .atSend (some body)) :
    let o := s.objects.next
    let making : Making := ⟨o, raw, s.sender.producer.settings o body⟩
    let s' : ObjectSystem P N :=
      { s with
        making := Function.update s.making p (some making)
        objects := s.objects.withMemory { s.memory.construct o raw with next := o + 1 } }
    s'.Tidy sender ∧ s.Matches sender receiver (.make p raw) s' := by
  intro o making s'
  have hmoves : Memory.Moves (s.message? (.inl p)) (some o) s.memory s'.memory :=
    Memory.moves_new ht.linked raw
  have hmade : s'.Made sender p making := by
    have hview : s'.memory.view o = .new (Memory.rawArray raw) :=
      Memory.view_construct s.memory o raw
    refine ⟨⟨body, hpc, ?_⟩, fun act hact => ?_⟩
    · rw [hview, MsmqProducer.apply_settings]
      exact message_of_configured hs.configured _ _
    · exact exists_setter hact
  obtain ⟨ht', hworkers⟩ : s'.Tidy sender ∧ _ := ht.maker rfl rfl hmoves (fun _ _ => rfl)
    fun m hm => Option.some.inj hm ▸ hmade
  exact ⟨ht', .inl ⟨seen_eq_of_maker rfl hworkers rfl, rfl⟩⟩

/-- A thread **calls a setter** of its message. -/
theorem Tidy.step_set (ht : s.Tidy sender) {p : Fin P} {o : ObjRef} {raw : MessageObject}
    {act : MessageAction} {rest : List MessageAction} {mem : Memory}
    (hmaking : s.making p = some ⟨o, raw, act :: rest⟩) (hstep : s.memory.step act = some mem) :
    let s' : ObjectSystem P N :=
      { s with
        making := Function.update s.making p (some ⟨o, raw, rest⟩)
        objects := s.objects.withMemory mem }
    s'.Tidy sender ∧ s.Matches sender receiver (.set p) s' := by
  intro s'
  obtain ⟨⟨body, hpc, hmessage⟩, hsets⟩ := ht.made p _ hmaking
  obtain ⟨setter, hact⟩ := hsets act List.mem_cons_self
  obtain rfl : act = .set o setter := hact
  have hown : s.message? (.inl p) = some o := message?_making hmaking
  have ho := ht.bounded _ o hown
  obtain ⟨-, hset⟩ := Option.ite_none_right_eq_some.mp hstep
  obtain rfl := Option.some.inj hset
  have hmoves : Memory.Moves (s.message? (.inl p)) (some o) s.memory (s.memory.set o setter) := by
    rw [hown]
    exact Memory.moves_set ht.linked ho setter
  have hmade : s'.Made sender p ⟨o, raw, rest⟩ := by
    refine ⟨⟨body, hpc, ?_⟩, fun other hother => hsets other (List.mem_cons_of_mem _ hother)⟩
    have hview : s'.memory.view o = setter.apply (s.memory.view o) :=
      Memory.view_set (ht.linked o ho) setter
    rw [hview]
    exact hmessage
  obtain ⟨ht', hworkers⟩ : s'.Tidy sender ∧ _ := ht.maker rfl rfl hmoves (fun _ _ => rfl)
    fun m hm => Option.some.inj hm ▸ hmade
  have hheap := Memory.heap_set (ht.linked o ho) setter
  exact ⟨ht', .inl ⟨seen_eq_of_maker hheap hworkers rfl, rfl⟩⟩

/-- What MSMQ reads from a message that has been set up is what `process` sends of the same
buffer. -/
theorem Tidy.sends (ht : s.Tidy sender) (hs : s.seen.Sound sender receiver) {p : Fin P}
    {o : ObjRef} {raw : MessageObject} (hmaking : s.making p = some ⟨o, raw, []⟩) :
    ∃ body, s.sender.thread p = .atSend (some body) ∧
      s.memory.mqSendMessage (s.memory.object o).props =
        (s.sender.producer.message (Memory.rawArray raw) body).sent s.sender.heap := by
  obtain ⟨⟨body, hpc, hmessage⟩, -⟩ := ht.made p _ hmaking
  have ho := ht.bounded _ o (message?_making hmaking)
  have hp : ProducerState.Configured sender s.sender.producer := hs.configured
  have hview : s.memory.view o = s.sender.producer.message (Memory.rawArray raw) body := by
    rw [message_of_configured hp]
    exact hmessage
  have hheap : s.sender.heap = s.memory.heap := hs.sameHeap
  exact ⟨body, hpc, by rw [Memory.mqSendMessage_linked (ht.linked o ho), hview, hheap]⟩

/-- A thread **sends its message**. -/
theorem Tidy.step_send (ht : s.Tidy sender) (hs : s.seen.Sound sender receiver) {p : Fin P}
    {o : ObjRef} {raw : MessageObject} (hr : Hresult)
    (hmaking : s.making p = some ⟨o, raw, []⟩) :
    let r := Jni.sendMessage s.memory s.sender.producer.queue (some o) hr s.sender.calls
    let producer := { s.sender.producer with queue := r.2.1 }
    let s' : ObjectSystem P N :=
      { s with
        sender := { s.sender with producer := producer, calls := r.2.2 }.goOn p .idle
        making := Function.update s.making p none
        queue := s.queue ++ enqueuedSince s.sender.calls r.2.2 }
    s'.Tidy sender ∧ s.Matches sender receiver (.send p hr) s' := by
  intro r producer s'
  obtain ⟨body, hpc, hmessage⟩ := ht.sends hs hmaking
  have hmoves : Memory.Moves (s.message? (.inl p)) none s.memory s'.memory :=
    Memory.moves_refl ht.linked (fun o heq => by cases heq) (ht.bounded _)
  obtain ⟨ht', hworkers⟩ : s'.Tidy sender ∧ _ := ht.maker rfl rfl hmoves
    (fun q hq => Function.update_of_ne hq _ _) fun m hm => by cases hm
  refine ⟨ht', .inr ⟨.sender (.send p (Memory.rawArray raw) hr), ?_, ?_⟩⟩
  · have hstep : s.sender.step sender (.send p (Memory.rawArray raw) hr) = some s'.sender := by
      simp only [Threads.step, hpc, MsmqProducer.send, s', producer, r, Jni.sendMessage,
        Memory.sendMessage, hmessage]
      rfl
    have hsame : s.sender.heap = s.consumer.shared.heap := hs.sameHeap
    have hheap : s.consumer.withHeap s.sender.heap = s.consumer := by
      rw [hsame]
      rfl
    have hseen : s'.seen = ⟨s'.sender, s.consumer, s'.queue, s.promised⟩ := rfl
    simp only [System.step, System.Callable, if_true, seen, hstep]
    rw [← hheap] at hseen
    exact congrArg some hseen.symm
  · simp only [System.label, label, seen, hpc]
    rfl

/-! ### The consumer -/

theorem seen_goOn (x : ObjectWorker) (after : ObjectAfter) (mem mem' : Memory) :
    (x.goOn after).seen mem' = (x.seen mem).goOn (after.seen mem') := by
  cases after <;> rfl

theorem message?_goOn (x : ObjectWorker) (after : ObjectAfter) :
    (x.goOn after).pc.message? = after.message? := by
  cases after <;> rfl

/-- **A worker goes on with its message**; the others see theirs as before. -/
theorem Tidy.worker (ht : s.Tidy sender) {w : Fin N} {x : ObjectWorker}
    (hworker : s'.worker = Function.update s.worker w x) (hmaking : s'.making = s.making)
    (hmoves : Memory.Moves (s.message? (.inr w)) x.pc.message? s.memory s'.memory)
    (hthread : s'.sender.thread = s.sender.thread) :
    s'.Tidy sender ∧
      (fun v => (s'.worker v).seen s'.memory) =
        Function.update (fun v => (s.worker v).seen s.memory) w (x.seen s'.memory) := by
  have hmessage : s'.message? = Function.update s.message? (.inr w) x.pc.message? := by
    funext i
    cases i with
    | inl p =>
        rw [Function.update_of_ne (by simp)]
        simp only [message?, hmaking]
    | inr v =>
        by_cases hv : v = w
        · subst hv
          simp only [message?, hworker, Function.update_self]
        · have hne : (Sum.inr v : Fin P ⊕ Fin N) ≠ .inr w := fun heq => hv (Sum.inr.inj heq)
          rw [Function.update_of_ne hne]
          simp only [message?, hworker, Function.update_of_ne hv]
  refine ⟨ht.moves hmoves hmessage fun p m hm => ?_, ?_⟩
  · rw [hmaking] at hm
    exact (ht.made p m hm).congr (congrFun hthread p)
      (ht.view_others hmoves (by simp) (message?_making hm))
  · funext v
    rw [hworker]
    by_cases hv : v = w
    · subst hv
      simp only [Function.update_self]
    · rw [Function.update_of_ne hv, Function.update_of_ne hv]
      exact ht.seen_others hmoves fun heq => hv (Sum.inr.inj heq)

/-- A worker **starts a run**. -/
theorem Tidy.step_start (ht : s.Tidy sender) (hs : s.seen.Sound sender receiver) {w : Fin N}
    (hphase : s.phase = .running) (hscheduled : (s.worker w).scheduled = true)
    (hidle : (s.worker w).pc = .outside .idle) :
    let s' : ObjectSystem P N :=
      { s with
        worker := Function.update s.worker w
          ((s.worker w).start s.objects.shared.queues.length) }
    s'.Tidy sender ∧ s.Matches sender receiver (.start w) s' := by
  intro s'
  have hmoves : Memory.Moves (s.message? (.inr w)) none s.memory s'.memory :=
    Memory.moves_refl ht.linked (fun o heq => by cases heq) (ht.bounded _)
  obtain ⟨ht', hworkers⟩ : s'.Tidy sender ∧ _ := ht.worker rfl rfl hmoves rfl
  have hstep : s.consumer.step receiver (.start w) = some s'.consumer := by
    have hphase' : s.consumer.phase = .running := hphase
    have hscheduled' : (s.consumer.worker w).scheduled = true := hscheduled
    have hidle' : (s.consumer.worker w).pc = .idle := by
      simp only [consumer, ObjectWorker.seen, hidle, ObjectPc.seen]
    have hconsumer : s'.consumer =
        { s.consumer with
          worker := Function.update s.consumer.worker w
            ((s.worker w).seen s.memory |>.start s.objects.shared.queues.length) } := by
      simp only [consumer, hworkers]
      rfl
    simp only [Consumer.step, hphase', hscheduled', hidle', hconsumer]
    rfl
  refine ⟨ht', .inr ⟨.receiver (.start w) 0, ?_, rfl⟩⟩
  have hsender : { s.sender with heap := s'.consumer.shared.heap } = s'.sender := by
    have hsame : s'.consumer.shared.heap = s.sender.heap := hs.sameHeap.symm
    rw [hsame]
  have htake : System.take s.queue 0 (.start w) = some s.queue := rfl
  simp only [System.step, seen, hstep, htake, hsender]
  rfl

/-- Only the call of the processor is to be seen. -/
theorem label_task {w : Fin N} {ans : ObjectAnswer} {r : ObjectAfter × ObjectShared}
    (hstep : ObjectTask.step receiver ⟨w, (s.worker w).runs⟩ s.objects (s.worker w).pc ans = some r)
    (place : Nat) :
    s.seen.label sender (.receiver (.task w ans.seen) place) =
      s.label sender (.task w ans place) := by
  cases ans with
  | outside ans =>
      cases ans with
      | processes thrown exchange writes =>
          -- this answer is not plain
          cases hpc : (s.worker w).pc with
          | outside pc =>
              rw [hpc] at hstep
              simp [ObjectTask.step, Answer.isPlain] at hstep
          | _ =>
              rw [hpc] at hstep
              cases hstep
      | _ => rfl
  | processes thrown exchange writes =>
      simp only [System.label, label, ObjectAnswer.seen, seen, consumer, ObjectWorker.seen]
      cases hpc : (s.worker w).pc with
      | outside pc =>
          rw [hpc] at hstep
          cases pc <;> cases hstep
      | _ => rfl
  | _ => rfl

/-- A worker **makes a step of its run**. -/
theorem Tidy.step_task (ht : s.Tidy sender) {w : Fin N} {ans : ObjectAnswer} {place : Nat}
    {queue : List MqMessage} {after : ObjectAfter} {objects : ObjectShared}
    (htake : System.take s.queue place (.task w ans.seen) = some queue)
    (hstep : ObjectTask.step receiver ⟨w, (s.worker w).runs⟩ s.objects (s.worker w).pc ans =
      some (after, objects)) :
    let s' : ObjectSystem P N :=
      { s with
        sender := { s.sender with heap := objects.shared.heap }
        objects := objects
        worker := Function.update s.worker w ((s.worker w).goOn after)
        phase := s.phase.observe objects.shared.queues
        queue := queue }
    s'.Tidy sender ∧ s.Matches sender receiver (.task w ans place) s' := by
  intro s'
  obtain ⟨r', htask, hseen, hmoves⟩ := ObjectTask.step_seen ht.linked (ht.bounded (.inr w)) hstep
  subst hseen
  have hmoves' : Memory.Moves (s.message? (.inr w)) ((s.worker w).goOn after).pc.message?
      s.memory s'.memory := by
    rw [message?_goOn]
    exact hmoves
  obtain ⟨ht', hworkers⟩ : s'.Tidy sender ∧ _ := ht.worker rfl rfl hmoves' rfl
  rw [seen_goOn _ _ s.memory] at hworkers
  refine ⟨ht', .inr ⟨.receiver (.task w ans.seen) place, ?_, ?_⟩⟩
  · have hstep' : s.consumer.step receiver (.task w ans.seen) = some s'.consumer := by
      have htask' : Task.step receiver (s.consumer.runId w) s.consumer.shared
          (s.consumer.worker w).pc ans.seen = _ := htask
      simp only [Consumer.step, htask']
      show _ = some (⟨objects.shared, fun v => (s'.worker v).seen s'.memory, _⟩ : Consumer N)
      rw [hworkers]
      rfl
    simp only [System.step, seen, htake, hstep']
    rfl
  · exact label_task hstep place

/-- `doStop` has nothing to do with messages: it leaves the workers and the heap as they are. -/
theorem step_isStop {c c' : Consumer N} {act : Action N} (hstop : act.isStop = true)
    (h : c.step receiver act = some c') :
    c'.worker = c.worker ∧ c'.shared.heap = c.shared.heap := by
  cases Consumer.steps_of_step h with
  | start => cases hstop
  | task => cases hstop
  | _ => exact ⟨rfl, rfl⟩

/-- A **step of `doStop`**. -/
theorem Tidy.step_stop (ht : s.Tidy sender) (hs : s.seen.Sound sender receiver) {act : Action N}
    {c : Consumer N} (hstop : act.isStop = true) (hstep : s.consumer.step receiver act = some c) :
    let s' : ObjectSystem P N :=
      { s with
        objects := { s.objects with shared := c.shared }
        phase := c.phase }
    s'.Tidy sender ∧ s.Matches sender receiver (.stop act) s' := by
  intro s'
  obtain ⟨hworker, hheap⟩ := step_isStop hstop hstep
  have hmemory : s'.memory = s.memory := by
    show (⟨_, _, c.shared.heap⟩ : Memory) = _
    rw [hheap]
    rfl
  have hconsumer : s'.consumer = c := by
    show (⟨c.shared, fun w => (s.worker w).seen s'.memory, c.phase⟩ : Consumer N) = c
    have hworkers : (fun w => (s.worker w).seen s.memory) = c.worker := hworker.symm
    rw [hmemory, hworkers]
  refine ⟨⟨?_, ?_, ht.own, fun p m hm => ?_⟩, .inr ⟨.receiver act 0, ?_, ?_⟩⟩
  · rw [hmemory]
    exact ht.linked
  · rw [hmemory]
    exact ht.bounded
  · refine (ht.made p m hm).congr rfl ?_
    rw [hmemory]
  · have hsender : { s.sender with heap := c.shared.heap } = s.sender := by
      have hsame : c.shared.heap = s.sender.heap := hheap.trans hs.sameHeap.symm
      rw [hsame]
    have htake : System.take s.queue 0 act = some s.queue := by
      cases act with
      | task => cases hstop
      | _ => rfl
    simp only [System.step, seen, hstep, htake, hsender]
    show _ = some (⟨_, s'.consumer, _, _⟩ : System P N)
    rw [hconsumer]
  · cases act with
    | task => cases hstop
    | _ => rfl

/-! ## All runs -/

/-- **One action.**  Messages keep their owners, and nothing more is to be seen of the action
than of one of `System`.  The cases are those of `step`, one lemma for each. -/
theorem Tidy.step (ht : s.Tidy sender) (hs : s.seen.Sound sender receiver)
    {act : ObjectAction P N} (h : s.step sender receiver act = some s') :
    s'.Tidy sender ∧ s.Matches sender receiver act s' := by
  cases act with
  | sender act =>
      obtain ⟨⟨hcall, hnot⟩, h⟩ := Option.ite_none_right_eq_some.mp h
      cases hstep : s.sender.step sender act with
      | none => simp [hstep] at h
      | some t =>
          simp only [hstep, Option.some.injEq] at h
          exact h ▸ ht.step_sender hs hcall hnot hstep
  | make p raw =>
      simp only [ObjectSystem.step] at h
      split at h
      · cases h
        exact ht.step_make hs raw ‹_›
      · cases h
  | set p =>
      simp only [ObjectSystem.step] at h
      split at h
      · split at h
        · cases h
          exact ht.step_set ‹_› ‹_›
        · cases h
      · cases h
  | send p hr =>
      simp only [ObjectSystem.step] at h
      split at h
      · cases h
        exact ht.step_send hs hr ‹_›
      · cases h
  | start w =>
      simp only [ObjectSystem.step] at h
      split at h
      · cases h
        exact ht.step_start hs ‹_› ‹_› ‹_›
      · cases h
  | task w ans place =>
      simp only [ObjectSystem.step] at h
      split at h
      · cases h
        exact ht.step_task ‹_› ‹_›
      · cases h
  | stop act =>
      obtain ⟨hstop, h⟩ := Option.ite_none_right_eq_some.mp h
      cases hstep : s.consumer.step receiver act with
      | none => simp [hstep] at h
      | some c =>
          simp only [hstep, Option.some.injEq] at h
          exact h ▸ ht.step_stop hs hstop hstep
  | discard place =>
      simp only [ObjectSystem.step] at h
      split at h
      · rename_i m hm
        obtain ⟨htime, h⟩ := Option.ite_none_left_eq_some.mp h
        cases h
        refine ⟨⟨ht.linked, ht.bounded, ht.own, fun p m hm => (ht.made p m hm).congr rfl rfl⟩,
          .inr ⟨.discard place, ?_, rfl⟩⟩
        simp only [System.step, seen, hm, if_neg htime]
        rfl
      · cases h
  | allocate size =>
      cases h
      obtain ⟨ht', hseen⟩ := ht.withHeap (s.heap.allocate size)
      exact ⟨ht', .inr ⟨.allocate size, congrArg some hseen.symm, rfl⟩⟩
  | write a offset bytes =>
      obtain ⟨hfree, h⟩ := Option.ite_none_left_eq_some.mp h
      cases h
      obtain ⟨ht', hseen⟩ := ht.withHeap (s.heap.write a offset bytes)
      refine ⟨ht', .inr ⟨.write a offset bytes, ?_, rfl⟩⟩
      exact (if_neg hfree).trans (congrArg some hseen.symm)

/-- The invariant of the runs. -/
def Kept (sender receiver : MsmqEndpoint) (s : ObjectSystem P N) : Prop :=
  s.Tidy sender ∧ s.seen.Sound sender receiver

theorem kept_init (object : ObjRef → MessageObject) :
    (init P N sender object).Kept sender receiver :=
  ⟨tidy_init sender object, System.sound_init⟩

/-- An action keeps the invariant: what is seen of it is an action of `System`, or nothing. -/
theorem Kept.step (hk : s.Kept sender receiver) {act : ObjectAction P N}
    (h : s.step sender receiver act = some s') : s'.Kept sender receiver := by
  obtain ⟨ht, hsame | ⟨act', hstep, -⟩⟩ := hk.1.step hk.2 h
  · exact ⟨ht, hsame.1 ▸ hk.2⟩
  · exact ⟨ht, hk.2.step hstep⟩

/-- **Message objects are not to be noticed.**  With all messages as objects in one memory, and
any order of what threads and workers do to them, each object has one owner at most, and every
run is one of the system whose messages are values, with the same trace.  So what is proved of
that system holds of the one with the pointers. -/
theorem objects_refine {object : ObjRef → MessageObject} {acts : List (ObjectAction P N)}
    (hrun : Runs.run (step sender receiver) (init P N sender object) acts = some s) :
    (∀ i j o, s.message? i = some o → s.message? j = some o → i = j) ∧
    ∃ acts',
      Runs.run (System.step sender receiver) (System.init P N sender) acts' = some s.seen ∧
      Runs.trace (System.step sender receiver) (System.label sender) (System.init P N sender)
          acts' =
        Runs.trace (step sender receiver) (label sender) (init P N sender object) acts := by
  have hstart : (init P N sender object).Kept sender receiver := kept_init object
  have hkept : s.Kept sender receiver :=
    Runs.run_invariant (step sender receiver) (fun _ _ _ hk h => hk.step h) hstart hrun
  exact ⟨hkept.1.own, Runs.run_stuttering (fun _ _ _ hk h => hk.step h)
    (fun _ _ _ hk h => (hk.1.step hk.2 h).2) hstart hrun⟩

/-- Two threads set up their messages by turns, while a worker has made its own; the one sent last
is received, and the other one stays in the queue. -/
theorem objects_refine_turns :
    let endpoint : MsmqEndpoint := { remaining := some [113] }
    ∃ (s : System 2 1) (acts' : List (SystemAction 2 1)),
      Runs.run (System.step endpoint endpoint) (System.init 2 1 endpoint) acts' = some s ∧
      s.queue.map (·.body) = [[0, 65]] ∧
      s.receiver.shared.removals.map (·.2.body) = [[0, 66]] := by
  intro endpoint
  let raw : MessageObject := ⟨⟨0, 0, 0⟩, fun _ => .body, fun _ => ⟨.ui4, 0, 0, 0, none⟩,
    .replicate 20 0, .replicate 20 0⟩
  let start : ObjectSystem 2 1 := init 2 1 endpoint fun _ => raw
  let call (p : Fin 2) (c : UInt16) : List (ObjectAction 2 1) :=
    [.sender (.call p (Exchange.create.setBody (.string [c]))), .sender (.isOpen p)]
  let acts : List (ObjectAction 2 1) :=
    call 0 65 ++ [.sender (.open 0 (.always 0 1 0)), .sender (.encode 0), .start 0,
      .task 0 (.outside .go) 0, .task 0 (.outside (.created none)) 0, .task 0 (.outside .go) 0,
      .task 0 (.outside (.opens (.always 0 2 0))) 0, .make 0 raw, .set 0,
      .task 0 (.allocates raw) 0] ++
    call 1 66 ++ [.sender (.encode 1), .make 1 raw, .set 1, .set 0, .set 1, .set 0, .set 1,
      .send 0 0, .send 1 0,
      .task 0 (.receives raw ⟨0, { (default : MessageProps) with
        bodyType := vtArrayUi1, priority := 3 }, 0, [0, 66]⟩) 1]
  have hrun : (Runs.run (step endpoint endpoint) start acts).map
      (fun s => (s.queue.map (·.body), s.seen.receiver.shared.removals.map (·.2.body))) =
        some ([[0, 65]], [[0, 66]]) := by decide +kernel
  obtain ⟨s, hs, hall⟩ := Option.map_eq_some_iff.mp hrun
  obtain ⟨hqueue, hremovals⟩ := Prod.mk.inj hall
  obtain ⟨-, acts', hrun', -⟩ := objects_refine hs
  exact ⟨s.seen, acts', hrun', hqueue, hremovals⟩

end ObjectSystem

end Msmq
