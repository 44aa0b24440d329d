import CamelMsmq.MessageTransfer
import CamelMsmq.TaskSpec

/-!
# `Task.run` on message objects

In `Task.step` the message of a run is an array of properties.  Here it is what it is in the
program, an object in a memory that all threads share: `run` has a reference to it, constructs
it, gives it a buffer and receives into it through the JNI wrappers, and reads it with its
getters.

`step_seen` says that nothing of this can be noticed.  What a run sees of its object is the
array that `Task.step` works with, and the objects of others stay as they are (`Moves`).  The
constructor finds anything in the memory of a new object, and the wrapper in that of its
temporaries; none of it comes through.

The steps that have to do with the message are the allocation of the first buffer, the
receive and the call of the processor, each with the handler inside the loop.  They are
defined once more here, on objects, and for the others `Task.step` itself is used.
-/

namespace Msmq

/-! ## Who owns a message -/

namespace Memory

/-- What somebody does who owns at most one message, `own`, and `own'` afterwards: the other
messages look as before, and a message that comes into his hands is new. -/
structure Moves (own own' : Option ObjRef) (mem mem' : Memory) : Prop where
  linked : mem'.AllLinked
  next_le : mem.next ≤ mem'.next
  others : ∀ o, o < mem.next → own ≠ some o → mem'.view o = mem.view o
  owned : ∀ o, own' = some o → own = some o ∨ mem.next ≤ o
  bounded : ∀ o, own' = some o → o < mem'.next

variable {mem mem' mem'' : Memory} {own own' own'' : Option ObjRef} {o : ObjRef}

theorem Moves.trans (h : Moves own own' mem mem') (h' : Moves own' own'' mem' mem'') :
    Moves own own'' mem mem'' := by
  refine ⟨h'.linked, Nat.le_trans h.next_le h'.next_le, fun o ho hne => ?_, fun o ho => ?_,
    h'.bounded⟩
  · have hne' : own' ≠ some o := by
      intro heq
      rcases h.owned o heq with hold | hnew
      · exact hne hold
      · exact Nat.not_lt_of_le hnew ho
    rw [h'.others o (Nat.lt_of_lt_of_le ho h.next_le) hne', h.others o ho hne]
  · rcases h'.owned o ho with hold | hnew
    · exact h.owned o hold
    · exact .inr (Nat.le_trans h.next_le hnew)

/-- Nothing happens to the memory; a message may be given up, and is then nobody's. -/
theorem moves_refl (hl : mem.AllLinked) (hsub : ∀ o, own' = some o → own = some o)
    (hbounded : ∀ o, own = some o → o < mem.next) : Moves own own' mem mem :=
  ⟨hl, Nat.le_refl _, fun _ _ _ => rfl, fun o ho => .inl (hsub o ho),
    fun o ho => hbounded o (hsub o ho)⟩

/-- Buffers are no part of what is seen of a message. -/
theorem moves_heap (hl : mem.AllLinked) (hbounded : ∀ o, own = some o → o < mem.next)
    (heap : Heap) : Moves own own mem { mem with heap := heap } :=
  ⟨hl, Nat.le_refl _, fun o ho _ => view_of_object (hl o ho) rfl, fun _ => .inl, hbounded⟩

/-- A new message lies above all others, so nobody else sees it. -/
theorem moves_new (hl : mem.AllLinked) (raw : MessageObject) :
    Moves own (some mem.next) mem { mem.construct mem.next raw with next := mem.next + 1 } := by
  have hstep : mem.step (.new raw) =
      some { mem.construct mem.next raw with next := mem.next + 1 } := rfl
  refine ⟨allLinked_step hl hstep, Nat.le_succ _, fun o ho _ => ?_, fun o ho => ?_, fun o ho => ?_⟩
  · exact view_of_object (hl o ho) (Function.update_of_ne (Nat.ne_of_lt ho) _ _)
  · exact .inr (Nat.le_of_eq (Option.some.inj ho))
  · exact Option.some.inj ho ▸ Nat.lt_succ_self _

/-- A setter writes to the object itself, because that is where the pointers point. -/
theorem moves_set (hl : mem.AllLinked) (ho : o < mem.next) (setter : Setter) :
    Moves (some o) (some o) mem (mem.set o setter) := by
  have hkeeps := mem.keeps_set o setter
  refine ⟨hl.keeps hkeeps, Nat.le_of_eq hkeeps.next.symm, fun p hp hne => ?_, fun _ => .inl,
    fun p hp => ?_⟩
  · have hpo : p ≠ o := fun heq => hne (by rw [heq])
    exact view_of_object (hl p hp) (object_set_of_ne (hl o ho) hpo setter)
  · rw [hkeeps.next, ← Option.some.inj hp]
    exact ho

/-- So does a receive, through the pointers of its copies. -/
theorem moves_receive (hl : mem.AllLinked) (ho : o < mem.next) (q : MsmqQueue)
    (raw : MessageObject) (out : ReceiveOutcome) (calls : List MqCall) :
    Moves (some o) (some o) mem (Jni.receiveMessage mem q (some o) raw out calls).2.2 := by
  have hkeeps := mem.keeps_receive q o raw out calls
  refine ⟨hl.keeps hkeeps, Nat.le_of_eq hkeeps.next.symm, fun p hp hne => ?_, fun _ => .inl,
    fun p hp => ?_⟩
  · have hpo : p ≠ o := fun heq => hne (by rw [heq])
    exact view_receive_of_ne hl ho hp hpo q raw out calls
  · rw [hkeeps.next, ← Option.some.inj hp]
    exact ho

end Memory

/-! ## The run -/

/-- The variables of the receive loop, with the reference to the message. -/
structure ObjectLoop where
  exchange : Exchange
  initsize : Int32
  body : ByteBuffer
  msmqMessage : ObjRef
  grown : Nat

/-- Where a worker stands: in the receive loop, or at a place where `run` has no message. -/
inductive ObjectPc
  | outside (pc : Pc)
  | atReceive (size : Nat) (queue : QueueRef) (loop : ObjectLoop)
  | atProcess (size : Nat) (queue : QueueRef) (loop : ObjectLoop)

/-- What a step is given from outside.  An object that is constructed, also one of the wrappers,
finds `raw` in its memory. -/
inductive ObjectAnswer
  | outside (ans : Answer)
  | allocates (raw : MessageObject)
  | receives (raw : MessageObject) (a : ReceiveAnswer)
  | processes (thrown : Option Throwable) (exchange : Exchange)
      (writes : List (Addr × Nat × List UInt8))

/-- How it goes on after a step. -/
inductive ObjectAfter
  | goOn (pc : ObjectPc)
  | ended (thrown : Option Throwable)

/-- What the workers share, and the messages of all threads. -/
structure ObjectShared where
  shared : Shared
  next : ObjRef
  object : ObjRef → MessageObject

namespace ObjectShared

def memory (os : ObjectShared) : Memory := ⟨os.next, os.object, os.shared.heap⟩

def withMemory (os : ObjectShared) (mem : Memory) : ObjectShared :=
  ⟨{ os.shared with heap := mem.heap }, mem.next, mem.object⟩

/-- The state after an `MQReceiveMessage` that is answered as `a` says. -/
def received (os : ObjectShared) (me : RunId) (a : ReceiveAnswer) (calls : List MqCall)
    (mem : Memory) : ObjectShared :=
  { os.withMemory mem with
    shared :=
      { os.shared with
        heap := mem.heap
        calls := calls
        removals :=
          if failed a.hr then os.shared.removals
          else (me, ⟨a.bytes, a.props⟩) :: os.shared.removals } }

end ObjectShared

namespace ObjectLoop

/-- The loop with what the getters show of the message. -/
def seen (mem : Memory) (loop : ObjectLoop) : Loop :=
  ⟨loop.exchange, loop.initsize, loop.body, mem.view loop.msmqMessage, loop.grown⟩

/-- From `message.setBody(body)` to the last header. -/
def fill (mem : Memory) (loop : ObjectLoop) : Except Throwable ObjectLoop := do
  let body ← loop.body.setLimit (.ofInt (mem.view loop.msmqMessage).getBodySize)
  let exchange := loop.exchange.setBody (.byteBuffer body)
  .ok { loop with
    body := body
    exchange := Loop.setHeaders (mem.view loop.msmqMessage) exchange }

/-- The handler `catch (RuntimeException ex)` inside the loop. -/
def recover (endpoint : MsmqEndpoint) (mem : Memory) (loop : ObjectLoop) (ex : Throwable) :
    Except Throwable (ObjectLoop × Memory) :=
  if ex.isRuntimeException then
    match ex.getMessage with
    | none => .error (.noMessage ex)
    | some message =>
        if message = "Message body too big" then do
          let initsize := loop.initsize + endpoint.incrementBufferSize
          let (body, heap) ← ByteBuffer.allocateDirect mem.heap initsize
          let mem := { mem with heap := heap }
          let mem := (Jni.setMsgBodyWithByteBuffer mem loop.msmqMessage body).2
          .ok ({ loop with initsize := initsize, body := body, grown := loop.grown + 1 }, mem)
        else .error ex
  else .error ex

end ObjectLoop

namespace ObjectPc

/-- The place with what the getters show of the message. -/
def seen (mem : Memory) : ObjectPc → Pc
  | outside pc => pc
  | atReceive size queue loop => .atReceive size queue (loop.seen mem)
  | atProcess size queue loop => .atProcess size queue (loop.seen mem)

/-- The message that the run has. -/
def message? : ObjectPc → Option ObjRef
  | outside _ => none
  | atReceive _ _ loop => some loop.msmqMessage
  | atProcess _ _ loop => some loop.msmqMessage

end ObjectPc

namespace ObjectAfter

def seen (mem : Memory) : ObjectAfter → After
  | goOn pc => .goOn (pc.seen mem)
  | ended thrown => .ended thrown

def message? : ObjectAfter → Option ObjRef
  | goOn pc => pc.message?
  | ended _ => none

/-- A run that goes on outside the loop. -/
def outside : After → ObjectAfter
  | .goOn pc => .goOn (.outside pc)
  | .ended thrown => .ended thrown

end ObjectAfter

/-- The answer as `Task.step` is given it. -/
def ObjectAnswer.seen : ObjectAnswer → Answer
  | outside ans => ans
  | allocates raw => .allocates (Memory.rawArray raw)
  | receives _ a => .receives a
  | processes thrown exchange writes => .processes thrown exchange writes

/-- The answer is to a step that has nothing to do with the message. -/
def Answer.isPlain : Answer → Bool
  | go => true
  | created _ => true
  | opens _ => true
  | _ => false

namespace ObjectTask

/-- A throwable inside the receive loop. -/
def raiseInLoop (endpoint : MsmqEndpoint) (os : ObjectShared) (size : Nat) (queue : QueueRef)
    (loop : ObjectLoop) (ex : Throwable) : ObjectAfter × ObjectShared :=
  match loop.recover endpoint os.memory ex with
  | .ok (loop, mem) => (.goOn (.atReceive size queue loop), os.withMemory mem)
  | .error e => (.outside (Task.raise size (some queue) e), os)

/-- `new MsmqMessage()` and the first buffer. -/
def allocate (endpoint : MsmqEndpoint) (os : ObjectShared) (size : Nat) (queue : QueueRef)
    (exchange : Exchange) (raw : MessageObject) : ObjectAfter × ObjectShared :=
  match ByteBuffer.allocateDirect os.shared.heap endpoint.initialBufferSize with
  | .ok (body, heap) =>
      let mem := { os.memory with heap := heap }
      let mem := { mem.construct mem.next raw with next := mem.next + 1 }
      let mem := (Jni.setMsgBodyWithByteBuffer mem os.next body).2
      (.goOn (.atReceive size queue ⟨exchange, endpoint.initialBufferSize, body, os.next, 0⟩),
        os.withMemory mem)
  | .error e => (.outside (Task.raise size (some queue) e), os)

/-- One `queue.receiveMessage(msmqMessage, 100)` through the wrapper, with the filling of the
exchange if it returns true. -/
def receive (endpoint : MsmqEndpoint) (me : RunId) (os : ObjectShared) (size : Nat)
    (queue : QueueRef) (loop : ObjectLoop) (raw : MessageObject) (a : ReceiveAnswer) :
    ObjectAfter × ObjectShared :=
  let r := Jni.receiveMessage os.memory (os.shared.object queue) (some loop.msmqMessage) raw
    a.outcome os.shared.calls
  let os := os.received me a r.2.1 r.2.2
  match r.1 with
  | .error ex => raiseInLoop endpoint os size queue loop ex
  | .ok false => (.goOn (.atReceive size queue loop), os)
  | .ok true =>
      match loop.fill os.memory with
      | .error ex => raiseInLoop endpoint os size queue loop ex
      | .ok loop => (.goOn (.atProcess size queue loop), os)

/-- `processor.process(exchange)`. -/
def process (endpoint : MsmqEndpoint) (me : RunId) (os : ObjectShared) (size : Nat)
    (queue : QueueRef) (loop : ObjectLoop) (thrown : Option Throwable) (exchange : Exchange)
    (writes : List (Addr × Nat × List UInt8)) : ObjectAfter × ObjectShared :=
  let os := { os with shared := os.shared.processed me (loop.seen os.memory) writes }
  match thrown with
  | none => (.outside (.goOn (.atFinally size (some queue) none)), os)
  | some ex => raiseInLoop endpoint os size queue { loop with exchange := exchange } ex

/-- One step of `run()`. -/
def step (endpoint : MsmqEndpoint) (me : RunId) (os : ObjectShared) :
    ObjectPc → ObjectAnswer → Option (ObjectAfter × ObjectShared)
  | .outside (.atAllocate size queue exchange), .allocates raw =>
      some (allocate endpoint os size queue exchange raw)
  | .outside pc, .outside ans =>
      if ans.isPlain then
        (Task.step endpoint me os.shared pc ans).map fun (after, shared) =>
          (.outside after, { os with shared := shared })
      else none
  | .atReceive size queue loop, .receives raw a =>
      if (os.memory.view loop.msmqMessage).fits a then
        some (receive endpoint me os size queue loop raw a)
      else none
  | .atProcess size queue loop, .processes thrown exchange writes =>
      if writes.all fun w =>
          w.1 = loop.body.storage || (handed os.shared.deliveries).contains w.1 then
        some (process endpoint me os size queue loop thrown exchange writes)
      else none
  | _, _ => none

/-! ## What is seen of it -/

variable {endpoint : MsmqEndpoint} {me : RunId} {os : ObjectShared} {mem : Memory}
  {loop : ObjectLoop} {own : Option ObjRef} {size : Nat} {queue : QueueRef}

/-- The outcome of a step on objects looks like one on arrays, and the step has kept to the
message of its run. -/
structure Shows (own : Option ObjRef) (mem : Memory) (r : ObjectAfter × ObjectShared)
    (r' : After × Shared) : Prop where
  seen : r' = (r.1.seen r.2.memory, r.2.shared)
  moves : Memory.Moves own r.1.message? mem r.2.memory

/-- A run that goes on without its message. -/
theorem shows_outside (hl : os.memory.AllLinked) (hbounded : ∀ o, own = some o → o < os.next)
    (after : After) : Shows own os.memory (.outside after, os) (after, os.shared) := by
  have hnone : (ObjectAfter.outside after).message? = none := by cases after <;> rfl
  have hseen : (ObjectAfter.outside after).seen os.memory = after := by cases after <;> rfl
  refine ⟨by rw [hseen], ?_⟩
  rw [hnone]
  exact Memory.moves_refl hl (fun o heq => by cases heq) hbounded

/-- The outcome after a first part of the step. -/
theorem Shows.after {mem' : Memory} {r : ObjectAfter × ObjectShared} {r' : After × Shared}
    {own' : Option ObjRef} (h : Shows own' mem' r r') (hmoves : Memory.Moves own own' mem mem') :
    Shows own mem r r' :=
  ⟨h.seen, hmoves.trans h.moves⟩

/-- The exchange is filled from the getters, so filling it and looking at it can be done in
either order. -/
theorem fill_seen (mem : Memory) (loop : ObjectLoop) :
    (loop.seen mem).fill = (loop.fill mem).map (·.seen mem) := by
  unfold Loop.fill ObjectLoop.fill
  simp only [ObjectLoop.seen]
  cases loop.body.setLimit (.ofInt (mem.view loop.msmqMessage).getBodySize) <;> rfl

/-- Filling the exchange is no matter of the message. -/
theorem fill_message {filled : ObjectLoop} (h : loop.fill mem = .ok filled) :
    filled.msmqMessage = loop.msmqMessage := by
  unfold ObjectLoop.fill at h
  cases hlimit : loop.body.setLimit (.ofInt (mem.view loop.msmqMessage).getBodySize) with
  | error e =>
      rw [hlimit] at h
      cases h
  | ok body =>
      rw [hlimit] at h
      cases h
      rfl

/-- The message after it has been given a larger buffer. -/
theorem moves_grow (hl : mem.AllLinked) (ho : loop.msmqMessage < mem.next) (heap : Heap)
    (body : ByteBuffer) :
    let mem' := (Jni.setMsgBodyWithByteBuffer { mem with heap := heap } loop.msmqMessage body).2
    Memory.Moves (some loop.msmqMessage) (some loop.msmqMessage) mem mem' ∧
      mem'.view loop.msmqMessage = (mem.view loop.msmqMessage).setMsgBodyWithByteBuffer body ∧
      mem'.heap = heap := by
  intro mem'
  have hbounded : ∀ o, some loop.msmqMessage = some o → o < mem.next :=
    fun o heq => Option.some.inj heq ▸ ho
  have hheap := Memory.moves_heap hl hbounded heap
  have hview : ({ mem with heap := heap } : Memory).view loop.msmqMessage =
      mem.view loop.msmqMessage := Memory.view_of_object (hl _ ho) rfl
  refine ⟨hheap.trans (Memory.moves_set hheap.linked ho (.msgBodyWithByteBuffer body)), ?_, rfl⟩
  rw [← hview]
  exact Memory.view_setMsgBodyWithByteBuffer _ _ _

/-- The handler inside the loop: it fails as it does on arrays, or leaves a loop that looks as it
does there. -/
theorem recover_seen (endpoint : MsmqEndpoint) (hl : mem.AllLinked)
    (ho : loop.msmqMessage < mem.next) (ex : Throwable) :
    (∃ e, loop.recover endpoint mem ex = .error e ∧
      (loop.seen mem).recover endpoint mem.heap ex = .error e) ∨
    ∃ loop' mem', loop.recover endpoint mem ex = .ok (loop', mem') ∧
      (loop.seen mem).recover endpoint mem.heap ex = .ok (loop'.seen mem', mem'.heap) ∧
      Memory.Moves (some loop.msmqMessage) (some loop'.msmqMessage) mem mem' := by
  unfold ObjectLoop.recover Loop.recover
  by_cases hruntime : ex.isRuntimeException = true
  · rw [if_pos hruntime, if_pos hruntime]
    cases ex.getMessage with
    | none => exact .inl ⟨_, rfl, rfl⟩
    | some message =>
        by_cases htoo : message = "Message body too big"
        · simp only [if_pos htoo, ObjectLoop.seen]
          cases ByteBuffer.allocateDirect mem.heap
              (loop.initsize + endpoint.incrementBufferSize) with
          | error e => exact .inl ⟨e, rfl, rfl⟩
          | ok r =>
              obtain ⟨hmoves, hview, hheap⟩ := moves_grow hl ho r.2 r.1
              let grown (msg : MsmqMessage) : Loop :=
                ⟨loop.exchange, loop.initsize + endpoint.incrementBufferSize, r.1, msg,
                  loop.grown + 1⟩
              have hseen := congrArg
                (fun msg => (.ok (grown msg, r.2) : Except Throwable (Loop × Heap))) hview
              exact .inr ⟨_, _, rfl, hseen.symm, hmoves⟩
        · simp only [if_neg htoo]
          exact .inl ⟨ex, rfl, rfl⟩
  · rw [if_neg hruntime, if_neg hruntime]
    exact .inl ⟨ex, rfl, rfl⟩

/-- **A throwable in the loop.**  The larger buffer is set in the object as it is in the array,
and a throwable that is thrown on leaves the object behind. -/
theorem shows_raiseInLoop (hl : os.memory.AllLinked) (ho : loop.msmqMessage < os.next)
    (ex : Throwable) :
    Shows (some loop.msmqMessage) os.memory (raiseInLoop endpoint os size queue loop ex)
      (Task.raiseInLoop endpoint os.shared size queue (loop.seen os.memory) ex) := by
  obtain ⟨e, herror, herror'⟩ | ⟨loop', mem', hok, hok', hmoves⟩ :=
    recover_seen endpoint hl ho ex
  · have herror' : (loop.seen os.memory).recover endpoint os.shared.heap ex = .error e := herror'
    simp only [raiseInLoop, herror, Task.raiseInLoop, herror']
    exact shows_outside hl (fun o heq => Option.some.inj heq ▸ ho) _
  · have hok' : (loop.seen os.memory).recover endpoint os.shared.heap ex = _ := hok'
    simp only [raiseInLoop, hok, Task.raiseInLoop, hok']
    exact ⟨rfl, hmoves⟩

/-- A receive as the wrapper makes it and as `Task.receive` has it. -/
theorem received_seen (me : RunId) (queue : QueueRef) (hl : os.memory.AllLinked)
    (ho : loop.msmqMessage < os.next)
    (raw : MessageObject) {a : ReceiveAnswer}
    (hfits : (os.memory.view loop.msmqMessage).fits a = true) :
    let r := Jni.receiveMessage os.memory (os.shared.object queue) (some loop.msmqMessage) raw
      a.outcome os.shared.calls
    let os' := os.received me a r.2.1 r.2.2
    r.1 = ((os.shared.object queue).receiveMessage (os.memory.view loop.msmqMessage) a.hr
        os.shared.calls).result.mapError .native ∧
      os'.shared = os.shared.received me queue (loop.seen os.memory) a ∧
      loop.seen os'.memory = (loop.seen os.memory).received a ∧
      Memory.Moves (some loop.msmqMessage) (some loop.msmqMessage) os.memory os'.memory := by
  intro r os'
  obtain ⟨hresult, hcalls, hview, hheap⟩ := Memory.receive_refines hl ho (os.shared.object queue)
    raw hfits os.shared.calls
  refine ⟨hresult, ?_, ?_, Memory.moves_receive hl ho (os.shared.object queue) raw a.outcome
    os.shared.calls⟩
  · have hqueue := ((os.shared.object queue).receiveMessage_spec (os.memory.view loop.msmqMessage)
      a.hr os.shared.calls).1
    show ({ os.shared with heap := r.2.2.heap, calls := r.2.1, removals := _ } : Shared) = _
    simp only [Shared.received, Shared.operated, ObjectLoop.seen, hqueue, Function.update_eq_self]
    have hcalls : r.2.1 = _ := hcalls
    have hheap : r.2.2.heap = _ := hheap
    rw [hcalls, hheap]
    rfl
  · show (⟨_, _, _, r.2.2.view loop.msmqMessage, _⟩ : Loop) = _
    rw [hview]
    rfl

/-- **A receive.**  What the wrapper receives by value is what `Task.receive` puts into the
array, and the exchange is filled from the getters. -/
theorem shows_receive (hl : os.memory.AllLinked) (ho : loop.msmqMessage < os.next)
    (raw : MessageObject) {a : ReceiveAnswer}
    (hfits : (os.memory.view loop.msmqMessage).fits a = true) :
    Shows (some loop.msmqMessage) os.memory (receive endpoint me os size queue loop raw a)
      (Task.receive endpoint me os.shared size queue (loop.seen os.memory) a) := by
  obtain ⟨hresult, hshared, hloop, hmoves⟩ := received_seen me queue hl ho raw hfits
  generalize hr : Jni.receiveMessage os.memory (os.shared.object queue) (some loop.msmqMessage) raw
    a.outcome os.shared.calls = r at *
  generalize hos' : os.received me a r.2.1 r.2.2 = os' at *
  have ho' : loop.msmqMessage < os'.next := hmoves.bounded _ rfl
  have hthrown : ∀ ex, Shows (some loop.msmqMessage) os.memory
      (raiseInLoop endpoint os' size queue loop ex)
      (Task.raiseInLoop endpoint os'.shared size queue (loop.seen os'.memory) ex) :=
    fun ex => (shows_raiseInLoop hmoves.linked ho' ex).after hmoves
  have hloop' : ({ loop.seen os.memory with
      msmqMessage := (loop.seen os.memory).msmqMessage.received a } : Loop) =
      loop.seen os'.memory := hloop.symm
  simp only [receive, Task.receive, hr, hos', ← hshared, hloop', hresult]
  have hmessage : (loop.seen os.memory).msmqMessage = os.memory.view loop.msmqMessage := rfl
  rw [hmessage]
  cases ((os.shared.object queue).receiveMessage (os.memory.view loop.msmqMessage) a.hr
      os.shared.calls).result with
  | error what => exact hthrown (.native what)
  | ok got =>
      cases got with
      | false => exact ⟨rfl, hmoves⟩
      | true =>
          have hfill := fill_seen os'.memory loop
          cases hfilled : loop.fill os'.memory with
          | error ex =>
              rw [hfilled] at hfill
              simp only [Except.mapError, hfill, Except.map]
              exact hthrown ex
          | ok filled =>
              rw [hfilled] at hfill
              simp only [Except.mapError, hfill, Except.map]
              refine ⟨rfl, ?_⟩
              show Memory.Moves _ (some filled.msmqMessage) _ _
              rw [fill_message hfilled]
              exact hmoves

/-- **The first buffer.**  The new object is seen as the array that the constructor makes of
what it finds in its memory, which the answer to the array step must therefore be. -/
theorem shows_allocate (hl : os.memory.AllLinked) (exchange : Exchange) (raw : MessageObject) :
    ∃ r', Task.step endpoint me os.shared (.atAllocate size queue exchange)
        (.allocates (Memory.rawArray raw)) = some r' ∧
      Shows none os.memory (allocate endpoint os size queue exchange raw) r' := by
  have hnone : ∀ o, (none : Option ObjRef) = some o → o < os.next := fun o heq => by cases heq
  simp only [allocate, Task.step]
  cases ByteBuffer.allocateDirect os.shared.heap endpoint.initialBufferSize with
  | error e => exact ⟨_, rfl, shows_outside hl hnone _⟩
  | ok r =>
      have hheap := Memory.moves_heap hl hnone r.2
      have hnew : Memory.Moves none _ _ _ := Memory.moves_new hheap.linked raw
      have hset := Memory.moves_set hnew.linked (Nat.lt_succ_self _) (.msgBodyWithByteBuffer r.1)
      let made : Memory :=
        { ({ os.memory with heap := r.2 } : Memory).construct os.next raw with next := os.next + 1 }
      have hmade : made.view os.next = .new (Memory.rawArray raw) :=
        Memory.view_construct { os.memory with heap := r.2 } os.next raw
      have hview := Memory.view_setMsgBodyWithByteBuffer made os.next r.1
      rw [hmade] at hview
      let begun (msg : MsmqMessage) : Loop := ⟨exchange, endpoint.initialBufferSize, r.1, msg, 0⟩
      refine ⟨(.goOn (.atReceive size queue (begun _)), { os.shared with heap := r.2 }), rfl, ?_,
        (hheap.trans hnew).trans hset⟩
      rw [← hview]
      rfl

/-- **The call of the processor.**  The object is not part of what the processor is handed;
after the call the run gives it up, or goes on with a larger buffer. -/
theorem shows_process (hl : os.memory.AllLinked) (ho : loop.msmqMessage < os.next)
    (thrown : Option Throwable) (exchange : Exchange) (writes : List (Addr × Nat × List UInt8)) :
    Shows (some loop.msmqMessage) os.memory
      (process endpoint me os size queue loop thrown exchange writes)
      (Task.process endpoint me os.shared size queue (loop.seen os.memory) thrown exchange
        writes) := by
  have hbounded : ∀ o, some loop.msmqMessage = some o → o < os.next :=
    fun o heq => Option.some.inj heq ▸ ho
  let os' := { os with shared := os.shared.processed me (loop.seen os.memory) writes }
  have hmoves : Memory.Moves (some loop.msmqMessage) (some loop.msmqMessage) os.memory os'.memory :=
    Memory.moves_heap hl hbounded os'.shared.heap
  cases thrown with
  | none => exact (shows_outside hmoves.linked hbounded _).after hmoves
  | some ex =>
      let loop' : ObjectLoop := { loop with exchange := exchange }
      have hthrown : Shows (some loop'.msmqMessage) os'.memory
          (raiseInLoop endpoint os' size queue loop' ex) _ :=
        shows_raiseInLoop hmoves.linked (show loop'.msmqMessage < os'.next from ho) ex
      have hsame : loop'.seen os'.memory = { loop.seen os.memory with exchange := exchange } := by
        have hview : os'.memory.view loop.msmqMessage = os.memory.view loop.msmqMessage :=
          Memory.view_of_object (hl _ ho) rfl
        simp only [ObjectLoop.seen, loop', hview]
      rw [hsame] at hthrown
      exact hthrown.after hmoves

/-- A step that has nothing to do with the message: `Task.step` itself makes it. -/
theorem shows_plain (hl : os.memory.AllLinked) {pc : Pc} {ans : Answer} {after : After}
    {shared : Shared} (h : Task.step endpoint me os.shared pc ans = some (after, shared)) :
    ∃ r', Task.step endpoint me os.shared pc ans = some r' ∧
      Shows none os.memory (.outside after, { os with shared := shared }) r' := by
  have hnone : ∀ o, (none : Option ObjRef) = some o → o < os.next := fun o heq => by cases heq
  have hmoves := Memory.moves_heap hl hnone shared.heap
  let os' := { os with shared := shared }
  have hl' : os'.memory.AllLinked := hmoves.linked
  have hshows : Shows none os'.memory (.outside after, os') (after, shared) :=
    shows_outside hl' hnone after
  exact ⟨_, h, hshows.after hmoves⟩

/-- **One step.**  Seen through the getters it is a step of `Task.step`, and it keeps to the
message of its run. -/
theorem step_seen (hl : os.memory.AllLinked) {pc : ObjectPc}
    (hbounded : ∀ o, pc.message? = some o → o < os.next) {ans : ObjectAnswer}
    {r : ObjectAfter × ObjectShared} (h : step endpoint me os pc ans = some r) :
    ∃ r', Task.step endpoint me os.shared (pc.seen os.memory) ans.seen = some r' ∧
      Shows pc.message? os.memory r r' := by
  cases pc with
  | outside pc =>
      cases ans with
      | outside ans =>
          simp only [step, Option.ite_none_right_eq_some, Option.map_eq_some_iff] at h
          obtain ⟨-, ⟨after, shared⟩, hstep, rfl⟩ := h
          exact shows_plain hl hstep
      | allocates raw =>
          cases pc with
          | atAllocate size queue exchange =>
              cases h
              exact shows_allocate hl exchange raw
          | _ => cases h
      | _ => cases pc <;> cases h
  | atReceive size queue loop =>
      cases ans with
      | receives raw a =>
          obtain ⟨hfits, hr⟩ := Option.ite_none_right_eq_some.mp h
          cases hr
          exact ⟨_, if_pos hfits, shows_receive hl (hbounded _ rfl) raw hfits⟩
      | _ => cases h
  | atProcess size queue loop =>
      cases ans with
      | processes thrown exchange writes =>
          obtain ⟨hwrites, hr⟩ := Option.ite_none_right_eq_some.mp h
          cases hr
          exact ⟨_, if_pos hwrites, shows_process hl (hbounded _ rfl) thrown exchange writes⟩
      | _ => cases h

end ObjectTask

end Msmq
