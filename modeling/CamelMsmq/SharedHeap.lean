import CamelMsmq.Deliveries
import CamelMsmq.Payload
import CamelMsmq.ProducerSettings
import CamelMsmq.ProducerThreads

/-!
# One heap for all

The threads that send, the workers that receive and the application run in one machine
and share its heap.  This file collects what each of them owes the others: nobody frees
or resizes a storage, and who keeps off the buffers that workers receive into does not
disturb a consumer.

It also lists what a step of the sending threads does (`Threads.Steps`), for the proofs that
look at more than the queue.  What a step puts into the MSMQ queue, `sent?`, is read off its call
of `MQSendMessage`, and `enqueued_step` says that there is nothing else: of all the calls that
the threads make, only a successful send of a thread with a buffer enqueues a message, and it
enqueues one.
-/

namespace Msmq

namespace Heap

/-- From `h` to `h'` no storage has been freed or resized. -/
structure Kept (h h' : Heap) : Prop where
  next_le : h.next ≤ h'.next
  length : ∀ a, a < h.next → (h'.storage a).length = (h.storage a).length

variable {h h' h'' : Heap}

theorem Kept.refl (h : Heap) : Kept h h := ⟨Nat.le_refl _, fun _ _ => rfl⟩

theorem Kept.trans (hleft : Kept h h') (hright : Kept h' h'') : Kept h h'' := by
  refine ⟨Nat.le_trans hleft.next_le hright.next_le, fun a ha => ?_⟩
  rw [hright.length a (Nat.lt_of_lt_of_le ha hleft.next_le), hleft.length a ha]

/-- What concerns new storages only keeps the old ones. -/
theorem Touched.kept (ht : Touched (fun _ => False) h h') : Kept h h' :=
  ⟨ht.next_le, fun a ha => by rw [ht.frame a ha not_false]⟩

theorem kept_allocate (h : Heap) (n : Nat) : Kept h (h.allocate n) := (touched_allocate h n).kept

theorem kept_write (h : Heap) (a : Addr) (k : Nat) (bytes : List UInt8) :
    Kept h (h.write a k bytes) :=
  ⟨Nat.le_refl _, fun b _ => length_storage_write h a b k bytes⟩

theorem kept_writes (h : Heap) (writes : List (Addr × Nat × List UInt8)) :
    Kept h (writes.foldl (fun heap w => heap.write w.1 w.2.1 w.2.2) h) := by
  induction writes generalizing h with
  | nil => exact .refl h
  | cons w rest ih => exact (kept_write h _ _ _).trans (ih _)

end Heap

theorem ByteBuffer.Valid.kept {h h' : Heap} {b : ByteBuffer} (hv : b.Valid h) (hk : h.Kept h') :
    b.Valid h' :=
  ⟨Nat.lt_of_lt_of_le hv.allocated hk.next_le, (hk.length _ hv.allocated).trans hv.length⟩

theorem Body.Valid.kept {h h' : Heap} {body : Body} (hv : body.Valid h) (hk : h.Kept h') :
    body.Valid h' := fun b hb => (hv b hb).kept hk

instance (heap : Heap) (b : ByteBuffer) : Decidable (b.Valid heap) :=
  decidable_of_iff (b.storage < heap.next ∧ (heap.storage b.storage).length = b.capacity)
    ⟨fun h => ⟨h.1, h.2⟩, fun h => ⟨h.allocated, h.length⟩⟩

instance (heap : Heap) : (body : Body) → Decidable (body.Valid heap)
  | .byteBuffer b => decidable_of_iff (b.Valid heap)
      ⟨fun h _ hb => Body.byteBuffer.inj hb ▸ h, fun h => h b rfl⟩
  | .null => isTrue nofun
  | .string _ => isTrue nofun
  | .other => isTrue nofun

/-! ## Workers -/

namespace Task

variable {endpoint : MsmqEndpoint} {me : RunId} {sh sh' : Shared} {pc : Pc} {ans : Answer}
  {after : After}

theorem kept_received (queue : QueueRef) (loop : Loop) (a : ReceiveAnswer) :
    Heap.Kept sh.heap (sh.received me queue loop a).heap := by
  show Heap.Kept sh.heap (loop.msmqMessage.heapReceived sh.heap a)
  unfold MsmqMessage.heapReceived
  split
  · exact Heap.kept_write ..
  · exact .refl _

theorem kept_raiseInLoop {shMid : Shared} {size : Nat} {queue : QueueRef} {loop : Loop}
    (ex : Throwable) (hk : Heap.Kept sh.heap shMid.heap) :
    Heap.Kept sh.heap (raiseInLoop endpoint shMid size queue loop ex).2.heap := by
  obtain ⟨-, -, -, heq⟩ | ⟨-, e, heq⟩ := raiseInLoop_cases endpoint shMid size queue loop ex <;>
    rw [heq]
  · exact hk.trans (Heap.kept_allocate ..)
  · exact hk

/-- A step of a worker allocates and writes, and that is all it does to the heap. -/
theorem Steps.kept (h : Steps endpoint me sh pc ans after sh') : Heap.Kept sh.heap sh'.heap := by
  cases h with
  | allocated raw hsize => exact Heap.kept_allocate ..
  | timeout a hfits hhr => exact kept_received ..
  | overflow a hfits hhr => exact kept_raiseInLoop _ (kept_received ..)
  | receiveFails a hfits hhr => exact kept_raiseInLoop _ (kept_received ..)
  | received a filled hfits hhr hfill => exact kept_received ..
  | notFilled a ex hfits hhr hfill => exact kept_raiseInLoop _ (kept_received ..)
  | processed exchange writes hwrites => exact Heap.kept_writes ..
  | processorThrows ex exchange writes hwrites => exact kept_raiseInLoop _ (Heap.kept_writes ..)
  | _ => exact .refl _

end Task

namespace Consumer

variable {N : Nat} {endpoint : MsmqEndpoint} {c c' : Consumer N} {act : Action N}

/-- So it is with every action of the consumer. -/
theorem kept_step (h : c.step endpoint act = some c') :
    Heap.Kept c.shared.heap c'.shared.heap := by
  cases steps_of_step h with
  | task htask => exact htask.kept
  | _ => exact .refl _

/-- Only the buffers that workers receive into matter to a consumer; what it has handed
over others may change. -/
theorem Sound.withHeap_of_buffers (hs : c.Sound endpoint) {heap : Heap}
    (htouched : Heap.Touched (fun a => ∀ w, a ∉ (c.worker w).pc.buffers) c.shared.heap heap) :
    (c.withHeap heap).Sound endpoint := by
  refine ⟨fun w => ?_, fun a ha => ?_, hs.nodup⟩
  · refine (hs.worker w).frame rfl rfl fun a ha => ?_
    have hmem : a ∈ c.storages := Ledger.mem_total_of_held (i := w) ha
    exact htouched.frame a (hs.bounded a hmem) fun hnot => hnot w ha
  · exact Nat.lt_of_lt_of_le (hs.bounded a ha) htouched.next_le

end Consumer

/-! ## Sending threads -/

namespace Threads

variable {P : Nat} {endpoint : MsmqEndpoint} {s s' : Threads P} {act : ThreadAction P}

/-- Everything a step of the threads can do. -/
inductive Steps (endpoint : MsmqEndpoint) (s : Threads P) : ThreadAction P → Threads P → Prop
  | call {w : Fin P} (e : Exchange) (hidle : s.thread w = .idle) :
      Steps endpoint s (.call w e) (s.goOn w (.atIsOpen e))
  | isOpen {w : Fin P} {e : Exchange} {place : Sending} (hpc : s.thread w = .atIsOpen e)
      (hplace : place = .atEncode e ∨ place = .atOpen e) :
      Steps endpoint s (.isOpen w) (s.goOn w place)
  | open {w : Fin P} {e : Exchange} {place : Sending} (a : OpenAnswers)
      (hpc : s.thread w = .atOpen e) (hplace : place = .atEncode e ∨ place = .idle) :
      Steps endpoint s (.open w a)
        ((s.operated (s.producer.queue.open endpoint.remaining a s.calls)).goOn w place)
  | encode {w : Fin P} {e : Exchange} {enc : Encoded} (hpc : s.thread w = .atEncode e)
      (hencode : MsmqProducer.encode s.heap e.body = .ok enc) :
      Steps endpoint s (.encode w) ({ s with heap := enc.heap }.goOn w (.atSend enc.buffer))
  | notEncoded {w : Fin P} {e : Exchange} (hpc : s.thread w = .atEncode e) :
      Steps endpoint s (.encode w) (s.goOn w .idle)
  | send {w : Fin P} {buffer : Option ByteBuffer} (raw : MsmqMessage) (hr : Hresult)
      (hpc : s.thread w = .atSend buffer) :
      Steps endpoint s (.send w raw hr)
        ((s.operated (s.producer.send s.heap buffer raw hr s.calls)).goOn w .idle)
  | doStart : Steps endpoint s .doStart s
  | doStop (hr : Hresult) (hidle : ∀ w, (s.thread w).isIdle = true) :
      Steps endpoint s (.doStop hr) (s.operated (s.producer.doStop hr s.calls))

/-- **The list is complete.**  Each case names what the step does to the producer, to the heap
and to the place of its thread. -/
theorem steps_of_step (h : s.step endpoint act = some s') : Steps endpoint s act s' := by
  cases act with
  | call w e =>
      simp only [step] at h
      split at h
      · cases h
        exact .call e ‹_›
      · cases h
  | isOpen w =>
      simp only [step] at h
      split at h
      · cases h
        refine .isOpen ‹_› ?_
        split
        · exact .inl rfl
        · exact .inr rfl
      · cases h
  | «open» w a =>
      simp only [step] at h
      split at h
      · cases h
        refine .open a ‹_› ?_
        split
        · exact .inl rfl
        · exact .inr rfl
      · cases h
  | encode w =>
      simp only [step] at h
      split at h
      · rename_i e hpc
        split at h
        · cases h
          exact .encode hpc ‹_›
        · cases h
          exact .notEncoded hpc
      · cases h
  | send w raw hr =>
      simp only [step] at h
      split at h
      · cases h
        exact .send raw hr ‹_›
      · cases h
  | doStart =>
      cases h
      exact .doStart
  | doStop hr =>
      simp only [step] at h
      split at h
      · cases h
        exact .doStop hr ‹_›
      · cases h

/-- The message that a step puts into the MSMQ queue, read off its call of `MQSendMessage`. -/
def sent? (s : Threads P) : ThreadAction P → Option MqMessage
  | .send w raw hr =>
      match s.thread w with
      | .atSend buffer =>
          (enqueuedSince s.calls (s.producer.send s.heap buffer raw hr s.calls).calls).head?
      | _ => none
  | _ => none

/-- A send of a message. -/
theorem sent?_send {w : Fin P} {b : ByteBuffer} (hpc : s.thread w = .atSend (some b))
    (raw : MsmqMessage) (hr : Hresult) :
    s.sent? (.send w raw hr) =
      if failed hr then none else some ((s.producer.message raw b).sent s.heap) := by
  simp only [sent?, hpc, MsmqProducer.enqueuedSince_send]
  cases failed hr <;> rfl

/-- Only the send of a thread that has a buffer enqueues a message. -/
theorem sent?_eq_some {m : MqMessage} (h : s.sent? act = some m) :
    ∃ w b raw hr, act = .send w raw hr ∧ s.thread w = .atSend (some b) ∧ failed hr = false ∧
      m = (s.producer.message raw b).sent s.heap := by
  cases act with
  | send w raw hr =>
      cases hpc : s.thread w with
      | atSend buffer =>
          cases buffer with
          | none => simp [sent?, hpc, MsmqProducer.send] at h
          | some b =>
              rw [sent?_send hpc] at h
              cases hhr : failed hr with
              | true => simp [hhr] at h
              | false =>
                  rw [hhr] at h
                  exact ⟨w, b, raw, hr, rfl, hpc, hhr, (Option.some.inj h).symm⟩
      | _ => simp [sent?, hpc] at h
  | _ => cases h

/-- Most steps enqueue nothing. -/
theorem enqueued_operation {q : MsmqQueue} {calls : List MqCall}
    (h : Operation endpoint s act q calls) (hsend : ∀ w raw hr, act ≠ .send w raw hr) :
    enqueued calls = enqueued s.calls := by
  cases h with
  | none => rfl
  | opens w a => exact MsmqQueue.filterMap_open (fun _ _ _ => rfl) (fun _ _ => rfl) _ _ _ _
  | sends w raw hr message => exact absurd rfl (hsend w raw hr)
  | stops hr hopen =>
      obtain ⟨-, heq⟩ | ⟨h, -, -, heq⟩ | ⟨h, -, -, heq⟩ :=
        s.producer.queue.close_cases hr s.calls <;>
        rw [heq] <;> rfl

/-- **What a step enqueues**: the one message of its send, if there is one.  It is about all the
calls that the step makes, so no other step enqueues anything, and no send two messages. -/
theorem enqueued_step (h : s.step endpoint act = some s') :
    enqueued s'.calls = (s.sent? act).toList ++ enqueued s.calls := by
  have hoperation := operation_of_step h
  cases steps_of_step h with
  | @send w buffer raw hr hpc =>
      cases buffer with
      | none =>
          simp only [sent?, hpc, MsmqProducer.send, enqueuedSince_self]
          rfl
      | some b =>
          show enqueued (s.producer.send s.heap (some b) raw hr s.calls).calls = _
          rw [s.producer.calls_send, enqueued_cons, sent?_send hpc]
          rfl
  | _ => exact enqueued_operation hoperation fun _ _ _ hsend => by cases hsend

/-- The same, of the calls that the step has added. -/
theorem enqueuedSince_step (h : s.step endpoint act = some s') :
    enqueuedSince s.calls s'.calls = (s.sent? act).toList := by
  rw [enqueuedSince_eq (enqueued_step h)]
  cases s.sent? act <;> rfl

/-- Apart from the new storages of an encoding, no step changes the heap. -/
theorem touched_step (h : s.step endpoint act = some s') :
    Heap.Touched (fun _ => False) s.heap s'.heap := by
  cases steps_of_step h with
  | encode hpc hencode => exact (MsmqProducer.encode_ok hencode).touched
  | _ => exact .refl _

/-- No step changes the settings of the producer. -/
theorem configured_step (hp : ProducerState.Configured endpoint s.producer)
    (h : s.step endpoint act = some s') : ProducerState.Configured endpoint s'.producer := by
  cases steps_of_step h with
  | «open» a hpc hplace => exact hp.withQueue _
  | send raw hr hpc => exact hp.withQueue _
  | doStop hr hidle => exact hp.withQueue _
  | _ => exact hp

end Threads

end Msmq
