import CamelMsmq.System

/-!
# What a thread sends is what it has promised

Between the encoding and the send of one thread all others go on.  The bytes that the
thread has copied lie in a buffer of its own: the workers write to the consumer's
storages, other threads to new ones, and the application to none that is private.  A
direct buffer of the caller is read at the send, whatever has happened to it meanwhile.

The system keeps for the record what each thread has *promised*: bytes, or a buffer of the
caller.  `Calls` is the invariant that ties the record to the buffers: whoever is about to
send has a buffer that holds what was promised, a buffer made for copied bytes is nobody
else's, and no worker receives into it.  Two lemmas carry it through all the actions, one
for what the others do (`Calls.frame`) and one for the thread that acts (`Calls.goOn`).

`Sound` puts it together with the invariants of the consumer, of the settings and of the
heap, which the two sides share.
-/

namespace Msmq

/-- The buffer is the one that is to be sent. -/
def Promise.HeldBy (heap : Heap) (b : ByteBuffer) : Promise → Prop
  | .copied bytes => heap.storage b.storage = bytes
  | .caller b' => b' = b

theorem Promise.HeldBy.bytes {heap : Heap} {b : ByteBuffer} {promise : Promise}
    (hp : promise.HeldBy heap b) : heap.storage b.storage = promise.bytes heap := by
  cases promise with
  | copied bytes => exact hp
  | caller b' => exact congrArg (fun b : ByteBuffer => heap.storage b.storage) hp.symm

/-- A `put` writes to the storage it was asked to write to. -/
theorem ByteBuffer.put_ok {h : Heap} {dst src : ByteBuffer} {r : ByteBuffer × ByteBuffer × Heap}
    (hput : put h dst src = .ok r) : r.1.storage = dst.storage ∧ r.2.2.next = h.next := by
  unfold put at hput
  split at hput
  · cases hput
    exact ⟨rfl, rfl⟩
  · cases hput

namespace MsmqProducer

/-- What the encoding makes of a body: a direct buffer that holds what is promised, the
caller's or a new one. -/
structure Fulfils (heap : Heap) (body : Body) (enc : Encoded) (b : ByteBuffer) : Prop where
  direct : b.direct = true
  valid : b.Valid enc.heap
  held : (body.promise heap).HeldBy enc.heap b
  fresh : ∀ bytes, body.promise heap = .copied bytes → heap.next ≤ b.storage

/-- The buffer that a heap buffer is copied to is new, so nobody else refers to it. -/
theorem storage_encode_heap {heap : Heap} {b buffer : ByteBuffer} {enc : Encoded}
    (hencode : encode heap (.byteBuffer b) = .ok enc) (hheap : b.direct = false)
    (hbuffer : enc.buffer = some buffer) :
    buffer.storage = heap.next ∧ enc.heap.next = heap.next + 1 := by
  unfold encode at hencode
  simp only [hheap, Bool.false_eq_true, if_false] at hencode
  cases halloc : ByteBuffer.allocateDirect heap (.ofNat b.remaining) with
  | error e =>
      rw [halloc] at hencode
      cases hencode
  | ok r =>
      obtain ⟨outBuffer, fresh⟩ := r
      obtain ⟨-, rfl, rfl⟩ := ByteBuffer.allocateDirect_ok halloc
      rw [halloc] at hencode
      change (ByteBuffer.put _ _ b >>= _) = _ at hencode
      cases hput : ByteBuffer.put (heap.allocate (Int32.ofNat b.remaining).toInt.toNat)
          (.whole heap.next true (.ofNat b.remaining)) b with
      | error e =>
          rw [hput] at hencode
          cases hencode
      | ok r =>
          rw [hput] at hencode
          cases hencode
          cases hbuffer
          exact ByteBuffer.put_ok hput

/-- A heap buffer is copied, as far as it remains. -/
theorem fulfils_heap {heap : Heap} {b buffer : ByteBuffer} {enc : Encoded}
    (hencode : encode heap (.byteBuffer b) = .ok enc) (hheap : b.direct = false)
    (hv : b.Valid heap) (hbuffer : enc.buffer = some buffer) :
    Fulfils heap (.byteBuffer b) enc buffer := by
  have hpromise : (Body.byteBuffer b).promise heap = .copied (b.window heap) := by
    simp [Body.promise, hheap]
  obtain ⟨hstorage, hnext⟩ := storage_encode_heap hencode hheap hbuffer
  obtain ⟨buffer', heap', heq, hholds⟩ := encode_heap heap hheap
  obtain rfl := Except.ok.inj (heq.symm.trans hencode)
  obtain rfl : buffer' = buffer := Option.some.inj hbuffer
  have hcontent := hholds.content hv
  refine ⟨hholds.direct, ⟨?_, ?_⟩, ?_, fun _ _ => Nat.le_of_eq hstorage.symm⟩
  · rw [hstorage, hnext]
    exact Nat.lt_succ_self _
  · rw [hcontent, hv.length_window, hholds.capacity]
  · rw [hpromise]
    exact hcontent

/-- **Encoding keeps the promise.**  The buffer that the encoding gives is the direct buffer of
the caller, or a new one that holds the bytes that the body had at that moment. -/
theorem fulfils_encode {heap : Heap} {body : Body} {enc : Encoded} {buffer : ByteBuffer}
    (hencode : encode heap body = .ok enc) (hv : body.Valid heap)
    (hbuffer : enc.buffer = some buffer) : Fulfils heap body enc buffer := by
  cases body with
  | byteBuffer b =>
      cases hdirect : b.direct with
      | false => exact fulfils_heap hencode hdirect (hv b rfl) hbuffer
      | true =>
          have hpromise : (Body.byteBuffer b).promise heap = .caller b := by
            simp [Body.promise, hdirect]
          have hvalid := hv b rfl
          rw [encode_direct heap hdirect] at hencode
          cases hencode
          cases hbuffer
          refine ⟨hdirect, hvalid, ?_, fun bytes hcopied => ?_⟩
          · rw [hpromise]
            rfl
          · rw [hpromise] at hcopied
            cases hcopied
  | string s =>
      obtain ⟨-, b, heap', heq, hholds⟩ | ⟨-, ex, herror⟩ := encode_string heap s
      · rw [heq] at hencode
        cases hencode
        cases hbuffer
        refine ⟨hholds.direct, ⟨hholds.bounded, ?_⟩, hholds.content, fun _ _ => hholds.fresh⟩
        rw [hholds.content, length_encodeChars, hholds.capacity]
      · rw [herror] at hencode
        cases hencode
  | null =>
      cases hencode
      cases hbuffer
  | other =>
      cases hencode
      cases hbuffer

end MsmqProducer

/-- The exchange of a call that has not encoded its body yet. -/
def Sending.exchange? : Sending → Option Exchange
  | .atIsOpen e => some e
  | .atOpen e => some e
  | .atEncode e => some e
  | _ => none

namespace System

variable {P N : Nat} {sender receiver : MsmqEndpoint} {s s' : System P N}

/-- The calls in progress: bodies belong to the heap, buffers that are about to be sent hold
what is promised, and the buffers that calls have made are theirs alone. -/
structure Calls (s : System P N) : Prop where
  bodies : ∀ p e, (s.sender.thread p).exchange? = some e → e.body.Valid s.heap
  sending : ∀ p b, s.sender.thread p = .atSend (some b) →
    b.direct = true ∧ b.Valid s.heap ∧ (s.promised p).HeldBy s.heap b
  bounded : ∀ p a, s.ownBuffer p = some a → a < s.heap.next
  unshared : ∀ p a, s.ownBuffer p = some a → a ∉ s.receiver.storages
  own : ∀ p q a, s.ownBuffer p = some a → s.ownBuffer q = some a → p = q

theorem calls_init (endpoint : MsmqEndpoint) : (init P N endpoint).Calls :=
  ⟨nofun, nofun, nofun, nofun, nofun⟩

/-- The buffer that a call has made for bytes it has copied. -/
theorem ownBuffer_of_copied {p : Fin P} {b : ByteBuffer} {bytes : List UInt8}
    (hpc : s.sender.thread p = .atSend (some b)) (hcopied : s.promised p = .copied bytes) :
    s.ownBuffer p = some b.storage := by
  simp only [ownBuffer, hpc, hcopied]

/-- **Others go on.**  They keep all storages, leave the buffers that calls have made as
they are, and the consumer's new storages are new. -/
theorem Calls.frame (hc : s.Calls) (hthread : s'.sender.thread = s.sender.thread)
    (hpromised : s'.promised = s.promised) (hkept : s.heap.Kept s'.heap)
    (hown : ∀ p a, s.ownBuffer p = some a → s'.heap.storage a = s.heap.storage a)
    (hstorages : ∀ a ∈ s'.receiver.storages, a ∈ s.receiver.storages ∨ s.heap.next ≤ a) :
    s'.Calls := by
  have hsame : ∀ p, s'.ownBuffer p = s.ownBuffer p := fun p => by
    unfold ownBuffer
    rw [hthread, hpromised]
  refine ⟨fun p e he => ?_, fun p b hpc => ?_, fun p a ha => ?_, fun p a ha hmem => ?_, ?_⟩
  · rw [hthread] at he
    exact (hc.bodies p e he).kept hkept
  · rw [hthread] at hpc
    obtain ⟨hdirect, hvalid, hheld⟩ := hc.sending p b hpc
    refine ⟨hdirect, hvalid.kept hkept, ?_⟩
    rw [hpromised]
    cases hpromise : s.promised p with
    | copied bytes =>
        rw [hpromise] at hheld
        show s'.heap.storage b.storage = bytes
        rw [hown p _ (ownBuffer_of_copied hpc hpromise)]
        exact hheld
    | caller b' =>
        rw [hpromise] at hheld
        exact hheld
  · rw [hsame] at ha
    exact Nat.lt_of_lt_of_le (hc.bounded p a ha) hkept.next_le
  · rw [hsame] at ha
    rcases hstorages a hmem with hold | hnew
    · exact hc.unshared p a ha hold
    · exact Nat.not_lt_of_le hnew (hc.bounded p a ha)
  · intro p q a hp hq
    rw [hsame] at hp hq
    exact hc.own p q a hp hq

/-- The buffers of the calls after one thread has gone on. -/
theorem ownBuffer_goOn {p q : Fin P} {place : Sending}
    (hthread : s'.sender.thread = Function.update s.sender.thread p place)
    (hpromised : ∀ q, q ≠ p → s'.promised q = s.promised q) (hq : q ≠ p) :
    s'.ownBuffer q = s.ownBuffer q := by
  unfold ownBuffer
  rw [hthread, hpromised q hq, Function.update_of_ne hq]

/-- The buffer of a call that is about to send. -/
theorem ownBuffer_eq_some {p : Fin P} {a : Addr} (ha : s.ownBuffer p = some a) :
    ∃ b bytes, s.sender.thread p = .atSend (some b) ∧ s.promised p = .copied bytes ∧
      b.storage = a := by
  unfold ownBuffer at ha
  split at ha
  · exact ⟨_, _, ‹_›, ‹_›, Option.some.inj ha⟩
  · cases ha

/-- **One thread goes on**, on the same heap.  If it is about to send bytes that it has
copied, their buffer is nobody else's. -/
theorem Calls.goOn (hc : s.Calls) {p : Fin P} {place : Sending}
    (hthread : s'.sender.thread = Function.update s.sender.thread p place)
    (hpromised : ∀ q, q ≠ p → s'.promised q = s.promised q) (hheap : s'.heap = s.heap)
    (hstorages : s'.receiver.storages = s.receiver.storages)
    (hbody : ∀ e, place.exchange? = some e → e.body.Valid s.heap)
    (hbuffer : ∀ b, place = .atSend (some b) →
      b.direct = true ∧ b.Valid s.heap ∧ (s'.promised p).HeldBy s.heap b)
    (hfresh : ∀ b bytes, place = .atSend (some b) → s'.promised p = .copied bytes →
      b.storage ∉ s.receiver.storages ∧ ∀ q, s.ownBuffer q ≠ some b.storage) : s'.Calls := by
  have hp : s'.sender.thread p = place := by rw [hthread, Function.update_self]
  have hother : ∀ q, q ≠ p → s'.sender.thread q = s.sender.thread q := fun q hq => by
    rw [hthread, Function.update_of_ne hq]
  have hown : ∀ {q}, q ≠ p → s'.ownBuffer q = s.ownBuffer q := ownBuffer_goOn hthread hpromised
  -- the buffer of the thread that has gone on
  have hmine : ∀ {a}, s'.ownBuffer p = some a →
      a < s.heap.next ∧ a ∉ s.receiver.storages ∧ ∀ q, s.ownBuffer q ≠ some a := by
    intro a ha
    obtain ⟨b, bytes, hpc, hcopied, rfl⟩ := ownBuffer_eq_some ha
    rw [hp] at hpc
    exact ⟨(hbuffer b hpc).2.1.allocated, hfresh b bytes hpc hcopied⟩
  refine ⟨fun q e he => ?_, fun q b hpc => ?_, fun q a ha => ?_, fun q a ha => ?_, ?_⟩
  · rw [hheap]
    by_cases hq : q = p
    · rw [hq, hp] at he
      exact hbody e he
    · rw [hother q hq] at he
      exact hc.bodies q e he
  · rw [hheap]
    by_cases hq : q = p
    · subst hq
      rw [hp] at hpc
      exact hbuffer b hpc
    · rw [hother q hq] at hpc
      rw [hpromised q hq]
      exact hc.sending q b hpc
  · rw [hheap]
    by_cases hq : q = p
    · subst hq
      exact (hmine ha).1
    · exact hc.bounded q a ((hown hq).symm.trans ha)
  · rw [hstorages]
    by_cases hq : q = p
    · subst hq
      exact (hmine ha).2.1
    · exact hc.unshared q a ((hown hq).symm.trans ha)
  · intro q r a hqa hra
    by_cases hq : q = p
    · by_cases hr : r = p
      · rw [hq, hr]
      · rw [hq] at hqa
        exact absurd ((hown hr).symm.trans hra) ((hmine hqa).2.2 r)
    · by_cases hr : r = p
      · rw [hr] at hra
        exact absurd ((hown hq).symm.trans hqa) ((hmine hra).2.2 q)
      · exact hc.own q r a ((hown hq).symm.trans hqa) ((hown hr).symm.trans hra)

/-- A thread that goes on to a place where it holds no buffer. -/
theorem Calls.goOn_without (hc : s.Calls) {p : Fin P} {place : Sending}
    (hthread : s'.sender.thread = Function.update s.sender.thread p place)
    (hpromised : ∀ q, q ≠ p → s'.promised q = s.promised q) (hheap : s'.heap = s.heap)
    (hstorages : s'.receiver.storages = s.receiver.storages)
    (hnone : ∀ b, place ≠ .atSend (some b))
    (hbody : ∀ e, place.exchange? = some e → e.body.Valid s.heap) : s'.Calls :=
  hc.goOn hthread hpromised hheap hstorages hbody (fun b hb => absurd hb (hnone b))
    fun b _ hb => absurd hb (hnone b)

/-- The encoding of a body.  A new buffer is none of the consumer's and none of another call's;
a direct buffer of the caller is sent as it will be. -/
theorem Calls.encode (hc : s.Calls) (hs : s.receiver.Sound receiver) {p : Fin P} {e : Exchange}
    {enc : Encoded} (hpc : s.sender.thread p = .atEncode e)
    (hencode : MsmqProducer.encode s.heap e.body = .ok enc)
    (hthread : s'.sender.thread = Function.update s.sender.thread p (.atSend enc.buffer))
    (hpromised : s'.promised = Function.update s.promised p (e.body.promise s.heap))
    (hheap : s'.heap = enc.heap) (hstorages : s'.receiver.storages = s.receiver.storages) :
    s'.Calls := by
  have htouched := (MsmqProducer.encode_ok hencode).touched
  have hbody : e.body.Valid s.heap := hc.bodies p e (by rw [hpc]; rfl)
  have hmiddle : (s.withHeap enc.heap).Calls := by
    refine hc.frame rfl rfl htouched.kept (fun q a ha => ?_) fun a ha => .inl ha
    exact htouched.frame a (hc.bounded q a ha) not_false
  have hpromise : s'.promised p = e.body.promise s.heap := by rw [hpromised, Function.update_self]
  refine hmiddle.goOn hthread (fun q hq => ?_) hheap hstorages (fun e' he' => ?_) (fun b hb => ?_)
    fun b bytes hb hcopied => ?_
  · rw [hpromised, Function.update_of_ne hq]
    rfl
  · cases he'
  · have hfulfils := MsmqProducer.fulfils_encode hencode hbody (Sending.atSend.inj hb)
    rw [hpromise]
    exact ⟨hfulfils.direct, hfulfils.valid, hfulfils.held⟩
  · have hfulfils := MsmqProducer.fulfils_encode hencode hbody (Sending.atSend.inj hb)
    rw [hpromise] at hcopied
    have hnew := hfulfils.fresh bytes hcopied
    refine ⟨fun hmem => ?_, fun q hq => ?_⟩
    · exact Nat.not_lt_of_le hnew (hs.bounded _ hmem)
    · exact Nat.not_lt_of_le hnew (hc.bounded q _ hq)

/-- **A step of the threads.**  The one that acts goes on as `goOn` says, after the heap has
changed as `frame` allows: only an encoding changes it, by new storages. -/
theorem Calls.threads (hc : s.Calls) (hs : s.receiver.Sound receiver)
    (hsame : s.sender.heap = s.heap) {act : ThreadAction P} {t : Threads P}
    (hcall : Callable s.heap act) (hstep : s.sender.step sender act = some t)
    (queue : List MqMessage) :
    Calls
      { sender := t
        receiver := s.receiver.withHeap t.heap
        queue := queue
        promised := s.promise act } := by
  have hbody : ∀ {p e}, (s.sender.thread p).exchange? = some e →
      ∀ e', some e = some e' → e'.body.Valid s.heap := by
    intro p e hpc e' he'
    exact Option.some.inj he' ▸ hc.bodies p e hpc
  cases Threads.steps_of_step hstep with
  | call e hidle =>
      refine hc.goOn_without rfl (fun _ _ => rfl) hsame rfl nofun fun e' he' => ?_
      exact Option.some.inj he' ▸ hcall
  | isOpen hpc hplace =>
      rcases hplace with rfl | rfl <;>
        exact hc.goOn_without rfl (fun _ _ => rfl) hsame rfl nofun (hbody (by rw [hpc]; rfl))
  | «open» a hpc hplace =>
      rcases hplace with rfl | rfl
      · exact hc.goOn_without rfl (fun _ _ => rfl) hsame rfl nofun (hbody (by rw [hpc]; rfl))
      · exact hc.goOn_without rfl (fun _ _ => rfl) hsame rfl nofun nofun
  | encode hpc hencode =>
      rw [hsame] at hencode
      refine hc.encode hs hpc hencode rfl ?_ rfl rfl
      simp only [promise, hpc]
  | notEncoded hpc =>
      refine hc.goOn_without rfl (fun q hq => ?_) hsame rfl nofun nofun
      simp only [promise, hpc, Function.update_of_ne hq]
  | send raw hr hpc => exact hc.goOn_without rfl (fun _ _ => rfl) hsame rfl nofun nofun
  | _ =>
      refine hc.frame rfl rfl ?_ (fun p a _ => ?_) fun _ => .inl
      · rw [← hsame]
        exact .refl _
      · rw [← hsame]
        rfl

/-! ## The whole system -/

/-- The invariant of the system.  Beside the invariants of the two sides it says that they share
one heap, and that messages in the queue have the time to live of the endpoint. -/
structure Sound (sender receiver : MsmqEndpoint) (s : System P N) : Prop where
  sameHeap : s.sender.heap = s.heap
  receives : s.receiver.Sound receiver
  calls : s.Calls
  configured : ProducerState.Configured sender s.sender.producer
  timed : ∀ m ∈ s.queue, m.props.timeToBeReceived = UInt32.ofInt sender.timeToLive.toInt

theorem sound_init : (init P N sender).Sound sender receiver :=
  ⟨rfl, Consumer.sound_doStart, calls_init sender, ⟨rfl, rfl, rfl⟩, nofun⟩

/-- A message put into the queue has the time to live of the endpoint. -/
theorem Sound.timed_append (hs : s.Sound sender receiver) (act : ThreadAction P) :
    ∀ m ∈ s.queue ++ (s.sender.sent? act).toList,
      m.props.timeToBeReceived = UInt32.ofInt sender.timeToLive.toInt := by
  intro m hm
  rcases List.mem_append.mp hm with hold | hnew
  · exact hs.timed m hold
  · have hsent : s.sender.sent? act = some m := Option.mem_toList.mp hnew
    obtain ⟨p, b, raw, hr, -, -, -, rfl⟩ := Threads.sent?_eq_some hsent
    rw [(s.sender.producer.props_message raw b s.sender.heap).2.1, hs.configured.timeToLive]

/-- What lies in the queue after a receive has lain there before. -/
theorem mem_of_take {queue rest : List MqMessage} {place : Nat} {act : Action N}
    (htake : take queue place act = some rest) {m : MqMessage} (hm : m ∈ rest) : m ∈ queue := by
  unfold take at htake
  split at htake
  · split at htake
    · cases htake
      exact hm
    · split at htake
      · split at htake
        · cases htake
          exact List.mem_of_mem_eraseIdx hm
        · cases htake
      · cases htake
  · cases htake
    exact hm

/-- The application allocates, or writes where it can.  It cannot reach the buffers of the calls
and those that workers receive into, and about all others nothing has been promised. -/
theorem Sound.withHeap (hs : s.Sound sender receiver) {heap : Heap} (hkept : s.heap.Kept heap)
    (htouched : Heap.Touched (fun a => ¬s.Private a) s.heap heap) :
    (s.withHeap heap).Sound sender receiver := by
  refine ⟨rfl, ?_, ?_, hs.configured, hs.timed⟩
  · refine hs.receives.withHeap_of_buffers (htouched.mono fun a ha w hw => ha (.inr ⟨w, hw⟩))
  · refine hs.calls.frame rfl rfl hkept (fun p a ha => ?_) fun _ => .inl
    exact htouched.frame a (hs.calls.bounded p a ha) fun hfree => hfree (.inl ⟨p, ha⟩)

/-- **One action.**  Each part of the invariant needs of the others only what was true before
the action, so the parts are shown one after the other. -/
theorem Sound.step (hs : s.Sound sender receiver) {act : SystemAction P N}
    (h : s.step sender receiver act = some s') : s'.Sound sender receiver := by
  cases steps_of_step h with
  | @sender act t hcall hstep =>
      have hthreads := hs.calls.threads hs.receives hs.sameHeap hcall hstep
        (s.queue ++ (s.sender.sent? act).toList)
      refine ⟨rfl, ?_, hthreads, Threads.configured_step hs.configured hstep, hs.timed_append act⟩
      refine hs.receives.withHeap ?_
      rw [← show s.sender.heap = s.receiver.shared.heap from hs.sameHeap]
      exact (Threads.touched_step hstep).mono fun _ => False.elim
  | receiver htake hstep =>
      have hspares := hs.receives.spares hstep
      refine ⟨rfl, hs.receives.step hstep, ?_, hs.configured,
        fun m hm => hs.timed m (mem_of_take htake hm)⟩
      refine hs.calls.frame rfl rfl (Consumer.kept_step hstep) (fun p a ha => ?_) hspares.storages
      exact hspares.touched.frame a (hs.calls.bounded p a ha) (hs.calls.unshared p a ha)
  | discard hm htime =>
      refine ⟨hs.sameHeap, hs.receives, ?_, hs.configured,
        fun m hm => hs.timed m (List.mem_of_mem_eraseIdx hm)⟩
      exact hs.calls.frame rfl rfl (.refl _) (fun _ _ _ => rfl) fun _ => .inl
  | allocate size => exact hs.withHeap (Heap.kept_allocate ..) (Heap.touched_allocate ..)
  | write offset bytes hfree =>
      exact hs.withHeap (Heap.kept_write ..) (Heap.touched_write _ _ _ hfree)

theorem sound_of_reachable (hreach : Runs.Reachable (step sender receiver) (init P N sender) s) :
    s.Sound sender receiver :=
  hreach.invariant _ (Sound sender receiver) sound_init fun _ _ _ hs h => hs.step h

/-! ## From the encoding to the send -/

/-- The thread whose step an action is. -/
def thread? : SystemAction P N → Option (Fin P)
  | .sender (.call p _) => some p
  | .sender (.isOpen p) => some p
  | .sender (.open p _) => some p
  | .sender (.encode p) => some p
  | .sender (.send p _ _) => some p
  | _ => none

/-- A thread stays where it is while others act. -/
theorem thread_of_others {p : Fin P} {act : SystemAction P N} (hothers : thread? act ≠ some p)
    (h : s.step sender receiver act = some s') :
    s'.sender.thread p = s.sender.thread p ∧ s'.promised p = s.promised p := by
  have hne : ∀ {q : Fin P}, some q ≠ some p → p ≠ q := fun hq heq => hq (by rw [heq])
  cases steps_of_step h with
  | sender hcall hstep =>
      cases Threads.steps_of_step hstep with
      | call e hidle => exact ⟨Function.update_of_ne (hne hothers) .., rfl⟩
      | isOpen hpc hplace => exact ⟨Function.update_of_ne (hne hothers) .., rfl⟩
      | «open» a hpc hplace => exact ⟨Function.update_of_ne (hne hothers) .., rfl⟩
      | encode hpc hencode =>
          refine ⟨Function.update_of_ne (hne hothers) .., ?_⟩
          simp only [promise, hpc, Function.update_of_ne (hne hothers)]
      | notEncoded hpc =>
          refine ⟨Function.update_of_ne (hne hothers) .., ?_⟩
          simp only [promise, hpc, Function.update_of_ne (hne hothers)]
      | send raw hr hpc => exact ⟨Function.update_of_ne (hne hothers) .., rfl⟩
      | _ => exact ⟨rfl, rfl⟩
  | _ => exact ⟨rfl, rfl⟩

/-- The same for a run in which the thread takes no step. -/
theorem thread_of_run {p : Fin P} {acts : List (SystemAction P N)}
    (hothers : ∀ act ∈ acts, thread? act ≠ some p)
    (hrun : Runs.run (step sender receiver) s acts = some s') :
    s'.sender.thread p = s.sender.thread p ∧ s'.promised p = s.promised p := by
  induction acts generalizing s with
  | nil =>
      obtain rfl : s = s' := Option.some.inj hrun
      exact ⟨rfl, rfl⟩
  | cons act rest ih =>
      obtain ⟨next, hstep, hrest⟩ := (Runs.run_cons_iff _).mp hrun
      obtain ⟨hthread, hpromised⟩ := thread_of_others (hothers act List.mem_cons_self) hstep
      obtain ⟨hthread', hpromised'⟩ := ih (fun b hb => hothers b (List.mem_cons_of_mem _ hb)) hrest
      exact ⟨hthread'.trans hthread, hpromised'.trans hpromised⟩

/-- The send of a thread that has a buffer makes one call, and what that enqueues goes to the
MSMQ queue. -/
theorem step_send {p : Fin P} {b : ByteBuffer} (hbuffer : s.sender.thread p = .atSend (some b))
    {raw : MsmqMessage} {hr : Hresult}
    (h : s.step sender receiver (.sender (.send p raw hr)) = some s') :
    s'.sender.calls = .sendMessage s.sender.producer.queue.hQueue
        ((s.sender.producer.message raw b).sent s.sender.heap) hr :: s.sender.calls ∧
      s'.queue = s.queue ++ (s.sender.sent? (.send p raw hr)).toList := by
  cases steps_of_step h with
  | sender hcall hstep =>
      cases Threads.steps_of_step hstep with
      | @send w buffer raw hr hpc =>
          obtain rfl : some b = buffer := by
            rw [hbuffer] at hpc
            exact Sending.atSend.inj hpc
          exact ⟨s.sender.producer.calls_send .., rfl⟩

/-- **What a thread sends is what it has promised.**  A thread has encoded the body of its
exchange, and others have gone on meanwhile: other threads, workers, processors, the
application, `doStart` and `doStop`.  The send that the thread then makes hands one message to
`MQSendMessage`, and with success this is the one message that the step enqueues.  It holds the
bytes of a direct buffer as they are at the send, and of any other body the payload that it had
at the encoding. -/
theorem sent_as_promised {encoded later sent : System P N}
    (hreach : Runs.Reachable (step sender receiver) (init P N sender) s) {p : Fin P}
    {e : Exchange} (hpc : s.sender.thread p = .atEncode e)
    (hencode : s.step sender receiver (.sender (.encode p)) = some encoded)
    {acts : List (SystemAction P N)} (hothers : ∀ act ∈ acts, thread? act ≠ some p)
    (hrun : Runs.run (step sender receiver) encoded acts = some later) {b : ByteBuffer}
    (hbuffer : later.sender.thread p = .atSend (some b)) {raw : MsmqMessage} {hr : Hresult}
    (hsend : later.step sender receiver (.sender (.send p raw hr)) = some sent) :
    ∃ m, sent.sender.calls =
        .sendMessage later.sender.producer.queue.hQueue m hr :: later.sender.calls ∧
      (failed hr = false →
        enqueued sent.sender.calls = m :: enqueued later.sender.calls ∧
        sent.queue = later.queue ++ [m]) ∧
      m.body = match e.body with
        | .byteBuffer b' =>
            if b'.direct then later.heap.storage b'.storage else b'.window s.heap
        | body => body.payload s.heap := by
  have hs := sound_of_reachable hreach
  have hlater := Runs.run_invariant _ (fun _ _ _ hs h => hs.step h) (hs.step hencode) hrun
  have hpromised : later.promised p = e.body.promise s.heap := by
    rw [(thread_of_run hothers hrun).2]
    cases steps_of_step hencode with
    | sender hcall hstep => simp only [promise, hpc, Function.update_self]
  obtain ⟨hdirect, hvalid, hheld⟩ := hlater.calls.sending p b hbuffer
  rw [hpromised] at hheld
  obtain ⟨hcalls, hqueue⟩ := later.step_send hbuffer hsend
  refine ⟨_, hcalls, fun hok => ⟨?_, ?_⟩, ?_⟩
  · rw [hcalls, enqueued_cons]
    simp [MqCall.enqueued?, hok]
  · rw [hqueue, Threads.sent?_send hbuffer, hok]
    rfl
  · rw [MsmqProducer.body_message, hlater.sameHeap, body_sent_of_direct _ hdirect hvalid.length,
      hheld.bytes]
    cases e.body with
    | byteBuffer b' => cases hdirect' : b'.direct <;> simp [Body.promise, Promise.bytes, hdirect']
    | _ => rfl

/-- The application overwrites a heap buffer between the encoding and the send. -/
theorem sent_as_promised_overwritten :
    ∃ (later sent : System 2 1) (m : MqMessage), later.heap.storage 0 = [67, 66] ∧
      enqueued later.sender.calls = [] ∧ enqueued sent.sender.calls = [m] ∧ sent.queue = [m] ∧
      m.body = [65, 66] := by
  let sender : MsmqEndpoint := { remaining := some [113] }
  let buffer : ByteBuffer := .whole 0 false 2
  let e := Exchange.create.setBody (.byteBuffer buffer)
  have hrun : ∃ (s encoded later sent : System 2 1) (b : ByteBuffer),
      Runs.run (step sender sender) (init 2 1 sender)
        [.allocate 2, .write 0 0 [65, 66], .sender (.call 0 e), .sender (.isOpen 0),
          .sender (.open 0 (.always 0 1 0))] = some s ∧
      s.sender.thread 0 = .atEncode e ∧
      s.step sender sender (.sender (.encode 0)) = some encoded ∧
      Runs.run (step sender sender) encoded
        [.write 0 0 [67], .sender (.call 1 e), .receiver (.start 0) 0] = some later ∧
      later.sender.thread 0 = .atSend (some b) ∧
      later.step sender sender (.sender (.send 0 default 0)) = some sent ∧
      later.heap.storage 0 = [67, 66] ∧ buffer.window s.heap = [65, 66] ∧
      enqueued later.sender.calls = [] ∧ later.queue = [] :=
    ⟨_, _, _, _, _, rfl, rfl, rfl, rfl, rfl, rfl, rfl, rfl, rfl, rfl⟩
  obtain ⟨s, encoded, later, sent, b, hs, hpc, hencode, hlater, hbuffer, hsend, hover, hwindow,
    hnone, hempty⟩ := hrun
  obtain ⟨m, -, henqueued, hbody⟩ :=
    sent_as_promised ⟨_, hs⟩ hpc hencode (by simp [thread?]) hlater hbuffer hsend
  obtain ⟨hcalls, hqueue⟩ := henqueued (by decide)
  rw [hnone] at hcalls
  rw [hempty] at hqueue
  exact ⟨later, sent, m, hover, hnone, hcalls, hqueue, hbody.trans hwindow⟩

end System

end Msmq
