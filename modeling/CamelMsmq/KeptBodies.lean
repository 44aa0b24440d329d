import CamelMsmq.Transmission

/-!
# A handed-over body stays

A processor may keep the exchange after its call has returned, and read the body when the
run that handed it over has long ended.  `run` makes a new buffer for every run and after
every overflow, and never takes one back.  So a buffer that has been handed over holds the
body of its message until a processor or the application writes to it, whatever the workers
receive and the producers send meanwhile.

`WritesTo` names the steps that may change a storage: the call of a processor that writes
there, and a write of the application.  The rest is a frame argument.  A receive writes to
the buffer of its own worker, and those are never among the ones handed over; an encoding
writes to a new storage only.

The result is about a run of the whole system after the call, of any length.
-/

namespace Msmq

namespace Task

variable {endpoint : MsmqEndpoint} {me : RunId} {sh sh' : Shared} {pc : Pc} {ans : Answer}
  {after : After} {size : Nat} {queue : QueueRef} {loop : Loop} {a : Addr}

/-- The answer stands for a call of the processor that writes to storage `a`. -/
def WritesTo (a : Addr) : Answer → Prop
  | .processes _ _ writes => ∃ w ∈ writes, w.1 = a
  | _ => False

/-- A throwable in the loop writes nothing: a larger buffer is a new storage. -/
theorem touched_raiseInLoop {A : Addr → Prop} {heap : Heap} {shMid : Shared} (ex : Throwable)
    (htouched : Heap.Touched A heap shMid.heap) :
    Heap.Touched A heap (raiseInLoop endpoint shMid size queue loop ex).2.heap := by
  obtain ⟨-, -, -, heq⟩ | ⟨-, e, heq⟩ := raiseInLoop_cases endpoint shMid size queue loop ex <;>
    rw [heq]
  · exact htouched.trans (Heap.touched_allocate _ _)
  · exact htouched

/-- A call of the processor changes what the processor writes to. -/
theorem Steps.touched_processes {thrown : Option Throwable} {exchange : Exchange}
    {writes : List (Addr × Nat × List UInt8)}
    (h : Steps endpoint me sh pc (.processes thrown exchange writes) after sh') :
    Heap.Touched (fun a => ∃ w ∈ writes, w.1 = a) sh.heap sh'.heap := by
  have htouched := (touched_writes (fun a => ∃ w ∈ writes, w.1 = a) sh.heap writes
    fun w hw => ⟨w, hw, rfl⟩).1
  cases h with
  | processed _ _ hwrites => exact htouched
  | processorThrows ex _ _ hwrites => exact touched_raiseInLoop ex htouched

/-- A call of the processor hands over the buffer of the loop. -/
theorem Steps.handed_processes {thrown : Option Throwable} {exchange : Exchange}
    {writes : List (Addr × Nat × List UInt8)}
    (h : Steps endpoint me sh (.atProcess size queue loop) (.processes thrown exchange writes)
      after sh') (hs : Sound endpoint me sh (.atProcess size queue loop)) :
    handed sh'.deliveries = loop.body.storage :: handed sh.deliveries := by
  obtain ⟨m, older, -, -, hfilled⟩ := hs
  have hhanded : handed (sh.processed me loop writes).deliveries = _ :=
    handed_processed hfilled writes
  cases h with
  | processed _ _ hwrites => exact hhanded
  | processorThrows ex _ _ hwrites => rwa [(raiseInLoop_sameButHeap ..).deliveries]

/-- A step changes the buffer that its worker receives into, and what the processor writes
to. -/
theorem Steps.storage_eq (h : Steps endpoint me sh pc ans after sh') (hs : Sound endpoint me sh pc)
    (hold : a < sh.heap.next) (hbuffers : a ∉ pc.buffers) (hwrites : ¬WritesTo a ans) :
    sh'.heap.storage a = sh.heap.storage a := by
  have hmemory := (h.memory hs).touched.frame a hold
  cases ans with
  | processes thrown exchange writes => exact h.touched_processes.frame a hold hwrites
  | receives r => exact hmemory fun ha => hbuffers (h.writes_receives ha)
  | _ => exact hmemory fun ha => by cases h <;> exact ha

end Task

namespace Consumer

variable {N : Nat} {endpoint : MsmqEndpoint} {c c' : Consumer N} {act : Action N} {a : Addr}

/-- The action stands for a call of a processor that writes to storage `a`. -/
def WritesTo (a : Addr) : Action N → Prop
  | .task _ ans => Task.WritesTo a ans
  | _ => False

/-- What has been handed over remains handed over. -/
theorem mem_handed_step (ha : a ∈ handed c.shared.deliveries) (h : c.step endpoint act = some c') :
    a ∈ handed c'.shared.deliveries := by
  cases steps_of_step h with
  | @task w ans after shared htask =>
      obtain ⟨news, hdeliveries, -⟩ := htask.recorded.deliveries
      show a ∈ handed shared.deliveries
      unfold handed
      rw [hdeliveries, List.filterMap_append]
      exact List.mem_append_right _ ha
  | _ => exact ha

/-- **No worker receives into a buffer that has been handed over.**  Any action of a consumer
leaves such a storage as it is, unless it is the call of a processor that writes there. -/
theorem Sound.storage_handed (hs : c.Sound endpoint) (ha : a ∈ handed c.shared.deliveries)
    (h : c.step endpoint act = some c') (hwrites : ¬WritesTo a act) :
    c'.shared.heap.storage a = c.shared.heap.storage a := by
  cases steps_of_step h with
  | @task w ans after shared htask =>
      have hold : a < c.shared.heap.next := hs.bounded a (Ledger.mem_total_of_store ha)
      have hbuffers : a ∉ (c.worker w).pc.buffers :=
        fun hmem => Ledger.not_mem_store_of_held (i := w) hs.nodup hmem ha
      exact htask.storage_eq (hs.worker w) hold hbuffers hwrites
  | _ => rfl

end Consumer

namespace System

variable {P N : Nat} {sender receiver : MsmqEndpoint} {s s' later : System P N}
  {act : SystemAction P N} {acts : List (SystemAction P N)} {a : Addr}

/-- A processor or the application writes to storage `a`. -/
def WritesTo (a : Addr) : SystemAction P N → Prop
  | .receiver act _ => Consumer.WritesTo a act
  | .write b _ _ => b = a
  | _ => False

/-- One step leaves a handed-over storage alone. -/
theorem Sound.storage_handed (hs : s.Sound sender receiver)
    (ha : a ∈ handed s.receiver.shared.deliveries) (h : s.step sender receiver act = some s')
    (hwrites : ¬WritesTo a act) :
    a ∈ handed s'.receiver.shared.deliveries ∧ s'.heap.storage a = s.heap.storage a := by
  have hold : a < s.heap.next := hs.receives.bounded a (Ledger.mem_total_of_store ha)
  cases steps_of_step h with
  | @sender act t hcall hstep =>
      refine ⟨ha, ?_⟩
      show t.heap.storage a = _
      rw [← hs.sameHeap] at hold ⊢
      exact (Threads.touched_step hstep).frame a hold not_false
  | receiver htake hstep =>
      exact ⟨Consumer.mem_handed_step ha hstep, hs.receives.storage_handed ha hstep hwrites⟩
  | discard hm htime => exact ⟨ha, rfl⟩
  | allocate size => exact ⟨ha, Heap.storage_allocate_of_ne (Nat.ne_of_lt hold)⟩
  | write offset bytes hfree => exact ⟨ha, Heap.storage_write_of_ne (Ne.symm hwrites)⟩

/-- So does a whole run. -/
theorem Sound.storage_handed_run (hs : s.Sound sender receiver)
    (ha : a ∈ handed s.receiver.shared.deliveries)
    (hrun : Runs.run (System.step sender receiver) s acts = some later)
    (hwrites : ∀ act ∈ acts, ¬WritesTo a act) :
    later.Sound sender receiver ∧ a ∈ handed later.receiver.shared.deliveries ∧
      later.heap.storage a = s.heap.storage a := by
  induction acts generalizing s with
  | nil =>
      obtain rfl := Option.some.inj hrun
      exact ⟨hs, ha, rfl⟩
  | cons act rest ih =>
      obtain ⟨next, hstep, hrest⟩ := (Runs.run_cons_iff _).mp hrun
      obtain ⟨hfirst, hothers⟩ := List.forall_mem_cons.mp hwrites
      obtain ⟨hmem, hsame⟩ := hs.storage_handed ha hstep hfirst
      obtain ⟨hlater, hhanded, hkept⟩ := ih (hs.step hstep) hmem hrest hothers
      exact ⟨hlater, hhanded, hkept.trans hsame⟩

/-- **A body stays.**  Worker `w` calls the processor, and any run follows in which neither
this processor nor a later one nor the application writes to the buffer.  At its end the
buffer still holds the body of the message that was in the hands of the worker, and no other
delivery has the same buffer. -/
theorem delivered_body_stays {w : Fin N} {size place : Nat} {queue : QueueRef} {loop : Loop}
    {thrown : Option Throwable} {exchange : Exchange} {writes : List (Addr × Nat × List UInt8)}
    (hreach : Runs.Reachable (step sender receiver) (init P N sender) s)
    (hpc : (s.receiver.worker w).pc = .atProcess size queue loop)
    (hrun : Runs.run (step sender receiver) s
      (.receiver (.task w (.processes thrown exchange writes)) place :: acts) = some later)
    (hfirst : ∀ x ∈ writes, x.1 ≠ loop.body.storage)
    (hwrites : ∀ act ∈ acts, ¬WritesTo loop.body.storage act) :
    ∃ m, s.receiver.inHands w = {m} ∧ loop.body.window later.heap = m.body ∧
      (handed later.receiver.shared.deliveries).count loop.body.storage = 1 := by
  have hs : s.Sound sender receiver := sound_of_reachable hreach
  have hworker := hs.receives.worker w
  rw [hpc] at hworker
  obtain ⟨m, older, hremovals, -, hfilled⟩ := id hworker
  obtain ⟨next, hstep, hrest⟩ := (Runs.run_cons_iff _).mp hrun
  have hnext := hs.step hstep
  -- The call itself hands the buffer over and leaves it as it is.
  obtain ⟨hmem, hsame⟩ : loop.body.storage ∈ handed next.receiver.shared.deliveries ∧
      next.heap.storage loop.body.storage = s.heap.storage loop.body.storage := by
    cases steps_of_step hstep with
    | @receiver act place rest c htake hconsumer =>
        cases Consumer.steps_of_step hconsumer with
        | @task w ans after shared htask =>
            have hold : loop.body.storage < s.heap.next :=
              hs.receives.bounded _ (Ledger.mem_total_of_held (i := w) (by simp [hpc, Pc.buffers]))
            rw [hpc] at htask
            refine ⟨?_, htask.touched_processes.frame _ hold fun ⟨x, hx, heq⟩ => hfirst x hx heq⟩
            show _ ∈ handed shared.deliveries
            rw [htask.handed_processes hworker]
            exact List.mem_cons_self
  obtain ⟨hlater, hhanded, hkept⟩ := hnext.storage_handed_run hmem hrest hwrites
  refine ⟨m, ?_, ?_, ?_⟩
  · have hhead : s.receiver.shared.removalsOf w = (s.receiver.runId w, m) :: older := hremovals
    unfold Consumer.inHands
    rw [hpc, Pc.hands, hhead]
    rfl
  · rw [← hfilled.content]
    unfold ByteBuffer.window
    rw [hkept.trans hsame]
    rfl
  · have hnodup : (handed later.receiver.shared.deliveries).Nodup :=
      Multiset.coe_nodup.mp (Multiset.nodup_of_le (Multiset.le_add_right _ _)
        hlater.receives.nodup)
    exact List.count_eq_one_of_mem hnodup hhanded

/-- The worker hands over one message and receives the next one, and the application makes
and fills a buffer. -/
theorem delivered_body_stays_next :
    ∃ (later : System 1 1) (body : ByteBuffer), later.receiver.shared.removals.length = 2 ∧
      body.window later.heap = [0, 65] ∧
      (handed later.receiver.shared.deliveries).count body.storage = 1 := by
  have hrun :
    let endpoint : MsmqEndpoint := { remaining := some [113] }
    let receive (c : UInt8) : SystemAction 1 1 :=
      .receiver (.task 0 (.receives ⟨0, { (default : MessageProps) with
        bodyType := vtArrayUi1, priority := 3, timeToBeReceived := infinite }, 0, [0, c]⟩)) 0
    (Runs.run (step endpoint endpoint) (init 1 1 endpoint)
      [.sender (.call 0 (Exchange.create.setBody (.string [65]))), .sender (.isOpen 0),
        .sender (.open 0 (.always 0 1 0)), .sender (.encode 0), .sender (.send 0 default 0),
        .sender (.call 0 (Exchange.create.setBody (.string [66]))), .sender (.isOpen 0),
        .sender (.encode 0), .sender (.send 0 default 0), .receiver (.start 0) 0,
        .receiver (.task 0 .go) 0, .receiver (.task 0 (.created none)) 0,
        .receiver (.task 0 .go) 0, .receiver (.task 0 (.opens (.always 0 2 0))) 0,
        .receiver (.task 0 (.allocates default)) 0, receive 65]).bind
      (fun s => (Runs.run (step endpoint endpoint) s
        [.receiver (.task 0 (.processes none .create [])) 0, .receiver (.task 0 .go) 0,
          .receiver (.start 0) 0, .receiver (.task 0 .go) 0,
          .receiver (.task 0 (.created none)) 0, .receiver (.task 0 .go) 0, .allocate 2,
          .receiver (.task 0 (.allocates default)) 0, receive 66, .write 3 0 [1]]).map
        fun later => ((s.receiver.inHands 0).map (·.body), (s.receiver.worker 0).pc.buffers,
          later.receiver.shared.removals.length)) = some ({[0, 65]}, {2}, 2) := by decide
  obtain ⟨s, hs, hlater⟩ := Option.bind_eq_some_iff.mp hrun
  obtain ⟨later, hlater, hall⟩ := Option.map_eq_some_iff.mp hlater
  simp only [Prod.mk.injEq] at hall
  obtain ⟨hhands, hbuffers, hlength⟩ := hall
  cases hpc : (s.receiver.worker 0).pc with
  | atProcess size queue loop =>
      rw [hpc] at hbuffers
      have hstorage : loop.body.storage = 2 := Multiset.singleton_inj.mp hbuffers
      obtain ⟨m, hm, hwindow, hcount⟩ := delivered_body_stays ⟨_, hs⟩ hpc hlater (by simp) (by
        rw [hstorage]
        simp [WritesTo, Consumer.WritesTo, Task.WritesTo])
      rw [hm, Multiset.map_singleton] at hhands
      exact ⟨later, loop.body, hlength, hwindow.trans (Multiset.singleton_inj.mp hhands), hcount⟩
  | _ =>
      unfold Consumer.inHands at hhands
      rw [hpc] at hhands
      simp [Pc.hands] at hhands

end System

end Msmq
