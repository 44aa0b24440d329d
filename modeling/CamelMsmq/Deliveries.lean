import CamelMsmq.HandOver

/-!
# Deliveries of a consumer

The invariants of the single workers hold together, because the buffers of
different workers are different: whatever one worker does to the heap is none of
the others' business.  `seenBy_of_step` is the way to use that: an action is the
start of a run of a worker, a step of it, or something that leaves what the worker
has, its histories included, as it is.

`Consumer.Sound` is the invariant: each worker is sound for itself, and the
storages of all buffers, those that workers receive into and those that have been
handed over, are different.  `Numbered` says that every entry of the histories is one of the `N`
workers'.

`handed_over_exactly_once` reads the result off the invariant: between MSMQ and the
processor no message is lost, duplicated, or changed.
-/

namespace Msmq

namespace Consumer

variable {N : Nat} {endpoint : MsmqEndpoint} {c c' : Consumer N} {act : Action N}

/-- What an action is for worker `w`: others act, its run starts, or its run takes a step. -/
inductive SeenBy (endpoint : MsmqEndpoint) (c : Consumer N) (w : Fin N) :
    Action N → Consumer N → Prop
  | others {act : Action N} {c' : Consumer N} {me : RunId} (hstart : act ≠ .start w)
      (htask : ∀ ans, act ≠ .task w ans) (hme : ↑w ≠ me.worker)
      (hrecorded : Task.Recorded me c.shared c'.shared) (hworker : c'.worker w = c.worker w) :
      SeenBy endpoint c w act c'
  | start {c' : Consumer N} (hidle : (c.worker w).pc = .idle)
      (hscheduled : (c.worker w).scheduled = true) (hshared : c'.shared = c.shared)
      (hworker : c'.worker w = (c.worker w).start c.shared.queues.length) :
      SeenBy endpoint c w (.start w) c'
  | task {c' : Consumer N} {ans : Answer} {after : After}
      (htask : Task.Steps endpoint (c.runId w) c.shared (c.worker w).pc ans after c'.shared)
      (hworker : c'.worker w = (c.worker w).goOn after) :
      SeenBy endpoint c w (.task w ans) c'

/-- What `doStop` does is nothing that a run records. -/
theorem seenBy_of_doStop (w : Fin N) (hstart : act ≠ .start w) (htask : ∀ ans, act ≠ .task w ans)
    (hremovals : c'.shared.removals = c.shared.removals)
    (hdeliveries : c'.shared.deliveries = c.shared.deliveries) (hworker : c'.worker = c.worker) :
    c.SeenBy endpoint w act c' := by
  have hme : (w : Nat) ≠ (RunId.mk (w + 1) 0).worker := Nat.ne_of_lt (Nat.lt_succ_self _)
  exact .others hstart htask hme (Task.recorded_none hremovals hdeliveries) (by rw [hworker])

/-- **Every action, seen by one worker.**  It starts a run of this worker, it is a step of its
run, or it leaves what the worker has, its histories included, as it is. -/
theorem seenBy_of_step (h : c.step endpoint act = some c') (w : Fin N) :
    c.SeenBy endpoint w act c' := by
  have hne : ∀ {v : Fin N}, v ≠ w → (w : Nat) ≠ v := fun hv heq => hv (Fin.ext heq.symm)
  cases steps_of_step h with
  | @start v hphase hscheduled hidle =>
      by_cases hv : v = w
      · subst hv
        exact .start hidle hscheduled rfl (by simp only [Function.update_self])
      · have hme : (w : Nat) ≠ (c.runId v).worker := hne hv
        refine .others (fun heq => hv (Action.start.inj heq)) (fun ans heq => ?_) hme
          (Task.recorded_none rfl rfl) ?_
        · cases heq
        · simp only [Function.update_of_ne (Ne.symm hv)]
  | @task v ans after shared htask =>
      by_cases hv : v = w
      · subst hv
        exact .task htask (by simp only [Function.update_self])
      · refine .others (fun heq => ?_) (fun ans heq => hv (Action.task.inj heq).1) (hne hv)
          htask.recorded ?_
        · cases heq
        · simp only [Function.update_of_ne (Ne.symm hv)]
  | _ => exact seenBy_of_doStop w (by simp) (by simp) rfl rfl rfl

/-- The storages handed to processors and those that workers receive into. -/
def storages (c : Consumer N) : Multiset Addr :=
  Ledger.total (handed c.shared.deliveries) fun w => (c.worker w).pc.buffers

/-- Every worker is sound for itself, and no two buffers share a storage: neither those that
workers receive into nor those that processors have been given. -/
structure Sound (endpoint : MsmqEndpoint) (c : Consumer N) : Prop where
  worker : ∀ w, Task.Sound endpoint (c.runId w) c.shared (c.worker w).pc
  bounded : ∀ a ∈ c.storages, a < c.shared.heap.next
  nodup : c.storages.Nodup

theorem sound_doStart : (doStart N).Sound endpoint := by
  have hempty : (doStart N).storages = 0 := Ledger.total_eq_store fun w => rfl
  refine ⟨fun w => List.Forall₂.nil, ?_, ?_⟩
  · intro a ha
    rw [hempty] at ha
    exact absurd ha (Multiset.notMem_zero a)
  · rw [hempty]
    exact Multiset.nodup_zero

/-- The storages after one worker has moved on. -/
theorem buffers_update (worker : Fin N → Worker) (w : Fin N) (x : Worker) :
    (fun v => (Function.update worker w x v).pc.buffers) =
      Function.update (fun v => (worker v).pc.buffers) w x.pc.buffers := by
  funext v
  by_cases hv : v = w
  · subst hv
    simp
  · simp [Function.update_of_ne hv]

/-- A worker may write to none of the storages that another worker receives into. -/
theorem Sound.not_writes (hs : c.Sound endpoint) {v w : Fin N} (hne : v ≠ w) {a : Addr}
    (ha : a ∈ (c.worker v).pc.buffers) :
    ¬Task.Writes c.shared.deliveries (c.worker w).pc a := by
  have hother : a ∉ (c.worker w).pc.buffers :=
    fun hw => hne (Ledger.eq_of_held (i := v) (j := w) hs.nodup ha hw)
  have hhanded : a ∉ handed c.shared.deliveries :=
    Ledger.not_mem_store_of_held (i := v) hs.nodup ha
  intro hwrites
  cases hpc : (c.worker w).pc with
  | atReceive size queue loop =>
      rw [hpc] at hwrites hother
      exact hother (Multiset.mem_singleton.mpr hwrites)
  | atProcess size queue loop =>
      rw [hpc] at hwrites hother
      rcases hwrites with hown | hold
      · exact hother (Multiset.mem_singleton.mpr hown)
      · exact hhanded hold
  | _ =>
      rw [hpc] at hwrites
      exact hwrites

/-- A worker that ends its run counts it, and what is known of a worker between runs depends on
its number only. -/
theorem sound_goOn {x : Worker} {n : Nat} {sh : Shared} {after : After}
    (hs : Task.Sound endpoint ⟨n, x.runs⟩ sh after.pc) :
    Task.Sound endpoint ⟨n, (x.goOn after).runs⟩ sh (x.goOn after).pc := by
  cases after with
  | goOn pc => exact hs
  | ended thrown => exact hs

/-- The storages after a step of one worker: those from before, and perhaps a new one. -/
theorem Sound.storages_task (hs : c.Sound endpoint) {w : Fin N} {ans : Answer} {after : After}
    {shared : Shared} (phase : Phase)
    (h : Task.Steps endpoint (c.runId w) c.shared (c.worker w).pc ans after shared) :
    ∃ fresh : Multiset Addr,
      storages ⟨shared, Function.update c.worker w ((c.worker w).goOn after), phase⟩ ≤
        c.storages + fresh ∧
      (fresh = 0 ∨
        (fresh = {c.shared.heap.next} ∧ shared.heap.next = c.shared.heap.next + 1)) := by
  obtain ⟨fresh, hle, hfresh⟩ := (h.memory (hs.worker w)).buffers
  refine ⟨fresh, ?_, hfresh⟩
  have htotal : Ledger.total (handed shared.deliveries)
      (Function.update (fun v => (c.worker v).pc.buffers) w after.pc.buffers) ≤
        c.storages + fresh := Ledger.total_update_le hle
  unfold storages
  rw [buffers_update, Worker.pc_goOn]
  exact htotal

/-- A step of one worker.  It is sound for itself by the lemmas on a step, and the account of
all storages follows from what the step does to the one buffer of its run. -/
theorem Sound.task (hs : c.Sound endpoint) {w : Fin N} {ans : Answer} {after : After}
    {shared : Shared} {phase : Phase}
    (h : Task.Steps endpoint (c.runId w) c.shared (c.worker w).pc ans after shared) :
    Sound endpoint ⟨shared, Function.update c.worker w ((c.worker w).goOn after), phase⟩ := by
  have hmemory := h.memory (hs.worker w)
  obtain ⟨fresh, hstorages, hfresh⟩ := hs.storages_task phase h
  refine ⟨?_, ?_, ?_⟩
  · intro v
    by_cases hv : v = w
    · subst hv
      have hsound := h.sound (hs.worker v)
      simp only [runId, Function.update_self]
      exact sound_goOn hsound
    · have hothers := h.recorded.others (n := v) fun heq => hv (Fin.ext heq)
      simp only [runId, Function.update_of_ne hv]
      refine (hs.worker v).frame hothers.1 hothers.2 fun a ha => ?_
      have hold : a < c.shared.heap.next :=
        hs.bounded a (Ledger.mem_total_of_held (i := v) ha)
      exact hmemory.touched.frame a hold (hs.not_writes hv ha)
  · intro a ha
    have hmem := Multiset.mem_of_le hstorages ha
    have hnext := hmemory.touched.next_le
    rcases Multiset.mem_add.mp hmem with hold | hnew
    · exact Nat.lt_of_lt_of_le (hs.bounded a hold) hnext
    · rcases hfresh with hzero | ⟨hone, hsucc⟩
      · rw [hzero] at hnew
        exact absurd hnew (Multiset.notMem_zero a)
      · rw [hone] at hnew
        rw [Multiset.mem_singleton.mp hnew]
        show c.shared.heap.next < shared.heap.next
        rw [hsucc]
        exact Nat.lt_succ_self _
  · refine Multiset.nodup_of_le hstorages ?_
    rcases hfresh with hzero | ⟨hone, -⟩
    · rw [hzero, add_zero]
      exact hs.nodup
    · rw [hone, add_comm, Multiset.singleton_add, Multiset.nodup_cons]
      exact ⟨fun hmem => absurd (hs.bounded _ hmem) (Nat.lt_irrefl _), hs.nodup⟩

/-- What `doStop` does to the queue objects is no matter of the deliveries. -/
theorem Sound.congr (hs : c.Sound endpoint) (hworker : c'.worker = c.worker)
    (hheap : c'.shared.heap = c.shared.heap) (hremovals : c'.shared.removals = c.shared.removals)
    (hdeliveries : c'.shared.deliveries = c.shared.deliveries) : c'.Sound endpoint := by
  have hstorages : c'.storages = c.storages := by
    unfold storages
    rw [hdeliveries, hworker]
  refine ⟨fun w => ?_, ?_, ?_⟩
  · unfold runId
    rw [hworker]
    refine (hs.worker w).frame ?_ ?_ fun a _ => by rw [hheap]
    · unfold Shared.removalsOf
      rw [hremovals]
    · unfold Shared.deliveriesOf
      rw [hdeliveries]
  · rw [hstorages, hheap]
    exact hs.bounded
  · rw [hstorages]
    exact hs.nodup

/-- A run that starts has no buffer yet. -/
theorem storages_start {w : Fin N} (hidle : (c.worker w).pc = .idle) (size : Nat) :
    storages { c with worker := Function.update c.worker w ((c.worker w).start size) } =
      c.storages := by
  have hpc : ((c.worker w).start size).pc.buffers = (c.worker w).pc.buffers := by
    rw [hidle]
    unfold Worker.start
    split <;> rfl
  unfold storages
  rw [buffers_update, hpc, Function.update_eq_self]

/-- The start of a run, which has neither a buffer nor a history. -/
theorem Sound.start (hs : c.Sound endpoint) {w : Fin N} (hidle : (c.worker w).pc = .idle)
    (size : Nat) :
    Sound endpoint { c with worker := Function.update c.worker w ((c.worker w).start size) } := by
  have hstorages := storages_start hidle size
  refine ⟨fun v => ?_, ?_, ?_⟩
  · have hsound := hs.worker v
    by_cases hv : v = w
    · subst hv
      rw [hidle] at hsound
      simp only [runId, Function.update_self]
      unfold Worker.start
      split <;> exact hsound
    · simp only [runId, Function.update_of_ne hv]
      exact hsound
  · rw [hstorages]
    exact hs.bounded
  · rw [hstorages]
    exact hs.nodup

/-- **The deliveries of a consumer.**  The worker that acts stays sound by the lemmas on one
step, and the others because nothing of theirs changes; that all storages stay different follows
from the account of the memory of that one step. -/
theorem Sound.step (hs : c.Sound endpoint) (h : c.step endpoint act = some c') :
    c'.Sound endpoint := by
  cases steps_of_step h with
  | start hphase hscheduled hidle => exact hs.start hidle _
  | task htask => exact hs.task htask
  | _ => exact hs.congr rfl rfl rfl rfl

theorem sound_of_reachable (hreach : Runs.Reachable (step endpoint) (doStart N) c) :
    c.Sound endpoint :=
  hreach.invariant _ (Sound endpoint) sound_doStart fun _ _ _ hs h => hs.step h

/-- Only the consumer's own workers have entries in the histories. -/
structure Numbered (c : Consumer N) : Prop where
  removals : ∀ x ∈ c.shared.removals, x.1.worker < N
  deliveries : ∀ x ∈ c.shared.deliveries, x.1.worker < N

/-- New entries of the histories are those of the worker that has acted. -/
theorem Numbered.step (hn : c.Numbered) (h : c.step endpoint act = some c') : c'.Numbered := by
  cases steps_of_step h with
  | @task w ans after shared htask =>
      obtain ⟨⟨news, hremovals, hnews⟩, ⟨news', hdeliveries, hnews'⟩⟩ := htask.recorded
      constructor
      · intro x hx
        rw [hremovals] at hx
        rcases List.mem_append.mp hx with hnew | hold
        · rw [hnews x hnew]
          exact w.isLt
        · exact hn.removals x hold
      · intro x hx
        rw [hdeliveries] at hx
        rcases List.mem_append.mp hx with hnew | hold
        · rw [hnews' x hnew]
          exact w.isLt
        · exact hn.deliveries x hold
  | _ => exact ⟨hn.removals, hn.deliveries⟩

theorem numbered_of_reachable (hreach : Runs.Reachable (step endpoint) (doStart N) c) :
    c.Numbered :=
  hreach.invariant _ Numbered ⟨nofun, nofun⟩ fun _ _ _ hn h => hn.step h

/-! ## Other users of the heap -/

/-- Storages that are not the consumer's stay as they are, and what becomes the
consumer's is new. -/
structure Spares (c c' : Consumer N) : Prop where
  touched : Heap.Touched (· ∈ c.storages) c.shared.heap c'.shared.heap
  storages : ∀ a ∈ c'.storages, a ∈ c.storages ∨ c.shared.heap.next ≤ a

/-- A worker writes to storages of the consumer only. -/
theorem mem_storages_of_writes {w : Fin N} {a : Addr}
    (ha : Task.Writes c.shared.deliveries (c.worker w).pc a) : a ∈ c.storages := by
  have hown : a ∈ (c.worker w).pc.buffers → a ∈ c.storages :=
    fun hmem => Ledger.mem_total_of_held (i := w) hmem
  cases hpc : (c.worker w).pc with
  | atReceive size queue loop =>
      rw [hpc] at ha hown
      exact hown (Multiset.mem_singleton.mpr ha)
  | atProcess size queue loop =>
      rw [hpc] at ha hown
      rcases ha with heq | hold
      · exact hown (Multiset.mem_singleton.mpr heq)
      · exact Ledger.mem_total_of_store hold
  | _ =>
      rw [hpc] at ha
      exact ha.elim

/-- A storage that the consumer does not have is left alone by every action, and what the
consumer comes to have is either of its own or new. -/
theorem Sound.spares (hs : c.Sound endpoint) (h : c.step endpoint act = some c') :
    c.Spares c' := by
  cases steps_of_step h with
  | @start w hphase hscheduled hidle =>
      refine ⟨.refl _, fun a ha => .inl ?_⟩
      rwa [storages_start hidle] at ha
  | @task w ans after shared htask =>
      obtain ⟨fresh, hstorages, hfresh⟩ := hs.storages_task (c.phase.observe shared.queues) htask
      refine ⟨(htask.memory (hs.worker w)).touched.mono fun a => mem_storages_of_writes, ?_⟩
      intro a ha
      rcases Multiset.mem_add.mp (Multiset.mem_of_le hstorages ha) with hold | hnew
      · exact .inl hold
      · rcases hfresh with hzero | ⟨hone, -⟩
        · rw [hzero] at hnew
          exact absurd hnew (Multiset.notMem_zero a)
        · rw [hone] at hnew
          exact .inr (Nat.le_of_eq (Multiset.mem_singleton.mp hnew).symm)
  | _ => exact ⟨.refl _, fun a ha => .inl ha⟩

/-- The consumer after something else has changed the heap. -/
def withHeap (c : Consumer N) (heap : Heap) : Consumer N :=
  { c with shared := { c.shared with heap := heap } }

/-- Who keeps off the consumer's storages does not disturb it. -/
theorem Sound.withHeap (hs : c.Sound endpoint) {heap : Heap}
    (htouched : Heap.Touched (· ∉ c.storages) c.shared.heap heap) :
    (c.withHeap heap).Sound endpoint := by
  refine ⟨fun w => ?_, fun a ha => ?_, hs.nodup⟩
  · refine (hs.worker w).frame rfl rfl fun a ha => ?_
    have hmem : a ∈ c.storages := Ledger.mem_total_of_held (i := w) ha
    exact htouched.frame a (hs.bounded a hmem) fun hnot => hnot hmem
  · exact Nat.lt_of_lt_of_le (hs.bounded a ha) htouched.next_le

/-! ## Exactly once -/

/-- What a worker has removed from MSMQ it has handed to the processor, entry by entry
and in the same run; only a message whose hand-over is the next step of the current
run is still on its way. -/
def HandsOver (c : Consumer N) (w : Fin N) : Prop :=
  match (c.worker w).pc with
  | .atProcess _ _ loop => ∃ m older, c.shared.removalsOf w = (c.runId w, m) :: older ∧
      List.Forall₂ HandedOver (c.shared.deliveriesOf w) older ∧
      Faithful (loop.exchange.shown c.shared.heap) m
  | _ => List.Forall₂ HandedOver (c.shared.deliveriesOf w) (c.shared.removalsOf w)

/-- What a worker has handed over can be read off its own invariant; the other workers are not
concerned. -/
theorem Sound.handsOver (hs : c.Sound endpoint) (w : Fin N) : c.HandsOver w := by
  have hsound := hs.worker w
  unfold HandsOver
  cases hpc : (c.worker w).pc with
  | atProcess size queue loop =>
      rw [hpc] at hsound
      obtain ⟨m, older, hremovals, hagree, hfilled⟩ := hsound
      exact ⟨m, older, hremovals, hagree, hfilled.faithful⟩
  | atReceive size queue loop =>
      rw [hpc] at hsound
      exact hsound.2
  | _ =>
      rw [hpc] at hsound
      exact hsound

/-- Every removal has its delivery by the same run, if all removals are settled. -/
theorem delivery_of_removal {ds : List (RunId × Delivery)} {ms : List (RunId × MqMessage)}
    (hagree : List.Forall₂ HandedOver ds ms) {x : RunId × MqMessage} (hx : x ∈ ms) :
    ∃ d ∈ ds, d.1 = x.1 := by
  induction hagree with
  | nil => cases hx
  | cons hhead htail ih =>
      rcases List.mem_cons.mp hx with rfl | hx
      · exact ⟨_, List.mem_cons_self, hhead.1⟩
      · obtain ⟨d, hd, hid⟩ := ih hx
        exact ⟨d, List.mem_cons_of_mem _ hd, hid⟩

/-- A run that has ended without calling the processor has removed nothing. -/
theorem HandsOver.no_removal {w : Fin N} (hw : c.HandsOver w) {k : Nat}
    (hended : k < (c.worker w).runs) (hnone : ∀ d ∈ c.shared.deliveries, d.1 ≠ ⟨w, k⟩) :
    ∀ x ∈ c.shared.removals, x.1 ≠ ⟨w, k⟩ := by
  intro x hx hid
  have hmem : x ∈ c.shared.removalsOf w := by
    unfold Shared.removalsOf
    exact List.mem_filter.mpr ⟨hx, by simp [hid]⟩
  have hsettled : ∀ ms, List.Forall₂ HandedOver (c.shared.deliveriesOf w) ms → x ∉ ms := by
    intro ms hagree hxms
    obtain ⟨d, hd, hdid⟩ := delivery_of_removal hagree hxms
    exact hnone d (List.mem_filter.mp hd).1 (hdid.trans hid)
  unfold HandsOver at hw
  split at hw
  · obtain ⟨m, older, hremovals, hagree, -⟩ := hw
    rw [hremovals] at hmem
    rcases List.mem_cons.mp hmem with rfl | hold
    · have hrun : (c.worker w).runs = k := congrArg RunId.run hid
      omega
    · exact hsettled older hagree hold
  · exact hsettled _ hw hmem

/-- **No receive touches what has been handed over.**  It writes to the buffer of its own worker
only, and that is none of those that processors have been given. -/
theorem Sound.window_receives (hs : c.Sound endpoint) {w : Fin N} {a : ReceiveAnswer}
    (h : c.step endpoint (.task w (.receives a)) = some c') {d : RunId × Delivery}
    (hd : d ∈ c.shared.deliveries) {b : ByteBuffer} (hb : d.2.exchange.body = .byteBuffer b) :
    b.window c'.shared.heap = b.window c.shared.heap := by
  have hhanded : b.storage ∈ handed c.shared.deliveries :=
    List.mem_filterMap.mpr ⟨d, hd, by simp [hb]⟩
  have hold : b.storage < c.shared.heap.next := hs.bounded _ (Ledger.mem_total_of_store hhanded)
  cases steps_of_step h with
  | task htask =>
      have hfree : ¬Task.Writes c.shared.deliveries (c.worker w).pc b.storage := by
        intro hwrites
        have hown := htask.writes_receives hwrites
        exact Ledger.not_mem_store_of_held (i := w) hs.nodup hown hhanded
      have hsame := (htask.memory (hs.worker w)).touched.frame _ hold hfree
      unfold ByteBuffer.window
      rw [hsame]

/-- **Exactly-once hand-over.**  In every reachable state all messages have been removed
and handed over by the workers, and each worker has handed over what it has removed,
one delivery for each message and in the run that removed it, but for a message that
the next step of the current run hands over; a run that ended without calling the
processor has removed nothing; and no receive changes what a buffer shows that has
been handed over. -/
theorem handed_over_exactly_once (hreach : Runs.Reachable (step endpoint) (doStart N) c) :
    c.Numbered ∧
    (∀ w, c.HandsOver w) ∧
    (∀ (w : Fin N) (k : Nat), k < (c.worker w).runs →
      (∀ d ∈ c.shared.deliveries, d.1 ≠ ⟨w, k⟩) → ∀ x ∈ c.shared.removals, x.1 ≠ ⟨w, k⟩) ∧
    (∀ (w : Fin N) (a : ReceiveAnswer) (c' : Consumer N),
      c.step endpoint (.task w (.receives a)) = some c' →
      ∀ d ∈ c.shared.deliveries, ∀ b, d.2.exchange.body = .byteBuffer b →
        b.window c'.shared.heap = b.window c.shared.heap) := by
  have hs := sound_of_reachable hreach
  refine ⟨numbered_of_reachable hreach, hs.handsOver, ?_, ?_⟩
  · intro w k hended hnone
    exact (hs.handsOver w).no_removal hended hnone
  · intro w a c' h d hd b hb
    exact hs.window_receives h hd hb

/-- One of two workers receives a message and hands it over. -/
theorem handed_over_exactly_once_received :
    ∃ c : Consumer 2, c.shared.removals.length = 1 ∧ c.shared.deliveries.length = 1 ∧
      ∀ w, c.HandsOver w := by
  have hrun : ∃ c : Consumer 2, Runs.run (step { remaining := some [113] }) (doStart 2)
      [.start 0, .task 0 (.created none), .task 0 .go, .task 0 .go,
        .task 0 (.opens (.always 0 1 0)), .task 0 (.allocates default),
        .task 0 (.receives ⟨0, default, 0, [65, 66]⟩), .task 0 (.processes none .create [])] =
        some c ∧
      c.shared.removals.length = 1 ∧ c.shared.deliveries.length = 1 := ⟨_, rfl, rfl, rfl⟩
  obtain ⟨c, hc, hremovals, hdeliveries⟩ := hrun
  exact ⟨c, hremovals, hdeliveries, (handed_over_exactly_once ⟨_, hc⟩).2.1⟩

end Consumer

end Msmq
