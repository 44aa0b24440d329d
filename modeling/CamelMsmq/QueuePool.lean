import CamelMsmq.LendingPool
import CamelMsmq.Consumer

/-!
# The pool of queue objects

A run takes its queue out of the pool when it has read a size above one, and only
looks at it when it has read one.  So the pool of a consumer is a lending pool: each
step of a worker is one of its moves, or no move at all.  Two results follow:

* queue objects are neither lost nor duplicated, which is why a run always finds one;
* two workers never use the same object exactly as long as nobody gets hold of a
  queue while another worker only looks at one.

What the second asks for is not guaranteed by anything in the component.  The size is
read at the start of a run and acted on later, and a worker that has read one leaves
its queue in the pool.  While it receives, another worker may give its own queue back,
start again with a size of two, and take what the first one is looking at.

The invariant of the workers, `WellFormed`, is needed with both: the queue variable of
a run fits the size that it has read.
-/

namespace Msmq

open LendingPool

namespace Pc

/-- What the worker has in hand. -/
def grip (pc : Pc) : Grip QueueRef :=
  match pc.queue with
  | none => .free
  | some queue => if 1 < pc.size then .takes queue else .looks queue

/-- The queue variable fits the size that was read: nothing is in hand before a
`remove()`, and a queue is there when it is used. -/
def WellFormed : Pc → Prop
  | atCreate size queue => (1 < size ∧ queue = none) ∨ (size = 1 ∧ queue ≠ none)
  | atRemove size _ => 1 < size
  | atIsOpen _ queue _ => queue ≠ none
  | _ => True

/-- The next step is `element()` or `remove()`. -/
def Acquires : Pc → Prop
  | atElement => True
  | atRemove _ _ => True
  | _ => False

/-- The grip depends on the size and the queue. -/
theorem grip_congr {pc pc' : Pc} (hsize : pc'.size = pc.size) (hqueue : pc'.queue = pc.queue) :
    pc'.grip = pc.grip := by
  unfold grip
  rw [hsize, hqueue]

theorem item?_grip (pc : Pc) : pc.grip.item? = pc.queue := by
  unfold grip
  cases pc.queue with
  | none => rfl
  | some queue => dsimp only; split <;> rfl

/-- Nothing is in hand before a queue is acquired. -/
theorem Acquires.grip {pc : Pc} (ha : pc.Acquires) : pc.grip = .free := by
  cases pc with
  | atElement => rfl
  | atRemove => rfl
  | _ => exact ha.elim

end Pc

/-- The point of the run after a step. -/
def After.pc : After → Pc
  | .goOn pc => pc
  | .ended _ => .idle

@[simp] theorem Worker.pc_goOn (w : Worker) (after : After) : (w.goOn after).pc = after.pc := by
  cases after <;> rfl

namespace Task

variable {endpoint : MsmqEndpoint} {me : RunId} {sh sh' : Shared} {pc : Pc} {ans : Answer}
  {after : After}

/-- What a step means for the pool and for what the worker has in hand. -/
inductive PoolEffect (queues queues' : List QueueRef) (pc pc' : Pc) : Prop
  | none (hqueues : queues' = queues) (hgrip : pc'.grip = pc.grip)
      (hacquires : pc.Acquires → queues = [])
  | look {queue rest} (hpc : pc = .atElement) (hqueues : queues = queue :: rest)
      (hqueues' : queues' = queues) (hgrip : pc'.grip = .looks queue)
  | take {queue rest} (hpc : pc.Acquires) (hqueues : queues = queue :: rest)
      (hqueues' : queues' = rest) (hgrip : pc'.grip = .takes queue)
  | letGo {queue} (hgrip : pc.grip = .looks queue) (hqueues' : queues' = queues)
      (hfree : pc'.grip = .free)
  | giveBack {queue} (hgrip : pc.grip = .takes queue) (hqueues' : queues' = queues ++ [queue])
      (hfree : pc'.grip = .free)

/-- A step of a run that is using its queue, with a throwable inside the loop, is no
move. -/
theorem pool_raiseInLoop {shMid : Shared} {size : Nat} {queue : QueueRef} (loop : Loop)
    (ex : Throwable) (hqueues : shMid.queues = sh.queues) (hsize : pc.size = size)
    (hqueue : pc.queue = some queue) :
    PoolEffect sh.queues (raiseInLoop endpoint shMid size queue loop ex).2.queues pc
        (raiseInLoop endpoint shMid size queue loop ex).1.pc ∧
      (raiseInLoop endpoint shMid size queue loop ex).1.pc.WellFormed := by
  have hidle : pc.Acquires → sh.queues = [] := by
    intro hacq
    cases pc <;> first | exact hacq.elim | cases hqueue
  have hkept := (raiseInLoop_sameButHeap endpoint shMid size queue loop ex).queues.trans hqueues
  obtain ⟨-, -, -, heq⟩ | ⟨-, e, heq⟩ := raiseInLoop_cases endpoint shMid size queue loop ex <;>
    rw [heq] at hkept ⊢ <;>
    exact ⟨.none hkept (Pc.grip_congr hsize.symm hqueue.symm) hidle, trivial⟩

/-- **Steps are moves.**  A step of a well-formed worker makes one move of the pool or
none, and leaves it well-formed. -/
theorem Steps.pool (h : Steps endpoint me sh pc ans after sh') (hw : pc.WellFormed) :
    PoolEffect sh.queues sh'.queues pc after.pc ∧ after.pc.WellFormed := by
  cases h with
  | element hpool => exact ⟨.look rfl hpool rfl rfl, .inr ⟨rfl, by simp⟩⟩
  | noElement hpool => exact ⟨.none rfl rfl fun _ => hpool, trivial⟩
  | created hsize =>
      obtain ⟨-, hqueue⟩ | ⟨hone, -⟩ := hw
      · subst hqueue
        exact ⟨.none rfl rfl False.elim, hsize⟩
      · omega
  | createdLooking hsize =>
      obtain ⟨hmore, -⟩ | ⟨-, hqueue⟩ := hw
      · omega
      · exact ⟨.none rfl (Pc.grip_congr rfl rfl) False.elim, hqueue⟩
  | remove hpool =>
      refine ⟨.take trivial hpool rfl ?_, by simp [After.pc, Pc.WellFormed]⟩
      exact if_pos hw
  | noRemove hpool => exact ⟨.none rfl rfl fun _ => hpool, trivial⟩
  | isNull => exact ⟨.none rfl rfl False.elim, trivial⟩
  | overflow a hfits hhr => exact pool_raiseInLoop _ _ rfl rfl rfl
  | receiveFails a hfits hhr => exact pool_raiseInLoop _ _ rfl rfl rfl
  | notFilled a ex hfits hhr hfill => exact pool_raiseInLoop _ _ rfl rfl rfl
  | processorThrows ex exchange writes hwrites => exact pool_raiseInLoop _ _ rfl rfl rfl
  | giveBack hsize => exact ⟨.giveBack (if_pos hsize) rfl rfl, trivial⟩
  | giveBackNull hsize => exact ⟨.none rfl rfl False.elim, trivial⟩
  | @leave size queue pending hsize =>
      cases queue with
      | none => exact ⟨.none rfl rfl False.elim, trivial⟩
      | some queue => exact ⟨.letGo (if_neg (by exact Nat.not_lt.mpr hsize)) rfl rfl, trivial⟩
  | _ =>
      -- the other steps keep the size and the queue
      exact ⟨.none rfl (Pc.grip_congr rfl rfl) False.elim, trivial⟩

end Task

namespace Consumer

variable {N : Nat} {endpoint : MsmqEndpoint} {c c' : Consumer N} {act : Action N}

/-- The pool and what each worker has in hand. -/
def pool (c : Consumer N) : Pool (Fin N) QueueRef :=
  ⟨c.shared.queues, fun w => (c.worker w).pc.grip⟩

/-- The worker that calls `element()` or `remove()` in this action. -/
def Acquirer (c : Consumer N) (act : Action N) (w : Fin N) : Prop :=
  ∃ ans, act = .task w ans ∧ (c.worker w).pc.Acquires

/-- The queue objects that lie in the pool or have been taken out of it are those that
`openQueues` made, each once, and every worker is well-formed. -/
structure Conserved (c : Consumer N) : Prop where
  ledger : c.pool.ledger = Multiset.range N
  wellFormed : ∀ w, (c.worker w).pc.WellFormed
  inHand : ∀ w queue, (c.worker w).pc.queue = some queue → queue < N

/-- `openQueues` has put the `N` objects into the pool, and no run has begun. -/
theorem conserved_doStart : (doStart N).Conserved := by
  refine ⟨?_, fun w => trivial, fun w queue hqueue => nomatch hqueue⟩
  have hempty : ∀ w : Fin N, (((doStart N).pool.grip w).owned) = 0 := fun w => rfl
  exact Ledger.total_eq_store hempty

/-- A worker with nothing in hand finds a queue in the pool, because the other `N - 1` workers
cannot have taken all `N` objects. -/
theorem Conserved.queues_ne_nil (hc : c.Conserved) {w : Fin N} (hw : (c.worker w).pc.grip = .free) :
    c.shared.queues ≠ [] := by
  have hcard : Fintype.card (Fin N) ≤
      (Ledger.total c.shared.queues fun w => (c.pool.grip w).owned).card := by
    have hledger : (Ledger.total c.shared.queues fun w => (c.pool.grip w).owned) =
        Multiset.range N := hc.ledger
    rw [hledger, Multiset.card_range, Fintype.card_fin]
  have hempty : (c.pool.grip w).owned = 0 := by
    show (c.worker w).pc.grip.owned = 0
    rw [hw, Grip.owned_free]
  exact Ledger.store_ne_nil hcard (fun _ => Grip.card_owned_le _) hempty

/-- The grips after one worker has moved on. -/
theorem grip_update (c : Consumer N) (w : Fin N) (x : Worker) :
    (fun v => (Function.update c.worker w x v).pc.grip) =
      Function.update (fun v => (c.worker v).pc.grip) w x.pc.grip := by
  funext v
  by_cases hv : v = w
  · subst hv
    simp
  · simp [Function.update_of_ne hv]

/-- The start of a run that finds the pool not empty. -/
theorem start_pool (w : Worker) {size : Nat} (hsize : size ≠ 0) :
    (w.start size).pc.grip = .free ∧ (w.start size).pc.WellFormed := by
  unfold Worker.start
  by_cases hone : size = 1
  · rw [if_pos hone]
    exact ⟨rfl, trivial⟩
  · rw [if_neg hone]
    exact ⟨rfl, .inl ⟨by omega, rfl⟩⟩

/-- Workers stay well-formed when the one that moves on does. -/
theorem wellFormed_update {worker : Fin N → Worker} (hw : ∀ v, (worker v).pc.WellFormed) {w : Fin N}
    {x : Worker} (hx : x.pc.WellFormed) : ∀ v, (Function.update worker w x v).pc.WellFormed := by
  intro v
  by_cases hv : v = w
  · subst hv
    simpa using hx
  · simpa [Function.update_of_ne hv] using hw v

theorem acquirer_task {w v : Fin N} {ans : Answer} :
    c.Acquirer (.task w ans) v ↔ v = w ∧ (c.worker w).pc.Acquires := by
  constructor
  · intro h
    obtain ⟨ans', heq, hacq⟩ := h
    cases heq
    exact ⟨rfl, hacq⟩
  · intro h
    obtain ⟨rfl, hacq⟩ := h
    exact ⟨ans, rfl, hacq⟩

/-- A step of one worker, seen from the pool: a move by that worker, or none. -/
theorem pool_task (hc : c.Conserved) {w : Fin N} {ans : Answer} {x : Worker}
    {shared : Shared} {phase : Phase}
    (heffect : Task.PoolEffect c.shared.queues shared.queues (c.worker w).pc x.pc) :
    let c' : Consumer N := ⟨shared, Function.update c.worker w x, phase⟩
    (c'.pool = c.pool ∧ ∀ v, ¬c.Acquirer (.task w ans) v) ∨
      ∃ m, c.pool.move m = some c'.pool ∧
        ∀ v, m.acquirer = some v ↔ c.Acquirer (.task w ans) v := by
  intro c'
  have hpool : c'.pool =
      ⟨shared.queues, Function.update (fun v => (c.worker v).pc.grip) w x.pc.grip⟩ := by
    unfold pool
    rw [grip_update]
  have hacquired : (c.worker w).pc.Acquires →
      ∀ v, some w = some v ↔ c.Acquirer (.task w ans) v := by
    intro hacq v
    rw [acquirer_task]
    exact ⟨fun h => ⟨(Option.some.inj h).symm, hacq⟩, fun h => by rw [h.1]⟩
  have hreleased : (c.worker w).pc.grip ≠ .free →
      ∀ v, (Move.letGo w).acquirer = some v ↔ c.Acquirer (.task w ans) v := by
    intro hgrip v
    constructor
    · intro h
      cases h
    · intro hacq
      exact absurd (acquirer_task.mp hacq).2.grip hgrip
  cases heffect with
  | none hqueues hgrip hacquires =>
      refine .inl ⟨?_, fun v hacq => ?_⟩
      · rw [hpool, hqueues, hgrip, Function.update_eq_self]
        rfl
      · have hacq := (acquirer_task.mp hacq).2
        exact hc.queues_ne_nil hacq.grip (hacquires hacq)
  | @look queue rest hpc hqueues hqueues' hgrip =>
      have hacq : (c.worker w).pc.Acquires := by rw [hpc]; trivial
      refine .inr ⟨.look w, ?_, hacquired hacq⟩
      rw [hpool, hqueues', hqueues, hgrip]
      have hfree : c.pool.grip w = .free := hacq.grip
      have hstore : c.pool.store = queue :: rest := hqueues
      simp only [Pool.move, hfree, hstore]
      rfl
  | @take queue rest hpc hqueues hqueues' hgrip =>
      refine .inr ⟨.take w, ?_, hacquired hpc⟩
      rw [hpool, hqueues', hgrip]
      have hfree : c.pool.grip w = .free := hpc.grip
      have hstore : c.pool.store = queue :: rest := hqueues
      simp only [Pool.move, hfree, hstore]
      rfl
  | @letGo queue hgrip hqueues' hfree =>
      refine .inr ⟨.letGo w, ?_, hreleased (by rw [hgrip]; simp)⟩
      rw [hpool, hqueues', hfree]
      have hlooks : c.pool.grip w = .looks queue := hgrip
      simp only [Pool.move, hlooks]
      rfl
  | @giveBack queue hgrip hqueues' hfree =>
      refine .inr ⟨.letGo w, ?_, hreleased (by rw [hgrip]; simp)⟩
      rw [hpool, hqueues', hfree]
      have htakes : c.pool.grip w = .takes queue := hgrip
      simp only [Pool.move, htakes]
      rfl

/-- **Actions are moves.**  An action leaves the pool alone or is one of its moves,
and the acquiring moves are the calls of `element()` and `remove()`. -/
theorem pool_step (hc : c.Conserved) (h : c.step endpoint act = some c') :
    (∀ w, (c'.worker w).pc.WellFormed) ∧
    ((c'.pool = c.pool ∧ ∀ w, ¬c.Acquirer act w) ∨
      ∃ m, c.pool.move m = some c'.pool ∧ ∀ w, m.acquirer = some w ↔ c.Acquirer act w) := by
  have hothers : ∀ {x : Action N}, (∀ w ans, x ≠ .task w ans) → ∀ w, ¬c.Acquirer x w := by
    intro x hx w hacq
    exact hx w _ hacq.choose_spec.1
  cases steps_of_step h with
  | @start w hphase hscheduled hidle =>
      have hsize : c.shared.queues.length ≠ 0 := by
        simpa using hc.queues_ne_nil (w := w) (by rw [hidle]; rfl)
      obtain ⟨hgrip, hfine⟩ := start_pool (c.worker w) hsize
      refine ⟨wellFormed_update hc.wellFormed hfine, .inl ⟨?_, hothers (by simp)⟩⟩
      have hfree : (c.worker w).pc.grip = .free := by rw [hidle]; rfl
      unfold pool
      rw [grip_update, hgrip, ← hfree, Function.update_eq_self]
  | @task w ans after shared htask =>
      obtain ⟨heffect, hfine⟩ := htask.pool (hc.wellFormed w)
      refine ⟨wellFormed_update hc.wellFormed (by rwa [Worker.pc_goOn]), ?_⟩
      exact pool_task hc (by rwa [Worker.pc_goOn])
  | _ => exact ⟨hc.wellFormed, .inl ⟨rfl, hothers (by simp)⟩⟩

/-- What lies in the pool is one of the `N` objects. -/
theorem Conserved.lt_of_mem (hc : c.Conserved) {queue : QueueRef} (hq : queue ∈ c.shared.queues) :
    queue < N := by
  have hmem : queue ∈ c.pool.ledger := Ledger.mem_total_of_store hq
  rw [hc.ledger] at hmem
  exact Multiset.mem_range.mp hmem

/-- **Conservation.**  The pool and what the workers have taken out of it add up to the same
after every action, because an action is a move of the pool or none. -/
theorem Conserved.step (hc : c.Conserved) (h : c.step endpoint act = some c') : c'.Conserved := by
  obtain ⟨hfine, ⟨hpool, -⟩ | ⟨m, hmove, -⟩⟩ := pool_step hc h
  · refine ⟨hpool ▸ hc.ledger, hfine, fun w queue hqueue => ?_⟩
    have hgrip : (c'.worker w).pc.grip = (c.worker w).pc.grip :=
      congrFun (congrArg Pool.grip hpool) w
    rw [← Pc.item?_grip, hgrip, Pc.item?_grip] at hqueue
    exact hc.inHand w queue hqueue
  · refine ⟨(Pool.ledger_move hmove).trans hc.ledger, hfine, fun w queue hqueue => ?_⟩
    rw [← Pc.item?_grip] at hqueue
    rcases Pool.item_move (i := w) hmove hqueue with hold | hstore
    · exact hc.inHand w queue ((Pc.item?_grip _).symm.trans hold)
    · exact hc.lt_of_mem hstore

/-- So it is in every reachable state. -/
theorem conserved_of_reachable (hreach : Runs.Reachable (step endpoint) (doStart N) c) :
    c.Conserved :=
  hreach.invariant _ Conserved conserved_doStart fun _ _ _ hc h => hc.step h

/-- **The pool of a consumer.**  In every reachable state the queue objects in the
pool and those that workers have taken out are the `N` objects that `openQueues`
made, each once.  Hence a run that starts reads a size of at least one, `element()`
and `remove()` find a queue, the queue that is used is not null, and the pool is
complete when all workers are idle. -/
theorem pool_of_reachable (hreach : Runs.Reachable (step endpoint) (doStart N) c) :
    (c.shared.queues : Multiset QueueRef) + ∑ w, (c.worker w).pc.grip.owned = Multiset.range N ∧
    (∀ w, (c.worker w).pc = .idle → 1 ≤ c.shared.queues.length) ∧
    (∀ w, (c.worker w).pc.Acquires → c.shared.queues ≠ []) ∧
    (∀ w size queue exchange, (c.worker w).pc = .atIsOpen size queue exchange → queue ≠ none) ∧
    ((∀ w, (c.worker w).pc = .idle) → c.shared.queues.Perm (List.range N)) := by
  have hc := conserved_of_reachable hreach
  refine ⟨hc.ledger, ?_, ?_, ?_, ?_⟩
  · intro w hidle
    have hne := hc.queues_ne_nil (w := w) (by rw [hidle]; rfl)
    exact List.length_pos_of_ne_nil hne
  · intro w hacq
    exact hc.queues_ne_nil hacq.grip
  · intro w size queue exchange hpc
    have hfine := hc.wellFormed w
    rw [hpc] at hfine
    exact hfine
  · intro hidle
    have hempty : ∀ w, (c.pool.grip w).owned = 0 := by
      intro w
      have hgrip : c.pool.grip w = .free := by
        show (c.worker w).pc.grip = .free
        rw [hidle w]
        rfl
      rw [hgrip, Grip.owned_free]
    have hledger : (c.shared.queues : Multiset QueueRef) = Multiset.range N :=
      (Ledger.total_eq_store hempty).symm.trans hc.ledger
    exact Multiset.coe_eq_coe.mp hledger

/-- Two workers, one of which has taken a queue. -/
theorem pool_of_reachable_taken :
    ∃ c : Consumer 2, c.shared.queues = [1] ∧ (c.worker 0).pc.queue = some 0 ∧
      (c.shared.queues : Multiset QueueRef) + ∑ w, (c.worker w).pc.grip.owned =
        Multiset.range 2 := by
  have hrun : ∃ c, Runs.run (step { remaining := some [113] }) (doStart 2)
      [.start 0, .task 0 (.created none), .task 0 .go] = some c ∧
      c.shared.queues = [1] ∧ (c.worker 0).pc.queue = some 0 := ⟨_, rfl, rfl, rfl⟩
  obtain ⟨c, hc, hqueues, hqueue⟩ := hrun
  exact ⟨c, hqueues, hqueue, (pool_of_reachable ⟨_, hc⟩).1⟩

/-- No two workers have the same queue object in hand. -/
def Exclusive (c : Consumer N) : Prop :=
  ∀ v w queue, (c.worker v).pc.queue = some queue → (c.worker w).pc.queue = some queue → v = w

/-- The actions that keep it so: whoever calls `element()` or `remove()` does so
while no other worker has a queue that it got by `element()`. -/
def Careful (c : Consumer N) (act : Action N) : Prop :=
  ∀ w, c.Acquirer act w → ∀ v queue, (c.worker v).pc.grip = .looks queue → v = w

/-- Exclusive use is what the library means by it, for the pool of the consumer. -/
theorem exclusive_iff : c.Exclusive ↔ c.pool.Exclusive := by
  unfold Exclusive Pool.Exclusive pool
  simp only [Pc.item?_grip]

/-- At first nobody looks at anything. -/
theorem orderly_doStart : (doStart N).pool.Orderly := by
  refine ⟨?_, ?_, ?_⟩
  · rw [conserved_doStart.ledger]
    exact Multiset.nodup_range N
  · intro v w queue hv
    cases hv
  · intro w queue hw
    cases hw

/-- **Exclusive use.**  Along a run no queue object is ever in the hands of two workers exactly
when every action of the run is careful: nobody calls `element()` or `remove()` while another
worker has a queue that it only looked at.  So taking queues out of the pool does no harm,
whoever does it at the same time.  All harm comes from the branch for a pool of size one, and
one such look under way is enough, because its queue is the head of the pool and therefore what
the next worker gets. -/
theorem queues_exclusive_throughout_iff {acts : List (Action N)} {finish : Consumer N}
    (hrun : Runs.run (step endpoint) (doStart N) acts = some finish) :
    Runs.Throughout (step endpoint) Exclusive (doStart N) acts ↔
      Runs.EachStep (step endpoint) Careful (doStart N) acts := by
  refine Runs.throughout_iff_eachStep (step endpoint)
    (fun c => c.Conserved ∧ c.pool.Orderly) ?_ ?_ ?_ ⟨conserved_doStart, orderly_doStart⟩ hrun
  · intro c hc
    exact exclusive_iff.mpr hc.2.exclusive
  · intro c act c' hc h hok
    refine ⟨hc.1.step h, ?_⟩
    obtain ⟨-, ⟨hpool, -⟩ | ⟨m, hmove, hacq⟩⟩ := pool_step hc.1 h
    · exact hpool ▸ hc.2
    · exact hc.2.move hmove fun w hw v queue hlooks => hok w ((hacq w).mp hw) v queue hlooks
  · intro c act c' hc h hex w hw v queue hlooks
    obtain ⟨-, ⟨-, hnone⟩ | ⟨m, hmove, hacq⟩⟩ := pool_step hc.1 h
    · exact absurd hw (hnone w)
    · exact hc.2.careful_of_exclusive hmove (exclusive_iff.mp hex) w ((hacq w).mpr hw) v queue
        hlooks

/-- Both workers read the size two and take a queue each; one of them gives its queue back. -/
theorem queues_exclusive_throughout_iff_both :
    let acts : List (Action 2) := [.start 0, .start 1, .task 1 (.created none),
      .task 0 (.created none), .task 1 .go, .task 0 .go, .task 0 .go,
      .task 0 (.opens (.always 0xC00E000B 0 0))]
    Runs.Throughout (step { remaining := some [113] }) Exclusive (doStart 2)
        (acts ++ [.task 0 .go]) ∧
      ∃ c, Runs.run (step { remaining := some [113] }) (doStart 2) acts = some c ∧
        (c.worker 1).pc.queue = some 0 ∧ (c.worker 0).pc.queue = some 1 := by
  intro acts
  refine ⟨(queues_exclusive_throughout_iff rfl).mpr ?_, _, rfl, rfl, rfl⟩
  -- no worker ever has a queue that it only looks at
  have hcareful : ∀ {c : Consumer 2} {act : Action 2},
      (∀ v, (c.worker v).pc.queue = none ∨ 1 < (c.worker v).pc.size) → c.Careful act := by
    intro c act htaken w _ v queue hlooks
    unfold Pc.grip at hlooks
    rcases htaken v with hnone | hmore
    · rw [hnone] at hlooks
      cases hlooks
    · simp only [if_pos hmore] at hlooks
      split at hlooks <;> cases hlooks
  iterate 9 refine (Runs.eachStep_cons_iff _ rfl).mpr ⟨hcareful (by decide), ?_⟩
  exact Runs.eachStep_nil _ _

/-- Worker 0 takes queue 0; worker 1 reads the size one and looks at queue 1; worker 0
receives a message, gives its queue back and runs again: it reads the size two and
takes queue 1, which worker 1 is still using. -/
theorem queue_shared_by_taking :
    ∃ c : Consumer 2, Runs.run (step { remaining := some [113] }) (doStart 2)
        [.start 0, .task 0 (.created none), .task 0 .go,
          .start 1, .task 1 .go,
          .task 0 .go, .task 0 (.opens (.always 0 1 0)), .task 0 (.allocates default),
          .task 0 (.receives ⟨0, default, 0, [65, 66]⟩), .task 0 (.processes none .create []),
          .task 0 .go,
          .start 0, .task 0 (.created none), .task 0 .go] = some c ∧
      (c.worker 0).pc.queue = some 1 ∧ (c.worker 1).pc.queue = some 1 ∧ ¬c.Exclusive := by
  refine ⟨_, rfl, rfl, rfl, ?_⟩
  intro hex
  exact absurd (hex 0 1 1 rfl rfl) (by decide)

end Consumer

end Msmq
