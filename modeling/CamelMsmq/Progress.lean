import CamelMsmq.InHands
import CamelMsmq.GrowthEnds

/-!
# A worker gets through

As long as `doStop` has not been called, a worker that waits for its next run can hand over
any message that fits: MSMQ can answer so that the run opens its queue, lets its buffer grow
until there is room, receives the message, hands it over and ends.  Up to the receive nothing
is removed, and nothing else is handed over.

The way is put together from pieces, one for each stage of a run (`Stands`), and `Leads` is what
the pieces have in common: the worker gets from one state to another in one run, and neither
receives nor hands over a message.  Only the growth needs an induction, on the growths that
are still to come.

On the other side, what has been handed over has fitted.  That is an invariant, `Fitting`: each
buffer has one of the sizes that buffers run through, and a size that was accepted has not
wrapped around.
-/

namespace Msmq

/-- One of the sizes that the buffer runs through has room for `n` bytes, and is an `int`. -/
def MsmqEndpoint.Fits (endpoint : MsmqEndpoint) (n : Nat) : Prop :=
  0 ≤ endpoint.initialBufferSize.toInt ∧
    ∃ k, (n : Int) ≤ endpoint.bufferSize k ∧ endpoint.bufferSize k < 2 ^ 31

namespace Consumer

variable {N : Nat} {endpoint : MsmqEndpoint} {c c' : Consumer N} {w : Fin N} {pc : Pc}
  {size : Nat} {queue : QueueRef} {m : MqMessage} {K : Nat}

/-! ## One worker at work -/

/-- Worker `w` brings the consumer from one state to the other, in one run, and neither
receives nor hands over a message. -/
def Leads (endpoint : MsmqEndpoint) (w : Fin N) : Consumer N → Consumer N → Prop :=
  Relation.ReflTransGen fun c c' =>
    ∃ ans, Task.Quiet ans ∧ c.step endpoint (.task w ans) = some c'

/-- A step of the worker that neither receives nor calls the processor leads on. -/
theorem leads_of_step {ans : Answer} (h : c.step endpoint (.task w ans) = some c')
    (hquiet : Task.Quiet ans) : Leads endpoint w c c' :=
  .single ⟨ans, hquiet, h⟩

/-- `doStop` has not been called, and worker `w`, whose runs the executor goes on starting,
stands at `pc`. -/
structure Stands (endpoint : MsmqEndpoint) (w : Fin N) (pc : Pc) (c : Consumer N) : Prop where
  sound : c.Sound endpoint
  conserved : c.Conserved
  running : c.phase = .running
  scheduled : (c.worker w).scheduled = true
  place : (c.worker w).pc = pc

/-- The run of worker `w` has begun: it has read the size of the pool. -/
def Begun (endpoint : MsmqEndpoint) (w : Fin N) (c : Consumer N) : Prop :=
  c.Stands endpoint w .atElement ∨
    ∃ size, 1 < size ∧ c.Stands endpoint w (.atCreate size none)

namespace Stands

/-- The worker goes on, and its run does not end. -/
theorem task (hc : c.Stands endpoint w pc) {ans : Answer} {pc' : Pc}
    (h : c.step endpoint (.task w ans) = some c') (hplace : (c'.worker w).pc = pc')
    (hrun : pc' ≠ .idle) : c'.Stands endpoint w pc' := by
  refine ⟨hc.sound.step h, hc.conserved.step h, ?_, ?_, hplace⟩ <;> cases steps_of_step h with
  | @task _ _ after shared htask => ?_
  · rw [hc.running]
    rfl
  · simp only [Function.update_self] at hplace ⊢
    cases after with
    | goOn _ => exact hc.scheduled
    | ended _ => exact absurd hplace.symm hrun

/-- A quiet step that takes the run to another point. -/
theorem goOn (hc : c.Stands endpoint w pc) {ans : Answer} {pc' : Pc} {shared : Shared}
    (h : Task.step endpoint (c.runId w) c.shared pc ans = some (.goOn pc', shared))
    (hquiet : Task.Quiet ans) (hpc' : pc' ≠ .idle) :
    ∃ c', Leads endpoint w c c' ∧ c'.Stands endpoint w pc' := by
  have hstep : c.step endpoint (.task w ans) = some ⟨shared,
      Function.update c.worker w ((c.worker w).goOn (.goOn pc')),
      c.phase.observe shared.queues⟩ := by
    simp only [step, hc.place, h]
  have hplace : (Function.update c.worker w ((c.worker w).goOn (.goOn pc')) w).pc = pc' := by
    rw [Function.update_self]
    rfl
  exact ⟨_, leads_of_step hstep hquiet, hc.task hstep hplace hpc'⟩

/-- The executor starts a run, which reads the size of the pool and touches nothing. -/
theorem start (hc : c.Stands endpoint w .idle) :
    ∃ c', c.step endpoint (.start w) = some c' ∧ c'.Begun endpoint w ∧
      c'.shared = c.shared := by
  have hstep : c.step endpoint (.start w) = some { c with
      worker := Function.update c.worker w ((c.worker w).start c.shared.queues.length) } := by
    simp only [step, hc.running, hc.scheduled, hc.place]
  have hpool : c.shared.queues ≠ [] := hc.conserved.queues_ne_nil (by rw [hc.place]; rfl)
  have hlength := List.length_pos_of_ne_nil hpool
  have hscheduled : (Function.update c.worker w
      ((c.worker w).start c.shared.queues.length) w).scheduled = true := by
    rw [Function.update_self]
    exact hc.scheduled
  refine ⟨_, hstep, ?_, rfl⟩
  by_cases hone : c.shared.queues.length = 1
  · refine .inl ⟨hc.sound.step hstep, hc.conserved.step hstep, hc.running, hscheduled, ?_⟩
    simp [Worker.start, hone]
  · refine .inr ⟨c.shared.queues.length, by omega, hc.sound.step hstep, hc.conserved.step hstep,
      hc.running, hscheduled, ?_⟩
    simp [Worker.start, hone]

/-- The queue is open, or is opened now: MSMQ can answer so that `open` returns. -/
theorem exists_atAllocate {exchange : Exchange}
    (hc : c.Stands endpoint w (.atIsOpen size (some queue) exchange))
    (hremaining : endpoint.remaining ≠ none) :
    ∃ c', Leads endpoint w c c' ∧ c'.Stands endpoint w (.atAllocate size queue exchange) := by
  cases hopen : (c.shared.object queue).isOpen with
  | true =>
      have hgo : Task.step endpoint (c.runId w) c.shared
          (.atIsOpen size (some queue) exchange) .go =
            some (.goOn (.atAllocate size queue exchange), c.shared) := by
        simp only [Task.step, hopen, if_true]
      exact hc.goOn hgo trivial (by simp)
  | false =>
      have hgo : Task.step endpoint (c.runId w) c.shared
          (.atIsOpen size (some queue) exchange) .go =
            some (.goOn (.atOpen size queue exchange), c.shared) := by
        simp only [Task.step, hopen, Bool.false_eq_true, if_false]
      obtain ⟨c₁, hone, hclosed⟩ := hc.goOn hgo trivial (by simp)
      let a : OpenAnswers := .always 0 0 0
      have hok : ((c₁.shared.object queue).open endpoint.remaining a c₁.shared.calls).result =
          .ok () := by
        refine (MsmqQueue.open_returns_iff ..).mpr ⟨?_, by decide⟩
        obtain ⟨path, hpath⟩ := Option.ne_none_iff_exists'.mp hremaining
        simp [hpath, OpenAnswers.destFormatName, a, OpenAnswers.always]
      have hopened : Task.step endpoint (c₁.runId w) c₁.shared (.atOpen size queue exchange)
          (.opens a) = some (.goOn (.atAllocate size queue exchange), c₁.shared.operated queue
            ((c₁.shared.object queue).open endpoint.remaining a c₁.shared.calls)) := by
        simp only [Task.step, hok]
      obtain ⟨c₂, htwo, hallocate⟩ := hclosed.goOn hopened trivial (by simp)
      exact ⟨c₂, hone.trans htwo, hallocate⟩

/-- The run allocates its first buffer. -/
theorem exists_fresh {exchange : Exchange}
    (hc : c.Stands endpoint w (.atAllocate size queue exchange))
    (hcan : 0 ≤ endpoint.initialBufferSize.toInt) :
    ∃ c' size queue loop, Leads endpoint w c c' ∧
      c'.Stands endpoint w (.atReceive size queue loop) ∧ c'.Fresh endpoint w := by
  have halloc : ByteBuffer.allocateDirect c.shared.heap endpoint.initialBufferSize =
      .ok (.whole c.shared.heap.next true endpoint.initialBufferSize,
        c.shared.heap.allocate endpoint.initialBufferSize.toInt.toNat) := by
    unfold ByteBuffer.allocateDirect
    rw [if_neg]
    rw [Int32.lt_iff_toInt_lt, Int32.toInt_zero]
    exact not_lt.mpr hcan
  obtain ⟨c', hstep⟩ : ∃ c', c.step endpoint (.task w (.allocates default)) = some c' := by
    simp only [step, hc.place, Task.step, halloc]
    exact ⟨_, rfl⟩
  have hf := fresh_of_allocates hc.sound hstep hcan
  obtain ⟨size', queue', loop, hpc, -⟩ := hf.receiving
  have hc' := hc.task hstep hpc (by simp)
  exact ⟨c', size', queue', loop, leads_of_step hstep trivial, hc', hf⟩

/-- A receive that overflows: the run goes on with a larger buffer, since the size that is
enough is still ahead and is an `int`. -/
theorem overflow {loop : Loop} (hc : c.Stands endpoint w (.atReceive size queue loop))
    (hu : c.Underway endpoint w m) (hleast : IsLeast (endpoint.enough m.body.length) K)
    (hmax : endpoint.bufferSize K < 2 ^ 31)
    (hsmall : loop.msmqMessage.cElems.toNat < m.body.length) :
    ∃ c' size queue loop', Leads endpoint w c c' ∧
      c'.Stands endpoint w (.atReceive size queue loop') ∧ c'.Underway endpoint w m ∧
      loop'.grown = loop.grown + 1 := by
  have hsound := hc.sound.worker w
  rw [hc.place] at hsound
  obtain ⟨a, c', ha, hstep⟩ := exists_meets m hc.place hsound.1
  have hover := ha.overflow hsmall
  have hmeets : c.Meets w m (.task w (.receives a)) :=
    fun _ => ⟨size, queue, loop, a, hc.place, rfl, ha⟩
  have hu' := hu.step hstep hmeets hleast hmax
  have hplace := hu'.place
  have hquiet : Task.Quiet (.receives a) := by rw [Task.Quiet, hover, failed_bufferOverflow]
  cases hpc : (c'.worker w).pc with
  | atReceive size' queue' loop' =>
      have hc' := hc.task hstep hpc (by simp)
      refine ⟨c', size', queue', loop', leads_of_step hstep hquiet, hc', hu', ?_⟩
      cases steps_of_step hstep with
      | task htask =>
          simp only [Function.update_self, Worker.pc_goOn] at hpc
          rw [hc.place] at htask
          obtain ⟨before, hbefore, hgrown⟩ := htask.grown hsound (by rw [hpc]; rfl)
          obtain rfl := Option.some.inj hbefore
          simpa [Answer.grows, hover] using hgrown
  | atProcess size' queue' loop' =>
      cases steps_of_step hstep with
      | task htask =>
          simp only [Function.update_self, Worker.pc_goOn] at hpc
          rw [hc.place] at htask
          exact absurd hpc (htask.not_atProcess hover)
  | _ =>
      rw [hpc] at hplace
      exact hplace.elim

/-- The buffer grows until there is room.  The induction is on the growths still to come. -/
theorem exists_room {loop : Loop} (hc : c.Stands endpoint w (.atReceive size queue loop))
    (hu : c.Underway endpoint w m) (hleast : IsLeast (endpoint.enough m.body.length) K)
    (hmax : endpoint.bufferSize K < 2 ^ 31) :
    ∃ c' size queue loop, Leads endpoint w c c' ∧
      c'.Stands endpoint w (.atReceive size queue loop) ∧ c'.Underway endpoint w m ∧
      m.body.length ≤ loop.msmqMessage.cElems.toNat := by
  induction hleft : K + 1 - loop.grown generalizing c size queue loop with
  | zero =>
      have hin := hu.inStep.2
      rw [hc.place] at hin
      have hle := Growth.le_of_isLeast_enough hleast hin.2.1
      omega
  | succ left ih =>
      by_cases hroom : m.body.length ≤ loop.msmqMessage.cElems.toNat
      · exact ⟨c, size, queue, loop, .refl, hc, hu, hroom⟩
      · obtain ⟨c₁, size₁, queue₁, loop₁, hleads, hc₁, hu₁, hgrown⟩ :=
          hc.overflow hu hleast hmax (not_le.mp hroom)
        obtain ⟨c', size', queue', loop', hmore, hrest⟩ := ih hc₁ hu₁ (by omega)
        exact ⟨c', size', queue', loop', hleads.trans hmore, hrest⟩

/-- The receive of a message for which there is room.  The exchange then shows the message, and
nothing has been handed over yet. -/
theorem receive {loop : Loop} (hc : c.Stands endpoint w (.atReceive size queue loop))
    (hroom : m.body.length ≤ loop.msmqMessage.cElems.toNat) :
    ∃ c' filled, c.step endpoint (.task w (.receives ⟨0, m.props, 0, m.body⟩)) = some c' ∧
      c'.Stands endpoint w (.atProcess size queue filled) ∧
      Faithful (filled.exchange.shown c'.shared.heap) m ∧
      c'.shared.deliveries = c.shared.deliveries := by
  have htimeout : (0 : Hresult) ≠ mqErrorIoTimeout := by decide
  have hoverflow : (0 : Hresult) ≠ mqErrorBufferOverflow := by decide
  have hok : failed 0 = false := rfl
  have hsound := hc.sound.worker w
  rw [hc.place] at hsound
  let a : ReceiveAnswer := ⟨0, m.props, 0, m.body⟩
  have hfits : loop.msmqMessage.fits a = true := by
    simp only [MsmqMessage.fits, hsound.1.pElems, a]
    exact decide_eq_true hroom
  obtain ⟨filled, hfill, -, hfilled⟩ := hsound.1.fill hfits hok
  obtain ⟨c', hstep⟩ : ∃ c', c.step endpoint (.task w (.receives a)) = some c' := by
    simp [step, hc.place, Task.step, hfits]
  refine ⟨c', filled, hstep, ?_⟩
  cases steps_of_step hstep with
  | task htask =>
      rw [hc.place] at htask
      cases htask with
      | timeout _ _ hhr => exact absurd hhr htimeout
      | overflow _ _ hhr => exact absurd hhr hoverflow
      | receiveFails _ _ hhr => exact absurd (hok.symm.trans hhr.1) (by decide)
      | received _ filled' _ _ hfill' =>
          obtain rfl := Except.ok.inj (hfill'.symm.trans hfill)
          refine ⟨hc.task hstep ?_ (by simp), hfilled.faithful, rfl⟩
          simp only [Function.update_self, Worker.goOn]
      | notFilled _ ex _ _ hfill' => exact absurd hfill' (hsound.1.fill_ne_error hfits hok ex)

/-- The run hands over what it has received.  The processor that is chosen here returns and
writes nothing. -/
theorem process {loop : Loop} (hc : c.Stands endpoint w (.atProcess size queue loop)) :
    ∃ c', c.step endpoint (.task w (.processes none .create [])) = some c' ∧
      c'.Stands endpoint w (.atFinally size (some queue) none) ∧
      c'.shared.deliveries =
        (c.runId w, loop.exchange.shown c.shared.heap) :: c.shared.deliveries := by
  obtain ⟨c', hstep⟩ : ∃ c', c.step endpoint (.task w (.processes none .create [])) = some c' := by
    simp [step, hc.place, Task.step]
  refine ⟨c', hstep, ?_⟩
  cases steps_of_step hstep with
  | task htask =>
      rw [hc.place] at htask
      cases htask with
      | processed _ _ hwrites =>
          refine ⟨hc.task hstep ?_ (by simp), rfl⟩
          simp only [Function.update_self, Worker.goOn]

/-- The run gives its queue back and ends, and the executor will start the next one. -/
theorem finish (hc : c.Stands endpoint w (.atFinally size (some queue) none)) :
    ∃ c', Leads endpoint w c c' ∧ c'.Stands endpoint w .idle := by
  obtain ⟨shared, hend⟩ : ∃ shared, Task.step endpoint (c.runId w) c.shared
      (.atFinally size (some queue) none) .go = some (.ended none, shared) := by
    by_cases hsize : size > 1 <;> simp [Task.step, hsize]
  have hstep : c.step endpoint (.task w .go) = some ⟨shared,
      Function.update c.worker w ((c.worker w).goOn (.ended none)),
      c.phase.observe shared.queues⟩ := by
    simp only [step, hc.place, hend]
  refine ⟨_, leads_of_step hstep trivial, hc.sound.step hstep, hc.conserved.step hstep, ?_, ?_, ?_⟩
  · rw [hc.running]
    rfl
  · simp [Worker.goOn, hc.scheduled]
  · simp [Worker.goOn]

end Stands

namespace Begun

/-- The run gets a queue, by looking or by taking, because the pool has one for it. -/
theorem exists_atIsOpen (hc : c.Begun endpoint w) :
    ∃ c' size queue, Leads endpoint w c c' ∧
      c'.Stands endpoint w (.atIsOpen size (some queue) .create) := by
  rcases hc with hlook | ⟨size, hsize, htake⟩
  · obtain ⟨queue, rest, hpool⟩ := List.exists_cons_of_ne_nil
      (hlook.conserved.queues_ne_nil (by rw [hlook.place]; rfl))
    have helement : Task.step endpoint (c.runId w) c.shared .atElement .go =
        some (.goOn (.atCreate 1 (some queue)), c.shared) := by rw [Task.step, hpool]
    obtain ⟨c₁, hone, hcreate⟩ := hlook.goOn helement trivial (by simp)
    have hcreated : Task.step endpoint (c₁.runId w) c₁.shared (.atCreate 1 (some queue))
        (.created none) = some (.goOn (.atIsOpen 1 (some queue) .create), c₁.shared) := rfl
    obtain ⟨c₂, htwo, hopen⟩ := hcreate.goOn hcreated trivial (by simp)
    exact ⟨c₂, 1, queue, hone.trans htwo, hopen⟩
  · have hcreated : Task.step endpoint (c.runId w) c.shared (.atCreate size none)
        (.created none) = some (.goOn (.atRemove size .create), c.shared) := by
      simp only [Task.step, if_pos hsize]
    obtain ⟨c₁, hone, hremove⟩ := htake.goOn hcreated trivial (by simp)
    obtain ⟨queue, rest, hpool⟩ := List.exists_cons_of_ne_nil
      (hremove.conserved.queues_ne_nil (by rw [hremove.place]; rfl))
    have hremoved : Task.step endpoint (c₁.runId w) c₁.shared (.atRemove size .create) .go =
        some (.goOn (.atIsOpen size (some queue) .create), { c₁.shared with queues := rest }) := by
      rw [Task.step, hpool]
    obtain ⟨c₂, htwo, hopen⟩ := hremove.goOn hremoved trivial (by simp)
    exact ⟨c₂, size, queue, hone.trans htwo, hopen⟩

/-- A run that has begun can allocate its first buffer. -/
theorem exists_first (hc : c.Begun endpoint w) (hremaining : endpoint.remaining ≠ none)
    (hcan : 0 ≤ endpoint.initialBufferSize.toInt) :
    ∃ c' size queue loop, Leads endpoint w c c' ∧
      c'.Stands endpoint w (.atReceive size queue loop) ∧ c'.Fresh endpoint w := by
  obtain ⟨c₁, size, queue, hone, hisOpen⟩ := hc.exists_atIsOpen
  obtain ⟨c₂, htwo, hallocate⟩ := hisOpen.exists_atAllocate hremaining
  obtain ⟨c₃, size₃, queue₃, loop, hthree, hboth⟩ := hallocate.exists_fresh hcan
  exact ⟨c₃, size₃, queue₃, loop, (hone.trans htwo).trans hthree, hboth⟩

/-- **Up to the receive.**  A run that has begun can be brought to the point where it has room
for the message. -/
theorem exists_receiving (hc : c.Begun endpoint w) (hremaining : endpoint.remaining ≠ none)
    (hfits : endpoint.Fits m.body.length) :
    ∃ c' size queue loop, Leads endpoint w c c' ∧
      c'.Stands endpoint w (.atReceive size queue loop) ∧
      m.body.length ≤ loop.msmqMessage.cElems.toNat := by
  obtain ⟨hcan, k, henough, hmax⟩ := hfits
  obtain ⟨K, hK, hleast⟩ := Growth.exists_isLeast_enough henough
  obtain ⟨c₁, size₁, queue₁, loop₁, hone, hreceive, hf⟩ := hc.exists_first hremaining hcan
  obtain ⟨c₂, size₂, queue₂, loop₂, htwo, hroom, -, hle⟩ :=
    hreceive.exists_room (hf.underway m) hleast (bufferSize_lt_of_isLeast hleast hK hmax)
  exact ⟨c₂, size₂, queue₂, loop₂, hone.trans htwo, hroom, hle⟩

end Begun

/-- What leads on hands nothing over. -/
theorem Leads.deliveries (h : Leads endpoint w c c') (hs : c.Sound endpoint) :
    c'.Sound endpoint ∧ c'.shared.deliveries = c.shared.deliveries := by
  induction h with
  | refl => exact ⟨hs, rfl⟩
  | tail _ hstep ih =>
      obtain ⟨hsound, hsame⟩ := ih
      obtain ⟨ans, hquiet, hstep⟩ := hstep
      refine ⟨hsound.step hstep, ?_⟩
      cases hsound.hands hstep with
      | quiet _ _ hdeliveries => exact hdeliveries.trans hsame
      | receives w a hhr => exact absurd (hquiet.symm.trans hhr) (by decide)
      | processes => exact hquiet.elim

end Consumer

/-! ## What has been handed over has fitted -/

namespace Loop

/-- The buffer has one of the sizes that it is to run through. -/
def Proper (endpoint : MsmqEndpoint) (loop : Loop) : Prop :=
  0 ≤ endpoint.initialBufferSize.toInt ∧ loop.initsize.toInt = endpoint.bufferSize loop.grown

variable {endpoint : MsmqEndpoint} {loop loop' : Loop}

theorem Proper.congr (hp : loop.Proper endpoint) (hinit : loop'.initsize = loop.initsize)
    (hgrown : loop'.grown = loop.grown) : loop'.Proper endpoint := by
  unfold Proper
  rw [hinit, hgrown]
  exact hp

/-- What such a buffer has been filled with fits. -/
theorem Filled.fits {heap : Heap} {m : MqMessage} (hf : loop.Filled endpoint heap m)
    (hp : loop.Proper endpoint) : endpoint.Fits (loop.exchange.shown heap).content.length := by
  obtain ⟨hcan, hsize⟩ := hp
  have hlimit := loop.body.limit_le
  have hnonneg := hf.sized.nonneg
  rw [hf.sized.capacity, hf.limit] at hlimit
  refine ⟨hcan, loop.grown, ?_, ?_⟩ <;> rw [← hsize]
  · rw [hf.faithful.2.1]
    omega
  · exact Int32.toInt_lt _

end Loop

/-- The run has no buffer, or a proper one. -/
def Pc.Proper (endpoint : MsmqEndpoint) : Pc → Prop
  | .atReceive _ _ loop => loop.Proper endpoint
  | .atProcess _ _ loop => loop.Proper endpoint
  | _ => True

namespace Task

variable {endpoint : MsmqEndpoint} {me : RunId} {sh sh' : Shared} {pc : Pc} {ans : Answer}
  {after : After}

/-- A buffer that replaces another is proper: a size that is accepted has not wrapped
around. -/
theorem proper_raiseInLoop {loop : Loop} (hsized : loop.Sized endpoint)
    (hp : loop.Proper endpoint) (shMid : Shared) (size : Nat) (queue : QueueRef) (ex : Throwable) :
    (raiseInLoop endpoint shMid size queue loop ex).1.pc.Proper endpoint := by
  obtain ⟨-, -, hnonneg, heq⟩ | ⟨-, e, heq⟩ :=
    raiseInLoop_cases endpoint shMid size queue loop ex
  · rw [heq]
    exact ⟨hp.1, toInt_initsize_grown hsized hp.2 hnonneg⟩
  · rw [heq]
    trivial

/-- A step keeps the sizes among those that buffers run through.  Only the growth of a buffer is
to be looked at, since it alone changes a size. -/
theorem Steps.proper (h : Steps endpoint me sh pc ans after sh') (hs : Sound endpoint me sh pc)
    (hp : pc.Proper endpoint) : after.pc.Proper endpoint := by
  cases h with
  | allocated raw hsize => exact ⟨hsize, (Growth.size_zero _ _).symm⟩
  | timeout a hfits hhr => exact hp
  | overflow a hfits hhr =>
      refine proper_raiseInLoop ?_ ?_ _ _ _ _
      · exact hs.1.sized.congr rfl rfl rfl
      · exact hp.congr rfl rfl
  | receiveFails a hfits hhr =>
      refine proper_raiseInLoop ?_ ?_ _ _ _ _
      · exact hs.1.sized.congr rfl rfl rfl
      · exact hp.congr rfl rfl
  | received a filled hfits hhr hfill =>
      obtain ⟨hinit, hgrown⟩ := same_fill hfill
      exact hp.congr hinit hgrown
  | notFilled a ex hfits hhr hfill => exact absurd hfill (hs.1.fill_ne_error hfits hhr ex)
  | processorThrows ex exchange writes hwrites =>
      obtain ⟨m, older, -, -, hfilled⟩ := hs
      refine proper_raiseInLoop ?_ ?_ _ _ _ _
      · exact hfilled.sized.congr rfl rfl rfl
      · exact hp.congr rfl rfl
  | _ => trivial

end Task

namespace Consumer

variable {N : Nat} {endpoint : MsmqEndpoint} {c c' : Consumer N} {act : Action N}

/-- All buffers are proper, and what has been handed over has fitted: it is no larger than one
of the sizes that buffers run through. -/
structure Fitting (endpoint : MsmqEndpoint) (c : Consumer N) : Prop where
  proper : ∀ w, (c.worker w).pc.Proper endpoint
  delivered : ∀ d ∈ c.shared.deliveries, endpoint.Fits d.2.content.length

theorem fitting_doStart : (doStart N).Fitting endpoint :=
  ⟨fun _ => trivial, fun _ hd => by cases hd⟩

/-- A delivery has fitted because its buffer was proper when the processor was called. -/
theorem Fitting.step (hf : c.Fitting endpoint) (hs : c.Sound endpoint)
    (h : c.step endpoint act = some c') : c'.Fitting endpoint := by
  refine ⟨fun w => ?_, fun d hd => ?_⟩
  · cases seenBy_of_step h w with
    | others hstart htask hme hrecorded hworker =>
        rw [hworker]
        exact hf.proper w
    | start hidle hscheduled hshared hworker =>
        rw [hworker]
        unfold Worker.start
        split <;> trivial
    | task htask hworker =>
        rw [hworker, Worker.pc_goOn]
        exact htask.proper (hs.worker w) (hf.proper w)
  · cases hs.hands h with
    | quiet hquiet hsame hdeliveries => exact hf.delivered d (hdeliveries ▸ hd)
    | receives w a hhr hbefore hafter hdeliveries => exact hf.delivered d (hdeliveries ▸ hd)
    | processes w m hpc hfaithful hbefore hafter hdeliveries =>
        rw [hdeliveries] at hd
        rcases List.mem_cons.mp hd with rfl | hold
        · have hsound := hs.worker w
          have hproper := hf.proper w
          rw [hpc] at hsound hproper
          obtain ⟨m', older, -, -, hfilled⟩ := hsound
          exact hfilled.fits hproper
        · exact hf.delivered d hold

end Consumer

end Msmq
