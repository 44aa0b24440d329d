import CamelMsmq.Runs
import CamelMsmq.ProducerSpec
import CamelMsmq.QueueObjects

/-!
# Threads that share a producer

Camel gives the one producer of an endpoint to every thread that sends through it.  A
call of `process` is cut into steps where other threads can act: the test `isOpen`, the
opening, the encoding of the body, and the send.  `doStop` is called when no call of
`process` is active.  The steps of one thread in a row are `process` (`process_uninterrupted`),
so what is cut here is the same code.

Between the test of one thread and its opening another thread may open the queue, and
the handle of that opening is lost.  `one_connection_iff` makes this exact, for runs in which
MSMQ answers with success: then the flag of the queue object is `Truthful` as long as no thread
opens a queue that is open, and the first opening that does so leaves two handles open, of
which nobody can close the first.
-/

namespace Msmq

/-- Where a thread stands in `process`.  It has the exchange up to the encoding, and the buffer,
if there is one, from then on. -/
inductive Sending
  | idle
  | atIsOpen (e : Exchange)
  | atOpen (e : Exchange)
  | atEncode (e : Exchange)
  | atSend (buffer : Option ByteBuffer)

/-- The thread is in no call. -/
def Sending.isIdle : Sending → Bool
  | idle => true
  | _ => false

/-- A producer with the threads that use it.  The queue object and the heap are shared by all;
only the place in `process` is a thread's own. -/
structure Threads (N : Nat) where
  producer : MsmqProducer
  heap : Heap
  calls : List MqCall
  thread : Fin N → Sending

/-- What may happen: a step of a thread, or a call of `doStart` or `doStop`. -/
inductive ThreadAction (N : Nat)
  | call (w : Fin N) (e : Exchange)
  | isOpen (w : Fin N)
  | open (w : Fin N) (a : OpenAnswers)
  | encode (w : Fin N)
  | send (w : Fin N) (raw : MsmqMessage) (hr : Hresult)
  | doStart
  | doStop (hr : Hresult)

namespace Threads

variable {N : Nat}

/-- A new producer. -/
def init (N : Nat) (endpoint : MsmqEndpoint) (heap : Heap) : Threads N :=
  ⟨.new endpoint, heap, [], fun _ => .idle⟩

/-- A thread goes on. -/
def goOn (s : Threads N) (w : Fin N) (place : Sending) : Threads N :=
  { s with thread := Function.update s.thread w place }

/-- The state after an operation of the queue. -/
def operated (s : Threads N) (r : Native Unit) : Threads N :=
  { s with producer := { s.producer with queue := r.queue }, calls := r.calls }

/-- One step.  A step that throws ends the call. -/
def step (endpoint : MsmqEndpoint) (s : Threads N) : ThreadAction N → Option (Threads N)
  | .call w e =>
      match s.thread w with
      | .idle => some (s.goOn w (.atIsOpen e))
      | _ => none
  | .isOpen w =>
      match s.thread w with
      | .atIsOpen e => some (s.goOn w (if s.producer.queue.isOpen then .atEncode e else .atOpen e))
      | _ => none
  | .open w a =>
      match s.thread w with
      | .atOpen e =>
          let r := s.producer.queue.open endpoint.remaining a s.calls
          some ((s.operated r).goOn w (match r.result with
            | .ok () => .atEncode e
            | .error _ => .idle))
      | _ => none
  | .encode w =>
      match s.thread w with
      | .atEncode e =>
          match MsmqProducer.encode s.heap e.body with
          | .ok enc => some ({ s with heap := enc.heap }.goOn w (.atSend enc.buffer))
          | .error _ => some (s.goOn w .idle)
      | _ => none
  | .send w raw hr =>
      match s.thread w with
      | .atSend buffer =>
          some ((s.operated (s.producer.send s.heap buffer raw hr s.calls)).goOn w .idle)
      | _ => none
  | .doStart => some { s with producer := s.producer.doStart }
  | .doStop hr =>
      if ∀ w, (s.thread w).isIdle = true then some (s.operated (s.producer.doStop hr s.calls))
      else none

/-! ## An uninterrupted call -/

section Uninterrupted

variable {endpoint : MsmqEndpoint} {s : Threads N} {w : Fin N}

@[simp] theorem thread_goOn (place : Sending) : (s.goOn w place).thread w = place :=
  Function.update_self ..

@[simp] theorem goOn_goOn (here there : Sending) :
    (s.goOn w here).goOn w there = s.goOn w there := by
  simp [goOn]

@[simp] theorem operated_goOn (place : Sending) (r : Native Unit) :
    (s.goOn w place).operated r = (s.operated r).goOn w place := rfl

/-- Test and opening together are `openConnection`, if no other thread acts between them. -/
theorem run_openConnection (e : Exchange) (a : OpenAnswers) :
    ∃ acts, Runs.run (step endpoint) (s.goOn w (.atIsOpen e)) acts =
      some ((s.operated (s.producer.openConnection endpoint.remaining a s.calls)).goOn w
        (match (s.producer.openConnection endpoint.remaining a s.calls).result with
          | .ok () => .atEncode e
          | .error _ => .idle)) := by
  unfold MsmqProducer.openConnection
  cases hopen : s.producer.queue.isOpen with
  | true =>
      have htest : (s.goOn w (.atIsOpen e)).producer.queue.isOpen = true := hopen
      refine ⟨[.isOpen w], ?_⟩
      rw [Runs.run_singleton_iff]
      simp only [step, thread_goOn, goOn_goOn, htest]
      rfl
  | false =>
      have htest : (s.goOn w (.atIsOpen e)).producer.queue.isOpen = false := hopen
      refine ⟨[.isOpen w, .open w a], ?_⟩
      rw [Runs.run_cons_iff]
      refine ⟨s.goOn w (.atOpen e), ?_, ?_⟩
      · simp only [step, thread_goOn, goOn_goOn, htest]
        rfl
      · rw [Runs.run_singleton_iff]
        simp only [step, thread_goOn, operated_goOn, goOn_goOn]
        rfl

/-- After the opening, encoding and sending are the rest of `process`. -/
theorem run_send {e : Exchange} {enc : Encoded} (hpc : s.thread w = .atEncode e)
    (hencode : MsmqProducer.encode s.heap e.body = .ok enc) (raw : MsmqMessage) (hr : Hresult) :
    ∃ s', Runs.run (step endpoint) s [.encode w, .send w raw hr] = some s' ∧
      s'.producer =
        { s.producer with
          queue := (s.producer.send enc.heap enc.buffer raw hr s.calls).queue } ∧
      s'.heap = enc.heap ∧
      s'.calls = (s.producer.send enc.heap enc.buffer raw hr s.calls).calls := by
  let encoded := { s with heap := enc.heap }.goOn w (.atSend enc.buffer)
  have hfirst : s.step endpoint (.encode w) = some encoded := by
    simp only [step, hpc, hencode]
    rfl
  have hsecond : encoded.step endpoint (.send w raw hr) = some
      ((encoded.operated (s.producer.send enc.heap enc.buffer raw hr s.calls)).goOn w .idle) := by
    simp only [step, encoded, thread_goOn]
    rfl
  refine ⟨_, (Runs.run_cons_iff _).mpr ⟨_, hfirst, (Runs.run_singleton_iff _).mpr hsecond⟩,
    rfl, rfl, rfl⟩

/-- **A call without interruption** is `process`: its steps in a row lead to the producer, the
heap and the calls that `process` leaves, also when one of the stages throws. -/
theorem process_uninterrupted (hidle : s.thread w = .idle) (e : Exchange) (a : ProcessAnswers) :
    let r := s.producer.process endpoint.remaining e s.heap a s.calls
    ∃ acts s', Runs.run (step endpoint) s acts = some s' ∧ s'.producer = r.producer ∧
      s'.heap = r.heap ∧ s'.calls = r.calls := by
  intro r
  have hcall : s.step endpoint (.call w e) = some (s.goOn w (.atIsOpen e)) := by
    simp only [step, hidle]
  obtain ⟨acts, hacts⟩ := run_openConnection e a.opening
  have hopened := (Runs.run_cons_iff (step endpoint)).mpr ⟨_, hcall, hacts⟩
  have hr : r = s.producer.process endpoint.remaining e s.heap a s.calls := rfl
  unfold MsmqProducer.process at hr
  cases hopening : (s.producer.openConnection endpoint.remaining a.opening s.calls).result with
  | error what =>
      simp only [hopening] at hr
      rw [hr]
      exact ⟨_, _, hopened, rfl, rfl, rfl⟩
  | ok u =>
      simp only [hopening] at hopened hr
      let opened := (s.operated
        (s.producer.openConnection endpoint.remaining a.opening s.calls)).goOn w (.atEncode e)
      have hpc : opened.thread w = .atEncode e := thread_goOn _
      cases hencode : MsmqProducer.encode s.heap e.body with
      | error ex =>
          simp only [hencode] at hr
          have hfails : MsmqProducer.encode opened.heap e.body = .error ex := hencode
          have hstep : opened.step endpoint (.encode w) = some (opened.goOn w .idle) := by
            simp only [step, hpc, hfails]
          rw [hr]
          exact ⟨_, _, (Runs.run_append_iff _).mpr
            ⟨_, hopened, (Runs.run_singleton_iff _).mpr hstep⟩, rfl, rfl, rfl⟩
      | ok enc =>
          simp only [hencode] at hr
          obtain ⟨s', hrun, hproducer, hheap, hcalls⟩ :=
            run_send (s := opened) hpc hencode a.raw a.sending
          rw [hr]
          exact ⟨_, s', (Runs.run_append_iff _).mpr ⟨_, hopened, hrun⟩, hproducer, hheap, hcalls⟩

end Uninterrupted

/-! ## What a step does to the queue -/

/-- The operation of the queue that a step performs, with queue and calls afterwards. -/
inductive Operation (endpoint : MsmqEndpoint) (s : Threads N) :
    ThreadAction N → MsmqQueue → List MqCall → Prop
  | none {act : ThreadAction N} (hopens : ∀ w a, act ≠ .open w a)
      (hstops : ∀ hr, act = .doStop hr → s.producer.queue.isOpen = false) :
      Operation endpoint s act s.producer.queue s.calls
  | opens (w : Fin N) (a : OpenAnswers) :
      Operation endpoint s (.open w a)
        (s.producer.queue.open endpoint.remaining a s.calls).queue
        (s.producer.queue.open endpoint.remaining a s.calls).calls
  | sends (w : Fin N) (raw : MsmqMessage) (hr : Hresult) (message : MqMessage) :
      Operation endpoint s (.send w raw hr)
        (s.producer.queue.sendMessage message hr s.calls).queue
        (s.producer.queue.sendMessage message hr s.calls).calls
  | stops (hr : Hresult) (hopen : s.producer.queue.isOpen = true) :
      Operation endpoint s (.doStop hr) (s.producer.queue.close hr s.calls).queue
        (s.producer.queue.close hr s.calls).calls

variable {endpoint : MsmqEndpoint} {s s' : Threads N} {act : ThreadAction N}

/-- A step of a thread is one operation of the queue object, or none. -/
theorem operation_of_step (h : s.step endpoint act = some s') :
    Operation endpoint s act s'.producer.queue s'.calls := by
  cases act with
  | call w e =>
      simp only [step] at h
      split at h
      · cases h
        exact .none nofun nofun
      · cases h
  | isOpen w =>
      simp only [step] at h
      split at h
      · cases h
        exact .none nofun nofun
      · cases h
  | «open» w a =>
      simp only [step] at h
      split at h
      · cases h
        exact .opens w a
      · cases h
  | encode w =>
      simp only [step] at h
      split at h
      · split at h
        · cases h
          exact .none nofun nofun
        · cases h
          exact .none nofun nofun
      · cases h
  | send w raw hr =>
      simp only [step] at h
      split at h
      · rename_i buffer hpc
        cases h
        cases buffer with
        | none => exact .none nofun nofun
        | some body => exact .sends w raw hr _
      · cases h
  | doStart =>
      cases h
      exact .none nofun nofun
  | doStop hr =>
      simp only [step] at h
      split at h
      · cases h
        show Operation endpoint s (.doStop hr) (s.producer.doStop hr s.calls).queue
          (s.producer.doStop hr s.calls).calls
        unfold MsmqProducer.doStop
        split
        · exact .stops hr ‹_›
        · rename_i hnot
          exact .none nofun fun _ _ => by simpa using hnot
      · cases h

/-! ## One connection -/

/-- Every MSMQ call succeeds, and an opening gives out a handle that is not open. -/
def Succeeding (endpoint : MsmqEndpoint) (s : Threads N) : ThreadAction N → Prop
  | .open _ a => a.destFormatName endpoint.remaining ≠ none ∧ a.opens = true ∧
      stillOpen a.handle s.calls = false
  | .send _ _ hr => failed hr = false
  | .doStop hr => failed hr = false
  | _ => True

/-- At most one handle is open. -/
def OneOpen (s : Threads N) : Prop :=
  ∀ h h', stillOpen h s.calls = true → stillOpen h' s.calls = true → h = h'

/-- No handle is open. -/
def NoneOpen (s : Threads N) : Prop := ∀ h, stillOpen h s.calls = false

/-- No thread opens the queue while it is open. -/
def OpensOnce (s : Threads N) : ThreadAction N → Prop
  | .open _ _ => s.producer.queue.isOpen = false
  | _ => True

/-- The flag tells the truth: the handle of an open queue is the one open handle, and
when the queue is not open there is none. -/
structure Truthful (q : MsmqQueue) (calls : List MqCall) : Prop where
  opened : q.isOpen = true → ∃ h, q.hQueue = some h ∧ ∀ h', stillOpen h' calls = true ↔ h' = h
  notOpened : q.isOpen = false → ∀ h, stillOpen h calls = false

/-- If the flag tells the truth there is one open handle at most. -/
theorem Truthful.oneOpen (ht : Truthful s.producer.queue s.calls) : s.OneOpen := by
  intro h h' hh hh'
  cases hopen : s.producer.queue.isOpen with
  | true =>
      obtain ⟨g, -, hg⟩ := ht.opened hopen
      rw [(hg h).mp hh, (hg h').mp hh']
  | false =>
      rw [ht.notOpened hopen h] at hh
      cases hh

/-- A successful opening of a queue that was not open: there was no open handle, and now there
is the new one. -/
theorem Truthful.open {q : MsmqQueue} {calls : List MqCall} {path : Option (List UInt8)}
    {a : OpenAnswers} (ht : Truthful q calls) (hnot : q.isOpen = false)
    (hname : a.destFormatName path ≠ none) (hopens : a.opens = true) :
    Truthful (q.open path a calls).queue (q.open path a calls).calls := by
  obtain ⟨hnone, -⟩ | ⟨name, cs, -, hcs, -, heq⟩ | ⟨name, cs, -, -, hfails, -⟩ :=
    q.open_cases path a calls
  · exact absurd hnone hname
  · have hok := OpenAnswers.not_failed_of_opens hopens
    rw [heq]
    refine ⟨fun _ => ⟨a.handle, rfl, fun h' => ⟨fun ho => ?_, fun heq => ?_⟩⟩, fun hfalse => ?_⟩
    · rcases stillOpen_of_cons ho with hopened | hold
      · simp only [MqCall.opened?, hok, Bool.false_eq_true, if_false] at hopened
        exact (Option.some.inj hopened).symm
      · rw [stillOpen_append hcs, ht.notOpened hnot] at hold
        cases hold
    · simp [stillOpen, MqCall.opened?, hok, heq]
    · cases hfalse
  · rw [hopens] at hfails
    cases hfails

/-- A send that succeeds. -/
theorem Truthful.sendMessage {q : MsmqQueue} {calls : List MqCall} (ht : Truthful q calls)
    (message : MqMessage) {hr : Hresult} (hok : failed hr = false) :
    Truthful (q.sendMessage message hr calls).queue (q.sendMessage message hr calls).calls := by
  obtain ⟨hqueue, hcalls, -⟩ := q.sendMessage_spec message hr calls
  have hfine : hr ≠ mqErrorStaleHandle := by
    rintro rfl
    rw [failed_staleHandle] at hok
    cases hok
  have hsame : ∀ h, stillOpen h (.sendMessage q.hQueue message hr :: calls) = stillOpen h calls :=
    fun h => stillOpen_cons_of_none rfl rfl
  rw [hqueue, hcalls]
  refine ⟨fun hopen => ?_, fun hnot h => ?_⟩
  · obtain ⟨g, hg, hiff⟩ := ht.opened (Bool.and_eq_true_iff.mp hopen).1
    exact ⟨g, hg, fun h' => by rw [hsame, hiff]⟩
  · rw [hsame]
    exact ht.notOpened (by simpa [hfine] using hnot) h

/-- A `close` of an open queue that succeeds leaves no handle open. -/
theorem Truthful.close {q : MsmqQueue} {calls : List MqCall} (ht : Truthful q calls)
    (hopen : q.isOpen = true) {hr : Hresult} (hok : failed hr = false) :
    (q.close hr calls).queue.isOpen = false ∧
      ∀ h, stillOpen h (q.close hr calls).calls = false := by
  obtain ⟨g, hg, hiff⟩ := ht.opened hopen
  obtain ⟨hnone, -⟩ | ⟨h, hsome, -, heq⟩ | ⟨h, -, hfail, -⟩ := q.close_cases hr calls
  · rw [hnone] at hg
    cases hg
  · obtain rfl : g = h := Option.some.inj (hg.symm.trans hsome)
    rw [heq]
    refine ⟨rfl, fun h' => ?_⟩
    rw [Bool.eq_false_iff]
    intro ho
    have hstill := stillOpen_of_none rfl ho
    rw [(hiff h').mp hstill] at ho
    simp [stillOpen, MqCall.opened?, MqCall.closed?, hok] at ho
  · rw [hok] at hfail
    cases hfail

/-- **One step**, if MSMQ answers with success and no thread opens the queue while it is open.
The flag goes on telling whether there is an open handle, and which one it is. -/
theorem Truthful.step (ht : Truthful s.producer.queue s.calls)
    (h : s.step endpoint act = some s') (hsucceeds : s.Succeeding endpoint act)
    (honce : s.OpensOnce act) : Truthful s'.producer.queue s'.calls := by
  have hoperation := operation_of_step h
  generalize s'.producer.queue = q, s'.calls = calls at hoperation ⊢
  cases hoperation with
  | none hopens hstops => exact ht
  | opens w a => exact ht.open honce hsucceeds.1 hsucceeds.2.1
  | sends w raw hr message => exact ht.sendMessage message hsucceeds
  | stops hr hopen =>
      obtain ⟨hclosed, hnone⟩ := ht.close hopen hsucceeds
      refine ⟨fun hstay => ?_, fun _ => hnone⟩
      rw [hclosed] at hstay
      cases hstay

/-- An opening of an open queue leaves two handles open, the old one and the new one, and so one
step that is not careful is enough to break the statement. -/
theorem Truthful.opensOnce (ht : Truthful s.producer.queue s.calls)
    (h : s.step endpoint act = some s') (hsucceeds : s.Succeeding endpoint act)
    (hone : s'.OneOpen) : s.OpensOnce act := by
  unfold OneOpen at hone
  have hoperation := operation_of_step h
  generalize s'.producer.queue = q, s'.calls = calls at hoperation hone
  cases hoperation with
  | none hopens hstops =>
      cases act with
      | «open» w a => exact absurd rfl (hopens w a)
      | _ => trivial
  | sends w raw hr message => trivial
  | stops hr hopen => trivial
  | opens w a =>
      obtain ⟨hname, hopens, hnew⟩ := hsucceeds
      show s.producer.queue.isOpen = false
      rw [Bool.eq_false_iff]
      intro hopen
      obtain ⟨g, -, hg⟩ := ht.opened hopen
      have hold : stillOpen g s.calls = true := (hg g).mpr rfl
      obtain ⟨hnone, -⟩ | ⟨name, cs, -, hcs, -, heq⟩ | ⟨name, cs, -, -, hfails, -⟩ :=
        s.producer.queue.open_cases endpoint.remaining a s.calls
      · exact absurd hnone hname
      · have hok := OpenAnswers.not_failed_of_opens hopens
        rw [heq] at hone
        have hsame : g = a.handle := by
          apply hone g a.handle
          · simp [stillOpen, MqCall.closed?, stillOpen_append hcs, hold]
          · simp [stillOpen, MqCall.opened?, hok]
        rw [← hsame, hold] at hnew
        cases hnew
      · rw [hopens] at hfails
        cases hfails

/-- After a `doStop` no handle is open: the one that there was is the one that the object has. -/
theorem Truthful.noneOpen_of_stop (ht : Truthful s.producer.queue s.calls) {hr : Hresult}
    (h : s.step endpoint (.doStop hr) = some s') (hsucceeds : failed hr = false) :
    s'.NoneOpen := by
  unfold NoneOpen
  have hoperation := operation_of_step h
  generalize s'.producer.queue = q, s'.calls = calls at hoperation ⊢
  cases hoperation with
  | none hopens hstops => exact ht.notOpened (hstops hr rfl)
  | stops _ hopen => exact (ht.close hopen hsucceeds).2

/-- **One connection.**  If every MSMQ call succeeds, at most one handle is open throughout a
run, and none after each stop, exactly if no thread of the run opens the queue while it is open.
The test of `isOpen` and the opening are two steps, so this depends on the scheduler alone: two
threads that both find the queue not open are enough, and the handle of the first is lost. -/
theorem one_connection_iff {heap : Heap} {acts : List (ThreadAction N)} {finish : Threads N}
    (hrun : Runs.run (step endpoint) (init N endpoint heap) acts = some finish)
    (hsucceeds : Runs.EachStep (step endpoint) (Succeeding endpoint) (init N endpoint heap) acts) :
    (Runs.Throughout (step endpoint) OneOpen (init N endpoint heap) acts ∧
      ∀ done hr s, done ++ [.doStop hr] <+: acts →
        Runs.run (step endpoint) (init N endpoint heap) (done ++ [.doStop hr]) = some s →
        s.NoneOpen) ↔
      Runs.EachStep (step endpoint) OpensOnce (init N endpoint heap) acts := by
  have hstart : Truthful (init N endpoint heap).producer.queue (init N endpoint heap).calls :=
    ⟨fun hopen => (by cases hopen), fun _ _ => rfl⟩
  have hiff := Runs.throughout_iff_eachStep_of (step endpoint)
    (fun s => Truthful s.producer.queue s.calls) (fun _ ht => ht.oneOpen)
    (fun _ _ _ ht h henv honce => ht.step h henv honce)
    (fun _ _ _ ht h henv hone => ht.opensOnce h henv hone) hstart hsucceeds hrun
  refine ⟨fun h => hiff.mp h.1, fun honce => ⟨hiff.mpr honce, ?_⟩⟩
  intro done hr s hpre hdone
  obtain ⟨before, hbefore, hstop⟩ := (Runs.run_append_iff _).mp hdone
  have hboth : Runs.EachStep (step endpoint)
      (fun s act => s.Succeeding endpoint act ∧ s.OpensOnce act) (init N endpoint heap) acts :=
    fun done act s hpre hdone => ⟨hsucceeds done act s hpre hdone, honce done act s hpre hdone⟩
  have htruthful := Runs.throughout_of_eachStep (step endpoint)
    (fun _ _ _ (ht : Truthful _ _) h hcond => ht.step h hcond.1 hcond.2) hstart hboth
  exact (htruthful done before ((List.prefix_append _ _).trans hpre) hbefore).noneOpen_of_stop
    ((Runs.run_singleton_iff _).mp hstop) (hsucceeds done _ before hpre hbefore)

/-- Two threads of which the second tests after the first has opened. -/
theorem one_connection_in_turn :
    let endpoint : MsmqEndpoint := { remaining := some [113] }
    let heap : Heap := ⟨0, fun _ => []⟩
    let e := Exchange.create.setBody (.string [])
    let acts : List (ThreadAction 2) := [.call 0 e, .call 1 e, .isOpen 0, .open 0 (.always 0 1 0),
      .isOpen 1, .encode 0, .encode 1, .send 1 default 0, .send 0 default 0, .doStop 0]
    ∃ s, Runs.run (step endpoint) (init 2 endpoint heap) acts = some s ∧
      Runs.Throughout (step endpoint) OneOpen (init 2 endpoint heap) acts ∧ s.NoneOpen := by
  intro endpoint heap e acts
  have hsucceeds :
      Runs.EachStep (step endpoint) (Succeeding endpoint) (init 2 endpoint heap) acts := by
    iterate 3 refine (Runs.eachStep_cons_iff _ rfl).mpr ⟨trivial, ?_⟩
    refine (Runs.eachStep_cons_iff _ rfl).mpr ⟨⟨by decide, by decide, by decide⟩, ?_⟩
    iterate 3 refine (Runs.eachStep_cons_iff _ rfl).mpr ⟨trivial, ?_⟩
    iterate 3 refine (Runs.eachStep_cons_iff _ rfl).mpr ⟨rfl, ?_⟩
    exact Runs.eachStep_nil _ _
  have honce : Runs.EachStep (step endpoint) OpensOnce (init 2 endpoint heap) acts := by
    iterate 3 refine (Runs.eachStep_cons_iff _ rfl).mpr ⟨trivial, ?_⟩
    refine (Runs.eachStep_cons_iff _ rfl).mpr ⟨rfl, ?_⟩
    iterate 6 refine (Runs.eachStep_cons_iff _ rfl).mpr ⟨trivial, ?_⟩
    exact Runs.eachStep_nil _ _
  obtain ⟨hone, hnone⟩ := (one_connection_iff rfl hsucceeds).mpr honce
  exact ⟨_, rfl, hone, hnone (acts.take 9) 0 _ (List.prefix_refl _) rfl⟩

/-- Both threads test before either opens: two handles are open, and the stop closes only
one of them. -/
theorem two_connections_raced :
    let endpoint : MsmqEndpoint := { remaining := some [113] }
    let heap : Heap := ⟨0, fun _ => []⟩
    let e := Exchange.create.setBody (.string [])
    let acts : List (ThreadAction 2) := [.call 0 e, .call 1 e, .isOpen 0, .isOpen 1,
      .open 0 (.always 0 1 0), .open 1 (.always 0 2 0)]
    let rest : List (ThreadAction 2) :=
      [.encode 0, .encode 1, .send 0 default 0, .send 1 default 0, .doStop 0]
    Runs.EachStep (step endpoint) (Succeeding endpoint) (init 2 endpoint heap) (acts ++ rest) ∧
    ∃ s s', Runs.run (step endpoint) (init 2 endpoint heap) acts = some s ∧ ¬s.OneOpen ∧
      Runs.run (step endpoint) s rest = some s' ∧ ¬s'.NoneOpen := by
  intro endpoint heap e acts rest
  refine ⟨?_, _, _, rfl, fun hone => ?_, rfl, fun hnone => ?_⟩
  · iterate 4 refine (Runs.eachStep_cons_iff _ rfl).mpr ⟨trivial, ?_⟩
    iterate 2
      refine (Runs.eachStep_cons_iff _ rfl).mpr ⟨⟨by decide, by decide, by decide⟩, ?_⟩
    iterate 2 refine (Runs.eachStep_cons_iff _ rfl).mpr ⟨trivial, ?_⟩
    iterate 3 refine (Runs.eachStep_cons_iff _ rfl).mpr ⟨rfl, ?_⟩
    exact Runs.eachStep_nil _ _
  · exact absurd (hone 1 2 rfl rfl) (by decide)
  · exact absurd (hnone 1) (by decide)

end Threads

end Msmq
