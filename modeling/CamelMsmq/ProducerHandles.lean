import CamelMsmq.Runs
import CamelMsmq.ProducerSpec

/-!
# The handles of a producer

MSMQ reports on a handle that it is closed, or that it is stale; a handle it has
reported on may be given out anew, and the report then no longer counts.  Each
kind of report is to be heeded by certain calls: a closed handle must not be
closed again, and a stale one must not be passed to MSMQ at all.

A producer opens its queue only when it is not open, and sends and closes only
when it is.  So the one call that can fail to heed a report is the `MQCloseQueue`
on the failure exit of `open`, and `heeds_throughout_iff` makes that exact for both
kinds at once: a call is *careful* if it does not fail to open the queue while the
object still has a handle that MSMQ has reported on.

The invariant `Sound` says that no report on the handle of an open queue counts, and
that all calls so far have heeded the reports.  It is needed of the state before a
call only, so that what holds of one call gives what holds of a run.
-/

namespace Msmq

/-- What MSMQ may report about a handle. -/
inductive Report
  | closed
  | stale

namespace Report

/-- The handle a call makes the report about. -/
def made : Report → MqCall → Option Handle
  | closed, c => c.closed?
  | stale, c => c.stale?

/-- The handle a call passes although it must heed the report. -/
def bound : Report → MqCall → Option Handle
  | closed, .closeQueue h _ => h
  | closed, _ => none
  | stale, c => c.uses?

/-- The report was made about `h` since MSMQ last gave `h` out. -/
def holds (k : Report) (h : Handle) : List MqCall → Bool
  | [] => false
  | c :: calls => c.opened? ≠ some h && (k.made c = some h || k.holds h calls)

/-- No call passes a handle that the report is about. -/
def Heeded (k : Report) : List MqCall → Prop
  | [] => True
  | c :: calls => (∀ h, k.bound c = some h → k.holds h calls = false) ∧ k.Heeded calls

variable {k : Report} {cs calls : List MqCall}

/-- Refused attempts to open the queue report nothing and give nothing out. -/
theorem holds_append (hcs : Refusals cs) (h : Handle) :
    k.holds h (cs ++ calls) = k.holds h calls := by
  refine hcs.induct rfl fun name hr g cs hfail ih => ?_
  have hmade : k.made (.openQueue name hr g) = none := by cases k <;> rfl
  simp [holds, MqCall.opened?, hfail, hmade, ih]

/-- Refused attempts to open the queue pass no handle. -/
theorem heeded_append (hcs : Refusals cs) : k.Heeded (cs ++ calls) ↔ k.Heeded calls := by
  refine hcs.induct .rfl fun name hr g cs _ ih => ?_
  have hbound : k.bound (.openQueue name hr g) = none := by cases k <;> rfl
  simp [Heeded, hbound, ih]

/-- The report is heeded, and an open object has a handle it is not about. -/
structure Sound (k : Report) (q : MsmqQueue) (calls : List MqCall) : Prop where
  heeded : k.Heeded calls
  handle : q.isOpen = true → ∃ h, q.hQueue = some h ∧ k.holds h calls = false

/-- An opening heeds the report unless it fails on an object whose handle the
report is about. -/
def CarefulOpening (k : Report) (q : MsmqQueue) (remaining : Option (List UInt8))
    (a : OpenAnswers) (calls : List MqCall) : Prop :=
  q.isOpen = false → a.destFormatName remaining ≠ none → a.opens = false →
    ∀ h, q.hQueue = some h → k.holds h calls = false

/-- **Opening.**  `openConnection` heeds the report exactly when it is careful, and
then its outcome is sound; if it returns, the queue is open. -/
theorem Sound.openConnection {p : MsmqProducer} (hs : k.Sound p.queue calls)
    (remaining : Option (List UInt8)) (a : OpenAnswers) :
    let o := p.openConnection remaining a calls
    (k.Heeded o.calls ↔ k.CarefulOpening p.queue remaining a calls) ∧
    (k.CarefulOpening p.queue remaining a calls → k.Sound o.queue o.calls) ∧
    (o.result = .ok () → o.queue.isOpen = true) := by
  simp only [MsmqProducer.openConnection]
  cases hopen : p.queue.isOpen with
  | true =>
      have hcareful : k.CarefulOpening p.queue remaining a calls := by
        intro hnot
        rw [hopen] at hnot
        cases hnot
      rw [if_pos rfl]
      exact ⟨⟨fun _ => hcareful, fun _ => hs.heeded⟩, fun _ => hs, fun _ => hopen⟩
  | false =>
      rw [if_neg (by decide)]
      obtain ⟨hnone, heq⟩ | ⟨name, cs, -, hcs, hopens, heq⟩ | ⟨name, cs, hname, hcs, hopens, heq⟩ :=
        p.queue.open_cases remaining a calls <;> rw [heq]
      · have hcareful : k.CarefulOpening p.queue remaining a calls :=
          fun _ hpath => absurd hnone hpath
        refine ⟨⟨fun _ => hcareful, fun _ => hs.heeded⟩, fun _ => hs, fun hok => ?_⟩
        cases hok
      · have hcareful : k.CarefulOpening p.queue remaining a calls := by
          intro _ _ hnot
          rw [hopens] at hnot
          cases hnot
        have hok := OpenAnswers.not_failed_of_opens hopens
        have hheeded :
            k.Heeded (.openQueue name (a.attempt a.last).1 a.handle :: (cs ++ calls)) := by
          have hbound : k.bound (.openQueue name (a.attempt a.last).1 a.handle) = none := by
            cases k <;> rfl
          refine ⟨fun h hh => ?_, (heeded_append hcs).mpr hs.heeded⟩
          rw [hbound] at hh
          cases hh
        refine ⟨⟨fun _ => hcareful, fun _ => hheeded⟩, fun _ => ⟨hheeded, fun _ => ?_⟩,
          fun _ => rfl⟩
        exact ⟨a.handle, rfl, by simp [holds, MqCall.opened?, hok]⟩
      · have hbound : k.bound (.closeQueue p.queue.hQueue a.close) = p.queue.hQueue := by
          cases k <;> rfl
        have hiff : k.Heeded (.closeQueue p.queue.hQueue a.close :: (cs ++ calls)) ↔
            k.CarefulOpening p.queue remaining a calls := by
          constructor
          · intro hheeded _ _ _ h hsome
            have hfree := hheeded.1 h (hbound.trans hsome)
            rwa [holds_append hcs] at hfree
          · intro hcareful
            refine ⟨fun h hh => ?_, (heeded_append hcs).mpr hs.heeded⟩
            rw [holds_append hcs]
            exact hcareful hopen (by simp [hname]) hopens h (hbound.symm.trans hh)
        refine ⟨hiff, fun hcareful => ⟨hiff.mpr hcareful, fun hnot => ?_⟩, fun hok => ?_⟩
        · rw [hopen] at hnot
          cases hnot
        · cases hok

/-- A call with the handle of an open object heeds the report.  If it makes the
report, the object must not stay open. -/
theorem Sound.call {q q' : MsmqQueue} {c : MqCall} (hs : k.Sound q calls) (hopen : q.isOpen = true)
    (hopened : c.opened? = none) (huse : c.uses? = q.hQueue) (hhandle : q'.hQueue = q.hQueue)
    (hmade : q'.isOpen = true → k.made c = none) : k.Sound q' (c :: calls) := by
  obtain ⟨h, hsome, hfree⟩ := hs.handle hopen
  have hbound : ∀ g, k.bound c = some g → g = h := by
    intro g hg
    have hgh : c.uses? = some g := by
      cases k with
      | stale => exact hg
      | closed => cases c <;> simp_all [bound, MqCall.uses?]
    rw [huse, hsome] at hgh
    exact (Option.some.inj hgh).symm
  refine ⟨⟨fun g hg => ?_, hs.heeded⟩, fun hstay => ⟨h, hhandle.trans hsome, ?_⟩⟩
  · rw [hbound g hg]
    exact hfree
  · simp [holds, hopened, hmade hstay, hfree]

/-- Sending on an open object. -/
theorem Sound.sendMessage {q : MsmqQueue} (hs : k.Sound q calls) (hopen : q.isOpen = true)
    (message : MqMessage) (hr : Hresult) :
    k.Sound (q.sendMessage message hr calls).queue (q.sendMessage message hr calls).calls := by
  obtain ⟨hqueue, hcalls, -⟩ := q.sendMessage_spec message hr calls
  rw [hqueue, hcalls]
  refine hs.call hopen (by rfl) (by rfl) (by rfl) fun hstay => ?_
  have hfine : hr ≠ mqErrorStaleHandle := by
    simpa using (Bool.and_eq_true_iff.mp hstay).2
  cases k with
  | closed => rfl
  | stale => simp [made, MqCall.stale?, hfine]

/-- Closing an open object. -/
theorem Sound.close {q : MsmqQueue} (hs : k.Sound q calls) (hopen : q.isOpen = true)
    (hr : Hresult) : k.Sound (q.close hr calls).queue (q.close hr calls).calls := by
  obtain ⟨h, hhandle, -⟩ := hs.handle hopen
  obtain ⟨hnone, -⟩ | ⟨g, hsome, -, heq⟩ | ⟨g, hsome, hfail, heq⟩ := q.close_cases hr calls
  · rw [hnone] at hhandle
    cases hhandle
  · rw [heq]
    exact hs.call hopen (by rfl) (by rw [hsome]; rfl) (by rw [hsome]) fun hfalse => nomatch hfalse
  · rw [heq]
    refine hs.call hopen (by rfl) (by rw [hsome]; rfl) (by rfl) fun _ => ?_
    cases k with
    | closed => simp [made, MqCall.closed?, hfail]
    | stale => rfl

end Report

/-- A call of the producer.  The heap is that of the moment of the call. -/
inductive ProducerAction
  | doStart
  | process (e : Exchange) (heap : Heap) (a : ProcessAnswers)
  | doStop (hr : Hresult)

/-- A producer and the MSMQ calls it has made, newest first. -/
structure ProducerState where
  producer : MsmqProducer
  calls : List MqCall

namespace ProducerState

variable (endpoint : MsmqEndpoint) {k : Report}

def init : ProducerState := ⟨.new endpoint, []⟩

/-- One call; whether it throws makes no difference here. -/
def step (s : ProducerState) : ProducerAction → Option ProducerState
  | .doStart => some ⟨s.producer.doStart, s.calls⟩
  | .process e heap a =>
      let r := s.producer.process endpoint.remaining e heap a s.calls
      some ⟨r.producer, r.calls⟩
  | .doStop hr =>
      let r := s.producer.doStop hr s.calls
      some ⟨{ s.producer with queue := r.queue }, r.calls⟩

/-- The report is heeded by the calls made so far. -/
def Heeds (k : Report) (s : ProducerState) : Prop := k.Heeded s.calls

/-- The calls that heed the report: a `process` that finds its queue not open does
not fail to open it while the report is about its handle. -/
def Careful (k : Report) (s : ProducerState) : ProducerAction → Prop
  | .process _ _ a => k.CarefulOpening s.producer.queue endpoint.remaining a.opening s.calls
  | _ => True

/-- What `process` does to the queue: after the opening, at most one send, which
only follows an opening that returned. -/
theorem process_queue (p : MsmqProducer) (remaining : Option (List UInt8)) (e : Exchange)
    (heap : Heap) (a : ProcessAnswers) (calls : List MqCall) :
    let o := p.openConnection remaining a.opening calls
    let r := p.process remaining e heap a calls
    (r.producer.queue = o.queue ∧ r.calls = o.calls) ∨
    (o.result = .ok () ∧ ∃ message,
      r.producer.queue = (o.queue.sendMessage message a.sending o.calls).queue ∧
      r.calls = (o.queue.sendMessage message a.sending o.calls).calls) := by
  intro o r
  have houtcome : p.Outcome remaining e heap a calls r := p.process_outcome ..
  generalize r = r at houtcome
  cases houtcome with
  | notOpened hopening => exact .inl ⟨rfl, rfl⟩
  | notEncoded hopening hencode => exact .inl ⟨rfl, rfl⟩
  | noPayload hopening hencode hbuffer => exact .inl ⟨rfl, rfl⟩
  | sent hopening hencode hbuffer hsent =>
      exact .inr ⟨hopening, _, by rw [← hsent], by rw [← hsent]⟩

/-- The calls made before a send are the calls after it but for that send. -/
theorem heeded_of_sendMessage {q : MsmqQueue} {message : MqMessage} {hr : Hresult}
    {calls : List MqCall} (hheeded : k.Heeded (q.sendMessage message hr calls).calls) :
    k.Heeded calls := by
  rw [(q.sendMessage_spec message hr calls).2.1] at hheeded
  exact hheeded.2

/-- **One call.**  From a sound state, a call heeds the report exactly when it is
careful, and then the state stays sound. -/
theorem sound_step {s s' : ProducerState} {act : ProducerAction}
    (hs : k.Sound s.producer.queue s.calls) (h : s.step endpoint act = some s') :
    (s'.Heeds k ↔ s.Careful endpoint k act) ∧
    (s.Careful endpoint k act → k.Sound s'.producer.queue s'.calls) := by
  cases act with
  | doStart =>
      cases h
      exact ⟨⟨fun _ => trivial, fun _ => hs.heeded⟩, fun _ => hs⟩
  | process e heap a =>
      cases h
      obtain ⟨hiff, hsound, hopen⟩ := hs.openConnection endpoint.remaining a.opening
      unfold Heeds Careful
      obtain ⟨hqueue, hcalls⟩ | ⟨hok, message, hqueue, hcalls⟩ :=
        process_queue s.producer endpoint.remaining e heap a s.calls
      · simp only [hqueue, hcalls]
        exact ⟨hiff, hsound⟩
      · simp only [hqueue, hcalls]
        have hsend := fun hcareful => (hsound hcareful).sendMessage (hopen hok) message a.sending
        exact ⟨⟨fun hheeded => hiff.mp (heeded_of_sendMessage hheeded),
          fun hcareful => (hsend hcareful).heeded⟩, hsend⟩
  | doStop hr =>
      cases h
      have hsound : k.Sound (s.producer.doStop hr s.calls).queue
          (s.producer.doStop hr s.calls).calls := by
        unfold MsmqProducer.doStop
        split
        · rename_i hopen
          exact hs.close hopen hr
        · exact hs
      exact ⟨⟨fun _ => trivial, fun _ => hsound.heeded⟩, fun _ => hsound⟩

/-- Every run is possible: a call may throw, but it can always be made. -/
theorem run_total (s : ProducerState) (acts : List ProducerAction) :
    ∃ finish, Runs.run (step endpoint) s acts = some finish := by
  induction acts generalizing s with
  | nil => exact ⟨s, rfl⟩
  | cons act rest ih =>
      have hstep : ∃ next, s.step endpoint act = some next := by
        cases act <;> exact ⟨_, rfl⟩
      obtain ⟨next, hnext⟩ := hstep
      obtain ⟨finish, hrest⟩ := ih next
      exact ⟨finish, (Runs.run_cons_iff _).mpr ⟨next, hnext, hrest⟩⟩

/-- **Reports heeded by a producer.**  A report is heeded throughout a run exactly when each
call of the run is careful.  Both kinds of reports have the same condition, because a producer
does not touch a handle while its queue is not open, except on the failure exit of `open`. -/
theorem heeds_throughout_iff (acts : List ProducerAction) :
    Runs.Throughout (step endpoint) (Heeds k) (init endpoint) acts ↔
      Runs.EachStep (step endpoint) (Careful endpoint k) (init endpoint) acts := by
  obtain ⟨finish, hrun⟩ := run_total endpoint (init endpoint) acts
  exact Runs.throughout_iff_eachStep (step endpoint)
    (fun s => k.Sound s.producer.queue s.calls)
    (fun _ hs => hs.heeded)
    (fun _ _ _ hs h hok => (sound_step endpoint hs h).2 hok)
    (fun _ _ _ hs h hheeds => (sound_step endpoint hs h).1.mp hheeds)
    ⟨trivial, fun hopen => nomatch hopen⟩ hrun

/-- **Closing once.**  No handle is closed twice throughout a run exactly when no `process` of
the run fails to open the queue while the queue's handle is closed.  The handle is kept by the
object after a `close`, and the failure exit of `open` closes whatever handle there is.  So a
producer that is stopped and started again closes its old handle a second time as soon as the
queue is not to be had. -/
theorem closes_once_throughout_iff (acts : List ProducerAction) :
    Runs.Throughout (step endpoint) (Heeds .closed) (init endpoint) acts ↔
      Runs.EachStep (step endpoint) (Careful endpoint .closed) (init endpoint) acts :=
  heeds_throughout_iff endpoint acts

/-- The producer sends, is stopped, and fails to open the queue again: the failure
exit closes the handle that the stop has closed. -/
theorem closed_again_after_restart :
    let endpoint : MsmqEndpoint := { remaining := some [113] }
    let e := Exchange.create.setBody (.string [])
    let heap : Heap := ⟨0, fun _ => []⟩
    ∃ finish, Runs.run (step endpoint) (init endpoint)
        [.process e heap ⟨.always 0 1 0, default, 0⟩, .doStop 0, .doStart,
          .process e heap ⟨.always 0xC00E000B 0 0, default, 0⟩] = some finish ∧
      ¬finish.Heeds .closed := by
  refine ⟨_, rfl, ?_⟩
  intro hheeds
  exact absurd (hheeds.1 1 rfl) (by decide)

end ProducerState

end Msmq
