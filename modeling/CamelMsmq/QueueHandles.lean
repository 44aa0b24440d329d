import CamelMsmq.Runs
import CamelMsmq.QueueSpec

/-!
# The handle of one queue object

A queue object is driven by any sequence of `open`, `sendMessage`,
`receiveMessage` and `close`, and MSMQ answers as it likes; whether it may give out
a handle a second time is a parameter.  Two properties of the states reached are
settled:

* the *account*: `isOpen()` says exactly whether the object has a live handle, and
  every other handle it ever had has been closed;
* *giving up*: once MSMQ has reported the handle stale, `isOpen()` is false until
  the queue is opened again.

Neither holds of every run.  Each is characterised by a condition on the single
calls, `KeepsAccount` and `GivesUp`.  The conditions speak of the object before the
call and of the answers to it, so they tell which calls a user of the class has to
avoid, and with which answers nothing that a user avoids will help.

For the account MSMQ must not give out a handle that it has given out before.
Otherwise a handle that was closed and the one in use may be the same number, and the
calls alone do not tell them apart.
-/

namespace Msmq

/-- A call of an operation, with the answers MSMQ gives to it. -/
inductive QueueOp
  | «open» (path : Option (List UInt8)) (a : OpenAnswers)
  | send (message : MqMessage) (hr : Hresult)
  | receive (msg : MsmqMessage) (hr : Hresult)
  | close (hr : Hresult)

/-- A queue object and the MSMQ calls made through it, newest first. -/
structure QueueState where
  queue : MsmqQueue
  calls : List MqCall

namespace QueueState

def init : QueueState := ⟨.new, []⟩

/-- One call of an operation; whether it throws makes no difference here. -/
def step (reuse : Bool) (s : QueueState) : QueueOp → Option QueueState
  | .open path a =>
      let r := s.queue.open path a s.calls
      if reuse || a.fresh s.calls then some ⟨r.queue, r.calls⟩ else none
  | .send message hr =>
      let r := s.queue.sendMessage message hr s.calls
      some ⟨r.queue, r.calls⟩
  | .receive msg hr =>
      let r := s.queue.receiveMessage msg hr s.calls
      some ⟨r.queue, r.calls⟩
  | .close hr =>
      let r := s.queue.close hr s.calls
      some ⟨r.queue, r.calls⟩

variable {reuse : Bool}

/-- What one call does, guards included. -/
theorem step_cases {s s' : QueueState} {op : QueueOp} (h : s.step reuse op = some s') :
    (∃ path a, op = .open path a ∧ a.destFormatName path = none ∧ s' = s) ∨
    (∃ path a name hr cs, op = .open path a ∧ (reuse || a.fresh s.calls) = true ∧
      a.destFormatName path ≠ none ∧ Refusals cs ∧ a.opens = true ∧ failed hr = false ∧
      s' = ⟨⟨some a.handle, true⟩, .openQueue name hr a.handle :: (cs ++ s.calls)⟩) ∨
    (∃ path a cs, op = .open path a ∧ a.destFormatName path ≠ none ∧ Refusals cs ∧
      a.opens = false ∧ s' = ⟨s.queue, .closeQueue s.queue.hQueue a.close :: (cs ++ s.calls)⟩) ∨
    (∃ message hr, op = .send message hr ∧
      s' = ⟨⟨s.queue.hQueue, s.queue.isOpen && hr ≠ mqErrorStaleHandle⟩,
        .sendMessage s.queue.hQueue message hr :: s.calls⟩) ∨
    (∃ msg hr, op = .receive msg hr ∧
      s' = ⟨s.queue, .receiveMessage s.queue.hQueue msg.pElems msg.cElems hr :: s.calls⟩) ∨
    (∃ hr, op = .close hr ∧ s.queue.hQueue = none ∧ s' = ⟨⟨none, false⟩, s.calls⟩) ∨
    (∃ hr h, op = .close hr ∧ s.queue.hQueue = some h ∧
      s' = ⟨⟨some h, s.queue.isOpen && failed hr⟩, .closeQueue (some h) hr :: s.calls⟩) := by
  cases op with
  | «open» path a =>
      simp only [step] at h
      split at h
      · rename_i hfresh
        cases h
        obtain ⟨hnone, hopen⟩ | ⟨name, cs, hname, hcs, hopens, hopen⟩ |
          ⟨name, cs, hname, hcs, hopens, hopen⟩ := s.queue.open_cases path a s.calls
        · exact .inl ⟨path, a, rfl, hnone, by rw [hopen]⟩
        · refine .inr (.inl ⟨path, a, name, (a.attempt a.last).1, cs, rfl, hfresh, ?_, hcs, hopens,
            OpenAnswers.not_failed_of_opens hopens, by rw [hopen]⟩)
          simp [hname]
        · exact .inr (.inr (.inl ⟨path, a, cs, rfl, by simp [hname], hcs, hopens, by rw [hopen]⟩))
      · cases h
  | send message hr =>
      cases h
      obtain ⟨hqueue, hcalls, -⟩ := s.queue.sendMessage_spec message hr s.calls
      exact .inr (.inr (.inr (.inl ⟨message, hr, rfl, by rw [hqueue, hcalls]⟩)))
  | receive msg hr =>
      cases h
      obtain ⟨hqueue, hcalls⟩ := s.queue.receiveMessage_spec msg hr s.calls
      exact .inr (.inr (.inr (.inr (.inl ⟨msg, hr, rfl, by rw [hqueue, hcalls]⟩))))
  | close hr =>
      cases h
      obtain ⟨hnone, hclose⟩ | ⟨h, hsome, hok, hclose⟩ | ⟨h, hsome, hfail, hclose⟩ :=
        s.queue.close_cases hr s.calls
      · refine .inr (.inr (.inr (.inr (.inr (.inl ⟨hr, rfl, hnone, ?_⟩)))))
        rw [hclose, hnone]
      · refine .inr (.inr (.inr (.inr (.inr (.inr ⟨hr, h, rfl, hsome, ?_⟩)))))
        rw [hclose, hok, hsome, Bool.and_false]
      · refine .inr (.inr (.inr (.inr (.inr (.inr ⟨hr, h, rfl, hsome, ?_⟩)))))
        rw [hclose, hfail, Bool.and_true]
        cases hq : s.queue
        rw [hq] at hsome
        rw [← hsome]

/-- MSMQ has given the handle out, and it is neither closed nor reported stale. -/
def Live (s : QueueState) (h : Handle) : Prop :=
  h ∈ obtained s.calls ∧ h ∉ closed s.calls ∧ h ∉ stale s.calls

/-- The account of the handles of one object. -/
def Accounted (s : QueueState) : Prop :=
  (s.queue.isOpen = true ↔ ∃ h, s.queue.hQueue = some h ∧ s.Live h) ∧
  ∀ h ∈ obtained s.calls, s.queue.hQueue ≠ some h → h ∈ closed s.calls

/-- The calls that leave the account in order: the object is not opened while it
has a handle that is not closed, a reopening that fails does not close the handle
of an open object, and a receive on an open object does not find its handle stale. -/
def KeepsAccount (s : QueueState) : QueueOp → Prop
  | .open path a =>
      a.destFormatName path ≠ none →
        if a.opens then ∀ h, s.queue.hQueue = some h → h ∈ closed s.calls
        else failed a.close = false → s.queue.isOpen = false
  | .receive _ hr => hr = mqErrorStaleHandle → s.queue.isOpen = false
  | _ => True

/-- Every handle the object has, or has passed to MSMQ, came from MSMQ.  This holds in every
run, whatever the account. -/
structure Grounded (s : QueueState) : Prop where
  handle : ∀ h, s.queue.hQueue = some h → h ∈ obtained s.calls
  uses : UsesObtained s.calls

theorem grounded_init : Grounded init :=
  ⟨by simp [init, MsmqQueue.new], by simp [init, UsesObtained]⟩

/-- A call is an operation of the object. -/
theorem step_effect {s s' : QueueState} {op : QueueOp} (h : s.step reuse op = some s') :
    MsmqQueue.Effect s.queue s'.queue s.calls s'.calls := by
  cases op with
  | «open» path a =>
      simp only [step] at h
      split at h <;> cases h
      exact MsmqQueue.effect_open _ _ _ _
  | send message hr => cases h; exact MsmqQueue.effect_sendMessage _ _ _ _
  | receive msg hr => cases h; exact MsmqQueue.effect_receiveMessage _ _ _ _
  | close hr => cases h; exact MsmqQueue.effect_close _ _ _

/-- Whatever MSMQ answers, the object passes handles that it has been given. -/
theorem Grounded.step {s s' : QueueState} {op : QueueOp} (hg : s.Grounded)
    (h : s.step reuse op = some s') : s'.Grounded :=
  have heffect := hg.uses.effect hg.handle (step_effect h)
  ⟨heffect.2, heffect.1⟩

/-- A handle that MSMQ gives out anew has not been closed or found stale before. -/
theorem Grounded.new_handle {s : QueueState} (hg : s.Grounded) {a : OpenAnswers}
    (hfresh : a.fresh s.calls = true) (hopens : a.opens = true) :
    a.handle ∉ obtained s.calls ∧ a.handle ∉ closed s.calls ∧ a.handle ∉ stale s.calls := by
  have hnew : a.handle ∉ obtained s.calls := by
    simpa [OpenAnswers.fresh, hopens] using hfresh
  exact ⟨hnew, fun h => hnew (hg.uses.of_closed h), fun h => hnew (hg.uses.of_stale h)⟩

/-! ## The account -/

/-- An object whose handle is not live is not open. -/
theorem Accounted.not_open {s : QueueState} (ha : s.Accounted)
    (hdead : ∀ h, s.queue.hQueue = some h → ¬s.Live h) : s.queue.isOpen = false := by
  cases hopen : s.queue.isOpen with
  | false => rfl
  | true =>
      obtain ⟨h, hsome, hlive⟩ := ha.1.mp hopen
      exact absurd hlive (hdead h hsome)

/-- The account depends on the object, and on which handles were obtained, closed
and found stale. -/
theorem Accounted.same {s s' : QueueState} (ha : s.Accounted) (hqueue : s'.queue = s.queue)
    (hobtained : obtained s'.calls = obtained s.calls) (hclosed : closed s'.calls = closed s.calls)
    (hstale : stale s'.calls = stale s.calls) : s'.Accounted := by
  unfold Accounted Live at ha ⊢
  rw [hqueue, hobtained, hclosed, hstale]
  exact ha

/-- A call that finds or makes the handle unusable leaves the account in order if
the object is not open afterwards. -/
theorem Accounted.given_up {s s' : QueueState} (ha : s.Accounted)
    (hopen : s'.queue.isOpen = false)
    (hdead : ∀ h, s'.queue.hQueue = some h → ¬s'.Live h)
    (hhandle : ∀ h, s'.queue.hQueue ≠ some h → s.queue.hQueue ≠ some h)
    (hobtained : obtained s'.calls = obtained s.calls)
    (hclosed : ∀ h ∈ closed s.calls, h ∈ closed s'.calls) : s'.Accounted := by
  refine ⟨⟨fun h => ?_, fun ⟨h, hsome, hlive⟩ => absurd hlive (hdead h hsome)⟩, ?_⟩
  · rw [hopen] at h
    cases h
  · intro h hh hne
    rw [hobtained] at hh
    exact hclosed h (ha.2 h hh (hhandle h hne))

/-- If the object keeps a handle that is not live, the account is in order exactly when the
object is not open. -/
theorem accounted_dead_iff {s : QueueState} (ha : s.Accounted) {calls : List MqCall}
    (hdead : ∀ h, s.queue.hQueue = some h → ¬Live ⟨s.queue, calls⟩ h)
    (hobtained : obtained calls = obtained s.calls)
    (hclosed : ∀ h ∈ closed s.calls, h ∈ closed calls) :
    Accounted ⟨s.queue, calls⟩ ↔ s.queue.isOpen = false := by
  constructor
  · intro ha'
    exact ha'.not_open hdead
  · intro hopen
    exact ha.given_up hopen hdead (fun _ hne => hne) hobtained hclosed

/-- The account after an opening that MSMQ has refused, and that has tried to close the handle
that the object has. -/
theorem accounted_refused_iff {s : QueueState} (ha : s.Accounted) {cs : List MqCall}
    (hcs : Refusals cs) (hr : Hresult) :
    Accounted ⟨s.queue, .closeQueue s.queue.hQueue hr :: (cs ++ s.calls)⟩ ↔
      (failed hr = false → s.queue.isOpen = false) := by
  have hobtained : obtained (.closeQueue s.queue.hQueue hr :: (cs ++ s.calls)) =
      obtained s.calls := by
    simp [MqCall.opened?, hcs.obtained_append]
  cases hclose : failed hr with
  | true =>
      have hclosed : closed (.closeQueue s.queue.hQueue hr :: (cs ++ s.calls)) =
          closed s.calls := by
        simp [MqCall.closed?, hclose, hcs.closed_append]
      have hstale : stale (.closeQueue s.queue.hQueue hr :: (cs ++ s.calls)) = stale s.calls := by
        simp [MqCall.stale?, hcs.stale_append]
      exact ⟨fun _ hfalse => absurd hfalse (by decide),
        fun _ => ha.same rfl hobtained hclosed hstale⟩
  | false =>
      have hclosed : closed (.closeQueue s.queue.hQueue hr :: (cs ++ s.calls)) =
          s.queue.hQueue.toList ++ closed s.calls := by
        simp [MqCall.closed?, hclose, hcs.closed_append]
      rw [accounted_dead_iff ha ?_ hobtained fun h hh => hclosed ▸ List.mem_append_right _ hh]
      · exact ⟨fun hopen _ => hopen, fun hopen => hopen rfl⟩
      · intro h hsome hlive
        have hnot := hlive.2.1
        rw [hclosed, hsome] at hnot
        simp at hnot

/-- The account of a fresh handle: it is in order exactly when the old handle is
closed. -/
theorem accounted_opened_iff {s : QueueState} (ha : s.Accounted) (hg : s.Grounded) {g : Handle}
    {calls : List MqCall} (hnew : g ∉ obtained s.calls ∧ g ∉ closed s.calls ∧ g ∉ stale s.calls)
    (hobtained : obtained calls = g :: obtained s.calls) (hclosed : closed calls = closed s.calls)
    (hstale : stale calls = stale s.calls) :
    Accounted ⟨⟨some g, true⟩, calls⟩ ↔ ∀ h, s.queue.hQueue = some h → h ∈ closed s.calls := by
  obtain ⟨hnew, hnewc, hnews⟩ := hnew
  constructor
  · intro ha' h hsome
    have hh : h ∈ obtained s.calls := hg.handle h hsome
    have hne : (some g : Option Handle) ≠ some h := by
      intro heq
      exact hnew (Option.some.inj heq ▸ hh)
    have hmem := ha'.2 h (by simp [hobtained, hh]) hne
    rwa [hclosed] at hmem
  · intro hold
    refine ⟨⟨fun _ => ⟨g, rfl, ?_⟩, fun _ => rfl⟩, ?_⟩
    · unfold Live
      rw [hobtained, hclosed, hstale]
      exact ⟨List.mem_cons_self, hnewc, hnews⟩
    · intro h hh hne
      rw [hobtained] at hh
      rw [hclosed]
      rcases List.mem_cons.mp hh with rfl | hh
      · exact absurd rfl hne
      · by_cases hsome : s.queue.hQueue = some h
        · exact hold h hsome
        · exact ha.2 h hh hsome

/-- **One call.**  From an account in order, a call leaves it in order exactly
when it is one of those that `KeepsAccount` describes. -/
theorem accounted_step_iff {s s' : QueueState} {op : QueueOp} (ha : s.Accounted) (hg : s.Grounded)
    (h : s.step false op = some s') : s'.Accounted ↔ s.KeepsAccount op := by
  obtain ⟨path, a, rfl, hname, rfl⟩ |
    ⟨path, a, name, hr, cs, rfl, hfresh, hname, hcs, hopens, hok, rfl⟩ |
    ⟨path, a, cs, rfl, hname, hcs, hopens, rfl⟩ | ⟨message, hr, rfl, rfl⟩ |
    ⟨msg, hr, rfl, rfl⟩ | ⟨hr, rfl, hnone, rfl⟩ | ⟨hr, g, rfl, hsome, rfl⟩ := step_cases h
  · exact ⟨fun _ hpath => absurd hname hpath, fun _ => ha⟩
  · refine (accounted_opened_iff ha hg (hg.new_handle hfresh hopens)
      (by simp [MqCall.opened?, hok, hcs.obtained_append])
      (by simp [MqCall.closed?, hcs.closed_append])
      (by simp [MqCall.stale?, hcs.stale_append])).trans ?_
    simp only [KeepsAccount, hopens, if_true]
    exact ⟨fun hold _ => hold, fun hold => hold hname⟩
  · have hkeeps : s.KeepsAccount (.open path a) ↔
        (failed a.close = false → s.queue.isOpen = false) := by
      simp only [KeepsAccount, hopens, Bool.false_eq_true, if_false]
      exact ⟨fun hold => hold hname, fun hold _ => hold⟩
    rw [hkeeps]
    exact accounted_refused_iff ha hcs a.close
  · refine ⟨fun _ => trivial, fun _ => ?_⟩
    by_cases hstale : hr = mqErrorStaleHandle
    · subst hstale
      refine ha.given_up (by simp) ?_ (fun _ hne => hne) (by simp [MqCall.opened?])
        fun h hh => by simp [MqCall.closed?, hh]
      intro h hsome hlive
      have hsome : s.queue.hQueue = some h := hsome
      exact hlive.2.2 (by simp [MqCall.stale?, hsome])
    · exact ha.same (by simp [hstale]) (by simp [MqCall.opened?]) (by simp [MqCall.closed?])
        (by simp [MqCall.stale?, hstale])
  · by_cases hstale : hr = mqErrorStaleHandle
    · subst hstale
      have hdead : ∀ h, s.queue.hQueue = some h → ¬Live ⟨s.queue,
          .receiveMessage s.queue.hQueue msg.pElems msg.cElems mqErrorStaleHandle ::
            s.calls⟩ h := by
        intro h hsome hlive
        exact hlive.2.2 (by simp [MqCall.stale?, hsome])
      refine (accounted_dead_iff ha hdead (by simp [MqCall.opened?])
        fun h hh => by simp [MqCall.closed?, hh]).trans ?_
      exact ⟨fun hopen _ => hopen, fun hopen => hopen rfl⟩
    · refine ⟨fun _ hfalse => absurd hfalse hstale, fun _ => ?_⟩
      exact ha.same rfl (by simp [MqCall.opened?]) (by simp [MqCall.closed?])
        (by simp [MqCall.stale?, hstale])
  · refine ⟨fun _ => trivial, fun _ => ?_⟩
    refine ha.given_up rfl ?_ ?_ rfl fun _ hh => hh
    · intro h hsome
      cases hsome
    · intro h _ hsome
      rw [hnone] at hsome
      cases hsome
  · refine ⟨fun _ => trivial, fun _ => ?_⟩
    cases hfail : failed hr with
    | true =>
        refine ha.same ?_ (by simp [MqCall.opened?]) (by simp [MqCall.closed?, hfail])
          (by simp [MqCall.stale?])
        rw [← hsome, Bool.and_true]
    | false =>
        refine ha.given_up (by simp) ?_ (fun h hne => hsome ▸ hne) (by simp [MqCall.opened?])
          fun h hh => by simp [MqCall.closed?, hfail, hh]
        intro h hgh hlive
        have hgh : g = h := Option.some.inj hgh
        exact hlive.2.1 (by simp [MqCall.closed?, hfail, hgh])

theorem accounted_init : Accounted init := by
  simp [Accounted, init, MsmqQueue.new, obtained]

/-- **The account of the handles.**  As long as MSMQ gives out no handle a second time, the
account is in order throughout a run exactly when each call of the run keeps it so.  Calls of
three kinds do not: an `open` of an object that still has a handle to close, whether it succeeds
and loses the handle or fails and closes it behind the back of `isOpen()`, and a receive that
finds the handle of an open object stale. -/
theorem accounted_throughout_iff {ops : List QueueOp} {finish : QueueState}
    (hrun : Runs.run (step false) init ops = some finish) :
    Runs.Throughout (step false) Accounted init ops ↔
      Runs.EachStep (step false) KeepsAccount init ops :=
  Runs.throughout_iff_eachStep (step false) (fun s => s.Accounted ∧ s.Grounded)
    (fun _ hs => hs.1)
    (fun _ _ _ hs h hok => ⟨(accounted_step_iff hs.1 hs.2 h).mpr hok, hs.2.step h⟩)
    (fun _ _ _ hs h ha => (accounted_step_iff hs.1 hs.2 h).mp ha)
    ⟨accounted_init, grounded_init⟩ hrun

/-- A send finds the handle stale.  The account stays in order if the handle is closed before
the queue is opened again, and is lost if it is not. -/
theorem accounted_throughout_iff_reopened :
    let stale : List QueueOp :=
      [.open (some [113]) (.always 0 1 0), .send ⟨[65], default⟩ mqErrorStaleHandle]
    let again : List QueueOp :=
      [.open (some [113]) (.always 0 2 0), .send ⟨[65], default⟩ 0, .close 0]
    Runs.Throughout (step false) Accounted init (stale ++ .close 0 :: again) ∧
      ¬Runs.Throughout (step false) Accounted init (stale ++ again) := by
  intro stale again
  refine ⟨(accounted_throughout_iff rfl).mpr ?_, fun hall => ?_⟩
  · have hnew : KeepsAccount init (.open (some [113]) (.always 0 1 0)) := by
      intro _ h hsome
      cases hsome
    refine (Runs.eachStep_cons_iff _ rfl).mpr ⟨hnew, ?_⟩
    iterate 2 refine (Runs.eachStep_cons_iff _ rfl).mpr ⟨trivial, ?_⟩
    refine (Runs.eachStep_cons_iff _ rfl).mpr ⟨?_, ?_⟩
    · intro _ h hsome
      obtain rfl : 1 = h := Option.some.inj hsome
      decide
    · iterate 2 refine (Runs.eachStep_cons_iff _ rfl).mpr ⟨trivial, ?_⟩
      exact Runs.eachStep_nil _ _
  · have hkeeps := (accounted_throughout_iff rfl).mp hall stale _ _
      ((List.prefix_append_right_inj _).mpr (List.prefix_append [again[0]] _)) rfl
    exact absurd (hkeeps (by decide) 1 rfl) (by decide)

/-- An open object is opened again, and MSMQ refuses: `open` closes the handle the
object has and reports an error, but the object still says that it is open. -/
theorem account_lost_by_failed_reopen :
    ∃ finish, Runs.run (step false) init [.open (some [113]) (.always 0 1 0),
        .open (some [113]) (.always 0xC00E000B 0 0)] = some finish ∧
      finish.queue = ⟨some 1, true⟩ ∧ 1 ∈ closed finish.calls ∧ ¬finish.Accounted := by
  refine ⟨⟨⟨some 1, true⟩, _⟩, rfl, rfl, by decide, ?_⟩
  intro ha
  obtain ⟨h, hsome, hlive⟩ := ha.1.mp rfl
  obtain rfl : 1 = h := Option.some.inj hsome
  exact hlive.2.1 (by decide)

/-! ## Giving up a stale handle -/

/-- MSMQ has reported the object's handle stale since it was last opened. -/
def staleSinceOpen : List MqCall → Bool
  | [] => false
  | c :: calls => c.opened?.isNone && (c.stale?.isSome || staleSinceOpen calls)

/-- A stale handle has been given up. -/
def GivenUp (s : QueueState) : Prop :=
  staleSinceOpen s.calls = true → s.queue.isOpen = false

/-- The calls that keep to it: a receive on an open object does not find its
handle stale. -/
def GivesUp (s : QueueState) : QueueOp → Prop
  | .receive _ hr => hr = mqErrorStaleHandle → s.queue.isOpen = false
  | _ => True

/-- Refused attempts to open the queue do not count as opening it. -/
theorem staleSinceOpen_append {cs : List MqCall} (hcs : Refusals cs) (calls : List MqCall) :
    staleSinceOpen (cs ++ calls) = staleSinceOpen calls := by
  refine hcs.induct rfl fun name hr h cs hfail ih => ?_
  simp [staleSinceOpen, MqCall.opened?, MqCall.stale?, hfail, ih]

/-- An open object has a handle. -/
def OpenHasHandle (s : QueueState) : Prop :=
  s.queue.isOpen = true → s.queue.hQueue.isSome = true

/-- The flag is set only together with a handle, and no operation takes a handle away. -/
theorem OpenHasHandle.step {s s' : QueueState} {op : QueueOp} (ho : s.OpenHasHandle)
    (h : s.step reuse op = some s') : s'.OpenHasHandle := by
  unfold OpenHasHandle at ho ⊢
  obtain ⟨path, a, rfl, -, rfl⟩ | ⟨path, a, name, hr, cs, rfl, -, -, -, -, -, rfl⟩ |
    ⟨path, a, cs, rfl, -, -, -, rfl⟩ | ⟨message, hr, rfl, rfl⟩ |
    ⟨msg, hr, rfl, rfl⟩ | ⟨hr, rfl, -, rfl⟩ | ⟨hr, g, rfl, -, rfl⟩ := step_cases h
  · exact ho
  · exact fun _ => rfl
  · exact ho
  · exact fun hopen => ho (Bool.and_eq_true_iff.mp hopen).1
  · exact ho
  · exact fun hopen => hopen
  · exact fun _ => rfl

/-- **One call.**  A call keeps to giving up stale handles exactly when it is one
of those that `GivesUp` describes. -/
theorem givenUp_step_iff {s s' : QueueState} {op : QueueOp} (hup : s.GivenUp)
    (ho : s.OpenHasHandle) (h : s.step reuse op = some s') : s'.GivenUp ↔ s.GivesUp op := by
  unfold GivenUp at hup ⊢
  obtain ⟨path, a, rfl, -, rfl⟩ | ⟨path, a, name, hr, cs, rfl, -, -, -, -, hok, rfl⟩ |
    ⟨path, a, cs, rfl, -, hcs, -, rfl⟩ | ⟨message, hr, rfl, rfl⟩ |
    ⟨msg, hr, rfl, rfl⟩ | ⟨hr, rfl, -, rfl⟩ | ⟨hr, g, rfl, -, rfl⟩ := step_cases h
  · exact ⟨fun _ => trivial, fun _ => hup⟩
  · refine ⟨fun _ => trivial, fun _ hstale => ?_⟩
    simp [staleSinceOpen, MqCall.opened?, hok] at hstale
  · refine ⟨fun _ => trivial, fun _ hstale => hup ?_⟩
    simpa [staleSinceOpen, MqCall.opened?, MqCall.stale?, staleSinceOpen_append hcs] using hstale
  · refine ⟨fun _ => trivial, fun _ hstale => ?_⟩
    by_cases hr' : hr = mqErrorStaleHandle
    · simp [hr']
    · have hold : s.queue.isOpen = false := by
        apply hup
        simpa [staleSinceOpen, MqCall.opened?, MqCall.stale?, hr'] using hstale
      simp [hold]
  · by_cases hr' : hr = mqErrorStaleHandle
    · subst hr'
      cases hopen : s.queue.isOpen with
      | false => exact ⟨fun _ _ => hopen, fun _ _ => rfl⟩
      | true =>
          have hsome := ho hopen
          have hreported : staleSinceOpen (.receiveMessage s.queue.hQueue msg.pElems msg.cElems
              mqErrorStaleHandle :: s.calls) = true := by
            simp [staleSinceOpen, MqCall.opened?, MqCall.stale?, hsome]
          refine ⟨fun hfalse => absurd (hfalse hreported) (by decide), fun hfalse => ?_⟩
          have hclosed := hfalse rfl
          rw [hopen] at hclosed
          cases hclosed
    · refine ⟨fun _ hfalse => absurd hfalse hr', fun _ hstale => hup ?_⟩
      simpa [staleSinceOpen, MqCall.opened?, MqCall.stale?, hr'] using hstale
  · exact ⟨fun _ => trivial, fun _ _ => rfl⟩
  · refine ⟨fun _ => trivial, fun _ hstale => ?_⟩
    have hold : s.queue.isOpen = false := by
      apply hup
      simpa [staleSinceOpen, MqCall.opened?, MqCall.stale?] using hstale
    simp [hold]

/-- **Stale handles of one object.**  They are given up throughout a run exactly when each call
of the run gives them up.  A send does so by itself, so the condition concerns receives only. -/
theorem givenUp_throughout {ops : List QueueOp} {finish : QueueState}
    (hrun : Runs.run (step reuse) init ops = some finish) :
    Runs.Throughout (step reuse) GivenUp init ops ↔
      Runs.EachStep (step reuse) GivesUp init ops :=
  Runs.throughout_iff_eachStep (step reuse) (fun s => s.GivenUp ∧ s.OpenHasHandle)
    (fun _ hs => hs.1)
    (fun _ _ _ hs h hok => ⟨(givenUp_step_iff hs.1 hs.2 h).mpr hok, hs.2.step h⟩)
    (fun _ _ _ hs h ha => (givenUp_step_iff hs.1 hs.2 h).mp ha)
    ⟨fun h => (nomatch h), fun h => (nomatch h)⟩ hrun

end QueueState

end Msmq
