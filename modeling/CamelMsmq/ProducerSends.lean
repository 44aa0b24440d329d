import CamelMsmq.ProducerHandles

/-!
# On which handles a producer sends

A producer opens its queue only when it is not open, and it sends and closes only
when it is.  So the flag `m_isOpen` alone vouches for the handle of a send.  It does
so rightly: while it is set, the object has the handle that MSMQ gave out last, and
MSMQ has neither closed that handle nor found it stale.

`keeps_step` is the rule that the proofs share.  An invariant of queue object and
history is kept by every call of a producer, whichever way it ends, if an opening
keeps it while the queue is not open, and a send and a close while it is.  The two
invariants to which it is applied are `Vouched`, which is about the handle, and
`ReopenedSince`, which is about what has happened since the queue was lost.
-/

namespace Msmq

/-- Each send of the history meets `P`, of the handle it passes and of the calls made
before it. -/
def EachSend (P : Option Handle → List MqCall → Prop) : List MqCall → Prop
  | [] => True
  | .sendMessage h _ _ :: calls => P h calls ∧ EachSend P calls
  | _ :: calls => EachSend P calls

/-- The handle that MSMQ gave out last, and that it has neither closed nor found
stale. -/
def Live (h : Option Handle) (calls : List MqCall) : Prop :=
  ∃ g, h = some g ∧ (obtained calls).head? = some g ∧ g ∉ closed calls ∧ g ∉ stale calls

section History

variable {P : Option Handle → List MqCall → Prop} {cs calls : List MqCall}

/-- Refused attempts to open the queue send nothing. -/
theorem eachSend_append (hcs : Refusals cs) : EachSend P (cs ++ calls) ↔ EachSend P calls :=
  hcs.induct .rfl fun _ _ _ _ _ ih => ih

/-- A handle that MSMQ gives out for the first time is live. -/
theorem live_of_opened {name : List UInt16} {hr : Hresult} {g : Handle}
    (hu : UsesObtained calls) (hok : failed hr = false) (hnew : g ∉ obtained calls) :
    Live (some g) (.openQueue name hr g :: calls) := by
  refine ⟨g, rfl, by simp [MqCall.opened?, hok], ?_, ?_⟩
  · intro hclosed
    have hold : g ∈ closed calls := by simpa [MqCall.closed?] using hclosed
    exact hnew (hu.of_closed hold)
  · intro hstale
    have hold : g ∈ stale calls := by simpa [MqCall.stale?] using hstale
    exact hnew (hu.of_stale hold)

/-- A call that neither opens nor closes nor finds a handle stale leaves live what is. -/
theorem Live.cons {h : Option Handle} {c : MqCall} (hl : Live h calls) (hopened : c.opened? = none)
    (hclosed : c.closed? = none) (hstale : c.stale? = none) : Live h (c :: calls) := by
  obtain ⟨g, hg, hlast, hnotClosed, hnotStale⟩ := hl
  exact ⟨g, hg, by simpa [hopened] using hlast, by simpa [hclosed] using hnotClosed,
    by simpa [hstale] using hnotStale⟩

end History

namespace ProducerState

variable (endpoint : MsmqEndpoint)

/-- **Rule for producers.**  What an opening keeps while the queue is not open, and a
send and a close while it is, is kept by every call of a producer. -/
theorem keeps_step {Inv : MsmqQueue → List MqCall → Prop}
    (hopening : ∀ q calls a, Inv q calls → q.isOpen = false →
      Inv (q.open endpoint.remaining a calls).queue (q.open endpoint.remaining a calls).calls)
    (hsending : ∀ q calls message hr, Inv q calls → q.isOpen = true →
      Inv (q.sendMessage message hr calls).queue (q.sendMessage message hr calls).calls)
    (hclosing : ∀ q calls hr, Inv q calls → q.isOpen = true →
      Inv (q.close hr calls).queue (q.close hr calls).calls)
    {s s' : ProducerState} {act : ProducerAction} (hs : Inv s.producer.queue s.calls)
    (h : s.step endpoint act = some s') : Inv s'.producer.queue s'.calls := by
  cases act with
  | doStart =>
      cases h
      exact hs
  | process e heap a =>
      cases h
      have hopened : Inv (s.producer.openConnection endpoint.remaining a.opening s.calls).queue
          (s.producer.openConnection endpoint.remaining a.opening s.calls).calls := by
        unfold MsmqProducer.openConnection
        split
        · exact hs
        · rename_i hopen
          exact hopening _ _ _ hs (by simpa using hopen)
      obtain ⟨hqueue, hcalls⟩ | ⟨hok, message, hqueue, hcalls⟩ :=
        process_queue s.producer endpoint.remaining e heap a s.calls
      · simp only [hqueue, hcalls]
        exact hopened
      · simp only [hqueue, hcalls]
        exact hsending _ _ _ _ hopened ((MsmqProducer.isOpen_openConnection _ _ _ _).mpr hok)
  | doStop hr =>
      cases h
      show Inv (s.producer.doStop hr s.calls).queue (s.producer.doStop hr s.calls).calls
      unfold MsmqProducer.doStop
      split
      · rename_i hopen
        exact hclosing _ _ _ hs hopen
      · exact hs

/-- The invariant for the handle of an open queue: it is the one given out last, and it lives.
The last part needs that no handle is given out twice, the other two do not. -/
structure Vouched (q : MsmqQueue) (calls : List MqCall) : Prop where
  uses : UsesObtained calls
  handle : ∀ h, q.hQueue = some h → h ∈ obtained calls
  live : (obtained calls).Nodup →
    EachSend Live calls ∧ (q.isOpen = true → Live q.hQueue calls)

section Vouched

variable {q : MsmqQueue} {calls : List MqCall}

/-- An opening of a queue that is not open: if it returns, the new handle is the last one given
out and live; if it throws, the object stays not open. -/
theorem Vouched.open (hv : Vouched q calls) (hnot : q.isOpen = false)
    (path : Option (List UInt8)) (a : OpenAnswers) :
    Vouched (q.open path a calls).queue (q.open path a calls).calls := by
  obtain ⟨huses, hhandle⟩ := hv.uses.effect hv.handle (q.effect_open path a calls)
  refine ⟨huses, hhandle, ?_⟩
  obtain ⟨-, heq⟩ | ⟨name, cs, -, hcs, hopens, heq⟩ | ⟨name, cs, -, hcs, -, heq⟩ :=
    q.open_cases path a calls <;> rw [heq] at huses ⊢ <;> intro hdistinct
  · exact hv.live hdistinct
  · have hok := OpenAnswers.not_failed_of_opens hopens
    have hobtained : obtained (.openQueue name (a.attempt a.last).1 a.handle :: (cs ++ calls)) =
        a.handle :: obtained calls := by
      simp [MqCall.opened?, hok, hcs.obtained_append]
    obtain ⟨hnew, hdistinct⟩ := List.nodup_cons.mp (hobtained ▸ hdistinct)
    have huses' : UsesObtained (cs ++ calls) := by
      intro c hc h huse
      rw [hcs.obtained_append]
      rcases List.mem_append.mp hc with hc | hc
      · obtain ⟨name, hr, g, rfl, -⟩ := hcs c hc
        cases huse
      · exact hv.uses c hc h huse
    refine ⟨(eachSend_append hcs).mpr (hv.live hdistinct).1, fun _ => ?_⟩
    exact live_of_opened huses' hok (by rwa [hcs.obtained_append])
  · have hobtained : obtained (.closeQueue q.hQueue a.close :: (cs ++ calls)) =
        obtained calls := by
      simp [MqCall.opened?, hcs.obtained_append]
    rw [hobtained] at hdistinct
    refine ⟨(eachSend_append hcs).mpr (hv.live hdistinct).1, fun hopen => ?_⟩
    rw [hnot] at hopen
    cases hopen

/-- A send that finds the handle stale clears the flag, so nothing is left to vouch for. -/
theorem Vouched.sendMessage (hv : Vouched q calls) (hopen : q.isOpen = true) (message : MqMessage)
    (hr : Hresult) :
    Vouched (q.sendMessage message hr calls).queue (q.sendMessage message hr calls).calls := by
  obtain ⟨huses, hhandle⟩ := hv.uses.effect hv.handle (q.effect_sendMessage message hr calls)
  refine ⟨huses, hhandle, ?_⟩
  obtain ⟨hqueue, hcalls, -⟩ := q.sendMessage_spec message hr calls
  rw [hqueue, hcalls]
  intro hdistinct
  obtain ⟨hsends, hlive⟩ := hv.live hdistinct
  refine ⟨⟨hlive hopen, hsends⟩, fun hstay => (hlive hopen).cons rfl rfl ?_⟩
  have hfine : hr ≠ mqErrorStaleHandle := by
    simpa using (Bool.and_eq_true_iff.mp hstay).2
  exact if_neg hfine

theorem Vouched.close (hv : Vouched q calls) (hr : Hresult) :
    Vouched (q.close hr calls).queue (q.close hr calls).calls := by
  obtain ⟨huses, hhandle⟩ := hv.uses.effect hv.handle (q.effect_close hr calls)
  refine ⟨huses, hhandle, ?_⟩
  obtain ⟨-, heq⟩ | ⟨h, -, -, heq⟩ | ⟨h, hsome, hfail, heq⟩ := q.close_cases hr calls <;>
    rw [heq] <;> intro hdistinct
  · refine ⟨(hv.live hdistinct).1, fun hopen => ?_⟩
    cases hopen
  · refine ⟨(hv.live hdistinct).1, fun hopen => ?_⟩
    cases hopen
  · obtain ⟨hsends, hlive⟩ := hv.live hdistinct
    exact ⟨hsends, fun hopen => (hlive hopen).cons rfl (if_pos hfail) rfl⟩

end Vouched

/-- The flag vouches for the handle in every reachable state: each of the three operations keeps
the invariant where the producer performs it. -/
theorem vouched_of_reachable {s : ProducerState}
    (hreach : Runs.Reachable (step endpoint) (init endpoint) s) :
    Vouched s.producer.queue s.calls := by
  refine hreach.invariant _ (fun s => Vouched s.producer.queue s.calls) ?_ ?_
  · refine ⟨?_, ?_, fun _ => ⟨trivial, ?_⟩⟩
    · intro c hc
      cases hc
    · intro h hh
      cases hh
    · intro hopen
      cases hopen
  · intro s act s' hs h
    exact keeps_step endpoint  (fun _ _ a hv hnot => hv.open hnot _ a)
      (fun _ _ message hr hv hopen => hv.sendMessage hopen message hr)
      (fun _ _ hr hv _ => hv.close hr) hs h

/-! ## After the queue was lost -/

/-- The call loses the queue: its opening fails, its send finds the handle stale, or it
stops the producer. -/
def Loses (s : ProducerState) : ProducerAction → Prop
  | .doStart => False
  | .process e heap a =>
      let o := s.producer.openConnection endpoint.remaining a.opening s.calls
      o.result ≠ .ok () ∨ ∃ h message,
        (s.producer.process endpoint.remaining e heap a s.calls).calls =
          .sendMessage h message mqErrorStaleHandle :: o.calls
  | .doStop hr => (s.producer.doStop hr s.calls).result = .ok ()

/-- After such a call the queue is not open, so the next send comes after an opening. -/
theorem isOpen_of_loses {s s' : ProducerState} {act : ProducerAction}
    (h : s.step endpoint act = some s') (hloses : s.Loses endpoint act) :
    s'.producer.queue.isOpen = false := by
  cases act with
  | doStart => cases hloses
  | process e heap a =>
      cases h
      have hiff := s.producer.isOpen_openConnection endpoint.remaining a.opening s.calls
      obtain ⟨hqueue, hcalls⟩ | ⟨hok, message, hqueue, hcalls⟩ :=
        process_queue s.producer endpoint.remaining e heap a s.calls
      · rcases hloses with hfails | ⟨h, message, hsent⟩
        · simp only [hqueue]
          exact Bool.eq_false_iff.mpr fun hopen => hfails (hiff.mp hopen)
        · rw [hcalls] at hsent
          exact absurd hsent.symm (List.cons_ne_self _ _)
      · obtain ⟨hsendQueue, hsendCalls, -⟩ :=
          (s.producer.openConnection endpoint.remaining a.opening s.calls).queue.sendMessage_spec
            message a.sending
            (s.producer.openConnection endpoint.remaining a.opening s.calls).calls
        rcases hloses with hfails | ⟨h, message', hsent⟩
        · exact absurd hok hfails
        · rw [hcalls, hsendCalls] at hsent
          have hstale : a.sending = mqErrorStaleHandle := by
            injection hsent with hcall
            injection hcall
          simp only [hqueue]
          rw [hsendQueue, hstale]
          simp
  | doStop hr =>
      cases h
      show (s.producer.doStop hr s.calls).queue.isOpen = false
      have hok : (s.producer.doStop hr s.calls).result = .ok () := hloses
      unfold MsmqProducer.doStop at hok ⊢
      split at hok
      · rename_i hopen
        rw [if_pos hopen]
        obtain ⟨-, heq⟩ | ⟨h, -, -, heq⟩ | ⟨h, -, -, heq⟩ :=
          s.producer.queue.close_cases hr s.calls <;> rw [heq] at hok ⊢
        cases hok
      · rename_i hnot
        rw [if_neg hnot]
        simpa using hnot

/-- The calls made since `base`: an open queue has been opened among them, and before
each send there has been an opening. -/
def ReopenedSince (base : List MqCall) (q : MsmqQueue) (calls : List MqCall) : Prop :=
  ∃ news, calls = news ++ base ∧ (q.isOpen = true → obtained news ≠ []) ∧
    EachSend (fun _ older => obtained older ≠ []) news

section ReopenedSince

variable {q : MsmqQueue} {base calls : List MqCall}

/-- An opening that returns is the one that the sends to come need. -/
theorem ReopenedSince.open (hr : ReopenedSince base q calls) (hnot : q.isOpen = false)
    (path : Option (List UInt8)) (a : OpenAnswers) :
    ReopenedSince base (q.open path a calls).queue (q.open path a calls).calls := by
  obtain ⟨news, rfl, hopen, hsends⟩ := hr
  obtain ⟨-, heq⟩ | ⟨name, cs, -, hcs, hopens, heq⟩ | ⟨name, cs, -, hcs, -, heq⟩ :=
    q.open_cases path a (news ++ base) <;> rw [heq]
  · exact ⟨news, rfl, hopen, hsends⟩
  · have hok := OpenAnswers.not_failed_of_opens hopens
    exact ⟨.openQueue name (a.attempt a.last).1 a.handle :: (cs ++ news), by simp,
      fun _ => by simp [MqCall.opened?, hok], (eachSend_append hcs).mpr hsends⟩
  · refine ⟨.closeQueue q.hQueue a.close :: (cs ++ news), by simp, fun hstay => ?_,
      (eachSend_append hcs).mpr hsends⟩
    rw [hnot] at hstay
    cases hstay

theorem ReopenedSince.sendMessage (hr : ReopenedSince base q calls) (hopen : q.isOpen = true)
    (message : MqMessage) (answer : Hresult) :
    ReopenedSince base (q.sendMessage message answer calls).queue
      (q.sendMessage message answer calls).calls := by
  obtain ⟨news, rfl, hopened, hsends⟩ := hr
  obtain ⟨-, hcalls, -⟩ := q.sendMessage_spec message answer (news ++ base)
  rw [hcalls]
  exact ⟨.sendMessage q.hQueue message answer :: news, rfl, fun _ => hopened hopen,
    hopened hopen, hsends⟩

theorem ReopenedSince.close (hr : ReopenedSince base q calls) (hopen : q.isOpen = true)
    (answer : Hresult) :
    ReopenedSince base (q.close answer calls).queue (q.close answer calls).calls := by
  obtain ⟨news, rfl, hopened, hsends⟩ := hr
  obtain ⟨-, heq⟩ | ⟨h, -, -, heq⟩ | ⟨h, -, -, heq⟩ := q.close_cases answer (news ++ base) <;>
    rw [heq]
  · exact ⟨news, rfl, fun _ => hopened hopen, hsends⟩
  · exact ⟨.closeQueue (some h) answer :: news, rfl, fun _ => hopened hopen, hsends⟩
  · exact ⟨.closeQueue (some h) answer :: news, rfl, fun _ => hopened hopen, hsends⟩

end ReopenedSince

/-- After a call that lost the queue no send is made before the next successful
opening. -/
theorem reopened_of_loses {s s₁ s₂ : ProducerState} {act : ProducerAction}
    {acts : List ProducerAction} (hloses : s.Loses endpoint act)
    (h : s.step endpoint act = some s₁) (hrun : Runs.run (step endpoint) s₁ acts = some s₂) :
    ReopenedSince s₁.calls s₂.producer.queue s₂.calls := by
  have hkeep : ∀ (s : ProducerState) act s', ReopenedSince s₁.calls s.producer.queue s.calls →
      s.step endpoint act = some s' → ReopenedSince s₁.calls s'.producer.queue s'.calls := by
    intro s act s' hs hstep
    exact keeps_step endpoint
      (fun _ _ a hr hnot => hr.open hnot _ a)
      (fun _ _ message answer hr hopen => hr.sendMessage hopen message answer)
      (fun _ _ answer hr hopen => hr.close hopen answer) hs hstep
  refine Runs.run_invariant (step endpoint) hkeep ?_ hrun
  refine ⟨[], rfl, fun hopen => ?_, trivial⟩
  rw [isOpen_of_loses endpoint h hloses] at hopen
  cases hopen

/-- **The producer never sends on a dead handle.**  If MSMQ gives out no handle twice,
each send of a run passes the handle given out last, which has been neither closed
nor found stale; and after a call that lost the queue, each send comes after a new
successful opening. -/
theorem sends_on_live_handles {s : ProducerState}
    (hreach : Runs.Reachable (step endpoint) (init endpoint) s)
    (hdistinct : (obtained s.calls).Nodup) :
    EachSend Live s.calls ∧
    ∀ act s₁ acts s₂, s.Loses endpoint act → s.step endpoint act = some s₁ →
      Runs.run (step endpoint) s₁ acts = some s₂ →
      ∃ news, s₂.calls = news ++ s₁.calls ∧
        EachSend (fun _ older => obtained older ≠ []) news := by
  refine ⟨((vouched_of_reachable endpoint hreach).live hdistinct).1, ?_⟩
  intro act s₁ acts s₂ hloses h hrun
  obtain ⟨news, hcalls, -, hsends⟩ := reopened_of_loses endpoint hloses h hrun
  exact ⟨news, hcalls, hsends⟩

/-- A send finds the handle stale, and the next `process` opens the queue anew. -/
theorem sends_on_live_handles_after_stale :
    let endpoint : MsmqEndpoint := { remaining := some [113] }
    let e := Exchange.create.setBody (.string [])
    let heap : Heap := ⟨0, fun _ => []⟩
    let acts : List ProducerAction :=
      [.process e heap ⟨.always 0 1 0, default, 0⟩,
        .process e heap ⟨.always 0 2 0, default, mqErrorStaleHandle⟩,
        .process e heap ⟨.always 0 2 0, default, 0⟩]
    ∃ s, Runs.run (step endpoint) (init endpoint) acts = some s ∧
      (enqueued s.calls).length = 2 ∧ EachSend Live s.calls := by
  intro endpoint e heap acts
  refine ⟨_, rfl, by decide, ?_⟩
  exact (sends_on_live_handles endpoint ⟨acts, rfl⟩ (by decide)).1

end ProducerState

end Msmq
