import CamelMsmq.Progress
import CamelMsmq.Restart
import CamelMsmq.Transmission

/-!
# The queue can be emptied

No message is stuck as long as `doStop` has not been called and the executor goes on starting
a worker that waits: from every state that the system can reach, whatever producers, other
workers and the application have done, the whole MSMQ queue can still be handed over, unless
it holds a message that fits into none of the sizes that a buffer runs through.

That something can happen is shown by a run in which it does.  Such a run of the consumer alone
is a run of the system as long as it removes nothing (`exists_leads`), and the one receive that
succeeds takes the head of the queue.  `exists_delivered` is one round, and the queue is emptied
by induction on its length.

The other direction needs no run: what has been handed over has fitted, by an invariant of all
reachable states.
-/

namespace Msmq

namespace System

variable {P N : Nat} {sender receiver : MsmqEndpoint} {s s' : System P N} {c : Consumer N}
  {w : Fin N} {m : MqMessage}

/-! ## The consumer in the system -/

/-- What holds of a new consumer, and what its steps and all changes of the heap keep, holds
of the consumer of the system. -/
theorem receiver_invariant (Inv : Consumer N → Prop) (hstart : Inv (.doStart N))
    (hheap : ∀ c heap, Inv c → Inv (c.withHeap heap))
    (hstep : ∀ c act c', c.Sound receiver → Inv c → c.step receiver act = some c' → Inv c')
    (hreach : Runs.Reachable (step sender receiver) (init P N sender) s) : Inv s.receiver := by
  have hboth : s.Sound sender receiver ∧ Inv s.receiver := by
    refine hreach.invariant _ (fun s => s.Sound sender receiver ∧ Inv s.receiver)
      ⟨sound_init, hstart⟩ fun s act s' ⟨hs, hinv⟩ h => ⟨hs.step h, ?_⟩
    cases steps_of_step h with
    | sender hcall hthreads => exact hheap _ _ hinv
    | receiver htake hconsumer => exact hstep _ _ _ hs.receives hinv hconsumer
    | discard hm htime => exact hinv
    | allocate size => exact hheap _ _ hinv
    | write offset bytes hfree => exact hheap _ _ hinv
  exact hboth.2

/-- Runs of the system are runs of its consumer, as far as the pool goes. -/
theorem conserved_of_reachable
    (hreach : Runs.Reachable (step sender receiver) (init P N sender) s) :
    s.receiver.Conserved :=
  receiver_invariant Consumer.Conserved Consumer.conserved_doStart
    (fun _ _ hc => ⟨hc.ledger, hc.wellFormed, hc.inHand⟩) (fun _ _ _ _ hc h => hc.step h) hreach

theorem fitting_of_reachable
    (hreach : Runs.Reachable (step sender receiver) (init P N sender) s) :
    s.receiver.Fitting receiver :=
  receiver_invariant (Consumer.Fitting receiver) Consumer.fitting_doStart
    (fun _ _ hf => ⟨hf.proper, hf.delivered⟩) (fun _ _ _ hs hf h => hf.step hs h) hreach

/-- The system follows a step of the consumer, as long as the MSMQ queue has what the step
takes. -/
theorem exists_step (sender : MsmqEndpoint) {act : Action N} (place : Nat) {queue : List MqMessage}
    (htake : take s.queue place act = some queue) (h : s.receiver.step receiver act = some c) :
    ∃ s', Runs.Reachable (step sender receiver) s s' ∧ s'.receiver = c ∧ s'.queue = queue := by
  have hstep : s.step sender receiver (.receiver act place) = some
      { s with
        sender := { s.sender with heap := c.shared.heap }
        receiver := c
        queue := queue } := by
    simp only [step, htake, h]
  exact ⟨_, Runs.reachable_of_step _ hstep, rfl, rfl⟩

/-- A quiet action leaves the MSMQ queue as it is. -/
theorem take_of_quiet {act : Action N} (hquiet : Consumer.Quiet act) (queue : List MqMessage)
    (place : Nat) : take queue place act = some queue := by
  cases act with
  | task w ans =>
      cases ans with
      | receives a =>
          have hfailed : failed a.hr = true := hquiet
          simp only [take, if_pos hfailed]
      | _ => rfl
  | _ => rfl

/-- The system follows a consumer that goes on by itself, because such a way takes nothing out
of the MSMQ queue. -/
theorem exists_leads (sender : MsmqEndpoint) (h : Consumer.Leads receiver w s.receiver c) :
    ∃ s', Runs.Reachable (step sender receiver) s s' ∧ s'.receiver = c ∧ s'.queue = s.queue := by
  induction h with
  | refl => exact ⟨s, .refl _ s, rfl, rfl⟩
  | tail _ hstep ih =>
      obtain ⟨s₁, hreach, rfl, hqueue⟩ := ih
      obtain ⟨ans, hquiet, hstep⟩ := hstep
      have hquiet : Consumer.Quiet (.task w ans) := hquiet
      have htake := take_of_quiet hquiet s₁.queue 0
      obtain ⟨s', hnext, hreceiver, hsame⟩ := exists_step sender 0 htake hstep
      exact ⟨s', hreach.trans _ hnext, hreceiver, hsame.trans hqueue⟩

/-! ## Message by message -/

/-- MSMQ can answer with the message at the head of its queue. -/
theorem take_head (w : Fin N) (m : MqMessage) (rest : List MqMessage) :
    take (m :: rest) 0 (.task w (.receives ⟨0, m.props, 0, m.body⟩)) = some rest := by
  have hok : failed 0 = false := rfl
  have htransports : Transports m ⟨0, m.props, 0, m.body⟩ := ⟨rfl, rfl, rfl, rfl, rfl, rfl⟩
  simp only [take, hok, Bool.false_eq_true, if_false, List.getElem?_cons_zero, if_pos htransports,
    List.eraseIdx_cons_zero]

/-- **The next message.**  The worker receives the message at the head of the queue, hands it
over, and waits again.  Nothing else is handed over meanwhile, so this can be repeated for the
rest of the queue. -/
theorem exists_delivered (sender : MsmqEndpoint) (hc : s.receiver.Stands receiver w .idle)
    (hremaining : receiver.remaining ≠ none) {rest : List MqMessage}
    (hqueue : s.queue = m :: rest) (hfits : receiver.Fits m.body.length) :
    ∃ s' id d, Runs.Reachable (step sender receiver) s s' ∧
      s'.receiver.Stands receiver w .idle ∧ s'.queue = rest ∧
      s'.receiver.shared.deliveries = (id, d) :: s.receiver.shared.deliveries ∧
      (Parcel.of m).ShownBy d := by
  obtain ⟨c₁, hstart, hbegun, hshared⟩ := hc.start
  obtain ⟨c₂, size, queue, loop, hleads, hc₂, hroom⟩ :=
    hbegun.exists_receiving hremaining hfits
  obtain ⟨c₃, filled, hreceives, hc₃, hfaithful, hkept⟩ := hc₂.receive hroom
  obtain ⟨c₄, hprocess, hc₄, hdelivered⟩ := hc₃.process
  obtain ⟨c₅, hends, hc₅⟩ := hc₄.finish
  obtain ⟨s₁, hone, rfl, hqueue₁⟩ := exists_step sender 0 rfl hstart
  obtain ⟨s₂, htwo, rfl, hqueue₂⟩ := exists_leads sender hleads
  have htake := take_head w m rest
  rw [← hqueue, ← hqueue₁, ← hqueue₂] at htake
  obtain ⟨s₃, hthree, rfl, hqueue₃⟩ := exists_step sender 0 htake hreceives
  obtain ⟨s₄, hfour, rfl, hqueue₄⟩ := exists_step sender 0 (s := s₃) rfl hprocess
  obtain ⟨s₅, hfive, rfl, hqueue₅⟩ := exists_leads sender hends
  refine ⟨s₅, s₃.receiver.runId w, filled.exchange.shown s₃.receiver.shared.heap,
    (((hone.trans _ htwo).trans _ hthree).trans _ hfour).trans _ hfive, hc₅,
    (hqueue₅.trans hqueue₄).trans hqueue₃, ?_, Parcel.shownBy_of_faithful hfaithful⟩
  rw [(hends.deliveries hc₄.sound).2, hdelivered, hkept,
    (hleads.deliveries (hc.sound.step hstart)).2, hshared]

/-- One message after the other.  The induction is on the queue. -/
theorem exists_drained (sender : MsmqEndpoint) (hc : s.receiver.Stands receiver w .idle)
    (hremaining : receiver.remaining ≠ none)
    (hfits : ∀ m ∈ s.queue, receiver.Fits m.body.length) :
    ∃ s' shown, Runs.Reachable (step sender receiver) s s' ∧ s'.queue = [] ∧
      s'.receiver.shared.deliveries = shown ++ s.receiver.shared.deliveries ∧
      Multiset.Rel Parcel.ShownBy (s.queue.map Parcel.of : Multiset Parcel)
        (shown.map (·.2) : Multiset Delivery) := by
  induction hqueue : s.queue generalizing s with
  | nil => exact ⟨s, [], .refl _ s, hqueue, rfl, .zero⟩
  | cons m rest ih =>
      rw [hqueue] at hfits
      obtain ⟨s₁, id, d, hone, hc₁, hqueue₁, hdeliveries, hshown⟩ := exists_delivered
        sender hc hremaining hqueue (hfits m List.mem_cons_self)
      have hfits₁ : ∀ m ∈ s₁.queue, receiver.Fits m.body.length :=
        fun m hm => hfits m (List.mem_cons_of_mem _ (hqueue₁ ▸ hm))
      obtain ⟨s', shown, hmore, hempty, hmore', hrel⟩ := ih hc₁ hfits₁ hqueue₁
      refine ⟨s', shown ++ [(id, d)], hone.trans _ hmore, hempty, ?_, ?_⟩
      · rw [hmore', hdeliveries, List.append_assoc]
        rfl
      · have hperm : ((shown ++ [(id, d)]).map (·.2) : Multiset Delivery) =
            d ::ₘ (shown.map (·.2) : Multiset Delivery) := by
          rw [List.map_append, Multiset.cons_coe, Multiset.coe_eq_coe]
          exact List.perm_append_singleton _ _
        rw [hperm]
        exact .cons hshown hrel

/-- **No message is stuck.**  `doStop` has not been called, and a worker waits that the
executor goes on starting.  Then everything in the MSMQ queue can still be handed over, each
message as it was sent, exactly if every message fits into one of the sizes that a buffer runs
through. -/
theorem can_drain_iff
    (hreach : Runs.Reachable (step sender receiver) (init P N sender) s)
    (hremaining : receiver.remaining ≠ none) (hrunning : s.receiver.phase = .running)
    (hscheduled : (s.receiver.worker w).scheduled = true)
    (hidle : (s.receiver.worker w).pc = .idle) :
    (∃ s' shown, Runs.Reachable (step sender receiver) s s' ∧ s'.queue = [] ∧
        s'.receiver.shared.deliveries = shown ++ s.receiver.shared.deliveries ∧
        Multiset.Rel Parcel.ShownBy (s.queue.map Parcel.of : Multiset Parcel)
          (shown.map (·.2) : Multiset Delivery)) ↔
      ∀ m ∈ s.queue, receiver.Fits m.body.length := by
  constructor
  · rintro ⟨s', shown, hmore, -, hdeliveries, hrel⟩ m hm
    have hparcel : Parcel.of m ∈ (s.queue.map Parcel.of : Multiset Parcel) :=
      Multiset.mem_coe.mpr (List.mem_map_of_mem hm)
    obtain ⟨d, hd, hshown⟩ := Multiset.exists_mem_of_rel_of_mem hrel hparcel
    obtain ⟨entry, hentry, rfl⟩ := List.mem_map.mp (Multiset.mem_coe.mp hd)
    have hfitting := fitting_of_reachable (hreach.trans _ hmore)
    have hlength := hfitting.delivered entry (hdeliveries ▸ List.mem_append_left _ hentry)
    rwa [hshown.content] at hlength
  · exact exists_drained sender
      ⟨(sound_of_reachable hreach).receives, conserved_of_reachable hreach, hrunning, hscheduled,
        hidle⟩ hremaining

/-- Four bytes are in the queue, and the buffer has one byte at first and grows by two. -/
theorem can_drain_iff_grown :
    let sender : MsmqEndpoint := { remaining := some [113] }
    let receiver : MsmqEndpoint :=
      { remaining := some [113], initialBufferSize := 1, incrementBufferSize := 2 }
    ∃ s s' : System 1 1, s.queue.map (·.body) = [[0, 65, 0, 66]] ∧
      Runs.Reachable (step sender receiver) s s' ∧ s'.queue = [] ∧
      s'.receiver.shared.deliveries.length = s.receiver.shared.deliveries.length + 1 := by
  intro sender receiver
  have hrun : (Runs.run (step sender receiver) (init 1 1 sender)
      [.sender (.call 0 (Exchange.create.setBody (.string [65, 66]))), .sender (.isOpen 0),
        .sender (.open 0 (.always 0 1 0)), .sender (.encode 0), .sender (.send 0 default 0)]).map
      (fun s => (s.queue.map (·.body), s.receiver.phase, (s.receiver.worker 0).scheduled,
        (s.receiver.worker 0).pc.isIdle)) = some ([[0, 65, 0, 66]], .running, true, true) := by
    decide
  obtain ⟨s, hs, hseen⟩ := Option.map_eq_some_iff.mp hrun
  simp only [Prod.mk.injEq] at hseen
  obtain ⟨hqueue, hrunning, hscheduled, hisIdle⟩ := hseen
  have hidle : (s.receiver.worker 0).pc = .idle := by
    cases hpc : (s.receiver.worker 0).pc with
    | idle => rfl
    | _ =>
        rw [hpc] at hisIdle
        cases hisIdle
  have hfits : ∀ m ∈ s.queue, receiver.Fits m.body.length := by
    intro m hm
    have hbody := List.mem_map_of_mem (f := (·.body)) hm
    rw [hqueue] at hbody
    rw [List.mem_singleton.mp hbody]
    exact ⟨by decide, 2, by decide, by decide⟩
  obtain ⟨s', shown, hmore, hempty, hdeliveries, hrel⟩ :=
    (can_drain_iff ⟨_, hs⟩ (by simp [receiver]) hrunning hscheduled hidle).mpr hfits
  refine ⟨s, s', hqueue, hmore, hempty, ?_⟩
  have hcard := Multiset.card_eq_card_of_rel hrel
  have hone := congrArg List.length hqueue
  simp only [Multiset.coe_card, List.length_map, List.length_singleton] at hcard hone
  rw [hdeliveries, List.length_append, ← hcard, hone, Nat.add_comm]

end System

end Msmq
