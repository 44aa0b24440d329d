import CamelMsmq.OrderedChannel
import CamelMsmq.Transmission

/-!
# The order of deliveries

MSMQ hands out the message of the highest priority, and among those of one priority the one that
arrived first.  A producer gives all its messages one priority, so they leave the queue in the
order in which they came.  Between its receive and the call of the processor a worker may be
overtaken by the others, but each of them has one message in its hands at most.

The invariant `InOrder` keeps what is under way in one list, in the order of the sends: first what
the workers hold, then the MSMQ queue.  A receive moves the boundary between the two parts, a
hand-over takes a message out of the first part, and MSMQ discards one out of the second.  So the
system is simulated by a channel of width `N` (`accepts_ordered`).

`bounded_overtaking` says what that means for the deliveries: they keep the order of the messages
that MSMQ has not discarded, but for fewer than `N` that each of them may overtake.
`one_worker_in_order` is the case of one worker and no time to live.
-/

namespace Msmq

namespace Consumer

variable {N : Nat} {c c' : Consumer N} {held : List (Fin N × MqMessage)} {w : Fin N}
  {m : MqMessage}

/-- What the workers have in their hands, in the order in which they have received it, which is
the order of the sends. -/
structure Holds (c : Consumer N) (held : List (Fin N × MqMessage)) : Prop where
  nodup : (held.map (·.1)).Nodup
  inHands : ∀ w m, (w, m) ∈ held → c.inHands w = {m}
  complete : ∀ w, c.inHands w ≠ 0 → ∃ m, (w, m) ∈ held

theorem Holds.congr (hh : c.Holds held) (hsame : c'.inHands = c.inHands) : c'.Holds held := by
  refine ⟨hh.nodup, fun w m hm => ?_, fun w hw => ?_⟩
  · rw [hsame]
    exact hh.inHands w m hm
  · rw [hsame] at hw
    exact hh.complete w hw

theorem Holds.empty (hnone : ∀ w, c.inHands w = 0) : c.Holds [] :=
  ⟨List.nodup_nil, fun _ _ hm => absurd hm List.not_mem_nil, fun w hw => absurd (hnone w) hw⟩

/-- A worker with empty hands is none of those that hold something. -/
theorem Holds.not_mem (hh : c.Holds held) (hbefore : c.inHands w = 0) :
    w ∉ held.map (·.1) := by
  intro hw
  obtain ⟨⟨v, m⟩, hm, rfl⟩ := List.mem_map.mp hw
  rw [hh.inHands v m hm] at hbefore
  exact Multiset.singleton_ne_zero m hbefore

/-- A worker has **received** a message: it comes last, since what the workers held before was
sent before it. -/
theorem Holds.receives (hh : c.Holds held) (hbefore : c.inHands w = 0)
    (hafter : c'.inHands = Function.update c.inHands w {m}) : c'.Holds (held ++ [(w, m)]) := by
  have hw := hh.not_mem hbefore
  refine ⟨?_, fun v m' hm' => ?_, fun v hv => ?_⟩
  · rw [List.map_append, List.nodup_append]
    refine ⟨hh.nodup, List.nodup_singleton w, fun v hv x hx heq => ?_⟩
    obtain rfl : x = w := List.mem_singleton.mp hx
    exact hw (heq ▸ hv)
  · rw [hafter]
    rcases List.mem_append.mp hm' with hold | hnew
    · have hne : v ≠ w := fun heq => hw (List.mem_map.mpr ⟨(v, m'), hold, heq⟩)
      rw [Function.update_of_ne hne]
      exact hh.inHands v m' hold
    · obtain ⟨rfl, rfl⟩ := Prod.mk.inj (List.mem_singleton.mp hnew)
      exact Function.update_self ..
  · by_cases hvw : v = w
    · exact ⟨m, List.mem_append_right _ (List.mem_singleton.mpr (hvw ▸ rfl))⟩
    · rw [hafter, Function.update_of_ne hvw] at hv
      obtain ⟨m', hm'⟩ := hh.complete v hv
      exact ⟨m', List.mem_append_left _ hm'⟩

/-- A worker has **handed over** its message, which stood anywhere among those that are held;
the others keep their order. -/
theorem Holds.processes (hh : c.Holds held) (hbefore : c.inHands w = {m})
    (hafter : c'.inHands = Function.update c.inHands w 0) :
    ∃ ahead behind, held = ahead ++ (w, m) :: behind ∧ c'.Holds (ahead ++ behind) := by
  obtain ⟨m', hm'⟩ := hh.complete w (by rw [hbefore]; exact Multiset.singleton_ne_zero m)
  obtain rfl : m' = m := by
    have hsame := hh.inHands w m' hm'
    rw [hbefore] at hsame
    exact (Multiset.singleton_inj.mp hsame).symm
  obtain ⟨ahead, behind, rfl⟩ := List.append_of_mem hm'
  refine ⟨ahead, behind, rfl, ?_⟩
  have hperm : (ahead ++ (w, m') :: behind).Perm ((w, m') :: (ahead ++ behind)) :=
    List.perm_middle
  obtain ⟨hw, hnodup⟩ := List.nodup_cons.mp ((hperm.map _).nodup_iff.mp hh.nodup)
  have hne : ∀ v m, (v, m) ∈ ahead ++ behind → v ≠ w := fun v m hm heq =>
    hw (List.mem_map.mpr ⟨(v, m), hm, heq⟩)
  refine ⟨hnodup, fun v m hm => ?_, fun v hv => ?_⟩
  · rw [hafter, Function.update_of_ne (hne v m hm)]
    exact hh.inHands v m (hperm.mem_iff.mpr (List.mem_cons_of_mem _ hm))
  · have hvw : v ≠ w := by
      rintro rfl
      rw [hafter, Function.update_self] at hv
      exact hv rfl
    rw [hafter, Function.update_of_ne hvw] at hv
    obtain ⟨m, hm⟩ := hh.complete v hv
    refine ⟨m, (List.mem_cons.mp (hperm.mem_iff.mp hm)).resolve_left fun heq => ?_⟩
    exact hvw (congrArg Prod.fst heq)

/-- Ahead of a message in the hands of a worker are fewer than there are workers. -/
theorem Holds.length_lt {ahead behind : List (Fin N × MqMessage)}
    (hh : c.Holds (ahead ++ (w, m) :: behind)) : ahead.length < N := by
  have hle := hh.nodup.length_le_card
  rw [Fintype.card_fin, List.length_map, List.length_append, List.length_cons] at hle
  omega

end Consumer

namespace System

variable {P N : Nat} {sender receiver : MsmqEndpoint} {s s' : System P N}
  {undelivered : List Parcel}

/-- The place of the message that a step removes from the queue and answers with. -/
def receivedFrom? : SystemAction P N → Option Nat
  | .receiver (.task _ (.receives a)) place => if failed a.hr then none else some place
  | _ => none

/-- MSMQ hands out a message of the highest priority, the first of them. -/
def InTurn (s : System P N) (act : SystemAction P N) : Prop :=
  ∀ place ∈ receivedFrom? act, ∀ m ∈ s.queue[place]?,
    (∀ m' ∈ s.queue, m'.props.priority ≤ m.props.priority) ∧
    ∀ m' ∈ s.queue.take place, m'.props.priority < m.props.priority

instance (s : System P N) (act : SystemAction P N) : Decidable (s.InTurn act) :=
  inferInstanceAs (Decidable (∀ place ∈ receivedFrom? act, ∀ m ∈ s.queue[place]?, _ ∧ _))

/-- What has been sent and not been handed over, in the order of the sends: first what the workers
hold, then the MSMQ queue. -/
structure InOrder (sender receiver : MsmqEndpoint) (s : System P N) (undelivered : List Parcel) :
    Prop where
  sound : s.Sound sender receiver
  held : ∃ held : List (Fin N × MqMessage), s.receiver.Holds held ∧
    undelivered = held.map (fun x => .of x.2) ++ s.queue.map .of
  priority : ∀ m ∈ s.queue, m.props.priority = (UInt32.ofInt sender.priority.toInt).toUInt8

/-- At first nothing is under way. -/
theorem inOrder_init : (init P N sender).InOrder sender receiver [] :=
  ⟨sound_init, ⟨[], .empty fun _ => rfl, rfl⟩, fun _ hm => absurd hm List.not_mem_nil⟩

/-- A producer gives its messages the priority of its endpoint. -/
theorem Sound.priority_sent (hs : s.Sound sender receiver) {act : ThreadAction P} {m : MqMessage}
    (hsent : s.sender.sent? act = some m) :
    m.props.priority = (UInt32.ofInt sender.priority.toInt).toUInt8 := by
  obtain ⟨p, b, raw, hr, -, -, -, rfl⟩ := Threads.sent?_eq_some hsent
  rw [(s.sender.producer.props_message raw b s.sender.heap).1, hs.configured.priority]

/-- Messages of one priority leave the queue from its front, since they leave it in the order of
their arrival. -/
theorem InOrder.place_eq_zero (ho : s.InOrder sender receiver undelivered) {w : Fin N}
    {a : ReceiveAnswer} {place : Nat} (hturn : s.InTurn (.receiver (.task w (.receives a)) place))
    (hhr : failed a.hr = false) {m : MqMessage} (hm : s.queue[place]? = some m) : place = 0 := by
  have hplace : receivedFrom? (.receiver (.task w (.receives a)) place : SystemAction P N) =
      some place := if_neg (by simp [hhr])
  obtain ⟨-, hbefore⟩ := hturn place hplace m hm
  have hmem := List.mem_of_getElem? hm
  by_contra hne
  obtain ⟨first, rest, hqueue⟩ := List.exists_cons_of_ne_nil (List.ne_nil_of_mem hmem)
  have hfirst : first ∈ s.queue.take place := by
    obtain ⟨n, rfl⟩ := Nat.exists_eq_succ_of_ne_zero hne
    rw [hqueue, List.take_succ_cons]
    exact List.mem_cons_self
  have hlt := hbefore first hfirst
  rw [ho.priority m hmem, ho.priority first (List.mem_of_mem_take hfirst)] at hlt
  exact absurd hlt (UInt8.lt_irrefl _)

/-- Neither a hand nor the queue changes, and so the order is what it was. -/
theorem InOrder.quiet (ho : s.InOrder sender receiver undelivered)
    (hs : s'.Sound sender receiver) (hhands : s'.receiver.inHands = s.receiver.inHands)
    (hqueue : s'.queue = s.queue) : s'.InOrder sender receiver undelivered := by
  obtain ⟨held, hheld, hundelivered⟩ := ho.held
  refine ⟨hs, ⟨held, hheld.congr hhands, ?_⟩, ?_⟩
  · rw [hqueue]
    exact hundelivered
  · rw [hqueue]
    exact ho.priority

/-- What the component is for, with `N` workers: a channel of width `N`. -/
abbrev OrderedSpec (sender : MsmqEndpoint) (N : Nat) :
    List Parcel → Channel.Label Parcel Delivery → List Parcel → Prop :=
  OrderedChannel.Step Parcel.ShownBy (fun _ => sender.timeToLive ≠ -1) N

/-- A step is silent and leaves the order, or is one of the channel. -/
def Follows (sender receiver : MsmqEndpoint) (undelivered : List Parcel)
    (label : Option (Channel.Label Parcel Delivery)) (s' : System P N) : Prop :=
  (label = none ∧ s'.InOrder sender receiver undelivered) ∨
    ∃ l undelivered', label = some l ∧ OrderedSpec sender N undelivered l undelivered' ∧
      s'.InOrder sender receiver undelivered'

/-- **A step of the threads** puts a message behind the others. -/
theorem InOrder.step_sender (ho : s.InOrder sender receiver undelivered) {act : ThreadAction P}
    {t : Threads P} (hs : (System.mk t (s.receiver.withHeap t.heap)
      (s.queue ++ (s.sender.sent? act).toList) (s.promise act)).Sound sender receiver) :
    Follows sender receiver undelivered (s.label sender (.sender act))
      ⟨t, s.receiver.withHeap t.heap, s.queue ++ (s.sender.sent? act).toList, s.promise act⟩ := by
  rw [ho.sound.label_sender act]
  cases hsent : s.sender.sent? act with
  | none =>
      rw [hsent] at hs
      exact .inl ⟨rfl, ho.quiet hs rfl (List.append_nil _)⟩
  | some m =>
      rw [hsent] at hs
      obtain ⟨held, hheld, rfl⟩ := ho.held
      refine .inr ⟨_, _, rfl, .send _ _, hs, ⟨held, hheld.congr rfl, ?_⟩, fun m' hm' => ?_⟩
      · rw [Option.toList_some, List.map_append, ← List.append_assoc]
        rfl
      · rcases List.mem_append.mp hm' with hold | hnew
        · exact ho.priority m' hold
        · obtain rfl : m' = m := List.mem_singleton.mp hnew
          exact ho.sound.priority_sent hsent

/-- **A step of the consumer** takes the first message of the queue, or hands one over. -/
theorem InOrder.step_receiver (ho : s.InOrder sender receiver undelivered) {act : Action N}
    {place : Nat} {queue : List MqMessage} {c : Consumer N}
    (hturn : s.InTurn (.receiver act place)) (htake : take s.queue place act = some queue)
    (hstep : s.receiver.step receiver act = some c) :
    let s' : System P N :=
      { s with sender := { s.sender with heap := c.shared.heap }, receiver := c, queue := queue }
    s'.Sound sender receiver →
      Follows sender receiver undelivered (s.label sender (.receiver act place)) s' := by
  intro s' hs
  cases ho.sound.receives.hands hstep with
  | quiet hquiet hsame hdeliveries =>
      have hqueue := take_eq_of_quiet hquiet htake
      rw [label_of_quiet hquiet]
      exact .inl ⟨rfl, ho.quiet hs hsame hqueue⟩
  | receives w a hhr hbefore hafter hdeliveries =>
      obtain ⟨m, hm, htransports, rfl⟩ := take_receives hhr htake
      obtain rfl := ho.place_eq_zero hturn hhr hm
      obtain ⟨held, hheld, rfl⟩ := ho.held
      have hqueue : s.queue = m :: s.queue.eraseIdx 0 := by
        cases hq : s.queue with
        | nil => simp [hq] at hm
        | cons first rest =>
            rw [hq] at hm
            rw [Option.some.inj hm]
            rfl
      refine .inl ⟨rfl, hs, ⟨_, hheld.receives hbefore hafter, ?_⟩, fun m' hm' =>
        ho.priority m' (List.mem_of_mem_eraseIdx hm')⟩
      rw [List.map_append, List.append_assoc, hqueue, List.map_cons]
      show _ = _ ++ (Parcel.of ⟨a.bytes, a.props⟩ :: (s.queue.eraseIdx 0).map .of)
      rw [Parcel.of_transports htransports]
  | processes w m hpc hfaithful hbefore hafter hdeliveries =>
      have hqueue : s'.queue = s.queue := (Option.some.inj htake).symm
      obtain ⟨held, hheld, rfl⟩ := ho.held
      obtain ⟨ahead, behind, rfl, hheld'⟩ := hheld.processes hbefore hafter
      rw [label_processes hpc]
      have hwidth := hheld.length_lt
      refine .inr ⟨_, _, rfl, ?_, hs, ⟨_, hheld', rfl⟩, ?_⟩
      · rw [hqueue, List.map_append, List.map_append, List.map_cons, List.append_assoc,
          List.append_assoc, List.cons_append]
        exact .deliver _ _ (by rwa [List.length_map]) (Parcel.shownBy_of_faithful hfaithful)
      · rw [hqueue]
        exact ho.priority

/-- **One action.**  What the invariant keeps in order follows the label of the action as the
channel of width `N` does, or stays as it is if nothing is to be seen. -/
theorem InOrder.step (ho : s.InOrder sender receiver undelivered) {act : SystemAction P N}
    (h : s.step sender receiver act = some s') (hturn : s.InTurn act) :
    Follows sender receiver undelivered (s.label sender act) s' := by
  have hs := ho.sound.step h
  cases steps_of_step h with
  | sender hcall hstep => exact ho.step_sender hs
  | receiver htake hstep => exact ho.step_receiver hturn htake hstep hs
  | @discard place m hm htime =>
      have hlabel : s.label sender (.discard place) = some (.drop (.of m)) := by
        simp only [label, hm, Option.map_some]
      obtain ⟨held, hheld, rfl⟩ := ho.held
      obtain ⟨hlt, rfl⟩ := List.getElem?_eq_some_iff.mp hm
      have hqueue : s.queue = s.queue.take place ++ s.queue[place] :: s.queue.drop (place + 1) := by
        rw [← List.drop_eq_getElem_cons hlt, List.take_append_drop]
      have hrest : s.queue.eraseIdx place = s.queue.take place ++ s.queue.drop (place + 1) :=
        List.eraseIdx_eq_take_drop_succ ..
      rw [hlabel]
      refine .inr ⟨_, held.map (fun x => .of x.2) ++ (s.queue.eraseIdx place).map .of, rfl, ?_, hs,
        ⟨held, hheld, rfl⟩, fun m' hm' => ho.priority m' (List.mem_of_mem_eraseIdx hm')⟩
      have hdrop : OrderedSpec sender N _ (.drop (.of s.queue[place])) _ := .drop
        (held.map (fun x => Parcel.of x.2) ++ (s.queue.take place).map Parcel.of)
        ((s.queue.drop (place + 1)).map Parcel.of)
        (ho.sound.timeToLive_ne (List.getElem_mem hlt) htime)
      rw [List.append_assoc, List.append_assoc, ← List.map_cons, ← List.map_append,
        ← List.map_append, ← hqueue, ← hrest] at hdrop
      exact hdrop
  | allocate size => exact .inl ⟨rfl, ho.quiet hs rfl rfl⟩
  | write offset bytes hfree => exact .inl ⟨rfl, ho.quiet hs rfl rfl⟩

/-- The trace shows the messages of the successful calls of `MQSendMessage`, in their order. -/
theorem sent_history {acts : List (SystemAction P N)}
    (hrun : Runs.run (step sender receiver) (init P N sender) acts = some s) :
    (Runs.trace (step sender receiver) (label sender) (init P N sender) acts).filterMap
      Channel.Label.sent? = (enqueued s.sender.calls).reverse.map Parcel.of := by
  rw [← List.reverse_reverse (List.filterMap _ _), ← enqueued_history hrun, ← List.map_reverse]

section Order

variable {acts : List (SystemAction P N)}
  (hrun : Runs.run (step sender receiver) (init P N sender) acts = some s)
  (hturn : Runs.EachStep (step sender receiver) InTurn (init P N sender) acts)

include hrun hturn

/-- **The system is a channel of width `N`**, if MSMQ hands out messages in their turn.  The
channel has in transit, in order, what the invariant lists: the messages in the hands of the
workers first, and behind them the MSMQ queue.  Up to `N` parcels at the head can come out next,
one for each worker. -/
theorem accepts_ordered :
    ∃ undelivered, Runs.Accepts (OrderedSpec sender N) []
        (Runs.trace (step sender receiver) (label sender) (init P N sender) acts) undelivered ∧
      s.InOrder sender receiver undelivered :=
  Runs.accepts_trace_of_simulation (fun _ _ _ _ ho h hturn => ho.step h hturn) inOrder_init hturn
    hrun

/-- **Bounded overtaking.**  MSMQ hands out messages by priority and arrival, and may discard
some.  Those that it has not discarded, in the order in which they were sent, are `kept`; the
multisets say that with the discarded ones they are all that has been enqueued.  Each delivery
shows another message of `kept`, the `k`-th of them one of the first `k + N`, and has overtaken
fewer than `N` messages that were sent before it.  One worker keeps the order. -/
theorem bounded_overtaking :
    ∃ kept : List MqMessage, kept.Sublist (enqueued s.sender.calls).reverse ∧
      (kept.map Parcel.of : Multiset Parcel) + Channel.dropped
          (Runs.trace (step sender receiver) (label sender) (init P N sender) acts) =
        ((enqueued s.sender.calls).map Parcel.of : Multiset Parcel) ∧
      ∃ place : ℕ → ℕ, place.Injective ∧
        ∀ k d, (s.receiver.shared.deliveries.map (·.2)).reverse[k]? = some d →
          place k < k + N ∧ (OrderedChannel.overtaken place k).card < N ∧
          (N = 1 → place k = k) ∧
          ∃ m, kept[place k]? = some m ∧ (Parcel.of m).ShownBy d := by
  obtain ⟨undelivered, haccepts, -⟩ := accepts_ordered hrun hturn
  obtain ⟨parcels, hsublist, hsum, place, hinjective, hplace⟩ :=
    OrderedChannel.exists_place haccepts
  rw [List.nil_append, sent_history hrun] at hsublist
  obtain ⟨kept, hkept, rfl⟩ := List.sublist_map_iff.mp hsublist
  refine ⟨kept, hkept, ?_, place, hinjective, fun k d hd => ?_⟩
  · rw [hsum, enqueued_eq_trace hrun]
    exact zero_add _
  · rw [deliveries_history hrun, List.reverse_reverse] at hd
    have hbefore := (List.getElem?_eq_some_iff.mp hd).1
    have hbound : ∀ j ≤ k, place j < j + N := fun j hj =>
      (hplace j _ (List.getElem?_eq_getElem (Nat.lt_of_le_of_lt hj hbefore))).1
    obtain ⟨hlt, parcel, hparcel, hshown⟩ := hplace k d hd
    rw [List.getElem?_map] at hparcel
    obtain ⟨m, hm, rfl⟩ := Option.map_eq_some_iff.mp hparcel
    refine ⟨hlt, OrderedChannel.card_overtaken_lt hinjective hbound, ?_, m, hm, hshown⟩
    rintro rfl
    exact OrderedChannel.place_eq_self hinjective k fun j hj => Nat.le_of_lt_succ (hbound j hj)

end Order

/-- Of three messages MSMQ discards the first.  Two workers receive the others, and the second
worker hands its message over before the first one does. -/
theorem bounded_overtaking_discarded :
    ∃ (s : System 1 2) (kept : List MqMessage) (place : ℕ → ℕ),
      (enqueued s.sender.calls).length = 3 ∧ kept.length = 2 ∧
      s.receiver.shared.deliveries.length = 2 ∧
      place 0 < 2 ∧ (OrderedChannel.overtaken place 0).card < 2 ∧
      ∃ m, kept[place 0]? = some m ∧ m.body = [0, 66] := by
  let endpoint : MsmqEndpoint := { remaining := some [113], timeToLive := 5 }
  let call (c : UInt16) : List (SystemAction 1 2) :=
    [.sender (.call 0 (Exchange.create.setBody (.string [c]))), .sender (.isOpen 0)]
  let send : List (SystemAction 1 2) := [.sender (.encode 0), .sender (.send 0 default 0)]
  let receive (w : Fin 2) (c : UInt8) : List (SystemAction 1 2) :=
    [.receiver (.task w (.created none)) 0, .receiver (.task w .go) 0, .receiver (.task w .go) 0,
      .receiver (.task w (.opens (.always 0 1 0))) 0, .receiver (.task w (.allocates default)) 0,
      .receiver (.task w (.receives ⟨0, { (default : MessageProps) with
        bodyType := vtArrayUi1, priority := 3, timeToBeReceived := 5 }, 0, [0, c]⟩)) 0]
  let acts : List (SystemAction 1 2) :=
    call 64 ++ [.sender (.open 0 (.always 0 1 0))] ++ send ++ call 65 ++ send ++ call 66 ++ send ++
      [.discard 0, .receiver (.start 0) 0, .receiver (.start 1) 0] ++ receive 0 65 ++
      receive 1 66 ++ [.receiver (.task 1 (.processes none .create [])) 0,
        .receiver (.task 0 (.processes none .create [])) 0]
  have hrun : (Runs.run (step endpoint endpoint) (init 1 2 endpoint) acts).map
      (fun s => ((enqueued s.sender.calls).length,
        (s.receiver.shared.deliveries.map (·.2)).reverse.map (·.content))) =
      some (3, [[0, 66], [0, 65]]) := by
    decide +kernel
  have hdropped : (Channel.dropped (Runs.trace (step endpoint endpoint) (label endpoint)
      (init 1 2 endpoint) acts)).card = 1 := by decide +kernel
  obtain ⟨s, hs, hshows⟩ := Option.map_eq_some_iff.mp hrun
  obtain ⟨hsent, hcontents⟩ := Prod.mk.inj hshows
  have hturn : Runs.EachStep (step endpoint endpoint) InTurn (init 1 2 endpoint) acts :=
    (Runs.decideEachStep_iff _ _ hs).mp (by decide +kernel)
  obtain ⟨kept, -, hsum, place, -, hplace⟩ := bounded_overtaking hs hturn
  have hcard := congrArg Multiset.card hsum
  rw [Multiset.card_add, hdropped, Multiset.coe_card, Multiset.coe_card, List.length_map,
    List.length_map, hsent] at hcard
  have hlength : s.receiver.shared.deliveries.length = 2 := by
    have hboth := congrArg List.length hcontents
    rwa [List.length_map, List.length_reverse, List.length_map] at hboth
  obtain ⟨d, others, hdeliveries, hcontent, -⟩ := List.map_eq_cons_iff.mp hcontents
  obtain ⟨hlt, hovertaken, -, m, hm, hshown⟩ := hplace 0 d (by rw [hdeliveries]; rfl)
  exact ⟨s, kept, place, hsent, by omega, hlength, hlt, hovertaken, m, hm,
    hshown.content.symm.trans hcontent⟩

/-- **One worker keeps the order.**  Without a time to live its `k`-th delivery shows the `k`-th
message that has been sent, so the processor sees the messages in the order in which the threads
of the producer have sent them, and misses none. -/
theorem one_worker_in_order {s : System P 1} {acts : List (SystemAction P 1)}
    (hforever : sender.timeToLive = -1)
    (hrun : Runs.run (step sender receiver) (init P 1 sender) acts = some s)
    (hturn : Runs.EachStep (step sender receiver) InTurn (init P 1 sender) acts) {k : ℕ}
    {d : Delivery} (hd : (s.receiver.shared.deliveries.map (·.2)).reverse[k]? = some d) :
    ∃ m, (enqueued s.sender.calls).reverse[k]? = some m ∧ (Parcel.of m).ShownBy d := by
  obtain ⟨undelivered, haccepts, -⟩ := accepts_ordered hrun hturn
  have hdropped := Channel.dropped_eq_zero (refines.accepts_trace sound_init hrun)
    fun _ hne => hne hforever
  obtain ⟨kept, hsublist, hsum, hkept⟩ := OrderedChannel.first_in_first_out haccepts
  -- nothing is missing from what is kept
  rw [hdropped, add_zero] at hsum
  obtain rfl := hsublist.eq_of_length (congrArg Multiset.card hsum)
  rw [deliveries_history hrun, List.reverse_reverse] at hd
  obtain ⟨parcel, hparcel, hshown⟩ := hkept k d hd
  rw [sent_history hrun, List.getElem?_map] at hparcel
  obtain ⟨m, hm, rfl⟩ := Option.map_eq_some_iff.mp hparcel
  exact ⟨m, hm, hshown⟩

end System

end Msmq
