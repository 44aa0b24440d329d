import Mathlib.Algebra.Order.Group.Multiset
import CamelMsmq.Simulation

/-!
# Channels without order

A channel takes messages in and hands deliveries out.  Between the two a message is in
transit.  Each delivery uses up one message in transit, one that it *carries* over; in
which order is not said.  A message that is *perishable* may be dropped.

The state of a channel is the multiset of the messages in transit, and its steps are
labelled with what can be seen from outside.  So a channel says of a system only how the
labels of a run fit together, and nothing about how the system keeps its messages.

`conservation` is the law of every trace: what has been sent is in transit, has been
dropped, or has been delivered, and each of them once.  If no message is perishable,
nothing is dropped, and then the messages that have left are matched one to one with
the deliveries.
-/

namespace Channel

variable {μ δ : Type*}

/-- What a channel shows. -/
inductive Label (μ δ : Type*)
  | send (m : μ)
  | deliver (d : δ)
  | drop (m : μ)

namespace Label

def sent? : Label μ δ → Option μ
  | send m => some m
  | _ => none

def delivered? : Label μ δ → Option δ
  | deliver d => some d
  | _ => none

def dropped? : Label μ δ → Option μ
  | drop m => some m
  | _ => none

end Label

/-- The messages a trace has sent. -/
def sent (trace : List (Label μ δ)) : Multiset μ := trace.filterMap Label.sent?

/-- Its deliveries. -/
def delivered (trace : List (Label μ δ)) : Multiset δ := trace.filterMap Label.delivered?

/-- The messages it has dropped. -/
def dropped (trace : List (Label μ δ)) : Multiset μ := trace.filterMap Label.dropped?

@[simp] theorem sent_send (m : μ) (rest : List (Label μ δ)) :
    sent (.send m :: rest) = m ::ₘ sent rest := rfl

@[simp] theorem delivered_deliver (d : δ) (rest : List (Label μ δ)) :
    delivered (.deliver d :: rest) = d ::ₘ delivered rest := rfl

@[simp] theorem dropped_drop (m : μ) (rest : List (Label μ δ)) :
    dropped (.drop m :: rest) = m ::ₘ dropped rest := rfl

/-- One step of a channel, whose state is what is in transit.  Any message in transit may be the
next to be delivered. -/
inductive Step (carries : μ → δ → Prop) (perishable : μ → Prop) :
    Multiset μ → Label μ δ → Multiset μ → Prop
  | send (m : μ) (t : Multiset μ) : Step carries perishable t (.send m) (m ::ₘ t)
  | deliver {m : μ} {d : δ} (t : Multiset μ) (h : carries m d) :
      Step carries perishable (m ::ₘ t) (.deliver d) t
  | drop {m : μ} (t : Multiset μ) (h : perishable m) :
      Step carries perishable (m ::ₘ t) (.drop m) t

variable {carries : μ → δ → Prop} {perishable : μ → Prop} {t t' : Multiset μ}
  {trace : List (Label μ δ)}

/-- **Conservation.**  What was in transit at first and what has been sent is, after the
trace, in transit, dropped, or matched one to one with the deliveries. -/
theorem conservation (h : Runs.Accepts (Step carries perishable) t trace t') :
    ∃ matched, t + sent trace = t' + dropped trace + matched ∧
      Multiset.Rel carries matched (delivered trace) := by
  induction h with
  | nil t => exact ⟨0, by simp [sent, dropped], .zero⟩
  | cons hfirst _ ih =>
      obtain ⟨matched, hsum, hrel⟩ := ih
      cases hfirst with
      | send m =>
          refine ⟨matched, ?_, hrel⟩
          rw [sent_send, Multiset.add_cons, ← Multiset.cons_add]
          exact hsum
      | @deliver m d _ hcarries =>
          refine ⟨m ::ₘ matched, ?_, .cons hcarries hrel⟩
          rw [Multiset.cons_add, Multiset.add_cons]
          exact congrArg (m ::ₘ ·) hsum
      | @drop m _ hperishable =>
          refine ⟨matched, ?_, hrel⟩
          rw [dropped_drop, Multiset.cons_add, Multiset.add_cons, Multiset.cons_add]
          exact congrArg (m ::ₘ ·) hsum

/-- Only perishable messages are dropped. -/
theorem perishable_of_dropped (h : Runs.Accepts (Step carries perishable) t trace t') :
    ∀ m ∈ dropped trace, perishable m := by
  induction h with
  | nil t => exact fun m hm => absurd hm (Multiset.notMem_zero m)
  | cons hfirst _ ih =>
      cases hfirst with
      | send m => exact ih
      | deliver _ hcarries => exact ih
      | drop _ hperishable =>
          intro m' hm'
          rw [dropped_drop] at hm'
          rcases Multiset.mem_cons.mp hm' with rfl | hrest
          · exact hperishable
          · exact ih m' hrest

/-- Without perishable messages nothing is dropped. -/
theorem dropped_eq_zero (h : Runs.Accepts (Step carries perishable) t trace t')
    (hnone : ∀ m, ¬perishable m) : dropped trace = 0 :=
  Multiset.eq_zero_of_forall_notMem fun m hm => hnone m (perishable_of_dropped h m hm)

end Channel
