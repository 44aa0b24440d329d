import Mathlib.Data.Finset.Card
import Mathlib.Data.Finset.Range
import CamelMsmq.Channel

/-!
# Channels that nearly keep the order

The messages in transit stand in the order in which they were sent, and a channel of width `n`
hands out one of the first `n` of them.  A channel of width 1 is a queue.  A message that is
perishable may be dropped, wherever it stands.

What can be seen of this from outside is said about the messages that have not been dropped, in
the order in which they were sent.  `exists_place` gives each delivery a place among them: the
places are different, and the `k`-th one lies before `k + n`.  By `card_overtaken_lt` each
delivery has then overtaken fewer than `n` messages, and by `place_eq_self` a channel of width 1
keeps the order, though messages may be missing from it.
-/

namespace OrderedChannel

variable {μ δ : Type*}

open Channel (Label)

/-- One step of a channel of width `n`.  What is sent comes last; one of the first `n` may be
delivered, and a perishable message may be dropped wherever it is. -/
inductive Step (carries : μ → δ → Prop) (perishable : μ → Prop) (n : ℕ) :
    List μ → Label μ δ → List μ → Prop
  | send (m : μ) (t : List μ) : Step carries perishable n t (.send m) (t ++ [m])
  | deliver {m : μ} {d : δ} (ahead behind : List μ) (hwidth : ahead.length < n)
      (h : carries m d) :
      Step carries perishable n (ahead ++ m :: behind) (.deliver d) (ahead ++ behind)
  | drop {m : μ} (ahead behind : List μ) (h : perishable m) :
      Step carries perishable n (ahead ++ m :: behind) (.drop m) (ahead ++ behind)

/-- A list with one element more, without its order. -/
theorem coe_append_cons (ahead behind : List μ) (m : μ) :
    ((ahead ++ m :: behind : List μ) : Multiset μ) = m ::ₘ (ahead ++ behind : List μ) :=
  Multiset.coe_eq_coe.mpr List.perm_middle

/-- Where the element that stands at `p` has stood before the one at `i` was taken out. -/
def before (i p : ℕ) : ℕ := if p < i then p else p + 1

theorem before_le (i p : ℕ) : before i p ≤ p + 1 := by
  unfold before
  split <;> omega

theorem before_ne (i p : ℕ) : before i p ≠ i := by
  unfold before
  split <;> omega

theorem before_injective (i : ℕ) : (before i).Injective := by
  intro p q h
  unfold before at h
  split at h <;> split at h <;> omega

theorem getElem?_before (ahead behind : List μ) (m : μ) (p : ℕ) :
    (ahead ++ m :: behind)[before ahead.length p]? = (ahead ++ behind)[p]? := by
  unfold before
  split
  · rename_i hlt
    rw [List.getElem?_append_left hlt, List.getElem?_append_left hlt]
  · rename_i hge
    have hle : ahead.length ≤ p := Nat.le_of_not_lt hge
    rw [List.getElem?_append_right hle, List.getElem?_append_right (Nat.le_succ_of_le hle),
      Nat.succ_sub hle, List.getElem?_cons_succ]

/-- The place `i` first, and then those that the others have had before. -/
theorem injective_casesOn {place : ℕ → ℕ} (hinjective : place.Injective) {i : ℕ} :
    Function.Injective fun k : ℕ => (k.casesOn i fun k => before i (place k) : ℕ) := by
  intro j k hjk
  cases j with
  | zero =>
      cases k with
      | zero => rfl
      | succ k => exact absurd hjk.symm (before_ne _ _)
  | succ j =>
      cases k with
      | zero => exact absurd hjk (before_ne _ _)
      | succ k => rw [hinjective (before_injective _ hjk)]

variable {carries : μ → δ → Prop} {perishable : μ → Prop} {n : ℕ} {t t' : List μ}
  {trace : List (Label μ δ)}

/-- **Bounded overtaking.**  The messages that are not dropped can be listed in the order in
which they were sent, so that each delivery carries another one of them, and the `k`-th delivery
one of the first `k + n`. -/
theorem exists_place (h : Runs.Accepts (Step carries perishable n) t trace t') :
    ∃ kept : List μ, kept.Sublist (t ++ trace.filterMap Label.sent?) ∧
      (kept : Multiset μ) + Channel.dropped trace = t + Channel.sent trace ∧
      ∃ place : ℕ → ℕ, place.Injective ∧
        ∀ k d, (trace.filterMap Label.delivered?)[k]? = some d →
          place k < k + n ∧ ∃ m, kept[place k]? = some m ∧ carries m d := by
  induction h with
  | nil t =>
      refine ⟨t, List.sublist_append_left _ _, rfl, id, Function.injective_id, fun k d hd => ?_⟩
      simp at hd
  | @cons t t' t'' l rest hfirst hrest ih =>
      obtain ⟨kept, hsublist, hsum, place, hinjective, hplace⟩ := ih
      cases hfirst with
      | send m =>
          refine ⟨kept, ?_, ?_, place, hinjective, hplace⟩
          · rw [List.append_assoc] at hsublist
            exact hsublist
          · rw [Channel.sent_send, ← Multiset.singleton_add, ← add_assoc]
            exact hsum
      | @deliver m d ahead behind hwidth hcarries =>
          -- what is kept of the messages ahead stays ahead of the one that is delivered
          rw [List.append_assoc] at hsublist
          obtain ⟨first, others, rfl, hahead, hbehind⟩ := List.sublist_append_iff.mp hsublist
          refine ⟨first ++ m :: others, ?_, ?_,
            fun k => k.casesOn first.length fun k => before first.length (place k), ?_, ?_⟩
          · rw [List.append_assoc]
            exact hahead.append (hbehind.cons_cons m)
          · rw [coe_append_cons, coe_append_cons, Multiset.cons_add, Multiset.cons_add]
            exact congrArg (m ::ₘ ·) hsum
          · exact injective_casesOn hinjective
          · intro k d' hd'
            cases k with
            | zero =>
                obtain rfl : d = d' := Option.some.inj hd'
                have hle := hahead.length_le
                exact ⟨by simp only [Nat.rec_zero]; omega, m, by simp, hcarries⟩
            | succ k =>
                obtain ⟨hlt, m', hm', hcarries'⟩ := hplace k d' hd'
                have hle := before_le first.length (place k)
                refine ⟨?_, m', (getElem?_before first others m (place k)).trans hm', hcarries'⟩
                show before first.length (place k) < _
                omega
      | @drop m ahead behind hperishable =>
          refine ⟨kept, hsublist.trans ?_, ?_, place, hinjective, hplace⟩
          · exact ((List.sublist_cons_self m behind).append_left ahead).append_right _
          · rw [Channel.dropped_drop, Multiset.add_cons, coe_append_cons, Multiset.cons_add]
            exact congrArg (m ::ₘ ·) hsum

/-- The places before that of the `k`-th delivery from which nothing has been delivered yet. -/
def overtaken (place : ℕ → ℕ) (k : ℕ) : Finset ℕ :=
  (Finset.range (place k)).filter fun p => ∀ j < k, place j ≠ p

/-- **Fewer than `n` are overtaken**, if the places are different and none is late by `n`. -/
theorem card_overtaken_lt {place : ℕ → ℕ} (hinjective : place.Injective) {k : ℕ}
    (hplace : ∀ j ≤ k, place j < j + n) : (overtaken place k).card < n := by
  -- up to now `k + 1` places have been taken, and all that counts lies before `k + n`
  have hdisjoint : Disjoint (overtaken place k) ((Finset.range (k + 1)).image place) := by
    refine Finset.disjoint_left.mpr fun p hp htaken => ?_
    obtain ⟨hlt, hfree⟩ := Finset.mem_filter.mp hp
    obtain ⟨j, hj, rfl⟩ := Finset.mem_image.mp htaken
    rcases Nat.lt_succ_iff_lt_or_eq.mp (Finset.mem_range.mp hj) with hbefore | rfl
    · exact hfree j hbefore rfl
    · exact Nat.lt_irrefl _ (Finset.mem_range.mp hlt)
  have hsub : overtaken place k ∪ (Finset.range (k + 1)).image place ⊆ Finset.range (k + n) := by
    refine Finset.union_subset (fun p hp => ?_) (fun p hp => ?_) <;> rw [Finset.mem_range]
    · have hlt := Finset.mem_range.mp (Finset.mem_filter.mp hp).1
      exact Nat.lt_trans hlt (hplace k (Nat.le_refl k))
    · obtain ⟨j, hj, rfl⟩ := Finset.mem_image.mp hp
      have hle : j ≤ k := Nat.le_of_lt_succ (Finset.mem_range.mp hj)
      have hlt := hplace j hle
      omega
  have hcard := Finset.card_le_card hsub
  rw [Finset.card_union_of_disjoint hdisjoint, Finset.card_image_of_injective _ hinjective,
    Finset.card_range, Finset.card_range] at hcard
  omega

/-- Different places, none of them late, are all in their order. -/
theorem place_eq_self {place : ℕ → ℕ} (hinjective : place.Injective) (k : ℕ)
    (hle : ∀ j ≤ k, place j ≤ j) : place k = k := by
  induction k using Nat.strong_induction_on with
  | _ k ih =>
      rcases Nat.lt_or_eq_of_le (hle k (Nat.le_refl k)) with hlt | heq
      · have hsame := ih (place k) hlt fun j hj => hle j (Nat.le_trans hj (Nat.le_of_lt hlt))
        exact absurd (hinjective hsame) (Nat.ne_of_lt hlt)
      · exact heq

/-- **First in, first out.**  A channel of width 1 delivers what it has not dropped in the order
in which it was sent: the `k`-th delivery carries the `k`-th of the messages kept. -/
theorem first_in_first_out (h : Runs.Accepts (Step carries perishable 1) [] trace t') :
    ∃ kept : List μ, kept.Sublist (trace.filterMap Label.sent?) ∧
      (kept : Multiset μ) + Channel.dropped trace = Channel.sent trace ∧
      ∀ (k : ℕ) (d : δ), (trace.filterMap Label.delivered?)[k]? = some d →
        ∃ m, kept[k]? = some m ∧ carries m d := by
  obtain ⟨kept, hsublist, hsum, place, hinjective, hplace⟩ := exists_place h
  refine ⟨kept, hsublist, hsum.trans (zero_add _), fun k d hd => ?_⟩
  have hlt : k < (trace.filterMap Label.delivered?).length := (List.getElem?_eq_some_iff.mp hd).1
  have hself : place k = k := by
    refine place_eq_self hinjective k fun j hj => ?_
    obtain ⟨hbound, -⟩ := hplace j _ (List.getElem?_eq_getElem (Nat.lt_of_le_of_lt hj hlt))
    exact Nat.le_of_lt_succ hbound
  obtain ⟨-, hm⟩ := hplace k d hd
  rwa [hself] at hm

end OrderedChannel
