import Mathlib.Algebra.BigOperators.Group.Finset.Basic
import Mathlib.Algebra.Order.BigOperators.Group.Finset
import Mathlib.Data.Multiset.UnionInter
import Mathlib.Data.Fintype.BigOperators

/-!
# Ledgers of shared items

Finitely many parties hold items that otherwise lie in a common store.  The
*ledger* is the multiset of everything in the store together with everything
held.  A step of one party moves items between its hands and the store; the
ledger shows that nothing is lost or duplicated, and, as long as it has no
duplicates, that two parties never hold the same item.

What a step has to show is local: `total_update` asks only that the store and the
hands of the one party that acts add up to the same before and after.  The others
do not come into it.

The last lemma is a count.  With as many items as parties and at most one item in
each hand, a party with empty hands finds something in the store, because the
others cannot have taken everything.
-/

namespace Ledger

variable {ι α : Type*} [Fintype ι]

/-- Everything in the store together with everything held by some party. -/
def total (store : List α) (held : ι → Multiset α) : Multiset α :=
  (store : Multiset α) + ∑ i, held i

theorem mem_total_of_held {store : List α} {held : ι → Multiset α} {i : ι} {a : α}
    (ha : a ∈ held i) : a ∈ total store held :=
  Multiset.mem_add.mpr (.inr (Multiset.mem_sum.mpr ⟨i, Finset.mem_univ i, ha⟩))

theorem mem_total_of_store {store : List α} {held : ι → Multiset α} {a : α}
    (ha : a ∈ store) : a ∈ total store held :=
  Multiset.mem_add.mpr (.inl ha)

/-- A ledger in which every hand is empty is the store. -/
theorem total_eq_store {store : List α} {held : ι → Multiset α} (h : ∀ i, held i = 0) :
    total store held = (store : Multiset α) := by
  simp [total, h]

variable [DecidableEq ι]

/-- Split off the part of one party. -/
theorem total_eq_add_others (store : List α) (held : ι → Multiset α) (i : ι) :
    total store held =
      (store : Multiset α) + held i + ∑ j ∈ Finset.univ.erase i, held j := by
  rw [total, add_assoc, Finset.add_sum_erase _ _ (Finset.mem_univ i)]

/-- Changing the part of one party leaves the parts of the others. -/
theorem sum_others_update (held : ι → Multiset α) (i : ι) (x : Multiset α) :
    ∑ j ∈ Finset.univ.erase i, Function.update held i x j =
      ∑ j ∈ Finset.univ.erase i, held j := by
  apply Finset.sum_congr rfl
  intro j hj
  exact Function.update_of_ne (Finset.ne_of_mem_erase hj) _ _

/-- **Conservation.**  A party that exchanges items with the store and neither
makes nor loses any leaves the ledger as it is. -/
theorem total_update {store store' : List α} {held : ι → Multiset α} {i : ι} {x : Multiset α}
    (h : (store' : Multiset α) + x = (store : Multiset α) + held i) :
    total store' (Function.update held i x) = total store held := by
  rw [total_eq_add_others _ _ i, total_eq_add_others _ _ i, sum_others_update,
    Function.update_self, h]

/-- A party that gets fresh items, and may lose some, leaves at most the old
ledger and the fresh items. -/
theorem total_update_le {store store' : List α} {held : ι → Multiset α} {i : ι}
    {x fresh : Multiset α}
    (h : (store' : Multiset α) + x ≤ (store : Multiset α) + held i + fresh) :
    total store' (Function.update held i x) ≤ total store held + fresh := by
  rw [total_eq_add_others _ _ i, total_eq_add_others _ _ i, sum_others_update,
    Function.update_self, add_right_comm _ _ fresh]
  gcongr

/-- Nothing held by a party of a duplicate-free ledger is in the store. -/
theorem not_mem_store_of_held {store : List α} {held : ι → Multiset α} {i : ι} {a : α}
    (hnodup : (total store held).Nodup) (ha : a ∈ held i) : a ∉ store := by
  intro hs
  rw [total_eq_add_others _ _ i, add_assoc] at hnodup
  exact Multiset.disjoint_left.mp (Multiset.nodup_add.mp hnodup).2.2 (by simpa using hs)
    (Multiset.mem_add.mpr (.inl ha))

/-- **No sharing.**  Two parties of a duplicate-free ledger hold disjoint items, so an item
tells who holds it. -/
theorem eq_of_held {store : List α} {held : ι → Multiset α} {i j : ι} {a : α}
    (hnodup : (total store held).Nodup) (hi : a ∈ held i) (hj : a ∈ held j) : i = j := by
  by_contra hne
  rw [total_eq_add_others _ _ i] at hnodup
  apply Multiset.disjoint_left.mp (Multiset.nodup_add.mp hnodup).2.2
    (Multiset.mem_add.mpr (.inr hi))
  exact Multiset.mem_sum.mpr ⟨j, Finset.mem_erase.mpr ⟨Ne.symm hne, Finset.mem_univ j⟩, hj⟩

/-- **Counting.**  With as many items as parties and at most one item in each
hand, a party with empty hands finds something in the store. -/
theorem store_ne_nil {store : List α} {held : ι → Multiset α} {i : ι}
    (hcard : Fintype.card ι ≤ (total store held).card)
    (hone : ∀ j, (held j).card ≤ 1) (hi : held i = 0) : store ≠ [] := by
  rintro rfl
  have hothers : ∑ j ∈ Finset.univ.erase i, (held j).card ≤ (Finset.univ.erase i).card :=
    (Finset.sum_le_card_nsmul _ _ 1 fun j _ => hone j).trans (by simp)
  have hcount : (total [] held).card = ∑ j ∈ Finset.univ.erase i, (held j).card := by
    rw [total_eq_add_others _ _ i, hi]
    simp
  have hless : (Finset.univ.erase i).card < Fintype.card ι :=
    Finset.card_erase_lt_of_mem (Finset.mem_univ i)
  omega

end Ledger
