import Mathlib.Data.Set.Function
import Mathlib.Data.List.Count

/-!
# Owners and live objects

Objects are created and destroyed, and an object may come back: its name may be given out
again after it has been destroyed.  Some parties are *owners*, each of one object.  The books
are *balanced* when the owners and the live objects correspond one to one, and every object
has been created once for each time it has been destroyed, and once more if it lives.

An owner that comes with a new object, and one that leaves after it has destroyed its own,
leave the books balanced; so does everything that concerns no owner (`create`, `destroy`,
`congr`).

From balanced books it can be read off that no object has been destroyed more often than it
was created, that an owned object lives, that no two own the same one, and that without owners
nothing is left.
-/

namespace Ownership

variable {ι ω : Type*} [BEq ω]

/-- The books of owners, live objects, and what has been created and destroyed.  They are kept
by count, because an object may have been created and destroyed any number of times before. -/
structure Balanced (owners : Set ι) (obj : ι → ω) (live : Set ω) (created destroyed : List ω) :
    Prop where
  bijOn : Set.BijOn obj owners live
  count_of_mem : ∀ x ∈ live, created.count x = destroyed.count x + 1
  count_of_not_mem : ∀ x, x ∉ live → created.count x = destroyed.count x

namespace Balanced

variable {owners owners' : Set ι} {obj obj' : ι → ω} {live live' : Set ω}
  {created destroyed : List ω} {i j : ι} {x : ω}

/-- Nothing has been created yet. -/
theorem empty (obj : ι → ω) : Balanced ∅ obj ∅ [] [] :=
  ⟨Set.bijOn_empty obj, fun _ hx => absurd hx (Set.notMem_empty _), fun _ _ => rfl⟩

variable (h : Balanced owners obj live created destroyed)

include h

/-- What an owner owns is alive. -/
theorem obj_mem_live (hi : i ∈ owners) : obj i ∈ live := h.bijOn.mapsTo hi

/-- No two owners own the same object. -/
theorem owner_unique (hi : i ∈ owners) (hj : j ∈ owners) (hobj : obj i = obj j) : i = j :=
  h.bijOn.injOn hi hj hobj

/-- Every live object has an owner. -/
theorem exists_owner (hx : x ∈ live) : ∃ i ∈ owners, obj i = x := h.bijOn.surjOn hx

/-- Without owners nothing is alive. -/
theorem not_mem_live (hnone : ∀ i, i ∉ owners) (x : ω) : x ∉ live := by
  intro hx
  obtain ⟨i, hi, -⟩ := h.exists_owner hx
  exact hnone i hi

/-- Nothing is destroyed more often than it has been created. -/
theorem count_destroyed_le (x : ω) : destroyed.count x ≤ created.count x := by
  by_cases hx : x ∈ live
  · exact (h.count_of_mem x hx).symm ▸ Nat.le_succ _
  · exact (h.count_of_not_mem x hx).ge

/-- Owners that stay as they are, with the objects that they own. -/
theorem congr (howners : owners' = owners) (hobj : ∀ i ∈ owners, obj' i = obj i)
    (hlive : live' = live) : Balanced owners' obj' live' created destroyed := by
  subst howners hlive
  exact ⟨h.bijOn.congr fun i hi => (hobj i hi).symm, h.count_of_mem, h.count_of_not_mem⟩

/-- A new owner, with a new object.  The object may have lived before, as long as it does not
live now. -/
theorem create [LawfulBEq ω] (howners : owners' = insert i owners)
    (hobj : ∀ j ∈ owners, obj' j = obj j)
    (hnew : obj' i ∉ live) (hlive : live' = insert (obj' i) live) :
    Balanced owners' obj' live' (obj' i :: created) destroyed := by
  subst howners hlive
  have hold : Set.BijOn obj' owners live := h.bijOn.congr fun j hj => (hobj j hj).symm
  refine ⟨hold.insert hnew, fun x hx => ?_, fun x hx => ?_⟩
  · by_cases heq : x = obj' i
    · subst heq
      rw [List.count_cons_self, h.count_of_not_mem _ hnew]
    · rw [List.count_cons_of_ne (Ne.symm heq)]
      exact h.count_of_mem x (hx.resolve_left heq)
  · obtain ⟨hne, hx⟩ := not_or.mp hx
    rw [List.count_cons_of_ne (Ne.symm hne)]
    exact h.count_of_not_mem x hx

/-- An owner destroys its object, and is one no more.  Nobody else owns that object, so it does
not live afterwards. -/
theorem destroy [LawfulBEq ω] (hi : i ∈ owners) (howners : owners' = owners \ {i})
    (hobj : ∀ j ∈ owners, obj' j = obj j) (hlive : live' = live \ {obj i}) :
    Balanced owners' obj' live' created (obj i :: destroyed) := by
  subst howners hlive
  refine ⟨(h.bijOn.sdiff_singleton hi).congr fun j hj => (hobj j hj.1).symm,
    fun x hx => ?_, fun x hx => ?_⟩
  · rw [List.count_cons_of_ne (Ne.symm hx.2)]
    exact h.count_of_mem x hx.1
  · by_cases heq : x = obj i
    · subst heq
      rw [List.count_cons_self, h.count_of_mem _ (h.obj_mem_live hi)]
    · rw [List.count_cons_of_ne (Ne.symm heq)]
      exact h.count_of_not_mem x fun hlive => hx ⟨hlive, heq⟩

end Balanced

end Ownership
