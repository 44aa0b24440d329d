import CamelMsmq.Ledger

/-!
# A pool that lends by taking and by showing

Items lie in a first-in first-out store.  A party gets hold of the head of the
store in one of two ways: it *takes* the item out and gives it back at the end,
or it only *looks* at the item, which stays in the store.

Every move keeps the ledger, so no item is lost or duplicated.  Taking alone would
also keep items exclusive.  Looking does not: the item that is being looked at
still lies at the head of the store, and the next party that takes or looks gets
the same one.

`Orderly.move` and `Orderly.careful_of_exclusive` say exactly what looking costs: a
move puts no item into two hands if and only if nobody gets hold of an item in it
while another party is looking at one.  The invariant behind it, `Orderly`, is that
an item that is looked at is the head of the store.
-/

namespace LendingPool

variable {ι α : Type*}

/-- What a party has in hand: nothing, an item that also lies in the store, or one that does
not. -/
inductive Grip (α : Type*)
  | free
  | looks (item : α)
  | takes (item : α)

namespace Grip

/-- The item in hand, however it was got. -/
def item? : Grip α → Option α
  | free => none
  | looks a => some a
  | takes a => some a

/-- The items that are out of the store because of this hand. -/
def owned : Grip α → Multiset α
  | takes a => {a}
  | _ => 0

@[simp] theorem owned_free : (free : Grip α).owned = 0 := rfl
@[simp] theorem owned_looks (a : α) : (looks a).owned = 0 := rfl
@[simp] theorem owned_takes (a : α) : (takes a).owned = {a} := rfl
@[simp] theorem item?_free : (free : Grip α).item? = none := rfl
@[simp] theorem item?_looks (a : α) : (looks a).item? = some a := rfl
@[simp] theorem item?_takes (a : α) : (takes a).item? = some a := rfl

theorem card_owned_le (g : Grip α) : g.owned.card ≤ 1 := by
  cases g <;> simp

/-- A hand that holds an item took it out or looks at it. -/
theorem item?_eq_some_iff {g : Grip α} {a : α} :
    g.item? = some a ↔ g = looks a ∨ g = takes a := by
  cases g <;> simp

end Grip

/-- The store and what each party has in hand. -/
structure Pool (ι α : Type*) where
  store : List α
  grip : ι → Grip α

/-- What a party may do.  It gets hold of the head of the store by looking or by taking, and
lets go of what it has; an item that it took goes to the end of the store. -/
inductive Move (ι : Type*)
  | look (i : ι)
  | take (i : ι)
  | letGo (i : ι)

/-- The party that gets hold of an item, if any does. -/
def Move.acquirer : Move ι → Option ι
  | .look i => some i
  | .take i => some i
  | .letGo _ => none

variable [DecidableEq ι]

/-- One move; an item that was taken goes back to the end of the store. -/
def Pool.move (p : Pool ι α) : Move ι → Option (Pool ι α)
  | .look i =>
      match p.grip i, p.store with
      | .free, a :: _ => some { p with grip := Function.update p.grip i (.looks a) }
      | _, _ => none
  | .take i =>
      match p.grip i, p.store with
      | .free, a :: rest => some ⟨rest, Function.update p.grip i (.takes a)⟩
      | _, _ => none
  | .letGo i =>
      match p.grip i with
      | .free => none
      | .looks _ => some { p with grip := Function.update p.grip i .free }
      | .takes a => some ⟨p.store ++ [a], Function.update p.grip i .free⟩

/-- No item is in two hands. -/
def Pool.Exclusive (p : Pool ι α) : Prop :=
  ∀ i j a, (p.grip i).item? = some a → (p.grip j).item? = some a → i = j

/-- Nobody but `i` is looking at an item. -/
def Pool.NoOnlooker (p : Pool ι α) (i : ι) : Prop :=
  ∀ j a, p.grip j = .looks a → j = i

/-- The condition under which a move keeps items exclusive: whoever gets hold
of an item does so while nobody else is looking. -/
def Pool.Careful (p : Pool ι α) (m : Move ι) : Prop :=
  ∀ i, m.acquirer = some i → p.NoOnlooker i

/-- Everything in the store or taken out of it. -/
def Pool.ledger [Fintype ι] (p : Pool ι α) : Multiset α :=
  Ledger.total p.store fun i => (p.grip i).owned

/-- What one move does, guards included. -/
theorem Pool.move_cases {p p' : Pool ι α} {m : Move ι} (h : p.move m = some p') :
    (∃ i a rest, m = .look i ∧ p.grip i = .free ∧ p.store = a :: rest ∧
      p' = { p with grip := Function.update p.grip i (.looks a) }) ∨
    (∃ i a rest, m = .take i ∧ p.grip i = .free ∧ p.store = a :: rest ∧
      p' = ⟨rest, Function.update p.grip i (.takes a)⟩) ∨
    (∃ i a, m = .letGo i ∧ p.grip i = .looks a ∧
      p' = { p with grip := Function.update p.grip i .free }) ∨
    (∃ i a, m = .letGo i ∧ p.grip i = .takes a ∧
      p' = ⟨p.store ++ [a], Function.update p.grip i .free⟩) := by
  cases m with
  | look i =>
      simp only [Pool.move] at h
      split at h
      · rename_i a rest hgrip hstore
        exact .inl ⟨i, a, rest, rfl, hgrip, hstore, (Option.some.inj h).symm⟩
      · cases h
  | take i =>
      simp only [Pool.move] at h
      split at h
      · rename_i a rest hgrip hstore
        exact .inr (.inl ⟨i, a, rest, rfl, hgrip, hstore, (Option.some.inj h).symm⟩)
      · cases h
  | letGo i =>
      simp only [Pool.move] at h
      split at h
      · cases h
      · rename_i a hgrip
        exact .inr (.inr (.inl ⟨i, a, rfl, hgrip, (Option.some.inj h).symm⟩))
      · rename_i a hgrip
        exact .inr (.inr (.inr ⟨i, a, rfl, hgrip, (Option.some.inj h).symm⟩))

/-- The owned items after the hand of one party changed. -/
theorem owned_update (grip : ι → Grip α) (i : ι) (g : Grip α) :
    (fun j => (Function.update grip i g j).owned) =
      Function.update (fun j => (grip j).owned) i g.owned := by
  funext j
  by_cases hj : j = i
  · subst hj; simp
  · simp [Function.update_of_ne hj]

/-- Who looks after the hand of `i` changed is `i` itself or looked before. -/
theorem looks_of_update {grip : ι → Grip α} {i j : ι} {g : Grip α} {a : α}
    (h : Function.update grip i g j = .looks a) :
    (j = i ∧ g = .looks a) ∨ (j ≠ i ∧ grip j = .looks a) := by
  by_cases hj : j = i
  · subst hj
    exact .inl ⟨rfl, by simpa using h⟩
  · exact .inr ⟨hj, by simpa [Function.update_of_ne hj] using h⟩

/-- **Conservation.**  No move loses or duplicates an item. -/
theorem Pool.ledger_move [Fintype ι] {p p' : Pool ι α} {m : Move ι}
    (h : p.move m = some p') : p'.ledger = p.ledger := by
  obtain ⟨i, a, rest, -, hfree, -, rfl⟩ | ⟨i, a, rest, -, hfree, hstore, rfl⟩ |
    ⟨i, a, -, hlook, rfl⟩ | ⟨i, a, -, htake, rfl⟩ := move_cases h <;>
    simp only [ledger, owned_update] <;> apply Ledger.total_update
  · simp [hfree]
  · simp only [hfree, hstore, Grip.owned_takes, Grip.owned_free, add_zero, ← Multiset.cons_coe]
    rw [← Multiset.singleton_add, add_comm]
  · simp [hlook]
  · simp only [htake, Grip.owned_free, Grip.owned_takes, add_zero]
    exact (Multiset.coe_add _ _).symm

/-- Whatever is in hand after a move was in hand or in the store before. -/
theorem Pool.item_move {p p' : Pool ι α} {m : Move ι} (h : p.move m = some p') {i : ι} {a : α}
    (hi : (p'.grip i).item? = some a) : (p.grip i).item? = some a ∨ a ∈ p.store := by
  have hupdate : ∀ {j : ι} {g : Grip α}, (Function.update p.grip j g i).item? = some a →
      (p.grip i).item? = some a ∨ g.item? = some a := by
    intro j g hg
    by_cases hij : i = j
    · subst hij
      rw [Function.update_self] at hg
      exact .inr hg
    · rw [Function.update_of_ne hij] at hg
      exact .inl hg
  obtain ⟨j, b, rest, -, -, hstore, rfl⟩ | ⟨j, b, rest, -, -, hstore, rfl⟩ |
    ⟨j, b, -, -, rfl⟩ | ⟨j, b, -, -, rfl⟩ := move_cases h <;>
    rcases hupdate hi with hold | hnew
  · exact .inl hold
  · obtain rfl : b = a := Option.some.inj hnew
    exact .inr (by rw [hstore]; exact List.mem_cons_self)
  · exact .inl hold
  · obtain rfl : b = a := Option.some.inj hnew
    exact .inr (by rw [hstore]; exact List.mem_cons_self)
  · exact .inl hold
  · cases hnew
  · exact .inl hold
  · cases hnew

/-- Letting go shares nothing. -/
theorem Pool.Exclusive.letGo {p : Pool ι α} (he : p.Exclusive) (i : ι) :
    ∀ j k b, (Function.update p.grip i .free j).item? = some b →
      (Function.update p.grip i .free k).item? = some b → j = k := by
  intro j k b hj hk
  by_cases hji : j = i
  · simp [hji] at hj
  · by_cases hki : k = i
    · simp [hki] at hk
    · rw [Function.update_of_ne hji] at hj
      rw [Function.update_of_ne hki] at hk
      exact he j k b hj hk

/-- A pool whose items are exclusive and stay so under careful moves: nothing
is there twice, and whoever looks sees the head of the store. -/
structure Pool.Orderly [Fintype ι] (p : Pool ι α) : Prop where
  nodup : p.ledger.Nodup
  exclusive : p.Exclusive
  head : ∀ i a, p.grip i = .looks a → p.store.head? = some a

section Orderly

variable [Fintype ι] {p p' : Pool ι α} {m : Move ι}

/-- An item that is in somebody's hand although it lies at the head of the
store is being looked at. -/
theorem Pool.looks_of_head (hnodup : p.ledger.Nodup) {j : ι} {a : α}
    (hitem : (p.grip j).item? = some a) (hstore : a ∈ p.store) : p.grip j = .looks a := by
  rcases Grip.item?_eq_some_iff.mp hitem with h | h
  · exact h
  · exact absurd hstore
      (Ledger.not_mem_store_of_held (i := j) hnodup
        (by rw [h]; exact Multiset.mem_singleton_self a))

/-- When `i` gets hold of the head of the store while nobody else looks, no
other hand holds that item. -/
theorem Pool.Orderly.exclusive_update (ho : p.Orderly) {i : ι} {a : α} {rest : List α} {g : Grip α}
    (hstore : p.store = a :: rest) (hg : g.item? = some a) (hno : p.NoOnlooker i) :
    ∀ j k b, (Function.update p.grip i g j).item? = some b →
      (Function.update p.grip i g k).item? = some b → j = k := by
  have hother : ∀ j, j ≠ i → (p.grip j).item? ≠ some a := by
    intro j hj hitem
    exact hj (hno j a (looks_of_head ho.nodup hitem (by simp [hstore])))
  intro j k b hj hk
  by_cases hji : j = i <;> by_cases hki : k = i
  · rw [hji, hki]
  · subst hji
    rw [Function.update_self, hg] at hj
    rw [Function.update_of_ne hki] at hk
    exact absurd (hk.trans hj.symm) (hother k hki)
  · subst hki
    rw [Function.update_self, hg] at hk
    rw [Function.update_of_ne hji] at hj
    exact absurd (hj.trans hk.symm) (hother j hji)
  · rw [Function.update_of_ne hji] at hj
    rw [Function.update_of_ne hki] at hk
    exact ho.exclusive j k b hj hk

/-- **Careful moves keep a pool orderly.**  As long as nobody gets hold of an item while another
party is looking at one, whatever is looked at stays at the head of the store. -/
theorem Pool.Orderly.move (ho : p.Orderly) (h : p.move m = some p') (hok : p.Careful m) :
    p'.Orderly := by
  have hnodup : p'.ledger.Nodup := (ledger_move h).symm ▸ ho.nodup
  obtain ⟨i, a, rest, rfl, -, hstore, rfl⟩ | ⟨i, a, rest, rfl, -, hstore, rfl⟩ |
    ⟨i, a, rfl, -, rfl⟩ | ⟨i, a, rfl, -, rfl⟩ := move_cases h
  · refine ⟨hnodup, ho.exclusive_update hstore rfl (hok i rfl), ?_⟩
    intro j b hj
    rcases looks_of_update hj with ⟨-, hb⟩ | ⟨-, hb⟩
    · simpa [hstore] using hb
    · exact ho.head j b hb
  · refine ⟨hnodup, ho.exclusive_update hstore rfl (hok i rfl), ?_⟩
    intro j b hj
    rcases looks_of_update hj with ⟨-, hb⟩ | ⟨hji, hb⟩
    · cases hb
    · exact absurd (hok i rfl j b hb) hji
  · refine ⟨hnodup, ho.exclusive.letGo i, ?_⟩
    intro j b hj
    rcases looks_of_update hj with ⟨-, hb⟩ | ⟨-, hb⟩
    · cases hb
    · exact ho.head j b hb
  · refine ⟨hnodup, ho.exclusive.letGo i, ?_⟩
    intro j b hj
    rcases looks_of_update hj with ⟨-, hb⟩ | ⟨-, hb⟩
    · cases hb
    · have hhead := ho.head j b hb
      cases hstore : p.store with
      | nil => simp [hstore] at hhead
      | cons c rest => simpa [hstore] using hhead

/-- **A careless move shares an item**: whoever is being looked on gets the very item the
onlooker sees.  So exclusive use after a move already tells that the move was careful. -/
theorem Pool.Orderly.careful_of_exclusive (ho : p.Orderly) (h : p.move m = some p')
    (hex : p'.Exclusive) : p.Careful m := by
  intro i hi j b hlook
  by_contra hji
  have hhead := ho.head j b hlook
  obtain ⟨i', a, rest, rfl, -, hstore, rfl⟩ | ⟨i', a, rest, rfl, -, hstore, rfl⟩ |
    ⟨i', a, rfl, -, rfl⟩ | ⟨i', a, rfl, -, rfl⟩ := move_cases h <;> cases hi
  all_goals
    have hab : a = b := by simpa [hstore] using hhead
    subst hab
    exact hji (hex j i a (by simp [Function.update_of_ne hji, hlook]) (by simp))

end Orderly

end LendingPool
