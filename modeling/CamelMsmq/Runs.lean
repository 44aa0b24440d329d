import Mathlib.Logic.Function.Basic
import Mathlib.Data.List.Basic

/-!
# Runs of a partial step function

A system is a partial step function `step : σ → α → Option σ`: from a state an
action either is impossible or leads to exactly one state.  All nondeterminism
(the scheduler, the environment's answers) is in the actions, so a run is a
list of actions, and a state is reachable if some run leads to it.

Two ways to speak about a run are defined by its prefixes: a state property
holds *throughout* it, and a condition is met by *each step* of it.

* `Reachable.invariant` is the induction for properties of reachable states;
* `throughout_of_eachStep` is the one for runs whose steps meet a condition;
* `throughout_iff_eachStep` makes it exact: "the property holds throughout exactly
  when each step meets the condition" comes down to two facts about one step, under
  an invariant that may be lost as soon as the condition fails;
* `countP_add_rank_le` bounds the steps of a kind by a rank that they lower.

The inductions over runs of this development are these rules; what is left to show
is always about one step.
-/

namespace Runs

variable {σ α : Type*} (step : σ → α → Option σ)

/-- The state a list of actions leads to, if each of them is possible. -/
def run : σ → List α → Option σ
  | s, [] => some s
  | s, a :: rest => (step s a).bind fun next => run next rest

/-- Some run leads from `start` to `s`. -/
def Reachable (start s : σ) : Prop :=
  ∃ acts, run step start acts = some s

/-- `P` holds in every state the run passes through, both ends included. -/
def Throughout (P : σ → Prop) (start : σ) (acts : List α) : Prop :=
  ∀ done s, done <+: acts → run step start done = some s → P s

/-- Every action of the run is taken in a state in which it meets `ok`. -/
def EachStep (ok : σ → α → Prop) (start : σ) (acts : List α) : Prop :=
  ∀ done a s, done ++ [a] <+: acts → run step start done = some s → ok s a

/-- The first action of a run leads to a state from which the rest runs. -/
theorem run_cons_iff {s finish : σ} {a : α} {rest : List α} :
    run step s (a :: rest) = some finish ↔
      ∃ next, step s a = some next ∧ run step next rest = some finish := by
  simp [run, Option.bind_eq_some_iff]

/-- The first step of a run, taken. -/
theorem run_cons_of_step {s next : σ} {a : α} (hstep : step s a = some next) (rest : List α) :
    run step s (a :: rest) = run step next rest := by
  rw [run, hstep, Option.bind_some]

/-- A run passes through the state its first part leads to. -/
theorem run_append_iff {s finish : σ} {left right : List α} :
    run step s (left ++ right) = some finish ↔
      ∃ middle, run step s left = some middle ∧ run step middle right = some finish := by
  induction left generalizing s with
  | nil => exact ⟨fun h => ⟨s, rfl, h⟩, fun ⟨_, hs, h⟩ => Option.some.inj hs ▸ h⟩
  | cons a rest ih =>
      rw [List.cons_append, run_cons_iff]
      constructor
      · rintro ⟨next, hstep, hrun⟩
        obtain ⟨middle, hleft, hright⟩ := ih.mp hrun
        exact ⟨middle, (run_cons_iff step).mpr ⟨next, hstep, hleft⟩, hright⟩
      · rintro ⟨middle, hleft, hright⟩
        obtain ⟨next, hstep, hrest⟩ := (run_cons_iff step).mp hleft
        exact ⟨next, hstep, ih.mpr ⟨middle, hrest, hright⟩⟩

/-- A run of one action. -/
theorem run_singleton_iff {s finish : σ} {a : α} :
    run step s [a] = some finish ↔ step s a = some finish := by
  simp [run]

/-- A property that each possible step keeps is kept by whole runs. -/
theorem run_invariant {Inv : σ → Prop}
    (hkeep : ∀ s a s', Inv s → step s a = some s' → Inv s')
    {start finish : σ} {acts : List α}
    (hstart : Inv start) (hrun : run step start acts = some finish) : Inv finish := by
  induction acts generalizing start with
  | nil => exact Option.some.inj hrun ▸ hstart
  | cons a rest ih =>
      obtain ⟨next, hstep, hrest⟩ := (run_cons_iff step).mp hrun
      exact ih (hkeep _ _ _ hstart hstep) hrest

/-- **Invariant rule.**  What holds at the start and is kept by each step holds
in every reachable state. -/
theorem Reachable.invariant (Inv : σ → Prop) {start s : σ}
    (hreach : Reachable step start s) (hstart : Inv start)
    (hkeep : ∀ s a s', Inv s → step s a = some s' → Inv s') : Inv s := by
  obtain ⟨acts, hrun⟩ := hreach
  exact run_invariant step hkeep hstart hrun

/-- **Ranking rule.**  If no step raises the rank and each busy step lowers it, a run has at
most as many busy steps as the rank says.  Not every action has to be allowed. -/
theorem countP_add_rank_le {Inv : σ → Prop} {allowed : α → Prop} {busy : α → Bool} {rank : σ → Nat}
    (hkeep : ∀ s a s', Inv s → step s a = some s' → Inv s')
    (hrank : ∀ s a s', Inv s → step s a = some s' → allowed a →
      (if busy a then 1 else 0) + rank s' ≤ rank s)
    {start finish : σ} {acts : List α} (hstart : Inv start) (hallowed : ∀ a ∈ acts, allowed a)
    (hrun : run step start acts = some finish) : acts.countP busy + rank finish ≤ rank start := by
  induction acts generalizing start with
  | nil =>
      obtain rfl := Option.some.inj hrun
      simp
  | cons a rest ih =>
      obtain ⟨next, hstep, hrest⟩ := (run_cons_iff step).mp hrun
      obtain ⟨hfirst, hothers⟩ := List.forall_mem_cons.mp hallowed
      have hone := hrank _ _ _ hstart hstep hfirst
      have hmore := ih (hkeep _ _ _ hstart hstep) hothers hrest
      rw [List.countP_cons]
      omega

theorem Reachable.refl (s : σ) : Reachable step s s := ⟨[], rfl⟩

theorem reachable_of_step {s s' : σ} {a : α} (hstep : step s a = some s') :
    Reachable step s s' :=
  ⟨[a], (run_singleton_iff step).mpr hstep⟩

/-- What can be reached from a state that can be reached can be reached. -/
theorem Reachable.trans {start s s' : σ} (hreach : Reachable step start s)
    (hmore : Reachable step s s') : Reachable step start s' := by
  obtain ⟨left, hleft⟩ := hreach
  obtain ⟨right, hright⟩ := hmore
  exact ⟨left ++ right, (run_append_iff step).mpr ⟨s, hleft, hright⟩⟩

/-- A run without actions meets every condition on its steps. -/
theorem eachStep_nil {ok : σ → α → Prop} (s : σ) : EachStep step ok s [] := by
  intro done a t hpre
  simp at hpre

/-- The condition on the steps of a nonempty run, unfolded at its first step. -/
theorem eachStep_cons_iff {ok : σ → α → Prop} {s next : σ} {a : α} {rest : List α}
    (hstep : step s a = some next) :
    EachStep step ok s (a :: rest) ↔ ok s a ∧ EachStep step ok next rest := by
  constructor
  · intro h
    refine ⟨h [] a s (by simp) rfl, ?_⟩
    intro done b t hpre hrun
    exact h (a :: done) b t (by simpa using hpre) ((run_cons_iff step).mpr ⟨next, hstep, hrun⟩)
  · rintro ⟨hfirst, hrest⟩ done b t hpre hrun
    cases done with
    | nil =>
        have hb : b = a := by simpa using hpre
        have ht : t = s := (Option.some.inj hrun).symm
        rw [hb, ht]
        exact hfirst
    | cons c done =>
        obtain ⟨rfl, hpre'⟩ := List.cons_prefix_cons.mp hpre
        rw [run_cons_of_step step hstep] at hrun
        exact hrest done b t hpre' hrun

/-- The condition on the steps of a run that passes through a middle state. -/
theorem eachStep_append_iff {ok : σ → α → Prop} {s middle : σ} {left right : List α}
    (hleft : run step s left = some middle) :
    EachStep step ok s (left ++ right) ↔
      EachStep step ok s left ∧ EachStep step ok middle right := by
  induction left generalizing s with
  | nil =>
      obtain rfl : s = middle := Option.some.inj hleft
      simp [eachStep_nil step s]
  | cons a left ih =>
      obtain ⟨next, hstep, hrest⟩ := (run_cons_iff step).mp hleft
      rw [List.cons_append, eachStep_cons_iff step hstep, eachStep_cons_iff step hstep, ih hrest,
        and_assoc]

/-- A condition on the steps of a run that can be decided is decided along the run. -/
def decideEachStep (ok : σ → α → Prop) [∀ s a, Decidable (ok s a)] : σ → List α → Bool
  | _, [] => true
  | s, a :: rest =>
      match step s a with
      | some next => decide (ok s a) && decideEachStep ok next rest
      | none => decide (ok s a)

theorem decideEachStep_iff (ok : σ → α → Prop) [∀ s a, Decidable (ok s a)] {start finish : σ}
    {acts : List α} (hrun : run step start acts = some finish) :
    decideEachStep step ok start acts = true ↔ EachStep step ok start acts := by
  induction acts generalizing start with
  | nil => exact iff_of_true rfl (eachStep_nil step start)
  | cons a rest ih =>
      obtain ⟨next, hstep, hrest⟩ := (run_cons_iff step).mp hrun
      simp only [decideEachStep, hstep, Bool.and_eq_true, decide_eq_true_eq, ih hrest,
        eachStep_cons_iff step hstep]

/-- What each step that meets one condition keeps as an invariant may be used to show that
each step meets another condition. -/
theorem EachStep.imp {Inv : σ → Prop} {ok ok' : σ → α → Prop}
    (hkeep : ∀ s a s', Inv s → step s a = some s' → ok s a → Inv s')
    (himp : ∀ s a s', Inv s → step s a = some s' → ok s a → ok' s a)
    {start finish : σ} {acts : List α} (hok : EachStep step ok start acts) (hstart : Inv start)
    (hrun : run step start acts = some finish) : EachStep step ok' start acts := by
  induction acts generalizing start with
  | nil => exact eachStep_nil step start
  | cons a rest ih =>
      obtain ⟨next, hstep, hrest⟩ := (run_cons_iff step).mp hrun
      obtain ⟨hfirst, hok⟩ := (eachStep_cons_iff step hstep).mp hok
      have hnext : Inv next := hkeep _ _ _ hstart hstep hfirst
      exact (eachStep_cons_iff step hstep).mpr
        ⟨himp _ _ _ hstart hstep hfirst, ih hok hnext hrest⟩

/-- Two conditions on steps that agree in the states of an invariant agree on runs. -/
theorem eachStep_congr {Inv : σ → Prop} {ok ok' : σ → α → Prop}
    (hkeep : ∀ s a s', Inv s → step s a = some s' → Inv s')
    (hiff : ∀ s a s', Inv s → step s a = some s' → (ok s a ↔ ok' s a))
    {start finish : σ} {acts : List α} (hstart : Inv start)
    (hrun : run step start acts = some finish) :
    EachStep step ok start acts ↔ EachStep step ok' start acts := by
  constructor
  · intro hok
    exact hok.imp step (fun s a s' hs hstep _ => hkeep s a s' hs hstep)
      (fun s a s' hs hstep => (hiff s a s' hs hstep).mp) hstart hrun
  · intro hok
    exact hok.imp step (fun s a s' hs hstep _ => hkeep s a s' hs hstep)
      (fun s a s' hs hstep => (hiff s a s' hs hstep).mpr) hstart hrun

/-- A property of the states of a nonempty run, unfolded at its first step. -/
theorem throughout_cons_iff {P : σ → Prop} {s next : σ} {a : α} {rest : List α}
    (hstep : step s a = some next) :
    Throughout step P s (a :: rest) ↔ P s ∧ Throughout step P next rest := by
  constructor
  · intro h
    refine ⟨h [] s (List.nil_prefix) rfl, ?_⟩
    intro done t hpre hrun
    exact h (a :: done) t (by simpa using hpre) ((run_cons_iff step).mpr ⟨next, hstep, hrun⟩)
  · rintro ⟨hfirst, hrest⟩ done t hpre hrun
    cases done with
    | nil => exact Option.some.inj hrun ▸ hfirst
    | cons c done =>
        obtain ⟨rfl, hpre'⟩ := List.cons_prefix_cons.mp hpre
        rw [run_cons_of_step step hstep] at hrun
        exact hrest done t hpre' hrun

/-- **Conditional invariant rule.**  What each step that meets `ok` keeps holds
throughout the runs whose steps all meet `ok`. -/
theorem throughout_of_eachStep {Inv : σ → Prop} {ok : σ → α → Prop}
    (hkeep : ∀ s a s', Inv s → step s a = some s' → ok s a → Inv s')
    {start : σ} {acts : List α} (hstart : Inv start)
    (hok : EachStep step ok start acts) : Throughout step Inv start acts := by
  induction acts generalizing start with
  | nil =>
      intro done s hpre hrun
      obtain rfl := List.prefix_nil.mp hpre
      exact Option.some.inj hrun ▸ hstart
  | cons a rest ih =>
      cases hstep : step start a with
      | none =>
          intro done s hpre hrun
          cases done with
          | nil => exact Option.some.inj hrun ▸ hstart
          | cons c done =>
              obtain ⟨rfl, _⟩ := List.cons_prefix_cons.mp hpre
              simp [run, hstep] at hrun
      | some next =>
          obtain ⟨hfirst, hrest⟩ := (eachStep_cons_iff step hstep).mp hok
          exact (throughout_cons_iff step hstep).mpr
            ⟨hstart, ih (hkeep _ _ _ hstart hstep hfirst) hrest⟩

/-- What holds throughout a run holds at its end. -/
theorem Throughout.finish {P : σ → Prop} {start finish : σ} {acts : List α}
    (h : Throughout step P start acts) (hrun : run step start acts = some finish) : P finish :=
  h acts finish (List.prefix_refl _) hrun

/-- **Exactness rule under an assumption.**  Suppose each step is one that the environment
allows.  Suppose an invariant implies `P`, each such step that meets `ok` keeps the
invariant, and such a step that does not meet `ok` loses `P`.  Then `P` holds throughout
a run exactly when each of its steps meets `ok`. -/
theorem throughout_iff_eachStep_of (Inv : σ → Prop) {P : σ → Prop} {env ok : σ → α → Prop}
    (hholds : ∀ s, Inv s → P s)
    (hkeep : ∀ s a s', Inv s → step s a = some s' → env s a → ok s a → Inv s')
    (hneed : ∀ s a s', Inv s → step s a = some s' → env s a → P s' → ok s a)
    {start finish : σ} {acts : List α} (hstart : Inv start)
    (henv : EachStep step env start acts) (hrun : run step start acts = some finish) :
    Throughout step P start acts ↔ EachStep step ok start acts := by
  constructor
  · intro hP
    induction acts generalizing start with
    | nil => exact eachStep_nil step start
    | cons a rest ih =>
        obtain ⟨next, hstep, hrest⟩ := (run_cons_iff step).mp hrun
        obtain ⟨henvFirst, henvRest⟩ := (eachStep_cons_iff step hstep).mp henv
        have hsplit := (throughout_cons_iff step hstep).mp hP
        have hfirst : ok start a :=
          hneed _ _ _ hstart hstep henvFirst (hsplit.2 [] next List.nil_prefix rfl)
        exact (eachStep_cons_iff step hstep).mpr
          ⟨hfirst, ih (hkeep _ _ _ hstart hstep henvFirst hfirst) henvRest hrest hsplit.2⟩
  · intro hok done s hpre hdone
    have hboth : EachStep step (fun s a => env s a ∧ ok s a) start acts :=
      fun done a s hpre hdone => ⟨henv done a s hpre hdone, hok done a s hpre hdone⟩
    have hinv := throughout_of_eachStep step
      (fun s a s' hs hstep hcond => hkeep s a s' hs hstep hcond.1 hcond.2) hstart hboth
    exact hholds s (hinv done s hpre hdone)

/-- **Exactness rule.**  Suppose an invariant implies `P`, each step that meets
`ok` keeps the invariant, and a step that does not meet `ok` loses `P`.  Then
`P` holds throughout a run exactly when each of its steps meets `ok`. -/
theorem throughout_iff_eachStep (Inv : σ → Prop) {P : σ → Prop} {ok : σ → α → Prop}
    (hholds : ∀ s, Inv s → P s)
    (hkeep : ∀ s a s', Inv s → step s a = some s' → ok s a → Inv s')
    (hneed : ∀ s a s', Inv s → step s a = some s' → P s' → ok s a)
    {start finish : σ} {acts : List α} (hstart : Inv start)
    (hrun : run step start acts = some finish) :
    Throughout step P start acts ↔ EachStep step ok start acts :=
  throughout_iff_eachStep_of step Inv hholds (fun s a s' hs hstep _ => hkeep s a s' hs hstep)
    (fun s a s' hs hstep _ => hneed s a s' hs hstep) hstart (fun _ _ _ _ _ => trivial) hrun

end Runs
