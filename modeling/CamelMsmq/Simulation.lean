import CamelMsmq.Runs

/-!
# Traces and refinement

Some steps of a system show something to the outside, its *label*; the others are
silent.  The labels of a run in order are its *trace*.  A specification is a relation
between states, labels and states, and it *accepts* a trace if its steps can follow it.

A system *refines* a specification through an abstraction of its states if silent steps
leave the abstract state as it is, and a step with a label is a step of the
specification.  `accepts_trace` is the rule: then the specification accepts the trace of
every run, and it ends in the abstraction of the state the run ends in.

Where no function of the states does, a relation may: a *simulation*, for the runs that
an environment allows.  Between two systems there are two more rules.  In lockstep every
step of one is matched by a step of the other; with stuttering it may also be matched by
none, if it shows nothing.

Each rule takes facts about one step and does the induction on the run once.
-/

namespace Runs

variable {σ α ℓ τ : Type*}

/-- The labels of the steps of a run. -/
def trace (step : σ → α → Option σ) (label : σ → α → Option ℓ) : σ → List α → List ℓ
  | _, [] => []
  | s, a :: rest =>
      match step s a with
      | some next => (label s a).toList ++ trace step label next rest
      | none => []

/-- A specification accepts a list of labels between two states. -/
inductive Accepts (spec : τ → ℓ → τ → Prop) : τ → List ℓ → τ → Prop
  | nil (t : τ) : Accepts spec t [] t
  | cons {t t' t'' : τ} {l : ℓ} {rest : List ℓ} (hfirst : spec t l t')
      (hrest : Accepts spec t' rest t'') : Accepts spec t (l :: rest) t''

section Trace

variable (step : σ → α → Option σ) (label : σ → α → Option ℓ)

/-- The trace of a run, after its first step. -/
theorem trace_cons_of_step {s next : σ} {a : α} (hstep : step s a = some next) (rest : List α) :
    trace step label s (a :: rest) = (label s a).toList ++ trace step label next rest := by
  simp only [trace, hstep]

/-- **Histories.**  A history, newest first, to which every step adds what `f` reads off its
label is what `f` reads off the trace. -/
theorem history_of_trace {ν : Type*} (Inv : σ → Prop) (f : ℓ → Option ν) (history : σ → List ν)
    (hkeep : ∀ s a s', Inv s → step s a = some s' → Inv s')
    (hadds : ∀ s a s', Inv s → step s a = some s' →
      history s' = ((label s a).bind f).toList ++ history s)
    {start finish : σ} {acts : List α} (hstart : Inv start)
    (hrun : run step start acts = some finish) :
    history finish = ((trace step label start acts).filterMap f).reverse ++ history start := by
  induction acts generalizing start with
  | nil =>
      obtain rfl : start = finish := Option.some.inj hrun
      rfl
  | cons a rest ih =>
      obtain ⟨next, hstep, hrest⟩ := (run_cons_iff step).mp hrun
      rw [ih (hkeep _ _ _ hstart hstep) hrest, hadds _ _ _ hstart hstep,
        trace_cons_of_step step label hstep, List.filterMap_append, List.reverse_append,
        List.append_assoc]
      congr 2
      cases label start a with
      | none => rfl
      | some l => cases hl : f l <;> simp [hl]

end Trace

/-- **Refinement.**  The steps of a system, seen through `abs`, are steps of the
specification, as long as the invariant holds. -/
structure Refines (step : σ → α → Option σ) (label : σ → α → Option ℓ)
    (spec : τ → ℓ → τ → Prop) (Inv : σ → Prop) (abs : σ → τ) : Prop where
  keeps : ∀ s a s', Inv s → step s a = some s' → Inv s'
  silent : ∀ s a s', Inv s → step s a = some s' → label s a = none → abs s' = abs s
  visible : ∀ s a s' l, Inv s → step s a = some s' → label s a = some l →
    spec (abs s) l (abs s')

variable {step : σ → α → Option σ} {label : σ → α → Option ℓ} {spec : τ → ℓ → τ → Prop}
  {Inv : σ → Prop} {abs : σ → τ}

/-- **Trace inclusion.**  The specification accepts the trace of every run, and it ends in the
abstraction of the state in which the run ends.  The induction is on the run. -/
theorem Refines.accepts_trace (hr : Refines step label spec Inv abs) {start finish : σ}
    {acts : List α} (hstart : Inv start) (hrun : run step start acts = some finish) :
    Accepts spec (abs start) (trace step label start acts) (abs finish) := by
  induction acts generalizing start with
  | nil =>
      obtain rfl : start = finish := Option.some.inj hrun
      exact .nil _
  | cons a rest ih =>
      obtain ⟨next, hstep, hrest⟩ := (run_cons_iff step).mp hrun
      have hnext := ih (hr.keeps _ _ _ hstart hstep) hrest
      rw [trace_cons_of_step step label hstep]
      cases hlabel : label start a with
      | none =>
          rw [hr.silent _ _ _ hstart hstep hlabel] at hnext
          exact hnext
      | some l => exact .cons (hr.visible _ _ _ _ hstart hstep hlabel) hnext

/-- **Simulation.**  `R` relates a state to what it may be taken for.  If every step that the
environment allows is silent and leaves that as it is, or comes with a step of the specification,
the specification accepts the trace of every run that the environment allows.  The induction is
on the run. -/
theorem accepts_trace_of_simulation {env : σ → α → Prop} {R : σ → τ → Prop}
    (hmatch : ∀ s t a s', R s t → step s a = some s' → env s a →
      (label s a = none ∧ R s' t) ∨ ∃ l t', label s a = some l ∧ spec t l t' ∧ R s' t')
    {start finish : σ} {t : τ} {acts : List α} (hstart : R start t)
    (henv : EachStep step env start acts) (hrun : run step start acts = some finish) :
    ∃ t', Accepts spec t (trace step label start acts) t' ∧ R finish t' := by
  induction acts generalizing start t with
  | nil =>
      obtain rfl : start = finish := Option.some.inj hrun
      exact ⟨t, .nil t, hstart⟩
  | cons a rest ih =>
      obtain ⟨next, hstep, hrest⟩ := (run_cons_iff step).mp hrun
      obtain ⟨hfirst, henv⟩ := (eachStep_cons_iff step hstep).mp henv
      rw [trace_cons_of_step step label hstep]
      obtain ⟨hsilent, hnext⟩ | ⟨l, t', hlabel, hspec, hnext⟩ :=
        hmatch _ _ _ _ hstart hstep hfirst
      · rw [hsilent]
        exact ih hnext henv hrest
      · obtain ⟨t'', haccepts, hfinish⟩ := ih hnext henv hrest
        rw [hlabel]
        exact ⟨t'', .cons hspec haccepts, hfinish⟩

/-- **Lockstep.**  If every step of one system is matched by the step of another with the same
action, so is every run.  The induction is on the run. -/
theorem run_lockstep {step' : τ → α → Option τ} {R : σ → τ → Prop}
    (hmatch : ∀ s t a s', R s t → step s a = some s' → ∃ t', step' t a = some t' ∧ R s' t')
    {start finish : σ} {start' : τ} {acts : List α} (hstart : R start start')
    (hrun : run step start acts = some finish) :
    ∃ finish', run step' start' acts = some finish' ∧ R finish finish' := by
  induction acts generalizing start start' with
  | nil =>
      obtain rfl : start = finish := Option.some.inj hrun
      exact ⟨start', rfl, hstart⟩
  | cons a rest ih =>
      obtain ⟨next, hstep, hrest⟩ := (run_cons_iff step).mp hrun
      obtain ⟨next', hstep', hnext⟩ := hmatch _ _ _ _ hstart hstep
      obtain ⟨finish', hrest', hfinish⟩ := ih hnext hrest
      exact ⟨finish', (run_cons_iff step').mpr ⟨next', hstep', hrest'⟩, hfinish⟩

/-- **Stuttering.**  If every step of one system, seen through `abs`, is a step of another with
the same label, or is silent and nothing to be seen of, then every run is one of the other system
with the same trace.  The induction is on the run. -/
theorem run_stuttering {β : Type*} {step' : τ → β → Option τ} {label' : τ → β → Option ℓ}
    (hkeep : ∀ s a s', Inv s → step s a = some s' → Inv s')
    (hmatch : ∀ s a s', Inv s → step s a = some s' →
      (abs s' = abs s ∧ label s a = none) ∨
        ∃ b, step' (abs s) b = some (abs s') ∧ label' (abs s) b = label s a)
    {start finish : σ} {acts : List α} (hstart : Inv start)
    (hrun : run step start acts = some finish) :
    ∃ acts', run step' (abs start) acts' = some (abs finish) ∧
      trace step' label' (abs start) acts' = trace step label start acts := by
  induction acts generalizing start with
  | nil =>
      obtain rfl : start = finish := Option.some.inj hrun
      exact ⟨[], rfl, rfl⟩
  | cons a rest ih =>
      obtain ⟨next, hstep, hrest⟩ := (run_cons_iff step).mp hrun
      obtain ⟨acts', hrun', htrace⟩ := ih (hkeep _ _ _ hstart hstep) hrest
      rw [trace_cons_of_step step label hstep]
      obtain ⟨hsame, hsilent⟩ | ⟨b, hstep', hlabel⟩ := hmatch _ _ _ hstart hstep
      · rw [hsame] at hrun' htrace
        refine ⟨acts', hrun', ?_⟩
        rw [htrace, hsilent]
        rfl
      · refine ⟨b :: acts', (run_cons_iff step').mpr ⟨_, hstep', hrun'⟩, ?_⟩
        rw [trace_cons_of_step step' label' hstep', htrace, hlabel]

end Runs
