import Mathlib.Tactic.Common
import Mathlib.Data.List.Basic
import Mathlib.Data.Set.Basic

/-!
# Labelled transition systems and their finite runs

A `System` has a set of initial states and a labelled step relation. A finite
run is a `Run`, which records the source state and the action of each of its
steps, so that a statement about a run can speak of the state a step was taken
in. Three induction rules cover the developments that use this file.

* `ReachableBy.invariant` — a predicate of the initial states that every step
  taken under a *step condition* preserves holds in every state reached by
  steps that all meet the condition. `Reachable.invariant` is the case of no
  condition.
* `Run.history` — a relation between the steps taken so far and the current
  state, preserved by every step, holds along a whole run.
* `System.exec_run` — an executable step function run over a list of actions
  is a `Run`, which is how a concrete run is exhibited.

`Run.potential` bounds how often a run can do something, by a potential that each time costs a
unit of.

Two systems are compared by what an observer sees of their runs. A `Simulation`
matches every step of one with a run of the other that shows the same events, and
`Simulation.run` carries that to whole runs.
-/

namespace Transition

/-- A labelled transition system: its initial states and its step relation. -/
structure System (State Act : Type*) where
  /-- The states a run may start in. -/
  init : State → Prop
  step : State → Act → State → Prop

variable {State Act : Type*} {sys : System State Act}

/-- A finite run from one state to another. The list holds, oldest first, the
source state and the action of every step. -/
inductive Run (sys : System State Act) : State → List (State × Act) → State → Prop
  | refl (s : State) : Run sys s [] s
  | tail {s t u : State} {l : List (State × Act)} {a : Act} :
      Run sys s l t → sys.step t a u → Run sys s (l ++ [(t, a)]) u

/-- Every step of the run meets the condition `ok` on its source state and action. -/
def Guarded (ok : State → Act → Prop) (l : List (State × Act)) : Prop :=
  ∀ p ∈ l, ok p.1 p.2

/-- States reached from an initial state by steps that all meet `ok`. -/
def ReachableBy (sys : System State Act) (ok : State → Act → Prop) (s : State) : Prop :=
  ∃ s₀ l, sys.init s₀ ∧ Run sys s₀ l s ∧ Guarded ok l

/-- States reached from an initial state. -/
def Reachable (sys : System State Act) (s : State) : Prop :=
  ∃ s₀ l, sys.init s₀ ∧ Run sys s₀ l s

/-! ### Runs -/

@[simp] theorem Guarded.nil (ok : State → Act → Prop) : Guarded ok [] := by
  simp [Guarded]

theorem Guarded.append_iff {ok : State → Act → Prop} {l m : List (State × Act)} :
    Guarded ok (l ++ m) ↔ Guarded ok l ∧ Guarded ok m := by
  simp only [Guarded, List.mem_append]
  exact ⟨fun h => ⟨fun p hp => h p (Or.inl hp), fun p hp => h p (Or.inr hp)⟩,
    fun h p hp => hp.elim (h.1 p) (h.2 p)⟩

theorem Guarded.singleton_iff {ok : State → Act → Prop} {s : State} {a : Act} :
    Guarded ok [(s, a)] ↔ ok s a := by
  simp [Guarded]

/-- Runs compose. -/
theorem Run.trans {s t u : State} {l m : List (State × Act)}
    (h₁ : Run sys s l t) (h₂ : Run sys t m u) : Run sys s (l ++ m) u := by
  -- on the second run, which grows at its end
  induction h₂ with
  | refl => rw [List.append_nil]; exact h₁
  | tail _ hstep ih => rw [← List.append_assoc]; exact ih.tail hstep

/-- One step is a run. -/
theorem Run.single {s t : State} {a : Act} (h : sys.step s a t) : Run sys s [(s, a)] t :=
  (Run.refl s).tail h

/-- **History rule.** A relation between the steps taken and the state reached
holds along a run as soon as it holds before the first step and is preserved by
every step of the run. -/
theorem Run.history {s : State} {J : List (State × Act) → State → Prop} (h₀ : J [] s)
    (hstep : ∀ l t a u, Run sys s l t → J l t → sys.step t a u → J (l ++ [(t, a)]) u)
    {l : List (State × Act)} {t : State} (h : Run sys s l t) : J l t := by
  induction h with
  | refl => exact h₀
  | tail hp ht ih => exact hstep _ _ _ _ hp ih ht

/-- A run of a system is a run of one that has its steps. -/
theorem Run.mono {sys' : System State Act} (h : ∀ s a t, sys.step s a t → sys'.step s a t)
    {s t : State} {l : List (State × Act)} (hp : Run sys s l t) : Run sys' s l t := by
  induction hp with
  | refl => exact .refl _
  | tail _ hstep ih => exact ih.tail (h _ _ _ hstep)

/-! ### Reachable states -/

theorem ReachableBy.init {ok : State → Act → Prop} {s : State} (h : sys.init s) :
    ReachableBy sys ok s :=
  ⟨s, [], h, Run.refl s, Guarded.nil ok⟩

theorem ReachableBy.step {ok : State → Act → Prop} {s t : State} {a : Act}
    (h : ReachableBy sys ok s) (hok : ok s a) (hstep : sys.step s a t) :
    ReachableBy sys ok t := by
  obtain ⟨s₀, l, h₀, hp, hg⟩ := h
  exact ⟨s₀, _, h₀, hp.tail hstep, Guarded.append_iff.mpr ⟨hg, Guarded.singleton_iff.mpr hok⟩⟩

/-- Dropping the step condition. -/
theorem ReachableBy.reachable {ok : State → Act → Prop} {s : State}
    (h : ReachableBy sys ok s) : Reachable sys s := by
  obtain ⟨s₀, l, h₀, hp, -⟩ := h
  exact ⟨s₀, l, h₀, hp⟩

/-- Weakening the step condition. -/
theorem ReachableBy.mono {ok ok' : State → Act → Prop} (hok : ∀ s a, ok s a → ok' s a) {s : State}
    (h : ReachableBy sys ok s) : ReachableBy sys ok' s := by
  obtain ⟨s₀, l, h₀, hp, hg⟩ := h
  exact ⟨s₀, l, h₀, hp, fun p hp => hok _ _ (hg p hp)⟩

theorem reachableBy_true_iff {s : State} :
    ReachableBy sys (fun _ _ => True) s ↔ Reachable sys s := by
  refine ⟨ReachableBy.reachable, fun ⟨s₀, l, h₀, hp⟩ => ⟨s₀, l, h₀, hp, fun _ _ => trivial⟩⟩

/-- **Invariant rule under a step condition.** -/
theorem ReachableBy.invariant {ok : State → Act → Prop} {I : State → Prop}
    (h₀ : ∀ s, sys.init s → I s)
    (hstep : ∀ s a t, I s → ok s a → sys.step s a t → I t) {s : State}
    (h : ReachableBy sys ok s) : I s := by
  obtain ⟨s₀, l, hi, hp, hg⟩ := h
  -- on the run; the condition of its last step is the last entry of the guard
  induction hp with
  | refl => exact h₀ _ hi
  | tail hp ht ih =>
    obtain ⟨hl, ha⟩ := Guarded.append_iff.mp hg
    exact hstep _ _ _ (ih hl) (Guarded.singleton_iff.mp ha) ht

/-- **Invariant rule.** -/
theorem Reachable.invariant {I : State → Prop} (h₀ : ∀ s, sys.init s → I s)
    (hstep : ∀ s a t, I s → sys.step s a t → I t) {s : State}
    (h : Reachable sys s) : I s :=
  ReachableBy.invariant h₀ (fun s a t hI _ ht => hstep s a t hI ht) (reachableBy_true_iff.mpr h)

theorem Reachable.run {s t : State} {l : List (State × Act)} (h : Reachable sys s)
    (hp : Run sys s l t) : Reachable sys t := by
  obtain ⟨s₀, m, h₀, hm⟩ := h
  exact ⟨s₀, m ++ l, h₀, hm.trans hp⟩

/-! ### Executable systems -/

namespace System

/-- The system of a guarded, executable step function: `next s a` is `none`
when `a` is not enabled in `s`. -/
def ofNext (init : State → Prop) (next : State → Act → Option State) : System State Act where
  init := init
  step s a t := next s a = some t

/-- A test of the outcome of a step or of an execution. -/
theorem any_decide_iff {α : Type*} {o : Option α} {p : α → Prop} [DecidablePred p] :
    (o.any fun a => decide (p a)) = true ↔ ∃ a, o = some a ∧ p a := by
  simp only [Option.any_eq_true, decide_eq_true_eq]

/-- A test of it, and of what it leads to. -/
theorem any_decide_and_iff {α : Type*} {o : Option α} {p : α → Prop} [DecidablePred p]
    {q : α → Bool} :
    (o.any fun a => decide (p a) && q a) = true ↔ ∃ a, o = some a ∧ p a ∧ q a = true := by
  simp only [Option.any_eq_true, Bool.and_eq_true, decide_eq_true_eq]

/-- Run a list of actions; `none` when one of them is not enabled. -/
def exec (next : State → Act → Option State) : State → List Act → Option State
  | s, [] => some s
  | s, a :: as =>
    match next s a with
    | none => none
    | some t => exec next t as

/-- The source state and the action of every step of an execution. -/
def trace (next : State → Act → Option State) : State → List Act → List (State × Act)
  | _, [] => []
  | s, a :: as => (s, a) ::
    match next s a with
    | none => []
    | some t => trace next t as

/-- An execution of the step function is the run of its trace. -/
theorem exec_trace {init : State → Prop} {next : State → Act → Option State} :
    ∀ {as : List Act} {s t : State}, exec next s as = some t →
      Run (ofNext init next) s (trace next s as) t := by
  intro as
  induction as with
  | nil =>
    intro s t h
    obtain rfl : s = t := by simpa [exec] using h
    exact Run.refl s
  | cons a as ih =>
    intro s t h
    cases hn : next s a with
    | none => simp [exec, hn] at h
    | some u =>
      have hp := ih (s := u) (t := t) (by simpa [exec, hn] using h)
      -- runs grow at the end, so the first step is put in front by composition
      have hstep : (ofNext init next).step s a u := hn
      simp only [trace, hn]
      exact (Run.single hstep).trans hp

theorem trace_actions {next : State → Act → Option State} :
    ∀ {as : List Act} {s t : State}, exec next s as = some t →
      (trace next s as).map Prod.snd = as := by
  intro as
  induction as with
  | nil => intros; rfl
  | cons a as ih =>
    intro s t h
    cases hn : next s a with
    | none => simp [exec, hn] at h
    | some u =>
      simp only [trace, hn, List.map_cons]
      rw [ih (s := u) (t := t) (by simpa [exec, hn] using h)]

/-- An execution of the step function is a run over its actions. -/
theorem exec_run {init : State → Prop} {next : State → Act → Option State} {as : List Act}
    {s t : State} (h : exec next s as = some t) :
    ∃ l, Run (ofNext init next) s l t ∧ l.map Prod.snd = as :=
  ⟨trace next s as, exec_trace h, trace_actions h⟩

/-- The end of an execution that starts in an initial state is reachable. -/
theorem exec_reachable {init : State → Prop} {next : State → Act → Option State}
    {as : List Act} {s t : State} (h₀ : init s) (h : exec next s as = some t) :
    Reachable (ofNext init next) t := by
  obtain ⟨l, hp, -⟩ := @exec_run _ _ init _ _ _ _ h
  exact ⟨s, l, h₀, hp⟩

/-- Run a list of actions whose steps all meet `ok`; `none` when one does not, or
is not enabled. -/
def execBy (next : State → Act → Option State) (ok : State → Act → Prop)
    [∀ s a, Decidable (ok s a)] : State → List Act → Option State
  | s, [] => some s
  | s, a :: as =>
    if ok s a then
      match next s a with
      | none => none
      | some t => execBy next ok t as
    else none

/-- Such an execution is a run whose steps all meet the condition. -/
theorem execBy_run {init : State → Prop} {next : State → Act → Option State}
    {ok : State → Act → Prop} [∀ s a, Decidable (ok s a)] :
    ∀ {as : List Act} {s t : State}, execBy next ok s as = some t →
      ∃ l, Run (ofNext init next) s l t ∧ Guarded ok l := by
  intro as
  -- on the actions; each is enabled and allowed where it is taken
  induction as with
  | nil =>
    intro s t h
    obtain rfl : s = t := by simpa [execBy] using h
    exact ⟨[], Run.refl s, Guarded.nil ok⟩
  | cons a as ih =>
    intro s t h
    simp only [execBy] at h
    split_ifs at h with hok
    cases hn : next s a with
    | none => simp [hn] at h
    | some u =>
      obtain ⟨l, hp, hl⟩ := ih (s := u) (t := t) (by simpa [hn] using h)
      have hstep : (ofNext init next).step s a u := hn
      exact ⟨(s, a) :: l, (Run.single hstep).trans hp,
        Guarded.append_iff.mpr ⟨Guarded.singleton_iff.mpr hok, hl⟩⟩

theorem execBy_reachableBy {init : State → Prop} {next : State → Act → Option State}
    {ok : State → Act → Prop} [∀ s a, Decidable (ok s a)] {as : List Act} {s t : State}
    (h₀ : init s) (h : execBy next ok s as = some t) : ReachableBy (ofNext init next) ok t := by
  obtain ⟨l, hp, hl⟩ := @execBy_run _ _ init _ _ _ _ _ _ h
  exact ⟨s, l, h₀, hp, hl⟩

end System

/-! ### Potentials -/

section Potential

/-- How many steps of a run meet `p`. -/
def countSteps (p : State → Act → Prop) [∀ s a, Decidable (p s a)] (l : List (State × Act)) : ℕ :=
  l.countP fun x => decide (p x.1 x.2)

variable {p : State → Act → Prop} [∀ s a, Decidable (p s a)]

@[simp] theorem countSteps_nil : countSteps p [] = 0 := rfl

theorem countSteps_append (l m : List (State × Act)) :
    countSteps p (l ++ m) = countSteps p l + countSteps p m := List.countP_append

@[simp] theorem countSteps_singleton (s : State) (a : Act) :
    countSteps p [(s, a)] = if p s a then 1 else 0 := by
  by_cases h : p s a <;> simp [countSteps, h]

/-- **Potential rule.** If every step that `spends` costs a unit of the potential `μ`, and only
the steps that `earns` give one back, then a run spends no more than it started with and has
earned. The steps need to keep to this where the invariant `I` holds. -/
theorem Run.potential {I : State → Prop} {μ : State → ℕ} {spends earns : State → Act → Prop}
    [∀ s a, Decidable (spends s a)] [∀ s a, Decidable (earns s a)]
    (hI : ∀ s a t, I s → sys.step s a t → I t)
    (hstep : ∀ s a t, I s → sys.step s a t →
      μ t + (if spends s a then 1 else 0) ≤ μ s + if earns s a then 1 else 0)
    {s t : State} {l : List (State × Act)} (h : I s) (hp : Run sys s l t) :
    μ t + countSteps spends l ≤ μ s + countSteps earns l := by
  suffices I t ∧ μ t + countSteps spends l ≤ μ s + countSteps earns l from this.2
  induction hp with
  | refl => exact ⟨h, le_rfl⟩
  | tail _ hlast ih =>
    obtain ⟨ht, ih⟩ := ih
    have hmove := hstep _ _ _ ht hlast
    refine ⟨hI _ _ _ ht hlast, ?_⟩
    rw [countSteps_append, countSteps_append, countSteps_singleton, countSteps_singleton]
    omega

/-- The rule for a potential that nothing but the steps that `earns` can raise. -/
theorem Run.potential_le {μ : State → ℕ} {earns : State → Act → Prop}
    [∀ s a, Decidable (earns s a)]
    (hstep : ∀ s a t, sys.step s a t → μ t ≤ μ s + if earns s a then 1 else 0)
    {s t : State} {l : List (State × Act)} (hp : Run sys s l t) :
    μ t ≤ μ s + countSteps earns l := by
  have hle : μ t + countSteps (fun _ _ => False) l ≤ μ s + countSteps earns l := by
    refine Run.potential (I := fun _ => True) (fun _ _ _ _ _ => trivial) ?_ trivial hp
    intro u a v _ hlast
    rw [if_neg not_false, Nat.add_zero]
    exact hstep u a v hlast
  exact (Nat.le_add_right _ _).trans hle

end Potential

/-! ### Simulation -/

section Simulation

variable {State' Act' Obs : Type*}

/-- What is observed of a run, where a step shows at most one event. -/
def observed (event : State → Act → Option Obs) (l : List (State × Act)) : List Obs :=
  l.filterMap fun p => event p.1 p.2

theorem observed_append (event : State → Act → Option Obs) (l m : List (State × Act)) :
    observed event (l ++ m) = observed event l ++ observed event m :=
  List.filterMap_append

@[simp] theorem observed_singleton (event : State → Act → Option Obs) (s : State) (a : Act) :
    observed event [(s, a)] = (event s a).toList := by
  cases h : event s a <;> simp [observed, h]

/-- A relation under which every step of `sys` is matched by a run of `spec` that shows
the same. -/
structure Simulation (sys : System State Act) (spec : System State' Act')
    (event : State → Act → Option Obs) (event' : State' → Act' → Option Obs) where
  rel : State → State' → Prop
  init : ∀ s, sys.init s → ∃ s', spec.init s' ∧ rel s s'
  step : ∀ {s : State} {s' : State'} {a : Act} {t : State}, rel s s' → sys.step s a t →
    ∃ l t', Run spec s' l t' ∧ observed event' l = (event s a).toList ∧ rel t t'

/-- **Simulation rule.** What is observed of a run is observed of a run of the other
system, which ends in a related state. -/
theorem Simulation.run {spec : System State' Act'} {event : State → Act → Option Obs}
    {event' : State' → Act' → Option Obs} (sim : Simulation sys spec event event') {s t : State}
    {l : List (State × Act)} {s' : State'} (hrel : sim.rel s s') (hp : Run sys s l t) :
    ∃ l' t', Run spec s' l' t' ∧ observed event' l' = observed event l ∧ sim.rel t t' := by
  induction hp with
  | refl => exact ⟨[], s', Run.refl s', rfl, hrel⟩
  | tail _ hstep ih =>
    obtain ⟨l', t', hp', hobs, ht⟩ := ih
    obtain ⟨m, u', hm, hobs', hu⟩ := sim.step ht hstep
    refine ⟨l' ++ m, u', hp'.trans hm, ?_, hu⟩
    rw [observed_append, observed_append, hobs, hobs', observed_singleton]

end Simulation

end Transition
