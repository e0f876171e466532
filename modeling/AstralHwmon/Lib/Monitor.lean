import AstralHwmon.Lib.Transition
import Mathlib.Logic.Function.Basic

/-!
# Threads with call stacks over one lock

Threads run code that calls, returns, takes and drops one lock, and makes calls that
block. A thread is its stack of frames, the running one first; a frame is a position
in a function with the locals it still needs. The code says what a frame does next
(`Instr`) and what a frame does with the value its callee returns; a call can be one
that the function does not see itself making, such as a callback.

A lock discipline is a set of positions at which the lock is held (`holds`). Code
obeys it when every instruction moves in and out of the set with the lock, and calls,
blocks and returns outside of it (`Instr.Obeys`). `Code.locked` is the invariant this
gives: the owner of the lock is the thread whose running frame is at such a position,
and no frame that waits for a callee is. From it follow the three facts that a
discipline is for:

* a thread that is about to take the lock does not own it (`Code.not_owner_of_acquires`);
* a thread in a call that blocks does not own it (`Code.not_owner_of_awaits`);
* the thread that owns it can go on (`Code.owner_goesOn`).

`Code.all_reachable` is the rule for what holds of every frame together with the
shared data.
-/

open Transition

namespace Monitor

variable {D T F V E A : Type*}

/-- What a frame does next. -/
inductive Instr (D F V : Type*)
  /-- A step of its own. -/
  | step (d : D) (f : F)
  /-- It takes the lock, as soon as no thread has it. -/
  | acquire (f : F)
  | release (f : F)
  /-- It calls; `f` is where it stands when the callee returns. -/
  | call (d : D) (callee f : F)
  /-- A call that blocks until it is `ready`. -/
  | await (ready : Bool) (d : D) (f : F)
  | ret (d : D) (v : V)

namespace Instr

/-- The shared data after the instruction, given what they were. -/
def data (d₀ : D) : Instr D F V → D
  | .step d _ | .call d _ _ | .await _ d _ | .ret d _ => d
  | .acquire _ | .release _ => d₀

/-- The frames it puts on the stack. -/
def frames : Instr D F V → List F
  | .step _ f | .acquire f | .release f | .await _ _ f => [f]
  | .call _ callee f => [callee, f]
  | .ret _ _ => []

/-- The instruction of a frame keeps to the positions at which the lock is held. -/
def Obeys (holds : F → Bool) (f : F) : Instr D F V → Prop
  | .step _ f' => holds f' = holds f
  | .acquire f' => holds f = false ∧ holds f' = true
  | .release f' => holds f = true ∧ holds f' = false
  | .call _ callee f' => holds f = false ∧ holds callee = false ∧ holds f' = false
  | .await _ _ f' => holds f = false ∧ holds f' = false
  | .ret _ _ => holds f = false

end Instr

/-- The shared data, the owner of the lock, and the stack of every thread. -/
structure State (D T F : Type*) where
  data : D
  lock : Option T
  stack : T → List F

/-- The code the threads run. -/
structure Code (D T F V E A : Type*) where
  /-- What a frame does next, in an environment. -/
  instr : State D T F → E → F → Instr D F V
  /-- A frame takes the value its callee returned. -/
  resume : F → V → F
  /-- What starts on a thread that is not running. -/
  start : State D T F → A → Option (D × T × F)

/-- The steps: something starts on a thread, or a thread goes on. -/
inductive Act (T E A : Type*)
  | start (a : A)
  | run (t : T) (e : E)

section Steps

variable [DecidableEq T]

/-- A thread's stack, the lock and the data are replaced. -/
def State.put (s : State D T F) (d : D) (lock : Option T) (t : T) (frames : List F) :
    State D T F :=
  ⟨d, lock, Function.update s.stack t frames⟩

@[simp] theorem State.put_stack_self (s : State D T F) (d : D) (lock : Option T) (t : T)
    (frames : List F) : (s.put d lock t frames).stack t = frames := by
  simp [State.put]

theorem State.put_stack_of_ne {s : State D T F} {d : D} {lock : Option T} {t t' : T}
    {frames : List F} (h : t' ≠ t) : (s.put d lock t frames).stack t' = s.stack t' := by
  simp [State.put, h]

/-- A thread executes the instruction of its running frame, above the frames `rest`. -/
def Code.exec (code : Code D T F V E A) (s : State D T F) (t : T) (rest : List F) :
    Instr D F V → Option (State D T F)
  | .step d f => some (s.put d s.lock t (f :: rest))
  | .acquire f => if s.lock.isNone then some (s.put s.data (some t) t (f :: rest)) else none
  | .release f => some (s.put s.data none t (f :: rest))
  | .call d callee f => some (s.put d s.lock t (callee :: f :: rest))
  | .await ready d f => if ready then some (s.put d s.lock t (f :: rest)) else none
  | .ret d v =>
    match rest with
    | [] => some (s.put d s.lock t [])
    | caller :: rest => some (s.put d s.lock t (code.resume caller v :: rest))

/-- The step an action takes, if it is enabled. -/
def Code.next (code : Code D T F V E A) (s : State D T F) : Act T E A → Option (State D T F)
  | .start a =>
    match code.start s a with
    | some (d, t, f) => if (s.stack t).isEmpty then some (s.put d s.lock t [f]) else none
    | none => none
  | .run t e =>
    match s.stack t with
    | [] => none
    | f :: rest => code.exec s t rest (code.instr s e f)

/-- The threads interleaved in every order. -/
def Code.system (code : Code D T F V E A) (init : State D T F → Prop) :
    System (State D T F) (Act T E A) :=
  System.ofNext init code.next

variable {code : Code D T F V E A} {init : State D T F → Prop} {s s' : State D T F}

/-- What a step can be. -/
inductive Code.Step (code : Code D T F V E A) (s : State D T F) : State D T F → Prop
  | start {a : A} {d : D} {t : T} {f : F} : code.start s a = some (d, t, f) → s.stack t = [] →
      code.Step s (s.put d s.lock t [f])
  | step {t : T} {e : E} {f f' : F} {rest : List F} {d : D} : s.stack t = f :: rest →
      code.instr s e f = .step d f' → code.Step s (s.put d s.lock t (f' :: rest))
  | acquire {t : T} {e : E} {f f' : F} {rest : List F} : s.stack t = f :: rest →
      code.instr s e f = .acquire f' → s.lock = none →
      code.Step s (s.put s.data (some t) t (f' :: rest))
  | release {t : T} {e : E} {f f' : F} {rest : List F} : s.stack t = f :: rest →
      code.instr s e f = .release f' → code.Step s (s.put s.data none t (f' :: rest))
  | call {t : T} {e : E} {f callee f' : F} {rest : List F} {d : D} : s.stack t = f :: rest →
      code.instr s e f = .call d callee f' → code.Step s (s.put d s.lock t (callee :: f' :: rest))
  | await {t : T} {e : E} {f f' : F} {rest : List F} {d : D} : s.stack t = f :: rest →
      code.instr s e f = .await true d f' → code.Step s (s.put d s.lock t (f' :: rest))
  | exit {t : T} {e : E} {f : F} {d : D} {v : V} : s.stack t = [f] →
      code.instr s e f = .ret d v → code.Step s (s.put d s.lock t [])
  | ret {t : T} {e : E} {f caller : F} {rest : List F} {d : D} {v : V} :
      s.stack t = f :: caller :: rest → code.instr s e f = .ret d v →
      code.Step s (s.put d s.lock t (code.resume caller v :: rest))

theorem Code.step_of_next {a : Act T E A} (h : code.next s a = some s') : code.Step s s' := by
  cases a with
  | start a =>
    simp only [Code.next] at h
    split at h
    -- a call begins on an empty stack
    next d t f hstart =>
      split at h
      next hempty =>
        obtain rfl := Option.some.inj h
        exact .start hstart (List.isEmpty_iff.mp hempty)
      next => exact absurd h (by simp)
    next => exact absurd h (by simp)
  | run t e =>
    simp only [Code.next] at h
    split at h
    next => exact absurd h (by simp)
    next f rest hstack =>
      -- and a thread with a frame does what the frame's instruction says
      cases hinstr : code.instr s e f with
      | step d f' =>
        rw [hinstr, Code.exec] at h
        exact Option.some.inj h ▸ .step hstack hinstr
      | acquire f' =>
        rw [hinstr, Code.exec] at h
        split at h
        next hfree =>
          exact Option.some.inj h ▸ .acquire hstack hinstr (Option.isNone_iff_eq_none.mp hfree)
        next => exact absurd h (by simp)
      | release f' =>
        rw [hinstr, Code.exec] at h
        exact Option.some.inj h ▸ .release hstack hinstr
      | call d callee f' =>
        rw [hinstr, Code.exec] at h
        exact Option.some.inj h ▸ .call hstack hinstr
      | await ready d f' =>
        rw [hinstr, Code.exec] at h
        cases ready with
        | false => exact absurd h (by simp)
        | true => exact Option.some.inj h ▸ .await hstack hinstr
      | ret d v =>
        rw [hinstr] at h
        cases rest with
        | nil => exact Option.some.inj h ▸ .exit hstack hinstr
        | cons caller rest => exact Option.some.inj h ▸ .ret hstack hinstr

/-! ### What holds of every frame -/

/-- Every frame on every stack meets `R`, with the shared data and its thread. -/
def State.All (R : D → T → F → Prop) (s : State D T F) : Prop :=
  ∀ t, ∀ f ∈ s.stack t, R s.data t f

/-- A thread's stack is replaced by frames that meet `R`, as do all the others with the
new data. -/
theorem State.All.put {R : D → T → F → Prop} {d : D} {lock : Option T} {t : T}
    {frames : List F} (hothers : ∀ t', ∀ g ∈ s.stack t', R d t' g)
    (hframes : ∀ f ∈ frames, R d t f) : (s.put d lock t frames).All R := by
  intro t' f hf
  by_cases ht : t' = t
  · subst ht
    rw [State.put_stack_self] at hf
    exact hframes f hf
  · rw [State.put_stack_of_ne ht] at hf
    exact hothers t' f hf

/-- **Frame rule.** What holds of the frames that start, and is kept by every
instruction, for the frames it leaves and for all the others, holds of every frame. -/
theorem Code.all_reachable {R : D → T → F → Prop} (hinit : ∀ s, init s → s.All R)
    (hstart : ∀ s a d t f, s.All R → code.start s a = some (d, t, f) →
      (∀ t', ∀ g ∈ s.stack t', R d t' g) ∧ R d t f)
    (hinstr : ∀ s t e f, s.All R → f ∈ s.stack t →
      (∀ t', ∀ g ∈ s.stack t', R ((code.instr s e f).data s.data) t' g) ∧
        ∀ g ∈ (code.instr s e f).frames, R ((code.instr s e f).data s.data) t g)
    (hresume : ∀ d t f v, R d t f → R d t (code.resume f v))
    (h : Reachable (code.system init) s) : s.All R := by
  refine h.invariant hinit (fun s a s' hall hnext => ?_)
  -- the frames below the running one stay, with the new data
  have hrun : ∀ {t : T} {e : E} {f : F} {rest : List F} {i : Instr D F V} (lock : Option T),
      s.stack t = f :: rest → code.instr s e f = i →
      (s.put (i.data s.data) lock t (i.frames ++ rest)).All R := by
    rintro t e f rest i lock hstack rfl
    obtain ⟨hothers, hframes⟩ := hinstr s t e f hall (hstack ▸ List.mem_cons_self)
    refine State.All.put hothers fun g hg => (List.mem_append.mp hg).elim (hframes g) fun hg => ?_
    exact hothers t g (hstack ▸ List.mem_cons_of_mem f hg)
  cases Code.step_of_next hnext with
  | start hs hempty =>
    obtain ⟨hothers, hnew⟩ := hstart s _ _ _ _ hall hs
    exact State.All.put hothers fun g hg => List.mem_singleton.mp hg ▸ hnew
  | step hstack hi => exact hrun _ hstack hi
  | acquire hstack hi _ => exact hrun _ hstack hi
  | release hstack hi => exact hrun _ hstack hi
  | call hstack hi => exact hrun _ hstack hi
  | await hstack hi => exact hrun _ hstack hi
  | exit hstack hi => exact hrun _ hstack hi
  | @ret t e f caller rest d v hstack hi =>
    obtain ⟨hothers, -⟩ := hinstr s t e f hall (hstack ▸ List.mem_cons_self)
    rw [hi] at hothers
    refine State.All.put hothers fun g hg => ?_
    rcases List.mem_cons.mp hg with rfl | hg
    · refine hresume _ _ _ _ (hothers t caller ?_)
      rw [hstack]
      exact List.mem_cons_of_mem f List.mem_cons_self
    · refine hothers t g ?_
      rw [hstack]
      exact List.mem_cons_of_mem f (List.mem_cons_of_mem caller hg)

/-! ### The discipline -/

/-- In a state, every frame keeps to the positions at which the lock is held. -/
structure Code.Disciplined (code : Code D T F V E A) (holds : F → Bool) (s : State D T F) :
    Prop where
  instr : ∀ t e, ∀ f ∈ s.stack t, (code.instr s e f).Obeys holds f
  resume : ∀ f v, holds (code.resume f v) = holds f
  start : ∀ a d t f, code.start s a = some (d, t, f) → holds f = false

/-- The owner of the lock is the thread whose running frame is at a position at which it
is held; no frame waits for a callee at such a position. -/
def State.Locked (holds : F → Bool) (s : State D T F) : Prop :=
  ∀ t, (∀ f ∈ (s.stack t).tail, holds f = false) ∧
    (s.lock = some t ↔ (s.stack t).head?.any holds = true)

variable {holds : F → Bool}

omit [DecidableEq T] in
/-- The invariant, for a thread whose stack is known. -/
theorem State.Locked.of_stack (h : s.Locked holds) {t : T} {f : F} {rest : List F}
    (hstack : s.stack t = f :: rest) :
    (∀ g ∈ rest, holds g = false) ∧ (s.lock = some t ↔ holds f = true) := by
  have ht := h t
  rw [hstack] at ht
  exact ht

/-- A thread's stack is replaced, and the lock changes hands as its running frame says. -/
theorem State.Locked.put {d : D} {lock : Option T} {t : T} {frames : List F}
    (h : s.Locked holds) (htail : ∀ g ∈ frames.tail, holds g = false)
    (hself : lock = some t ↔ frames.head?.any holds = true)
    (hothers : ∀ t', t' ≠ t → (lock = some t' ↔ s.lock = some t')) :
    (s.put d lock t frames).Locked holds := by
  intro t'
  by_cases ht : t' = t
  · subst ht
    rw [State.put_stack_self]
    exact ⟨htail, hself⟩
  · rw [State.put_stack_of_ne ht]
    exact ⟨(h t').1, (hothers t' ht).trans (h t').2⟩

/-- One step keeps the invariant. -/
theorem State.Locked.step (h : s.Locked holds) (hd : code.Disciplined holds s)
    (hstep : code.Step s s') : s'.Locked holds := by
  have hobeys : ∀ {t : T} {e : E} {f : F} {rest : List F} {i : Instr D F V},
      s.stack t = f :: rest → code.instr s e f = i → i.Obeys holds f :=
    fun hstack hi => hi ▸ hd.instr _ _ _ (hstack ▸ List.mem_cons_self)
  cases hstep with
  | @start a d t f hs hempty =>
    have hold := h t
    rw [hempty] at hold
    have hnew := hd.start _ _ _ _ hs
    exact h.put (by simp) (hold.2.trans (by simp [hnew])) (fun _ _ => Iff.rfl)
  | step hstack hi =>
    obtain ⟨hrest, hown⟩ := h.of_stack hstack
    have hsame := hobeys hstack hi
    exact h.put hrest (hown.trans (by simp [show holds _ = holds _ from hsame]))
      (fun _ _ => Iff.rfl)
  | acquire hstack hi hfree =>
    obtain ⟨hrest, -⟩ := h.of_stack hstack
    obtain ⟨-, hnew⟩ := hobeys hstack hi
    exact h.put hrest (by simp [hnew]) (fun t' ht => by simp [hfree, Ne.symm ht])
  | release hstack hi =>
    obtain ⟨hrest, hown⟩ := h.of_stack hstack
    obtain ⟨hheld, hnew⟩ := hobeys hstack hi
    have howner := hown.mpr hheld
    exact h.put hrest (by simp [hnew]) (fun t' ht => by simp [howner, Ne.symm ht])
  | call hstack hi =>
    obtain ⟨hrest, hown⟩ := h.of_stack hstack
    obtain ⟨hfree, hcallee, hcaller⟩ := hobeys hstack hi
    refine h.put (fun g hg => ?_) (hown.trans (by simp [hfree, hcallee])) (fun _ _ => Iff.rfl)
    rcases List.mem_cons.mp hg with rfl | hg
    exacts [hcaller, hrest g hg]
  | await hstack hi =>
    obtain ⟨hrest, hown⟩ := h.of_stack hstack
    obtain ⟨hfree, hnew⟩ := hobeys hstack hi
    exact h.put hrest (hown.trans (by simp [hfree, hnew])) (fun _ _ => Iff.rfl)
  | exit hstack hi =>
    obtain ⟨-, hown⟩ := h.of_stack hstack
    have hfree : holds _ = false := hobeys hstack hi
    exact h.put (by simp) (hown.trans (by simp [hfree])) (fun _ _ => Iff.rfl)
  | @ret t e f caller rest d v hstack hi =>
    obtain ⟨hrest, hown⟩ := h.of_stack hstack
    have hfree : holds f = false := hobeys hstack hi
    -- the caller waited at a position at which the lock is not held
    have hcaller := (hd.resume caller v).trans (hrest caller List.mem_cons_self)
    exact h.put (fun g hg => hrest g (List.mem_cons_of_mem _ hg))
      (hown.trans (by simp [hfree, hcaller])) (fun _ _ => Iff.rfl)

/-- **The owner of the lock.** In code that keeps the discipline in every state it
reaches, the lock's owner is the thread that is at a position at which it is held. -/
theorem Code.locked (hinit : ∀ s, init s → s.Locked holds)
    (hd : ∀ s, Reachable (code.system init) s → code.Disciplined holds s)
    (h : Reachable (code.system init) s) : s.Locked holds := by
  obtain ⟨s₀, l, h₀, hrun⟩ := h
  refine Run.history (J := fun _ s => s.Locked holds) (hinit s₀ h₀) (fun l s a s' hp hl hnext => ?_)
    hrun
  exact hl.step (hd s ⟨s₀, l, h₀, hp⟩) (Code.step_of_next hnext)

/-- The thread is about to take the lock. -/
def Code.Acquires (code : Code D T F V E A) (s : State D T F) (t : T) : Prop :=
  ∃ e f rest f', s.stack t = f :: rest ∧ code.instr s e f = .acquire f'

/-- The thread is in a call that blocks. -/
def Code.Awaits (code : Code D T F V E A) (s : State D T F) (t : T) : Prop :=
  ∃ e f rest ready d f', s.stack t = f :: rest ∧ code.instr s e f = .await ready d f'

omit [DecidableEq T] in
theorem Code.not_owner_of_acquires (hl : s.Locked holds) (hd : code.Disciplined holds s) {t : T}
    (h : code.Acquires s t) : s.lock ≠ some t := by
  obtain ⟨e, f, rest, f', hstack, hi⟩ := h
  have hobeys := hd.instr t e f (hstack ▸ List.mem_cons_self)
  rw [hi] at hobeys
  intro howner
  exact absurd ((hl.of_stack hstack).2.mp howner) (by simp [hobeys.1])

omit [DecidableEq T] in
theorem Code.not_owner_of_awaits (hl : s.Locked holds) (hd : code.Disciplined holds s) {t : T}
    (h : code.Awaits s t) : s.lock ≠ some t := by
  obtain ⟨e, f, rest, ready, d, f', hstack, hi⟩ := h
  have hobeys := hd.instr t e f (hstack ▸ List.mem_cons_self)
  rw [hi] at hobeys
  intro howner
  exact absurd ((hl.of_stack hstack).2.mp howner) (by simp [hobeys.1])

/-- The owner of the lock is never held up: its next step is its own. -/
theorem Code.owner_goesOn (hl : s.Locked holds) (hd : code.Disciplined holds s) {t : T}
    (h : s.lock = some t) (e : E) : ∃ s', code.next s (.run t e) = some s' := by
  have hhead := (hl t).2.mp h
  cases hstack : s.stack t with
  | nil => simp [hstack] at hhead
  | cons f rest =>
    have hheld : holds f = true := by simpa [hstack] using hhead
    have hobeys := hd.instr t e f (hstack ▸ List.mem_cons_self)
    simp only [Code.next, hstack]
    -- outside the lock's positions only
    cases hi : code.instr s e f with
    | step d f' => exact ⟨_, rfl⟩
    | release f' => exact ⟨_, rfl⟩
    | acquire f' | call d callee f' | await ready d f' =>
      rw [hi] at hobeys
      exact absurd hobeys.1 (by simp [hheld])
    | ret d v =>
      rw [hi] at hobeys
      exact absurd (show holds f = false from hobeys) (by simp [hheld])

end Steps

end Monitor
