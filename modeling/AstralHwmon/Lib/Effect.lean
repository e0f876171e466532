import Mathlib.Tactic.Common

/-!
# Programs that raise

A program with exceptions over a state is an `Eff`: an exception ends it, and the state it
had changed stays changed. `exec` runs one, and its lemmas say what the sequencing of two
programs and a `try` do to a run.

`Keeps` is the frame rule, for programs that leave a part of the state alone. A `while`
loop may never end, so it is run for a number of rounds, and it may still be
going after them. `loop_spec` is the rule for it: an invariant that each round either keeps
or turns into the postcondition of the way the loop ended. `LoopRun.finally` is the `finally` of
a loop that has ended, and does nothing to one that has not.
-/

namespace Effect

universe u

variable {σ ε α β : Type u}

/-- A program over a state `σ` that may raise an `ε`. -/
abbrev Eff (σ ε : Type u) := ExceptT ε (StateM σ)

/-- Run a program: its result, or what it raised, and the state it leaves. -/
def exec (x : Eff σ ε α) (s : σ) : Except ε α × σ := x.run.run s

/-- A program given by its runs. -/
def Eff.of (f : σ → Except ε α × σ) : Eff σ ε α := ExceptT.mk f

@[simp] theorem exec_of (f : σ → Except ε α × σ) (s : σ) : exec (Eff.of f) s = f s := rfl

@[simp] theorem exec_pure (a : α) (s : σ) : exec (pure a : Eff σ ε α) s = (.ok a, s) := rfl

@[simp] theorem exec_throw (e : ε) (s : σ) :
    exec (throw e : Eff σ ε α) s = (.error e, s) := rfl

/-- One program after another. -/
theorem exec_bind (x : Eff σ ε α) (f : α → Eff σ ε β) (s : σ) :
    exec (x >>= f) s = match exec x s with
      | (.ok a, s') => exec (f a) s'
      | (.error e, s') => (.error e, s') := by
  rw [exec, exec, ExceptT.run_bind, StateT.run_bind]
  cases h : x.run.run s with
  | mk r s' => cases r <;> rfl

theorem exec_bind_ok {x : Eff σ ε α} {f : α → Eff σ ε β} {s s' : σ} {a : α}
    (h : exec x s = (.ok a, s')) : exec (x >>= f) s = exec (f a) s' := by
  rw [exec_bind, h]

theorem exec_bind_error {x : Eff σ ε α} {f : α → Eff σ ε β} {s s' : σ} {e : ε}
    (h : exec x s = (.error e, s')) : exec (x >>= f) s = (.error e, s') := by
  rw [exec_bind, h]

/-! ### Parts of the state left alone -/

section Frame

variable {γ : Type u} {part : σ → γ}

/-- A program that leaves a part of the state as it is, however it ends. -/
def Keeps (part : σ → γ) (x : Eff σ ε α) : Prop := ∀ s, part (exec x s).2 = part s

theorem keeps_pure (a : α) : Keeps part (pure a : Eff σ ε α) := fun _ => rfl

theorem keeps_throw (e : ε) : Keeps part (throw e : Eff σ ε α) := fun _ => rfl

theorem Keeps.bind {x : Eff σ ε α} {f : α → Eff σ ε β} (hx : Keeps part x)
    (hf : ∀ a, Keeps part (f a)) : Keeps part (x >>= f) := by
  intro s
  have hs := hx s
  rw [exec_bind]
  rcases hrun : exec x s with ⟨(e | a), s'⟩ <;> rw [hrun] at hs
  · exact hs
  · exact (hf a s').trans hs

end Frame

/-! ### Loops -/

/-- How a loop stands: ended, with a result or an exception, or still going. -/
abbrev LoopRun (σ ε β : Type u) := Option (Except ε β) × σ

/-- `while True:`, for a number of rounds. A round goes on with `Sum.inl`, or leaves the
loop with `Sum.inr`. -/
def loop (body : α → Eff σ ε (α ⊕ β)) : ℕ → α → σ → LoopRun σ ε β
  | 0, _, s => (none, s)
  | n + 1, a, s =>
    match exec (body a) s with
    | (.ok (.inl a'), s') => loop body n a' s'
    | (.ok (.inr b), s') => (some (.ok b), s')
    | (.error e, s') => (some (.error e), s')

/-- `try: … finally: f`, where `f` is told whether the result is there. An exception of
`f` takes the place of whatever there was. -/
def LoopRun.finally (o : LoopRun σ ε β) (f : Option β → Eff σ ε PUnit) : LoopRun σ ε β :=
  match o with
  | (none, s) => (none, s)
  | (some r, s) =>
    match exec (f r.toOption) s with
    | (.ok _, s') => (some r, s')
    | (.error e, s') => (some (.error e), s')

section Loop

variable {body : α → Eff σ ε (α ⊕ β)} {I : α → σ → Prop} {Post : Except ε β → σ → Prop}

/-- A round that keeps the invariant, or ends the loop as it should. -/
def RoundKeeps (I : α → σ → Prop) (Post : Except ε β → σ → Prop) : Except ε (α ⊕ β) × σ → Prop
  | (.ok (.inl a), s) => I a s
  | (.ok (.inr b), s) => Post (.ok b) s
  | (.error e, s) => Post (.error e) s

/-- A loop that is still going under the invariant, or has ended as it should. -/
def LoopRun.Meets (I : α → σ → Prop) (Post : Except ε β → σ → Prop) : LoopRun σ ε β → Prop
  | (none, s) => ∃ a, I a s
  | (some r, s) => Post r s

/-- **The loop rule.** What every round either keeps, or turns into what holds at the end,
holds of the loop as it stands. -/
theorem loop_spec (hround : ∀ a s, I a s → RoundKeeps I Post (exec (body a) s)) (n : ℕ) {a : α}
    {s : σ} (h : I a s) : (loop body n a s).Meets I Post := by
  induction n generalizing a s with
  | zero => exact ⟨a, h⟩
  | succ n ih =>
    have := hround a s h
    rw [loop]
    -- the round goes on, leaves or raises
    rcases hrun : exec (body a) s with ⟨(e | (a' | b)), s'⟩ <;> rw [hrun] at this
    · exact this
    · exact ih this
    · exact this

/-- A loop that ended ends alike when it is given more rounds. -/
theorem loop_mono {n m : ℕ} {a : α} {s s' : σ} {r : Except ε β}
    (h : loop body n a s = (some r, s')) (hnm : n ≤ m) : loop body m a s = (some r, s') := by
  induction n generalizing m a s with
  | zero => exact absurd (congrArg Prod.fst h) (by simp [loop])
  | succ n ih =>
    obtain ⟨m, rfl⟩ : ∃ m', m = m' + 1 := ⟨m - 1, by omega⟩
    rw [loop] at h ⊢
    rcases hrun : exec (body a) s with ⟨(e | (a' | b)), s''⟩ <;> rw [hrun] at h
    · exact h
    · exact ih h (Nat.le_of_succ_le_succ hnm)
    · exact h

end Loop

end Effect
