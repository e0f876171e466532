import AstralHwmon.Lib.Monitor

/-!
# A flag that works as a lock

Code under one lock often keeps a second one in its data: a flag that a thread tests and
raises in one step, and lowers when it is done. Between the two the thread calls, waits and
takes and drops the first lock, so that the flag is not a matter of who owns that.

A `Token` is such a flag with the positions of a thread that has raised it. Code obeys it when
every instruction leaves the flag and the number of such positions alone, raises the flag
where it is down and comes to one, or is at one and lowers it (`Token.Obeys`). `Code.held` is
the invariant this gives: the flag is down and nobody is at such a position, or it is up and
one frame of one thread is. `State.Held.unique` is mutual exclusion.

Beside it stand two more rules for threads with stacks: `Code.stacked_reachable`, for what holds
of a frame and its caller, and `Code.data_reachable`, for what holds of the shared data.
-/

open Transition

namespace Monitor

variable {D T F V E A : Type*}

/-- A flag in the data, and the positions of a frame that has raised it. -/
structure Token (D F : Type*) where
  raised : D → Bool
  holds : F → Bool

namespace Token

/-- How many frames are at such a position. -/
def holders (tok : Token D F) (frames : List F) : ℕ := frames.countP tok.holds

variable (tok : Token D F)

@[simp] theorem holders_nil : tok.holders [] = 0 := rfl

theorem holders_cons (f : F) (frames : List F) :
    tok.holders (f :: frames) = tok.holders [f] + tok.holders frames := by
  rw [holders, holders, holders, ← List.countP_append, List.singleton_append]

theorem holders_append (frames frames' : List F) :
    tok.holders (frames ++ frames') = tok.holders frames + tok.holders frames' :=
  List.countP_append

variable {tok}

theorem holders_of_holds {f : F} (h : tok.holds f = true) : tok.holders [f] = 1 := by
  simp [holders, h]

theorem holders_of_not_holds {f : F} (h : tok.holds f = false) : tok.holders [f] = 0 := by
  simp [holders, h]

theorem holders_congr {f f' : F} (h : tok.holds f' = tok.holds f) :
    tok.holders [f'] = tok.holders [f] := by
  simp [holders, List.countP_singleton, h]

/-- A frame at such a position is counted. -/
theorem holders_pos {frames : List F} {f : F} (hf : f ∈ frames) (h : tok.holds f = true) :
    0 < tok.holders frames :=
  List.countP_pos_iff.mpr ⟨f, hf, h⟩

/-- What an instruction may do with the flag. -/
inductive Obeys (tok : Token D F) (d : D) (f : F) (i : Instr D F V) : Prop
  | keep : tok.raised (i.data d) = tok.raised d → tok.holders i.frames = tok.holders [f] →
      tok.Obeys d f i
  /-- Tested and raised in one step. -/
  | raise : tok.raised d = false → tok.raised (i.data d) = true → tok.holders [f] = 0 →
      tok.holders i.frames = 1 → tok.Obeys d f i
  | lower : tok.raised (i.data d) = false → tok.holders [f] = 1 → tok.holders i.frames = 0 →
      tok.Obeys d f i

end Token

/-- The flag is down and no frame has raised it, or it is up and one frame of one thread
has. -/
def State.Held (tok : Token D F) (s : State D T F) : Prop :=
  (tok.raised s.data = false ∧ ∀ t, tok.holders (s.stack t) = 0) ∨
    (tok.raised s.data = true ∧ ∃ t, tok.holders (s.stack t) = 1 ∧
      ∀ t', t' ≠ t → tok.holders (s.stack t') = 0)

variable {tok : Token D F} {code : Code D T F V E A} {init : State D T F → Prop}
  {s s' : State D T F}

/-- **Mutual exclusion.** Two threads at such positions are one. -/
theorem State.Held.unique (h : s.Held tok) {t t' : T} {f f' : F} (hf : f ∈ s.stack t)
    (hf' : f' ∈ s.stack t') (hholds : tok.holds f = true) (hholds' : tok.holds f' = true) :
    t = t' := by
  have hpos := Token.holders_pos hf hholds
  have hpos' := Token.holders_pos hf' hholds'
  rcases h with ⟨-, hnone⟩ | ⟨-, t₀, -, hothers⟩
  · exact absurd (hnone t) (by omega)
  · by_contra hne
    by_cases ht : t = t₀
    · exact absurd (hothers t' fun heq => hne (ht.trans heq.symm)) (by omega)
    · exact absurd (hothers t ht) (by omega)

/-- The flag is up exactly while some frame has raised it. -/
theorem State.Held.raised_iff (h : s.Held tok) :
    tok.raised s.data = true ↔ ∃ t, ∃ f ∈ s.stack t, tok.holds f = true := by
  rcases h with ⟨hdown, hnone⟩ | ⟨hup, t₀, hone, -⟩
  · refine iff_of_false (by simp [hdown]) ?_
    rintro ⟨t, f, hf, hholds⟩
    exact absurd (hnone t) (Token.holders_pos hf hholds).ne'
  · refine iff_of_true hup ?_
    obtain ⟨f, hf, hholds⟩ := List.countP_pos_iff.mp (hone ▸ Nat.one_pos)
    exact ⟨t₀, f, hf, hholds⟩

variable [DecidableEq T]

/-- A thread's stack is replaced by one with as many such frames, and the flag stays. -/
theorem State.Held.keep (h : s.Held tok) {d : D} {lock : Option T} {t : T} {frames : List F}
    (hraised : tok.raised d = tok.raised s.data)
    (hcount : tok.holders frames = tok.holders (s.stack t)) : (s.put d lock t frames).Held tok := by
  have hstack : ∀ t', tok.holders ((s.put d lock t frames).stack t')
      = tok.holders (s.stack t') := by
    intro t'
    by_cases ht : t' = t
    · rw [ht, State.put_stack_self, hcount]
    · rw [State.put_stack_of_ne ht]
  rcases h with ⟨hdown, hnone⟩ | ⟨hup, t₀, hone, hothers⟩
  · exact Or.inl ⟨hraised.trans hdown, fun t' => (hstack t').trans (hnone t')⟩
  · exact Or.inr ⟨hraised.trans hup, t₀, (hstack t₀).trans hone,
      fun t' ht => (hstack t').trans (hothers t' ht)⟩

/-- An instruction that obeys keeps the invariant. -/
theorem State.Held.run (h : s.Held tok) {lock : Option T} {t : T} {f : F} {rest frames : List F}
    {i : Instr D F V} (hstack : s.stack t = f :: rest) (hobeys : tok.Obeys s.data f i)
    (hframes : tok.holders frames = tok.holders i.frames + tok.holders rest) :
    (s.put (i.data s.data) lock t frames).Held tok := by
  have hcount : tok.holders (s.stack t) = tok.holders [f] + tok.holders rest := by
    rw [hstack, Token.holders_cons]
  cases hobeys with
  | keep hraised hsame => exact h.keep hraised (by rw [hframes, hsame, hcount])
  | raise hdown hup hf hone =>
    rcases h with ⟨-, hnone⟩ | ⟨hup', -⟩
    · have hrest := hnone t
      refine Or.inr ⟨hup, t, ?_, fun t' ht => ?_⟩
      · rw [State.put_stack_self, hframes]
        omega
      · rw [State.put_stack_of_ne ht, hnone t']
    · exact absurd (hdown.symm.trans hup') (by decide)
  | lower hdown hf hnew =>
    rcases h with ⟨-, hnone⟩ | ⟨-, t₀, hone, hothers⟩
    · exact absurd (hnone t) (by omega)
    · -- the frame that lowers it is the one that has raised it
      obtain rfl : t = t₀ := by
        by_contra hne
        exact absurd (hothers t hne) (by omega)
      refine Or.inl ⟨hdown, fun t' => ?_⟩
      by_cases ht : t' = t
      · rw [ht, State.put_stack_self, hframes]
        omega
      · rw [State.put_stack_of_ne ht, hothers t' ht]

/-- **The token rule.** In code that obeys in every state it reaches, the flag is up exactly
while one frame of one thread has raised it. -/
theorem Code.held (hinit : ∀ s, init s → s.Held tok)
    (hinstr : ∀ s, Reachable (code.system init) s → ∀ t e f, f ∈ s.stack t →
      tok.Obeys s.data f (code.instr s e f))
    (hresume : ∀ f v, tok.holds (code.resume f v) = tok.holds f)
    (hstart : ∀ s a d t f, code.start s a = some (d, t, f) →
      tok.raised d = tok.raised s.data ∧ tok.holds f = false)
    (h : Reachable (code.system init) s) : s.Held tok := by
  obtain ⟨s₀, l, h₀, hrun⟩ := h
  refine Run.history (J := fun _ s => s.Held tok) (hinit s₀ h₀) (fun l s a s' hp hl hnext => ?_)
    hrun
  have hreach : Reachable (code.system init) s := ⟨s₀, l, h₀, hp⟩
  -- one instruction: the frame at the head of the stack is replaced by what it leaves
  have hstep : ∀ {t : T} {e : E} {f : F} {rest : List F} {i : Instr D F V} (lock : Option T),
      s.stack t = f :: rest → code.instr s e f = i →
      (s.put (i.data s.data) lock t (i.frames ++ rest)).Held tok := by
    rintro t e f rest i lock hstack rfl
    exact hl.run hstack (hinstr s hreach t e f (hstack ▸ List.mem_cons_self))
      (Token.holders_append tok _ _)
  cases Code.step_of_next hnext with
  | start hs hempty =>
    obtain ⟨hraised, hf⟩ := hstart _ _ _ _ _ hs
    exact hl.keep hraised (by rw [hempty, Token.holders_of_not_holds hf, Token.holders_nil])
  | step hstack hi => exact hstep _ hstack hi
  | acquire hstack hi _ => exact hstep _ hstack hi
  | release hstack hi => exact hstep _ hstack hi
  | call hstack hi => exact hstep _ hstack hi
  | await hstack hi => exact hstep _ hstack hi
  | exit hstack hi => exact hstep _ hstack hi
  | @ret t e f caller rest d v hstack hi =>
    have hobeys := hinstr s hreach t e f (hstack ▸ List.mem_cons_self)
    rw [hi] at hobeys
    refine hl.run hstack hobeys ?_
    -- the caller resumed by a return holds the token as it did before
    rw [Token.holders_cons tok (code.resume caller v), Token.holders_cons tok caller,
      Token.holders_congr (hresume caller v)]
    simp [Instr.frames]

/-- Every frame of a stack meets `R` with its caller; the last frame has none. -/
def Stacked (R : F → Option F → Prop) : List F → Prop
  | [] => True
  | f :: rest => R f rest.head? ∧ Stacked R rest

/-- The frames an instruction leaves meet `R`, above the caller of the frame that had it. -/
def Instr.Stacks (R : F → Option F → Prop) (caller : Option F) : Instr D F V → Prop
  | .step _ f | .acquire f | .release f | .await _ _ f => R f caller
  | .call _ callee f => R callee (some f) ∧ R f caller
  | .ret _ _ => True

/-- **Caller rule.** What holds of a frame that starts, of the frames an instruction leaves
where it held of the frame that had it, and of a caller that goes on, holds of every frame and
its caller. -/
theorem Code.stacked_reachable {R : F → Option F → Prop}
    (hinit : ∀ s, init s → ∀ t, Stacked R (s.stack t))
    (hinstr : ∀ s e f caller, R f caller → (code.instr s e f).Stacks R caller)
    (hresume : ∀ f v caller, R f caller → R (code.resume f v) caller)
    (hstart : ∀ s a d t f, code.start s a = some (d, t, f) → R f none)
    (h : Reachable (code.system init) s) (t : T) : Stacked R (s.stack t) := by
  refine h.invariant (I := fun s => ∀ t, Stacked R (s.stack t)) hinit
    (fun s a s' hall hnext => ?_) t
  -- only one stack is replaced
  have hput : ∀ {d : D} {lock : Option T} {t : T} {frames : List F}, Stacked R frames →
      ∀ t', Stacked R ((s.put d lock t frames).stack t') := by
    intro d lock t frames hframes t'
    by_cases ht : t' = t
    · rw [ht, State.put_stack_self]
      exact hframes
    · rw [State.put_stack_of_ne ht]
      exact hall t'
  have hold : ∀ {t : T} {f : F} {rest : List F}, s.stack t = f :: rest →
      R f rest.head? ∧ Stacked R rest := by
    intro t f rest hstack
    have := hall t
    rwa [hstack] at this
  cases Code.step_of_next hnext with
  | start hs hempty => exact hput ⟨hstart _ _ _ _ _ hs, trivial⟩
  | @step t e f f' rest d hstack hi | @acquire t e f f' rest hstack hi _
  | @release t e f f' rest hstack hi | @await t e f f' rest d hstack hi =>
    obtain ⟨hf, hrest⟩ := hold hstack
    have hnew := hinstr s e f rest.head? hf
    rw [hi] at hnew
    exact hput ⟨hnew, hrest⟩
  | @call t e f callee f' rest d hstack hi =>
    obtain ⟨hf, hrest⟩ := hold hstack
    have hnew := hinstr s e f rest.head? hf
    rw [hi] at hnew
    exact hput ⟨hnew.1, hnew.2, hrest⟩
  | exit hstack hi => exact hput trivial
  | ret hstack hi =>
    obtain ⟨-, hcaller, hrest⟩ := hold hstack
    exact hput ⟨hresume _ _ _ hcaller, hrest⟩

/-- **Data rule.** What holds of the data at first, and is kept by whatever starts and by
every instruction of a frame, holds of the data in every state. -/
theorem Code.data_reachable {G : D → Prop} (hinit : ∀ s, init s → G s.data)
    (hstart : ∀ s a d t f, G s.data → code.start s a = some (d, t, f) → G d)
    (hinstr : ∀ s, Reachable (code.system init) s → ∀ t e f, f ∈ s.stack t → G s.data →
      G ((code.instr s e f).data s.data))
    (h : Reachable (code.system init) s) : G s.data := by
  obtain ⟨s₀, l, h₀, hrun⟩ := h
  refine Run.history (J := fun _ s => G s.data) (hinit s₀ h₀) (fun l s a s' hp hl hnext => ?_) hrun
  have hreach : Reachable (code.system init) s := ⟨s₀, l, h₀, hp⟩
  -- an instruction of any frame keeps the property, by the assumption on its data
  have hstep : ∀ {t : T} {e : E} {f : F} {rest : List F} {i : Instr D F V},
      s.stack t = f :: rest → code.instr s e f = i → G (i.data s.data) := by
    rintro t e f rest i hstack rfl
    exact hinstr s hreach t e f (hstack ▸ List.mem_cons_self) hl
  cases Code.step_of_next hnext with
  | start hs hempty => exact hstart _ _ _ _ _ hl hs
  | step hstack hi => exact hstep hstack hi
  | acquire hstack hi _ => exact hl
  | release hstack hi => exact hl
  | call hstack hi => exact hstep hstack hi
  | await hstack hi => exact hstep hstack hi
  | exit hstack hi => exact hstep hstack hi
  | ret hstack hi => exact hstep hstack hi

end Monitor
