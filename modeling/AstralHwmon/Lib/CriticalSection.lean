import AstralHwmon.Lib.Monitor
import Mathlib.Logic.Relation

/-!
# Calls whose body runs under one lock

Any number of threads call the methods of an object. A call looks at its request; it
answers at once, or takes the object's lock, runs its body one statement at a time,
drops the lock and returns (`Method.code`, code for the threads of `Monitor`). A
statement reads and writes the shared data and is handed whatever the environment
gives it.

Beside it stands the object as its callers want it: a call is served in one step, at
some moment after it was made and before it returns (`object`). What one step may do is
what the body does when it is left alone (`Method.Serves`).

`Method.simulation` says that the second explains the first: every run of the threads
shows the calls and the answers of a run of the object, and whenever no thread is in a
body the data are the object's. The simulation serves a call at the last statement of
its body. Until then the object keeps the data the body started from, and the data of
the threads are those of a body under way (`Method.Under`).
-/

open Transition Monitor

namespace CriticalSection

variable {D T Q L E R : Type*}

/-- The methods of an object: requests `Q`, answers `R`, and the positions `L` of the
body, which is run under the lock. -/
structure Method (D Q L E R : Type*) where
  /-- Before the lock: the answer, or where the body starts. -/
  enter : Q → R ⊕ L
  /-- One statement: the data it leaves, and where the body goes on or what it answers. -/
  body : D → E → L → D × (L ⊕ R)

/-- What a caller sees: calls and answers. -/
inductive Event (T Q R : Type*)
  | invoke (t : T) (q : Q)
  | reply (t : T) (r : R)

/-! ### The object its callers want -/

/-- A caller. -/
inductive Client (Q R : Type*)
  | idle
  | pending (q : Q)
  | answered (q : Q) (r : R)

/-- The data, and how far every caller is. -/
structure Object (D T Q R : Type*) where
  data : D
  client : T → Client Q R

/-- A call is made, it is served, it returns. -/
inductive ObjectAct (T Q R : Type*)
  | invoke (t : T) (q : Q)
  | serve (t : T) (q : Q) (r : R)
  | reply (t : T) (r : R)

/-- What is seen of a step. -/
def ObjectAct.event (_ : Object D T Q R) : ObjectAct T Q R → Option (Event T Q R)
  | .invoke t q => some (.invoke t q)
  | .serve _ _ _ => none
  | .reply t r => some (.reply t r)

section Specification

variable [DecidableEq T]

/-- A caller's state is replaced. -/
def Object.put (o : Object D T Q R) (d : D) (t : T) (c : Client Q R) : Object D T Q R :=
  ⟨d, Function.update o.client t c⟩

@[simp] theorem Object.put_data (o : Object D T Q R) (d : D) (t : T) (c : Client Q R) :
    (o.put d t c).data = d := rfl

@[simp] theorem Object.put_client_self (o : Object D T Q R) (d : D) (t : T) (c : Client Q R) :
    (o.put d t c).client t = c := by
  simp [Object.put]

theorem Object.put_client_of_ne {o : Object D T Q R} {d : D} {t t' : T} {c : Client Q R}
    (h : t' ≠ t) : (o.put d t c).client t' = o.client t' := by
  simp [Object.put, h]

/-- The steps of the object, where `serves` says what serving a request may do. -/
inductive Object.Step (serves : D → Q → D → R → Prop) (o : Object D T Q R) :
    ObjectAct T Q R → Object D T Q R → Prop
  | invoke {t : T} {q : Q} : o.client t = .idle →
      Object.Step serves o (.invoke t q) (o.put o.data t (.pending q))
  | serve {t : T} {q : Q} {d : D} {r : R} : o.client t = .pending q → serves o.data q d r →
      Object.Step serves o (.serve t q r) (o.put d t (.answered q r))
  | reply {t : T} {q : Q} {r : R} : o.client t = .answered q r →
      Object.Step serves o (.reply t r) (o.put o.data t .idle)

/-- The object: calls are served one at a time, each in one step. -/
def object (init : D → Prop) (serves : D → Q → D → R → Prop) :
    System (Object D T Q R) (ObjectAct T Q R) where
  init o := init o.data ∧ ∀ t, o.client t = .idle
  step := Object.Step serves

/-- An object that serves in more ways has the runs of one that serves in fewer. -/
theorem object_mono {init : D → Prop} {serves serves' : D → Q → D → R → Prop}
    (h : ∀ d q d' r, serves d q d' r → serves' d q d' r) {o o' : Object D T Q R}
    {l : List (Object D T Q R × ObjectAct T Q R)} (hp : Run (object init serves) o l o') :
    Run (object init serves') o l o' := by
  refine hp.mono fun u a v hstep => ?_
  cases hstep with
  | invoke hidle => exact .invoke hidle
  | serve hpending hserves => exact .serve hpending (h _ _ _ _ hserves)
  | reply hanswered => exact .reply hanswered

section Order

variable {init : D → Prop} {serves : D → Q → D → R → Prop} {o o' : Object D T Q R}
  {l : List (Object D T Q R × ObjectAct T Q R)}

/-- One request served after another. -/
def Serial (serves : D → Q → D → R → Prop) : D → D → Prop :=
  Relation.ReflTransGen fun d d' => ∃ q r, serves d q d' r

/-- The data of a run are those of the requests it served, one after another. -/
theorem object_serial (hp : Run (object init serves) o l o') : Serial serves o.data o'.data := by
  refine Run.history (J := fun _ (u : Object D T Q R) => Serial serves o.data u.data) .refl
    (fun _ u a v _ hJ hstep => ?_) hp
  cases hstep with
  | invoke _ | reply _ => exact hJ
  | serve _ hserves => exact hJ.tail ⟨_, _, hserves⟩

end Order

end Specification

/-! ### The threads -/

/-- Where a call is, with its request. -/
inductive Pc (Q L R : Type*)
  | entry (q : Q)
  | body (q : Q) (l : L)
  | unlock (q : Q) (r : R)
  | ret (q : Q) (r : R)

/-- The positions at which the lock is held. -/
def Pc.holds : Pc Q L R → Bool
  | .entry _ | .ret _ _ => false
  | .body _ _ | .unlock _ _ => true

namespace Method

/-- The code of a call. -/
def instr (m : Method D Q L E R) (d : D) (e : E) : Pc Q L R → Instr D (Pc Q L R) R
  | .entry q =>
    match m.enter q with
    | .inl r => .step d (.ret q r)
    | .inr l => .acquire (.body q l)
  | .body q l =>
    match m.body d e l with
    | (d', .inl l') => .step d' (.body q l')
    | (d', .inr r) => .step d' (.unlock q r)
  | .unlock q r => .release (.ret q r)
  | .ret _ r => .ret d r

/-- The threads that call the object's methods. -/
def code (m : Method D Q L E R) : Code D T (Pc Q L R) R E (T × Q) where
  instr s e pc := m.instr s.data e pc
  resume pc _ := pc
  start s call := some (s.data, call.1, .entry call.2)

/-- What is seen of a step. -/
def event (s : State D T (Pc Q L R)) : Act T E (T × Q) → Option (Event T Q R)
  | .start call => some (.invoke call.1 call.2)
  | .run t _ =>
    match s.stack t with
    | [.ret _ r] => some (.reply t r)
    | _ => none

/-- The request and the answer of a call that is about to return. -/
def returning (s : State D T (Pc Q L R)) (t : T) : Option (Q × R) :=
  match s.stack t with
  | [.ret q r] => some (q, r)
  | _ => none

theorem stack_of_returning {s : State D T (Pc Q L R)} {t : T} {q : Q} {r : R}
    (h : returning s t = some (q, r)) : s.stack t = [.ret q r] := by
  simp only [returning] at h
  split at h
  next heq =>
    obtain ⟨rfl, rfl⟩ := Prod.mk.inj (Option.some.inj h)
    exact heq
  next => exact absurd h (by simp)

/-- The threads start idle, with the lock free. -/
def idle (init : D → Prop) (s : State D T (Pc Q L R)) : Prop :=
  init s.data ∧ s.lock = none ∧ ∀ t, s.stack t = []

/-- The body, left alone, gets from its start on `d₀` to `l` with the data `d`. -/
inductive Under (m : Method D Q L E R) (d₀ : D) (l₀ : L) : D → L → Prop
  | start : Under m d₀ l₀ d₀ l₀
  | step {d d' : D} {l l' : L} {e : E} : Under m d₀ l₀ d l → m.body d e l = (d', .inl l') →
      Under m d₀ l₀ d' l'

/-- What serving a request does: its answer at once, or that of the body left alone. -/
inductive Serves (m : Method D Q L E R) (d₀ : D) (q : Q) : D → R → Prop
  | early {r : R} : m.enter q = .inl r → Serves m d₀ q d₀ r
  | body {l₀ l : L} {d d' : D} {e : E} {r : R} : m.enter q = .inr l₀ → m.Under d₀ l₀ d l →
      m.body d e l = (d', .inr r) → Serves m d₀ q d' r

/-- **Outline rule.** Assertions at the positions of a body, of which each statement
leads to the next, hold wherever the body gets. -/
theorem Under.outline {m : Method D Q L E R} {d₀ : D} {l₀ : L} {J : L → D → Prop}
    (h₀ : J l₀ d₀) (hstep : ∀ l d e d' l', J l d → m.body d e l = (d', .inl l') → J l' d')
    {d : D} {l : L} (h : m.Under d₀ l₀ d l) : J l d := by
  induction h with
  | start => exact h₀
  | step _ hbody ih => exact hstep _ _ _ _ _ ih hbody

variable [DecidableEq T] {m : Method D Q L E R} {s s' : State D T (Pc Q L R)}

omit [DecidableEq T] in
/-- The code keeps the lock to the positions of the body. -/
theorem disciplined (s : State D T (Pc Q L R)) :
    (m.code (T := T)).Disciplined Pc.holds s where
  instr t e pc _ := by
    cases pc with
    | entry q => cases h : m.enter q <;> simp [code, instr, h, Instr.Obeys, Pc.holds]
    | body q l =>
      rcases h : m.body s.data e l with ⟨d, l' | r⟩ <;>
        simp [code, instr, h, Instr.Obeys, Pc.holds]
    | unlock q r => simp [code, instr, Instr.Obeys, Pc.holds]
    | ret q r => simp [code, instr, Instr.Obeys, Pc.holds]
  resume _ _ := rfl
  start call d t pc h := by
    simp only [code, Option.some.injEq, Prod.mk.injEq] at h
    obtain ⟨-, -, rfl⟩ := h
    rfl

/-- The thread whose step it is. -/
def thread : Act T E (T × Q) → T
  | .start call => call.1
  | .run t _ => t

/-- What a step of a thread can be, with what is seen of it. Calls do not call each
other, so a thread has at most one frame. -/
inductive Step (m : Method D Q L E R) (s : State D T (Pc Q L R)) (t : T) :
    Option (Event T Q R) → State D T (Pc Q L R) → Prop
  | invoke {q : Q} : s.stack t = [] →
      Step m s t (some (.invoke t q)) (s.put s.data s.lock t [.entry q])
  | early {q : Q} {r : R} : s.stack t = [.entry q] → m.enter q = .inl r →
      Step m s t none (s.put s.data s.lock t [.ret q r])
  | acquire {q : Q} {l : L} : s.stack t = [.entry q] → m.enter q = .inr l →
      s.lock = none → Step m s t none (s.put s.data (some t) t [.body q l])
  | body {e : E} {q : Q} {l l' : L} {d : D} : s.stack t = [.body q l] →
      m.body s.data e l = (d, .inl l') → Step m s t none (s.put d s.lock t [.body q l'])
  | last {e : E} {q : Q} {l : L} {d : D} {r : R} : s.stack t = [.body q l] →
      m.body s.data e l = (d, .inr r) → Step m s t none (s.put d s.lock t [.unlock q r])
  | release {q : Q} {r : R} : s.stack t = [.unlock q r] →
      Step m s t none (s.put s.data none t [.ret q r])
  | reply {q : Q} {r : R} : s.stack t = [.ret q r] →
      Step m s t (some (.reply t r)) (s.put s.data s.lock t [])

theorem step_of_next (hone : ∀ t, (s.stack t).length ≤ 1) {a : Act T E (T × Q)}
    (h : m.code.next s a = some s') : m.Step s (thread a) (event s a) s' := by
  cases a with
  | start call =>
    simp only [Code.next, code] at h
    split at h
    next hempty =>
      obtain rfl := Option.some.inj h
      exact .invoke (List.isEmpty_iff.mp hempty)
    next => exact absurd h (by simp)
  | run t e =>
    have hlen := hone t
    simp only [Code.next] at h
    -- a thread's stack is empty or one frame, and what steps is the frame
    rcases hstack : s.stack t with _ | ⟨pc, _ | ⟨pc', rest⟩⟩
    · simp [hstack] at h
    · simp only [hstack, code] at h
      simp only [event, hstack]
      cases pc with
      | entry q =>
        cases henter : m.enter q with
        | inl r =>
          simp only [instr, henter, Code.exec, Option.some.injEq] at h
          exact h ▸ .early hstack henter
        | inr l =>
          simp only [instr, henter, Code.exec] at h
          split at h
          next hfree =>
            exact Option.some.inj h ▸ .acquire hstack henter (Option.isNone_iff_eq_none.mp hfree)
          next => exact absurd h (by simp)
      | body q l =>
        -- the section goes on, or has its answer
        rcases hbody : m.body s.data e l with ⟨d, l' | r⟩ <;>
          simp only [instr, hbody, Code.exec, Option.some.injEq] at h
        · exact h ▸ .body hstack hbody
        · exact h ▸ .last hstack hbody
      | unlock q r =>
        simp only [instr, Code.exec, Option.some.injEq] at h
        exact h ▸ .release hstack
      | ret q r =>
        simp only [instr, Code.exec, Option.some.injEq] at h
        exact h ▸ .reply hstack
    · simp [hstack] at hlen

/-! ### The threads are explained by the object -/

/-- How far a thread's call is, seen from the object. A call in its body is not served
yet: the object's data are those the body started from. -/
def Matches (m : Method D Q L E R) (d : D) (o : D) (c : Client Q R) : List (Pc Q L R) → Prop
  | [] => c = .idle
  | [.entry q] => c = .pending q
  | [.body q l] => c = .pending q ∧ ∃ l₀, m.enter q = .inr l₀ ∧ m.Under o l₀ d l
  | [.unlock q r] | [.ret q r] => c = .answered q r
  | _ => False

/-- The relation between the threads and the object. -/
structure Explains (m : Method D Q L E R) (s : State D T (Pc Q L R)) (o : Object D T Q R) :
    Prop where
  locked : s.Locked Pc.holds
  client : ∀ t, m.Matches s.data o.data (o.client t) (s.stack t)
  /-- Outside the bodies the data are the object's. -/
  data : (∀ t q l, s.stack t ≠ [.body q l]) → o.data = s.data

section Explains

variable {o : Object D T Q R} {t : T}

omit [DecidableEq T] in
theorem Matches.one {d d' : D} {c : Client Q R} {stack : List (Pc Q L R)}
    (h : m.Matches d d' c stack) : stack.length ≤ 1 := by
  rcases stack with _ | ⟨pc, _ | ⟨pc', rest⟩⟩
  · simp
  · simp
  · exact absurd h (by cases pc <;> simp [Matches])

omit [DecidableEq T] in
/-- Only a call in its body says something of the data. -/
theorem Matches.frame {d d' : D} {c : Client Q R} {stack : List (Pc Q L R)}
    (h : m.Matches d d' c stack) (hbody : ∀ q l, stack ≠ [.body q l]) (e e' : D) :
    m.Matches e e' c stack := by
  rcases stack with _ | ⟨pc, _ | ⟨pc', rest⟩⟩
  · exact h
  · cases pc with
    | body q l => exact absurd rfl (hbody q l)
    | entry q | unlock q r | ret q r => exact h
  · exact absurd h.one (by simp)

omit [DecidableEq T] in
/-- A thread in a body is the only one. -/
theorem Explains.alone (h : m.Explains s o) {pc : Pc Q L R} (hstack : s.stack t = [pc])
    (hpc : pc.holds = true) {t' : T} (ht : t' ≠ t) (q : Q) (l : L) :
    s.stack t' ≠ [.body q l] := by
  intro hbody
  have howner := (h.locked.of_stack hstack).2.mpr hpc
  have howner' := (h.locked.of_stack hbody).2.mpr rfl
  rw [howner] at howner'
  exact ht (Option.some.inj howner').symm

omit [DecidableEq T] in
theorem Explains.data_of_free (h : m.Explains s o) (hfree : s.lock = none) : o.data = s.data := by
  refine h.data fun t q l hbody => ?_
  have howner := (h.locked.of_stack hbody).2.mpr rfl
  rw [hfree] at howner
  exact absurd howner (by simp)

/-- A thread's call goes on, and the object with it. -/
theorem Explains.put (h : m.Explains s o) {d d' : D} {lock : Option T} {frames : List (Pc Q L R)}
    {c : Client Q R} (hlocked : (s.put d lock t frames).Locked Pc.holds)
    (hself : m.Matches d d' c frames)
    (hothers : (d = s.data ∧ d' = o.data) ∨ ∀ t' q l, t' ≠ t → s.stack t' ≠ [.body q l])
    (hdata : (∀ t' q l, (s.put d lock t frames).stack t' ≠ [.body q l]) → d' = d) :
    m.Explains (s.put d lock t frames) (o.put d' t c) where
  locked := hlocked
  client t' := by
    by_cases ht : t' = t
    · subst ht
      rw [State.put_stack_self, Object.put_client_self]
      exact hself
    · rw [State.put_stack_of_ne ht, Object.put_client_of_ne ht]
      rcases hothers with ⟨rfl, rfl⟩ | hothers
      · exact h.client t'
      · exact (h.client t').frame (fun q l => hothers t' q l ht) d d'
  data := hdata

/-- A step that is not seen and does not serve. -/
theorem Explains.put_self (h : m.Explains s o) {d : D} {lock : Option T}
    {frames : List (Pc Q L R)} (hlocked : (s.put d lock t frames).Locked Pc.holds)
    (hself : m.Matches d o.data (o.client t) frames)
    (hothers : d = s.data ∨ ∀ t' q l, t' ≠ t → s.stack t' ≠ [.body q l])
    (hdata : (∀ t' q l, (s.put d lock t frames).stack t' ≠ [.body q l]) → o.data = d) :
    m.Explains (s.put d lock t frames) o := by
  have heq : o.put o.data t (o.client t) = o := by simp [Object.put]
  rw [← heq]
  exact h.put hlocked hself (hothers.imp_left fun hd => ⟨hd, rfl⟩) hdata

/-- A thread that was not in a body leaves the data the object's, if no other is. -/
theorem Explains.data_of_put (h : m.Explains s o) {d : D} {lock : Option T}
    {frames : List (Pc Q L R)} (hold : ∀ q l, s.stack t ≠ [.body q l])
    (hnone : ∀ t' q l, (s.put d lock t frames).stack t' ≠ [.body q l]) : o.data = s.data := by
  refine h.data fun t' q l => ?_
  by_cases ht : t' = t
  · subst ht
    exact hold q l
  · have hother := hnone t' q l
    rwa [State.put_stack_of_ne ht] at hother

end Explains

/-- A step of the threads is a run of the object that shows the same. -/
theorem Explains.step {init : D → Prop} {s₀ : Object D T Q R} (h : m.Explains s s₀) {ev : Option (Event T Q R)}
    {t : T} (hlocked : s'.Locked Pc.holds) (hstep : m.Step s t ev s') :
    ∃ l o', Run (object init m.Serves) s₀ l o' ∧ observed ObjectAct.event l = ev.toList ∧
      m.Explains s' o' := by
  cases hstep with
  | @invoke q hstack =>
    have hidle : s₀.client t = .idle := by simpa [hstack, Matches] using h.client t
    refine ⟨_, _, Run.single (.invoke (q := q) hidle), by simp [ObjectAct.event], ?_⟩
    exact h.put hlocked rfl (.inl ⟨rfl, rfl⟩) (h.data_of_put (by simp [hstack]))
  | @early q r hstack henter =>
    have hpending : s₀.client t = .pending q := by simpa [hstack, Matches] using h.client t
    refine ⟨_, _, Run.single (.serve hpending (.early henter)), by simp [ObjectAct.event], ?_⟩
    exact h.put hlocked rfl (.inl ⟨rfl, rfl⟩) (h.data_of_put (by simp [hstack]))
  | @acquire q l hstack henter hfree =>
    have hpending : s₀.client t = .pending q := by simpa [hstack, Matches] using h.client t
    refine ⟨[], s₀, Run.refl _, rfl, ?_⟩
    -- the body starts on the object's data
    refine h.put_self hlocked ⟨hpending, l, henter, ?_⟩ (.inl rfl)
      (h.data_of_put (by simp [hstack]))
    exact h.data_of_free hfree ▸ .start
  | @body e q l l' d hstack hbody =>
    obtain ⟨hpending, l₀, henter, hunder⟩ : m.Matches s.data s₀.data (s₀.client t) [.body q l] :=
      hstack ▸ h.client t
    refine ⟨[], s₀, Run.refl _, rfl, ?_⟩
    refine h.put_self hlocked ⟨hpending, l₀, henter, hunder.step hbody⟩
      (.inr fun t' q' l' ht => h.alone hstack rfl ht q' l') fun hnone => ?_
    exact absurd (State.put_stack_self s d s.lock t _) (hnone t q l')
  | @last e q l d r hstack hbody =>
    obtain ⟨hpending, l₀, henter, hunder⟩ : m.Matches s.data s₀.data (s₀.client t) [.body q l] :=
      hstack ▸ h.client t
    refine ⟨_, _, Run.single (.serve hpending (.body henter hunder hbody)),
      by simp [ObjectAct.event], ?_⟩
    exact h.put hlocked rfl (.inr fun t' q' l' ht => h.alone hstack rfl ht q' l') fun _ => rfl
  | @release q r hstack =>
    have hanswered : s₀.client t = .answered q r := by simpa [hstack, Matches] using h.client t
    refine ⟨[], s₀, Run.refl _, rfl, ?_⟩
    exact h.put_self hlocked hanswered (.inl rfl) (h.data_of_put (by simp [hstack]))
  | @reply q r hstack =>
    have hanswered : s₀.client t = .answered q r := by simpa [hstack, Matches] using h.client t
    refine ⟨_, _, Run.single (.reply hanswered), by simp [ObjectAct.event], ?_⟩
    exact h.put hlocked rfl (.inl ⟨rfl, rfl⟩) (h.data_of_put (by simp [hstack]))

/-- **Calls under one lock are served in one step each.** The threads are simulated by
the object. -/
def simulation (m : Method D Q L E R) (init : D → Prop) :
    Simulation (m.code.system (idle (T := T) init)) (object init m.Serves) event
      ObjectAct.event where
  rel := m.Explains
  init s hs := by
    obtain ⟨hdata, hlock, hstack⟩ := hs
    refine ⟨⟨s.data, fun _ => .idle⟩, ⟨hdata, fun _ => rfl⟩, ?_, fun t => ?_, fun _ => rfl⟩
    · exact fun t => by simp [hstack t, hlock]
    · rw [hstack t]
      rfl
  step {s o a s'} h hnext := by
    have hlocked := h.locked.step (disciplined s) (Code.step_of_next hnext)
    exact h.step hlocked (step_of_next (fun t => (h.client t).one) hnext)

/-- The threads always have an object that explains them. -/
theorem reachable_explained {init : D → Prop}
    (h : Reachable (m.code.system (idle (T := T) init)) s) : ∃ o, m.Explains s o := by
  obtain ⟨s₀, l, h₀, hp⟩ := h
  obtain ⟨o₀, -, hrel⟩ := (simulation m init).init s₀ h₀
  obtain ⟨-, o, -, -, ho⟩ := (simulation m init).run hrel hp
  exact ⟨o, ho⟩

/-! ### When a call has its answer -/

/-- The steps of the other threads leave a thread's call where it is. -/
theorem Step.stack_of_ne {t t' : T} {ev : Option (Event T Q R)} (h : m.Step s t ev s')
    (ht : t' ≠ t) : s'.stack t' = s.stack t' := by
  cases h <;> exact State.put_stack_of_ne ht

/-- In a run from `s` the call of `t` has yet to get to its answer: it has not in `s`, or `t`
makes another call. -/
def Unanswered (s : State D T (Pc Q L R)) (l : List (State D T (Pc Q L R) × Act T E (T × Q)))
    (t : T) : Prop :=
  (∀ q r, s.stack t ≠ [.unlock q r] ∧ s.stack t ≠ [.ret q r]) ∨ ∃ p ∈ l, ∃ q, p.2 = .start (t, q)

omit [DecidableEq T] in
/-- At the start no call has its answer. -/
theorem unanswered_of_idle {init : D → Prop} (hs : idle init s)
    (l : List (State D T (Pc Q L R) × Act T E (T × Q))) (t : T) : Unanswered s l t :=
  Or.inl fun q r => by simp [hs.2.2 t]

/-- `w` is the moment of a run at which `t` has got to the answer it returns at its end: the
body of its call is over, and the thread still holds the lock. It makes no call from there on. -/
def AnsweredAt (m : Method D Q L E R) (init : D → Prop) (s : State D T (Pc Q L R))
    (l : List (State D T (Pc Q L R) × Act T E (T × Q))) (s' : State D T (Pc Q L R)) (t : T)
    (q : Q) (r : R) (w : State D T (Pc Q L R)) : Prop :=
  ∃ l₁ v e l₂, l = l₁ ++ (v, .run t e) :: l₂ ∧ Run (m.code.system (idle init)) s l₁ v ∧
    m.code.next v (.run t e) = some w ∧ Run (m.code.system (idle init)) w l₂ s' ∧
    w.lock = some t ∧ w.stack t = [.unlock q r] ∧ ∀ p ∈ l₂, ∀ q', p.2 ≠ .start (t, q')

section AnsweredAt

variable {init : D → Prop} {l : List (State D T (Pc Q L R) × Act T E (T × Q))} {t : T} {q : Q}
  {r : R}

/-- **An answer is there from one moment on**, unless it was given without the lock. -/
theorem exists_answeredAt (hs : Reachable (m.code.system (idle init)) s)
    (hp : Run (m.code.system (idle init)) s l s') (hopen : Unanswered s l t)
    (h : s'.stack t = [.unlock q r] ∨ s'.stack t = [.ret q r]) :
    m.enter q = .inl r ∨ ∃ w, m.AnsweredAt init s l s' t q r w := by
  -- back along the run, over the steps after the answer
  induction hp with
  | refl =>
    rcases hopen with hopen | ⟨p, hp, -⟩
    · exact (h.elim (hopen q r).1 (hopen q r).2).elim
    · exact absurd hp (by simp)
  | @tail u s' l a hpre hnext ih =>
    obtain ⟨o, ho⟩ := reachable_explained (hs.run hpre)
    have hstep := step_of_next (fun t => (ho.client t).one) hnext
    have hopen' : (∀ q', a ≠ .start (t, q')) → Unanswered s l t := by
      refine fun hstart => hopen.imp id ?_
      rintro ⟨p, hp, q', hq'⟩
      rcases List.mem_append.mp hp with hp | hp
      · exact ⟨p, hp, q', hq'⟩
      · obtain rfl := List.mem_singleton.mp hp
        exact absurd hq' (hstart q')
    -- the answer is there already
    have hearlier : (∀ q', a ≠ .start (t, q')) →
        u.stack t = [.unlock q r] ∨ u.stack t = [.ret q r] →
        m.enter q = .inl r ∨ ∃ w, m.AnsweredAt init s (l ++ [(u, a)]) s' t q r w := by
      intro hstart hu
      refine (ih (hopen' hstart) hu).imp id ?_
      rintro ⟨w, l₁, v, e, l₂, rfl, hv, hw, hrest, hlock, hstack, hsame⟩
      refine ⟨w, l₁, v, e, l₂ ++ [(u, a)], by simp, hv, hw, hrest.tail hnext, hlock, hstack, ?_⟩
      intro p hp q'
      rcases List.mem_append.mp hp with hp | hp
      · exact hsame p hp q'
      · obtain rfl := List.mem_singleton.mp hp
        exact hstart q'
    by_cases ht : thread a = t
    · subst ht
      cases a with
      | start call =>
        -- a call that is made has no answer
        cases hstep with
        | invoke => simp at h
      | run t e =>
        have hstart : ∀ q', Act.run (A := T × Q) t e ≠ .start (t, q') := by simp
        generalize event u (.run t e) = ev at hstep
        cases hstep with
        | invoke | acquire | body | reply => simp [thread] at h
        | early hstack hearly =>
          obtain ⟨rfl, rfl⟩ : _ = q ∧ _ = r := by simpa [thread] using h
          exact Or.inl hearly
        | @last e' q' p d r' hstack hbody =>
          obtain ⟨rfl, rfl⟩ : q' = q ∧ r' = r := by simpa [thread] using h
          have howner : u.lock = some t := (ho.locked.of_stack hstack).2.mpr rfl
          exact Or.inr
            ⟨_, l, u, e, [], rfl, hpre, hnext, .refl _, howner, State.put_stack_self .., by simp⟩
        | @release q' r' hstack =>
          obtain ⟨rfl, rfl⟩ : q' = q ∧ r' = r := by simpa [thread] using h
          exact hearlier hstart (Or.inl hstack)
    · rw [hstep.stack_of_ne (Ne.symm ht)] at h
      refine hearlier ?_ h
      rintro q' rfl
      exact ht rfl

/-- At that moment the object serves the call, from its data to those of the moment. -/
theorem AnsweredAt.serves {w : State D T (Pc Q L R)} (hs : Reachable (m.code.system (idle init)) s)
    (h : m.AnsweredAt init s l s' t q r w) :
    ∃ v : State D T (Pc Q L R), Reachable (m.code.system (idle init)) v ∧
      ∀ o, m.Explains v o → m.Serves o.data q w.data r := by
  obtain ⟨l₁, v, e, l₂, -, hv, hw, -, -, hstack, -⟩ := h
  refine ⟨v, hs.run hv, fun o ho => ?_⟩
  have hstep := step_of_next (fun t => (ho.client t).one) hw
  generalize event v (.run t e) = ev at hstep
  cases hstep with
  | @last e' q' p d r' hbefore hbody =>
    obtain ⟨rfl, rfl⟩ : q' = q ∧ r' = r := by simpa [thread] using hstack
    obtain ⟨-, l₀, henter, hunder⟩ :
        m.Matches v.data o.data (o.client (thread (.run t e))) [.body q' p] :=
      hbefore ▸ ho.client _
    exact .body henter hunder hbody
  | invoke | early | acquire | body | release | reply => simp [thread] at hstack

end AnsweredAt

/-! ### How long the lock is held -/

/-- The statements that are left of a call until it drops the lock, where each statement
of the body brings down `rank`. -/
def left (rank : L → ℕ) : List (Pc Q L R) → ℕ
  | [.body _ l] => rank l + 2
  | [.unlock _ _] => 1
  | _ => 0

variable {rank : L → ℕ}

/-- The statements left of the thread that holds the lock go down with its own steps. -/
theorem Step.left_lt (hrank : ∀ d e l d' l', m.body d e l = (d', .inl l') → rank l' < rank l)
    {t : T} {ev : Option (Event T Q R)} (h : m.Step s t ev s')
    (hheld : (s.stack t).head?.any Pc.holds = true) :
    left rank (s'.stack t) < left rank (s.stack t) := by
  cases h with
  | invoke hstack | early hstack _ | acquire hstack _ _ | reply hstack =>
    simp [hstack, Pc.holds] at hheld
  | body hstack hbody =>
    have hless := hrank _ _ _ _ _ hbody
    simp only [State.put_stack_self, hstack, left]
    omega
  | last hstack hbody => simp [hstack, left]
  | release hstack => simp [hstack, left]

omit [DecidableEq T] in
/-- The thread that holds the lock has statements left. -/
theorem Explains.left_pos (rank : L → ℕ) {o : Object D T Q R} (h : m.Explains s o) {t : T}
    (hlock : s.lock = some t) : 0 < left rank (s.stack t) := by
  have hheld := (h.locked t).2.mp hlock
  have hone := (h.client t).one
  generalize s.stack t = stack at hheld hone ⊢
  rcases stack with _ | ⟨pc, _ | ⟨pc', rest⟩⟩
  · simp at hheld
  · cases pc with
    | body q l => simp [left]
    | unlock q r => simp [left]
    | entry q | ret q r => simp [Pc.holds] at hheld
  · simp at hone

/-- **The lock is held for a bounded number of statements.** While a thread holds it, its
own steps and the statements left of its call sum up to what was left at the start. -/
theorem own_add_left_le (rank : L → ℕ) {init : D → Prop}
    (hrank : ∀ d e l d' l', m.body d e l = (d', .inl l') → rank l' < rank l) {t : T}
    (hs : Reachable (m.code.system (idle init)) s)
    {l : List (State D T (Pc Q L R) × Act T E (T × Q))}
    (hp : Run (m.code.system (idle init)) s l s') (hheld : ∀ p ∈ l, p.1.lock = some t) :
    l.countP (fun p => thread p.2 = t) + left rank (s'.stack t) ≤ left rank (s.stack t) := by
  induction hp with
  | refl => simp
  | @tail u v l a hpre hnext ih =>
    have ih := ih fun p hp => hheld p (List.mem_append_left _ hp)
    obtain ⟨o, ho⟩ := reachable_explained (hs.run hpre)
    have hstep := step_of_next (fun t => (ho.client t).one) hnext
    have hlock : u.lock = some t := hheld (u, a) (by simp)
    rw [List.countP_append, List.countP_singleton]
    -- a statement of its own lowers the rank by one, another thread's leaves its stack alone
    by_cases ht : thread a = t
    · subst ht
      have hless := hstep.left_lt hrank ((ho.locked _).2.mp hlock)
      simp only [decide_true, if_true]
      omega
    · rw [hstep.stack_of_ne (Ne.symm ht)]
      simpa [ht] using ih

end Method

end CriticalSection
