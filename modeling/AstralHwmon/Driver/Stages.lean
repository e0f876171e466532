import AstralHwmon.Driver.Arrival

/-!
# The stage reported is the stage reached

A run of the worker that finds no chip prints which stage it is stuck at, and it tells the
stages apart by the counters of its scan. What the run has in fact done is in the steps its
pass has taken (`passSteps`): `StageReached` says of them what the line says.

The walk stops at the first candidate, with a count of the adapters before it; `walk_stage`
is why that count is never the one reported. `Trail` then ties the worker's position to the
steps behind it, for all the ways a pass can end.

Two of these ways are not reported as what they are. A pass turned away at the top of
`astral_probe_once` leaves the scan empty, as a walk that met nothing does
(`astral_stageReported_turnedAway`), and a chip that attached and is gone again when the
worker looks for it counts as one that did not answer. Nothing but the removal of its adapter
takes it away in between (`attachLost_of_attachMade`). In every other run the stage reported
is the stage reached (`astral_stageReported_iff`).
-/

open Transition

namespace Astral

variable {P : Setup}

/-! ### The stage of a set of adapters -/

/-- The PCI gate lets the adapter through. -/
def Setup.accepts (P : Setup) (adap : I2cAdapter) : Bool :=
  (astralCardMatches adap P.allowUnknown).isSome

theorem Setup.not_accepts (P : Setup) (adap : I2cAdapter) :
    (astralCardMatches adap P.allowUnknown).isNone = !P.accepts adap := by
  rw [Setup.accepts, Option.not_isSome]

/-- The sensor bus is among the adapters. -/
def SensorBus (P : Setup) (adapters : List I2cAdapter) : Prop :=
  ∃ adap ∈ adapters, P.accepts adap = true ∧ astralAdapterSelected P adap = true

instance (adapters : List I2cAdapter) : Decidable (SensorBus P adapters) :=
  inferInstanceAs (Decidable (∃ adap ∈ adapters, _))

/-- The stage a walk gets to, from what is there to be met. -/
def stageOf (P : Setup) (adapters : List I2cAdapter) : Stage :=
  if SensorBus P adapters then .noAnswer
  else if adapters.countP P.accepts = 0 then .noAdapters
  else .noSensorAdapter (adapters.countP P.accepts)

/-! ### The walk -/

theorem i2cForEachDev_clients (clients : List I2cClient) (ctx : AstralProbeCtx) :
    i2cForEachDev P (clients.map .client) ctx = ctx := by
  induction clients with
  | nil => rfl
  | cons client clients ih => exact ih

/-- Without the sensor bus the walk is complete, and counts every adapter of the card. -/
theorem i2cForEachDev_complete {adapters : List I2cAdapter} (h : ¬ SensorBus P adapters)
    (devs : List BusDev) (ctx : AstralProbeCtx) :
    i2cForEachDev P (adapters.map .adapter ++ devs) ctx =
      i2cForEachDev P devs
        { ctx with
          scan := { ctx.scan with
            cardAdapters := ctx.scan.cardAdapters + adapters.countP P.accepts } } := by
  induction adapters generalizing ctx with
  | nil => rfl
  | cons adap adapters ih =>
    have hrest : ¬ SensorBus P adapters := fun ⟨adap', hmem, hbus⟩ =>
      h ⟨adap', List.mem_cons_of_mem _ hmem, hbus⟩
    simp only [List.map_cons, List.cons_append, i2cForEachDev, astralTryAdapter,
      Setup.not_accepts]
    -- an adapter of the card is counted, as it is not the sensor's; any other is passed over
    by_cases hacc : P.accepts adap = true
    · have hsel : ¬ astralAdapterSelected P adap = true := fun hsel =>
        h ⟨adap, List.mem_cons_self, hacc, hsel⟩
      rw [if_neg (by simpa using hacc), if_pos (by simpa using hsel)]
      simp only [ih hrest, List.countP_cons_of_pos hacc]
      rw [Nat.add_assoc, Nat.add_comm 1]
    · rw [if_pos (by simpa using hacc)]
      simp only [ih hrest, List.countP_cons_of_neg hacc]

/-- With it the walk stops there, having counted a candidate. -/
theorem i2cForEachDev_candidate {adapters : List I2cAdapter} (h : SensorBus P adapters)
    (devs : List BusDev) (ctx : AstralProbeCtx) :
    (i2cForEachDev P (adapters.map .adapter ++ devs) ctx).scan.cardAdapters ≠ 0 ∧
      (i2cForEachDev P (adapters.map .adapter ++ devs) ctx).scan.candidates ≠ 0 := by
  induction adapters generalizing ctx with
  | nil => exact absurd h (by simp [SensorBus])
  | cons adap adapters ih =>
    simp only [List.map_cons, List.cons_append, i2cForEachDev, astralTryAdapter,
      Setup.not_accepts]
    by_cases hbus : P.accepts adap = true ∧ astralAdapterSelected P adap = true
    · rw [if_neg (by simpa using hbus.1), if_neg (by simpa using hbus.2)]
      exact ⟨Nat.succ_ne_zero _, Nat.succ_ne_zero _⟩
    · -- the walk goes on, whatever it counts on the way
      have hrest : SensorBus P adapters := by
        obtain ⟨adap', hmem, hbus'⟩ := h
        rcases List.mem_cons.mp hmem with rfl | hmem
        · exact absurd hbus' hbus
        · exact ⟨adap', hmem, hbus'⟩
      split_ifs with hmatch hsel
      · exact ih hrest _
      · exact ih hrest _
      · exact absurd ⟨by simpa using hmatch, by simpa using hsel⟩ hbus

theorem walk_candidate {sh : Shared} (h : SensorBus P sh.adapters) :
    (sh.walk P).scan.cardAdapters ≠ 0 ∧ (sh.walk P).scan.candidates ≠ 0 :=
  i2cForEachDev_candidate h (sh.clients.map .client) _

theorem walk_complete {sh : Shared} (h : ¬ SensorBus P sh.adapters) :
    sh.walk P = ⟨⟨sh.adapters.countP P.accepts, 0⟩, -1⟩ := by
  rw [Shared.walk, Shared.devices, i2cForEachDev_complete h, i2cForEachDev_clients]
  simp

/-- **The early stop makes no count wrong.** The counters of a walk give the stage of the
whole set of adapters. -/
theorem walk_stage (sh : Shared) : (sh.walk P).scan.stage = stageOf P sh.adapters := by
  unfold stageOf AstralScan.stage
  by_cases h : SensorBus P sh.adapters
  · obtain ⟨hcard, hcand⟩ := walk_candidate h
    rw [if_pos h, if_neg hcard, if_neg hcand]
  · rw [if_neg h, walk_complete h]
    simp

/-- A bus is chosen only when the sensor bus is there. -/
theorem sensorBus_of_adapterId {sh : Shared} (h : 0 ≤ (sh.walk P).adapterId) :
    SensorBus P sh.adapters := by
  by_contra hnone
  rw [walk_complete hnone] at h
  simp at h

/-! ### What a run of the worker has done -/

/-- The steps the worker's pass has taken in a run: where it stood, and what it found. -/
def passSteps (l : List (St × Action)) : List (Shared × PassPc) :=
  l.filterMap fun p =>
    match p.2, p.1.worker with
    | .worker _, .pass call => some (p.1.sh, call.pc)
    | _, _ => none

/-- The position after an attach that succeeded. -/
def PassPc.attached : PassPc → Bool
  | .claimed (.settle (some _)) => true
  | _ => false

section PassSteps

variable (ps : List (Shared × PassPc))

/-- Some step of the pass was one of `Q`. -/
def PassTook (Q : Shared → PassPc → Prop) : Prop := ∃ p ∈ ps, Q p.1 p.2

/-- It returned at the top: a chip was attached already, or another pass held the claim. -/
def TurnedAway : Prop :=
  PassTook ps fun sh pc =>
    pc = .claim ∧ (sh.astralClient.isSome = true ∨ sh.astralClaiming = true)

/-- It walked the bus, and `q` held of what the walk met. -/
def Walked (q : Shared → Prop) : Prop := PassTook ps fun sh pc => pc = .claimed .walk ∧ q sh

/-- It came out of the attach without a client: the adapter could not be had, the gate did
not let it through this time, or `astral_attach` failed. -/
def AttachFailed : Prop := PassTook ps fun _ pc => pc = .claimed (.settle none)

/-- It came out of the attach with one. -/
def AttachMade : Prop := PassTook ps fun _ pc => pc.attached = true

/-- The run has met what the stage says. -/
def StageReached (P : Setup) : Stage → Prop
  | .noAdapters => Walked ps fun sh => ∀ adap ∈ sh.adapters, ¬ P.accepts adap = true
  | .noSensorAdapter cardAdapters =>
    Walked ps fun sh => sh.adapters.countP P.accepts = cardAdapters ∧
      ∀ adap ∈ sh.adapters, P.accepts adap = true → ¬ astralAdapterSelected P adap = true
  | .noAnswer => (Walked ps fun sh => SensorBus P sh.adapters) ∧ AttachFailed ps

instance {Q : Shared → PassPc → Prop} [∀ sh pc, Decidable (Q sh pc)] :
    Decidable (PassTook ps Q) := inferInstanceAs (Decidable (∃ p ∈ ps, _))

instance : Decidable (TurnedAway ps) := inferInstanceAs (Decidable (PassTook _ _))

instance {q : Shared → Prop} [DecidablePred q] : Decidable (Walked ps q) :=
  inferInstanceAs (Decidable (PassTook _ _))

instance : Decidable (AttachFailed ps) := inferInstanceAs (Decidable (PassTook _ _))

instance : Decidable (AttachMade ps) := inferInstanceAs (Decidable (PassTook _ _))

instance (stage : Stage) : Decidable (StageReached ps P stage) :=
  match stage with
  | .noAdapters => inferInstanceAs (Decidable (Walked _ _))
  | .noSensorAdapter _ => inferInstanceAs (Decidable (Walked _ _))
  | .noAnswer => inferInstanceAs (Decidable (_ ∧ _))

end PassSteps

/-! ### The position and the steps behind it -/

@[simp] theorem passTook_append {ps : List (Shared × PassPc)} {Q : Shared → PassPc → Prop}
    {sh : Shared} {pc : PassPc} :
    PassTook (ps ++ [(sh, pc)]) Q ↔ PassTook ps Q ∨ Q sh pc := by
  simp only [PassTook, List.mem_append, List.mem_singleton, or_and_right, exists_or,
    exists_eq_left]

/-- Past the choice of a bus, as long as there may still be a client. -/
def ClaimedPc.Promising : ClaimedPc → Prop
  | .walk | .settle none => False
  | .get adapterId => 0 ≤ adapterId
  | _ => True

/-- The pass is its own, and the scan is that of its one walk. -/
structure Scanned (P : Setup) (ps : List (Shared × PassPc)) (scan : AstralScan) : Prop where
  own : ¬ TurnedAway ps
  walked : ∃ sh : Shared, scan = (sh.walk P).scan ∧ ∀ q, Walked ps q ↔ q sh

/-- The pass has not come out of the attach. -/
structure Unsettled (ps : List (Shared × PassPc)) : Prop where
  failed : ¬ AttachFailed ps
  made : ¬ AttachMade ps

/-- The ways a pass can have ended. -/
inductive Over (P : Setup) (ps : List (Shared × PassPc)) (scan : AstralScan) : Prop
  | turnedAway : TurnedAway ps → (∀ q, ¬ Walked ps q) → scan = ⟨0, 0⟩ → Over P ps scan
  | failed : Scanned P ps scan → AttachFailed ps → ¬ AttachMade ps → Over P ps scan
  | attached : Scanned P ps scan → AttachMade ps → ¬ AttachFailed ps → scan.candidates ≠ 0 →
      Over P ps scan

/-- What the worker's position says of the steps of its pass. -/
def Trail (P : Setup) (ps : List (Shared × PassPc)) : WorkerPc → Prop
  | .idle => True
  | .pass ⟨.claim, scan⟩ => ps = [] ∧ scan = ⟨0, 0⟩
  | .pass ⟨.claimed .walk, _⟩ => ¬ TurnedAway ps ∧ (∀ q, ¬ Walked ps q) ∧ Unsettled ps
  | .pass ⟨.claimed pc, scan⟩ =>
    Scanned P ps scan ∧ Unsettled ps ∧ (pc.Promising → scan.candidates ≠ 0)
  | .pass ⟨.put, scan⟩ | .pass ⟨.returned, scan⟩ | .attached scan | .count scan
  | .retry scan _ _ => Over P ps scan

/-- A step that neither claims nor walks leaves what is known of the scan. -/
theorem Scanned.append {ps : List (Shared × PassPc)} {scan : AstralScan} {sh : Shared}
    {pc : PassPc} (h : Scanned P ps scan) (hclaim : pc ≠ .claim) (hwalk : pc ≠ .claimed .walk) :
    Scanned P (ps ++ [(sh, pc)]) scan where
  own := by simpa [TurnedAway, hclaim] using h.own
  walked := by
    obtain ⟨sh₀, hscan, hwalked⟩ := h.walked
    exact ⟨sh₀, hscan, fun q => by simpa [Walked, hwalk] using hwalked q⟩

theorem Unsettled.append {ps : List (Shared × PassPc)} {sh : Shared} {pc : PassPc}
    (h : Unsettled ps) (hsettle : ∀ client, pc ≠ .claimed (.settle client)) :
    Unsettled (ps ++ [(sh, pc)]) where
  failed := by simpa [AttachFailed, hsettle] using h.failed
  made := by
    have hpc : pc.attached = false := by
      unfold PassPc.attached
      split
      next client => exact absurd rfl (hsettle _)
      next => rfl
    simpa [AttachMade, hpc] using h.made

/-- A pass that has ended stays as it ended. -/
theorem Over.append {ps : List (Shared × PassPc)} {scan : AstralScan} {sh : Shared} {pc : PassPc}
    (h : Over P ps scan) (hpc : pc = .put ∨ pc = .returned) :
    Over P (ps ++ [(sh, pc)]) scan := by
  -- the two last steps are none of those an ending is read from
  have hclaim : pc ≠ .claim := by rcases hpc with rfl | rfl <;> simp
  have hwalk : pc ≠ .claimed .walk := by rcases hpc with rfl | rfl <;> simp
  have hfailed : pc ≠ .claimed (.settle none) := by rcases hpc with rfl | rfl <;> simp
  have hmade : pc.attached = false := by rcases hpc with rfl | rfl <;> rfl
  cases h with
  | turnedAway haway hno hscan =>
    refine .turnedAway ?_ (fun q => ?_) hscan
    · simpa [TurnedAway, hclaim] using haway
    · simpa [Walked, hwalk] using hno q
  | failed hscanned hfail hnone =>
    refine .failed (hscanned.append hclaim hwalk) ?_ ?_
    · simpa [AttachFailed, hfailed] using hfail
    · simpa [AttachMade, hmade] using hnone
  | attached hscanned hattach hnone hcand =>
    refine .attached (hscanned.append hclaim hwalk) ?_ ?_ hcand
    · simpa [AttachMade, hmade] using hattach
    · simpa [AttachFailed, hfailed] using hnone

/-! ### A step of the pass -/

/-- The claim is kept up to the settling, and no client comes of a bus not chosen. -/
theorem claimedStep_next {sh : Shared} {env : Env} {pc pc' : ClaimedPc} (hwalk : pc ≠ .walk)
    (h : (claimedStep P sh env pc).2 = some pc') :
    pc' ≠ .walk ∧ (∀ client, pc ≠ .settle client) ∧ (pc'.Promising → pc.Promising) := by
  have hstep := claimedStep_cases (P := P) sh env pc
  rw [h] at hstep
  generalize (claimedStep P sh env pc).1 = sh' at hstep
  cases hstep with
  | walk => exact absurd rfl hwalk
  | @found id adap =>
    refine ⟨by simp, by simp, fun _ => ?_⟩
    -- a negative number is never looked up
    by_contra hneg
    simp [claimedStep, show ¬ 0 ≤ id from hneg] at h
  | _ => simp [ClaimedPc.Promising]

theorem claimedStep_release {sh : Shared} {env : Env} {pc : ClaimedPc}
    (h : (claimedStep P sh env pc).2 = none) : ∃ client, pc = .settle client := by
  have hstep := claimedStep_cases (P := P) sh env pc
  rw [h] at hstep
  generalize (claimedStep P sh env pc).1 = sh' at hstep
  cases hstep with
  | settled | failed => exact ⟨_, rfl⟩

theorem Trail.claimed {ps : List (Shared × PassPc)} {pc : ClaimedPc} {scan : AstralScan}
    (hpc : pc ≠ .walk) : Trail P ps (.pass ⟨.claimed pc, scan⟩) ↔
      Scanned P ps scan ∧ Unsettled ps ∧ (pc.Promising → scan.candidates ≠ 0) := by
  cases pc with
  | walk => exact absurd rfl hpc
  | _ => exact Iff.rfl

/-- The claim of the pass, which starts without any step. -/
theorem Trail.claim_step {sh : Shared} {env : Env} :
    Trail P [(sh, .claim)] (.afterPass ((⟨.claim, ⟨0, 0⟩⟩ : Pass).step P sh env).2) := by
  have hwalked : ∀ q, ¬ Walked [(sh, .claim)] q := by simp [Walked, PassTook]
  simp only [Pass.step]
  split_ifs with hbusy
  · refine Over.turnedAway ?_ hwalked rfl
    simpa [TurnedAway, PassTook] using hbusy
  · refine ⟨?_, hwalked, ?_, ?_⟩
    · simpa [TurnedAway, PassTook] using hbusy
    · simp [AttachFailed, PassTook]
    · simp [AttachMade, PassTook, PassPc.attached]

theorem Trail.walk_step {ps : List (Shared × PassPc)} {sh : Shared} {env : Env}
    {scan : AstralScan} (h : Trail P ps (.pass ⟨.claimed .walk, scan⟩)) :
    Trail P (ps ++ [(sh, .claimed .walk)])
      (.afterPass ((⟨.claimed .walk, scan⟩ : Pass).step P sh env).2) := by
  obtain ⟨hown, hno, hunsettled⟩ := h
  refine ⟨⟨?_, sh, rfl, fun q => ?_⟩, hunsettled.append (by simp), fun hid => ?_⟩
  · simpa [TurnedAway] using hown
  · simp only [Walked, passTook_append, true_and]
    exact or_iff_right (hno q)
  · exact (walk_candidate (sensorBus_of_adapterId hid)).2

/-- A step between the walk and the settling, and the settling. -/
theorem Trail.claimed_step {ps : List (Shared × PassPc)} {sh : Shared} {env : Env}
    {pc : ClaimedPc} {scan : AstralScan} (hpc : pc ≠ .walk)
    (h : Trail P ps (.pass ⟨.claimed pc, scan⟩)) :
    Trail P (ps ++ [(sh, .claimed pc)])
      (.afterPass ((⟨.claimed pc, scan⟩ : Pass).step P sh env).2) := by
  obtain ⟨hscanned, hunsettled, hpromise⟩ := (Trail.claimed hpc).mp h
  have hscanned' : Scanned P (ps ++ [(sh, .claimed pc)]) scan :=
    hscanned.append (by simp) (by simpa using hpc)
  simp only [Pass.step, if_neg hpc]
  -- the claim is kept, or this was the settling: with a client or without
  cases hnext : (claimedStep P sh env pc).2 with
  | some pc' =>
    obtain ⟨hpc', hsettle, hpromising⟩ := claimedStep_next hpc hnext
    exact (Trail.claimed hpc').mpr
      ⟨hscanned', hunsettled.append (by simpa using hsettle), fun hp => hpromise (hpromising hp)⟩
  | none =>
    obtain ⟨client, rfl⟩ := claimedStep_release hnext
    cases client with
    | none =>
      refine Over.failed hscanned' ?_ ?_
      · simp [AttachFailed]
      · simpa [AttachMade, PassPc.attached] using hunsettled.made
    | some client =>
      refine Over.attached hscanned' ?_ ?_ (hpromise trivial)
      · simp [AttachMade, PassPc.attached]
      · simpa [AttachFailed] using hunsettled.failed

theorem Trail.pass_step {ps : List (Shared × PassPc)} {sh : Shared} {env : Env} {call : Pass}
    (h : Trail P ps (.pass call)) :
    Trail P (ps ++ [(sh, call.pc)]) (.afterPass (call.step P sh env).2) := by
  obtain ⟨pc, scan⟩ := call
  cases pc with
  | claim =>
    obtain ⟨rfl, rfl⟩ := h
    exact .claim_step
  | claimed pc =>
    by_cases hpc : pc = .walk
    · subst hpc
      exact h.walk_step
    · exact Trail.claimed_step hpc h
  | put => exact Over.append h (Or.inl rfl)
  | returned => exact Over.append h (Or.inr rfl)

/-! ### A run of the worker -/

theorem passSteps_append (l m : List (St × Action)) :
    passSteps (l ++ m) = passSteps l ++ passSteps m := List.filterMap_append

theorem passSteps_pass {s : St} {env : Env} {call : Pass} (h : s.worker = .pass call) :
    passSteps [(s, .worker env)] = [(s.sh, call.pc)] := by
  simp [passSteps, h]

theorem passSteps_notPass {s : St} {env : Env} (h : ∀ call, s.worker ≠ .pass call) :
    passSteps [(s, .worker env)] = [] := by
  unfold passSteps
  cases hworker : s.worker with
  | pass call => exact absurd hworker (h call)
  | _ => simp [hworker]

theorem passSteps_other {s : St} {a : Action} (h : ∀ env, a ≠ .worker env) :
    passSteps [(s, a)] = [] := by
  unfold passSteps
  cases a with
  | worker env => exact absurd rfl (h env)
  | _ => rfl

/-- The worker moves only by its own steps. -/
theorem next_worker_eq {s s' : St} {a : Action} (hnext : next P s a = some s')
    (hstart : a ≠ .workerStart) (hworker : ∀ env, a ≠ .worker env) : s'.worker = s.worker := by
  cases Step.of_next hnext with
  | workerStart => exact absurd rfl hstart
  | workerPass | workerAttached | workerNotAttached | workerCount | workerRetry | workerGiveUp =>
    exact absurd rfl (hworker _)
  | _ => rfl

theorem Trail.step {l : List (St × Action)} {s s' : St} {a : Action}
    (h : Trail P (passSteps l) s.worker) (hstart : a ≠ .workerStart)
    (hnext : next P s a = some s') : Trail P (passSteps (l ++ [(s, a)])) s'.worker := by
  rw [passSteps_append]
  by_cases hother : ∀ env, a ≠ .worker env
  · rw [passSteps_other hother, List.append_nil, next_worker_eq hnext hstart hother]
    exact h
  obtain ⟨env, rfl⟩ : ∃ env, a = .worker env := by simpa using hother
  obtain ⟨⟨sh', worker'⟩, hstep, rfl⟩ := Option.map_eq_some_iff.mp hnext
  cases hworker : s.worker with
  | idle => simp [hworker, WorkerPc.step] at hstep
  | pass call =>
    obtain ⟨rfl, rfl⟩ := by simpa [hworker, WorkerPc.step] using hstep
    rw [passSteps_pass hworker]
    rw [hworker] at h
    exact h.pass_step
  -- past the pass the trail is not added to
  | attached scan =>
    rw [passSteps_notPass (by simp [hworker]), List.append_nil]
    obtain ⟨rfl, rfl⟩ := by simpa [hworker, WorkerPc.step] using hstep
    rw [hworker] at h
    change Trail P (passSteps l) (if _ then .idle else .count scan)
    split_ifs
    · trivial
    · exact h
  | count scan =>
    rw [passSteps_notPass (by simp [hworker]), List.append_nil]
    obtain ⟨rfl, rfl⟩ := by simpa [hworker, WorkerPc.step] using hstep
    rw [hworker] at h
    exact h
  | retry scan attempts report =>
    have hidle : worker' = .idle := by
      simp only [hworker, WorkerPc.step] at hstep
      split_ifs at hstep <;> simp_all
    subst hidle
    trivial

/-- Whatever else happens during a run of the worker, its position is what its own pass has
made of it. -/
theorem Trail.run {u u₁ v : St} {l : List (St × Action)}
    (hstart : next P u .workerStart = some u₁) (hp : Run (lifecycle P) u₁ l v)
    (hone : ∀ p ∈ l, p.2 ≠ .workerStart) : Trail P (passSteps l) v.worker := by
  induction hp with
  | refl =>
    obtain rfl := next_workerStart hstart
    exact ⟨rfl, rfl⟩
  | tail _ hnext ih =>
    simp only [List.mem_append, or_imp, forall_and, List.mem_singleton, forall_eq] at hone
    exact (ih hone.1).step hone.2 hnext

/-! ### The client the run attached

A run that came out of the attach with a client prints nothing as long as the driver points
at it. What takes the pointer away before the worker looks is one step of the machine: the
removal of the adapter the client is on. The claim keeps the other pass out, and
`astral_exit` clears the pointer only once the worker is idle. -/

/-- It came out of the attach with `client`. -/
def AttachedWith (ps : List (Shared × PassPc)) (client : I2cClient) : Prop :=
  PassTook ps fun _ pc => pc = .claimed (.settle (some client))

/-- The worker has not called `astral_attached` yet. -/
def WorkerPc.unlooked : WorkerPc → Bool
  | .pass _ | .attached _ => true
  | _ => false

/-- The adapter of the client was removed before the worker looked, with the client on it and
the driver pointing at it. -/
def Withdrawn (l : List (St × Action)) (client : I2cClient) : Prop :=
  ∃ p ∈ l, p.2 = .removeAdapter client.adapter ∧ client ∈ p.1.sh.clients ∧
    p.1.sh.astralClient = some client ∧ p.1.worker.unlooked = true

/-- The run lost the client it attached to such a removal. -/
def AttachLost (l : List (St × Action)) : Prop :=
  ∃ client, AttachedWith (passSteps l) client ∧ Withdrawn l client

theorem attachMade_iff {ps : List (Shared × PassPc)} :
    AttachMade ps ↔ ∃ client, AttachedWith ps client := by
  have hattached : ∀ pc : PassPc, pc.attached = true ↔
      ∃ client, pc = .claimed (.settle (some client)) := by
    intro pc
    unfold PassPc.attached
    split <;> simp_all
  simp only [AttachMade, AttachedWith, PassTook, hattached]
  exact ⟨fun ⟨p, hmem, client, heq⟩ => ⟨client, p, hmem, heq⟩,
    fun ⟨client, p, hmem, heq⟩ => ⟨p, hmem, client, heq⟩⟩

theorem AttachLost.made {l : List (St × Action)} (h : AttachLost l) :
    AttachMade (passSteps l) :=
  attachMade_iff.mpr ⟨h.choose, h.choose_spec.1⟩

theorem Withdrawn.append {l m : List (St × Action)} {client : I2cClient}
    (h : Withdrawn l client ∨ Withdrawn m client) : Withdrawn (l ++ m) client := by
  rcases h with ⟨p, hmem, h⟩ | ⟨p, hmem, h⟩
  · exact ⟨p, List.mem_append_left _ hmem, h⟩
  · exact ⟨p, List.mem_append_right _ hmem, h⟩

/-- Deleting an adapter takes the driver's pointer only with the client it points at. -/
theorem Shared.delAdapter_pointer (sh : Shared) (adap : I2cAdapter) {client : I2cClient}
    (h : sh.astralClient = some client) :
    (sh.delAdapter adap).astralClient = some client ∨
      client ∈ sh.clients ∧ client.adapter = adap := by
  suffices loop : ∀ (gone : List I2cClient) (t : Shared), t.astralClient = some client →
      (gone.foldl (fun sh client => (sh.note (.deleted client)).dropClient client) t).astralClient =
        some client ∨ client ∈ gone by
    rcases loop _ { sh with adapters := sh.adapters.erase adap } h with hkept | hgone
    · exact Or.inl hkept
    · exact Or.inr (by simpa using hgone)
  intro gone
  -- on the clients that go: one of them is the driver's, or none takes the pointer
  induction gone with
  | nil => exact fun _ ht => Or.inl ht
  | cons c gone ih =>
    intro t ht
    by_cases hc : c = client
    · exact Or.inr (hc ▸ List.mem_cons_self)
    · have hkept : ((t.note (.deleted c)).dropClient c).astralClient = some client := by
        simp [Shared.dropClient_eq, Shared.note, ht, Ne.symm hc]
      exact (ih _ hkept).imp_right (List.mem_cons_of_mem _)

/-- **Only a removal takes the pointer away.** Before the worker looks, a step of anyone else
leaves the driver pointing at the worker's client, with `astral_init` out of the claim, or it
removes the adapter the client is on. -/
theorem Step.withdrawn {w w' : St} {a : Action} {client : I2cClient} (hc : Control w)
    (h : Step P w a w') (hother : ∀ env, a ≠ .worker env) (hlook : w.worker.unlooked = true)
    (hptr : w.sh.astralClient = some client) (hinit : w.init.claimed = none) :
    w'.sh.astralClient = some client ∧ w'.init.claimed = none ∨ Withdrawn [(w, a)] client := by
  have hbusy : w.exit.quiet = false := by
    by_contra hquiet
    rw [(hc.quiet (by simpa using hquiet)).1] at hlook
    exact absurd hlook (by decide)
  cases h with
  | core hstep =>
    cases hstep with
    | @removeAdapter adap =>
      rcases w.sh.delAdapter_pointer adap hptr with hkept | ⟨hmem, rfl⟩
      · exact Or.inl ⟨hkept, hinit⟩
      · exact Or.inr ⟨_, List.mem_singleton_self _, rfl, hmem, hptr, hlook⟩
    | addAdapter | notifyIgnored | notifyAdd | rearm | hwmonRead => exact Or.inl ⟨hptr, hinit⟩
  | initPass hpass hstep =>
    rw [hpass] at hinit
    rcases hstep.claiming with ⟨-, hnew, rfl⟩ | ⟨-, -, hfree, -⟩ | ⟨pc, hold, -⟩
    · exact Or.inl ⟨hptr, by rw [InitPc.claimed_afterPass, hnew]⟩
    -- the claim is not to be had while the pointer is set
    · exact absurd hptr (by simp [hfree])
    · exact absurd (hold.symm.trans hinit) (by simp)
  | refuse | cardPresent | registerNotifier | initAttached | initNotAttached | initSchedule =>
    exact Or.inl ⟨hptr, rfl⟩
  | workerStart _ hidle => exact absurd hlook (by simp [hidle, WorkerPc.unlooked])
  | workerPass | workerAttached | workerNotAttached | workerCount | workerRetry | workerGiveUp =>
    exact absurd rfl (hother _)
  | exitStart | unregisterNotifier | cancel | wait => exact Or.inl ⟨hptr, hinit⟩
  -- the pointer is read and cleared after the worker has been waited for
  | release hexit | nothingToRelease hexit | exitUnregister hexit | clear hexit =>
    exact absurd hbusy (by simp [hexit, ExitPc.quiet])

/-- The client a pass has published and not given up. -/
def ClaimedPc.kept : ClaimedPc → Option I2cClient
  | .alloc client | .refresh client | .register client => some client
  | .settle client => client
  | _ => none

/-- A client is kept from its publication on. -/
theorem ClaimedStep.kept {sh sh' : Shared} {env : Env} {pc pc' : ClaimedPc} {client : I2cClient}
    (h : ClaimedStep P sh env pc sh' (some pc')) (hkept : pc'.kept = some client) :
    sh'.astralClient = some client ∧ pc = .publish client ∨
      sh'.astralClient = sh.astralClient ∧ pc.kept = some client := by
  cases h with
  | publish => exact Or.inl ⟨hkept, by simpa [ClaimedPc.kept] using hkept⟩
  | alloc | read | register => exact Or.inr ⟨rfl, hkept⟩
  | walk | found | notFound | create | notCreated | allocFail | readFail | registerFail
  | unpublish | unpublished | unregister => exact absurd hkept (by simp [ClaimedPc.kept])

/-- The client a run of the worker stands by: the one its pass keeps, and afterwards the one
it came out of the attach with. -/
def StandsBy (ps : List (Shared × PassPc)) : WorkerPc → I2cClient → Prop
  | .idle, _ | .pass ⟨.claim, _⟩, _ => False
  | .pass ⟨.claimed pc, _⟩, client => pc.kept = some client
  | _, client => AttachedWith ps client

/-- Up to the look the driver points at that client, and no other pass holds the claim, unless
the client has been withdrawn. -/
def Pointed (l : List (St × Action)) (w : St) : Prop :=
  ∀ client, StandsBy (passSteps l) w.worker client →
    Withdrawn l client ∨
      w.worker.unlooked = true ∧ w.sh.astralClient = some client ∧ w.init.claimed = none

@[simp] theorem WorkerPc.unlooked_afterPass (call : Pass) :
    (WorkerPc.afterPass call).unlooked = true := by
  unfold WorkerPc.afterPass
  split_ifs <;> rfl

/-- Only the settling with a client comes out of the attach with it. -/
theorem AttachedWith.before {ps : List (Shared × PassPc)} {sh : Shared} {pc : PassPc}
    {client : I2cClient} (h : AttachedWith (ps ++ [(sh, pc)]) client)
    (hpc : pc ≠ .claimed (.settle (some client))) : AttachedWith ps client :=
  (passTook_append.mp h).resolve_right hpc

theorem Unsettled.attachedWith {ps : List (Shared × PassPc)} (h : Unsettled ps)
    (client : I2cClient) : ¬ AttachedWith ps client :=
  fun hwith => h.made (attachMade_iff.mpr ⟨client, hwith⟩)

/-- What a run stands by is still so after a step of the worker that leaves the pointer. -/
theorem Pointed.hold {l : List (St × Action)} {w w' : St} {a : Action} {client : I2cClient}
    (hpoint : Pointed l w) (hold : StandsBy (passSteps l) w.worker client)
    (hptr : w'.sh.astralClient = w.sh.astralClient) (hinit : w'.init = w.init)
    (hlook : w'.worker.unlooked = true) :
    Withdrawn (l ++ [(w, a)]) client ∨
      w'.worker.unlooked = true ∧ w'.sh.astralClient = some client ∧ w'.init.claimed = none := by
  rcases hpoint client hold with hgone | ⟨-, hset, hfree⟩
  · exact Or.inl (.append (Or.inl hgone))
  · exact Or.inr ⟨hlook, hptr.trans hset, hinit ▸ hfree⟩

/-- A step of the worker's pass. -/
theorem Pointed.pass {l : List (St × Action)} {w : St} {env : Env} {call call' : Pass}
    {sh' : Shared} (hpoint : Pointed l w) (hc : Control w) (htrail : Trail P (passSteps l) w.worker)
    (hworker : w.worker = .pass call) (h : PassStep P w.sh env call sh' call') :
    Pointed (l ++ [(w, .worker env)]) { w with sh := sh', worker := .afterPass call' } := by
  intro client hstand
  rw [passSteps_append, passSteps_pass hworker] at hstand
  rw [hworker] at htrail
  have hlook : (WorkerPc.afterPass call').unlooked = true := WorkerPc.unlooked_afterPass call'
  cases h with
  | blocked =>
    -- turned away, it attached nothing
    rw [htrail.1] at hstand
    exact absurd hstand (by simp [WorkerPc.afterPass, StandsBy, AttachedWith, PassTook])
  | claim => exact absurd hstand (by simp [WorkerPc.afterPass, StandsBy, ClaimedPc.kept])
  | claimed hstep =>
    rcases hstep.kept hstand with ⟨hptr, rfl⟩ | ⟨hsame, hold⟩
    · -- the publication, by the one pass that holds the claim
      refine Or.inr ⟨hlook, hptr, hc.exclusive.resolve_right ?_⟩
      simp [hworker, WorkerPc.claimed, Pass.claimed]
    · exact hpoint.hold (by rw [hworker]; exact hold) hsame rfl hlook
  | release hstep =>
    cases hstep with
    | @settled attached =>
      -- the pass settles once, and with the client it has kept
      have hsame : attached = client := by
        by_contra hne
        refine htrail.2.1.attachedWith client (AttachedWith.before hstand ?_)
        simpa using hne
      exact hpoint.hold (by rw [hworker, hsame]; rfl) rfl rfl hlook
    | failed =>
      exact absurd (AttachedWith.before hstand (by simp)) (htrail.2.1.attachedWith client)
  | put =>
    have hold := AttachedWith.before hstand (by simp)
    exact hpoint.hold (by rw [hworker]; exact hold) rfl rfl hlook
  | returned =>
    have hold := AttachedWith.before hstand (by simp)
    exact hpoint.hold (by rw [hworker]; exact hold) rfl rfl hlook

theorem Pointed.step {l : List (St × Action)} {w w' : St} {a : Action} (hpoint : Pointed l w)
    (hc : Control w) (htrail : Trail P (passSteps l) w.worker) (hstart : a ≠ .workerStart)
    (h : Step P w a w') (hnext : next P w a = some w') : Pointed (l ++ [(w, a)]) w' := by
  by_cases hother : ∀ env, a ≠ .worker env
  · intro client hstand
    have hsame := next_worker_eq hnext hstart hother
    rw [passSteps_append, passSteps_other hother, List.append_nil, hsame] at hstand
    rcases hpoint client hstand with hgone | ⟨hlook, hptr, hfree⟩
    · exact Or.inl (.append (Or.inl hgone))
    rcases h.withdrawn hc hother hlook hptr hfree with ⟨hptr', hfree'⟩ | hgone
    · exact Or.inr ⟨hsame ▸ hlook, hptr', hfree'⟩
    · exact Or.inl (.append (Or.inr hgone))
  obtain ⟨env, rfl⟩ : ∃ env, a = .worker env := by simpa using hother
  -- once the worker has looked and found the pointer clear, the client was withdrawn
  have hlooked {w' : St} (hnot : ∀ call, w.worker ≠ .pass call)
      (hgone : ∀ client, AttachedWith (passSteps l) client →
        StandsBy (passSteps l) w.worker client)
      (hclear : w.worker.unlooked = true → w.sh.astralClient = none)
      (hstands : ∀ ps client, StandsBy ps w'.worker client → AttachedWith ps client) :
      Pointed (l ++ [(w, .worker env)]) w' := by
    intro client hstand
    rw [passSteps_append, passSteps_notPass hnot, List.append_nil] at hstand
    rcases hpoint client (hgone client (hstands _ _ hstand)) with hgone | ⟨hlook, hptr, -⟩
    · exact Or.inl (.append (Or.inl hgone))
    · exact absurd hptr (by simp [hclear hlook])
  cases h with
  | core hstep => cases hstep
  | workerPass hworker hstep => exact hpoint.pass hc htrail hworker hstep
  | workerNotAttached hworker hclear =>
    exact hlooked (by simp [hworker]) (by rw [hworker]; exact fun _ h => h) (fun _ => hclear)
      fun _ _ h => h
  | workerCount hworker =>
    exact hlooked (by simp [hworker]) (by rw [hworker]; exact fun _ h => h)
      (by simp [hworker, WorkerPc.unlooked]) fun _ _ h => h
  | workerAttached | workerRetry | workerGiveUp => exact fun _ hstand => hstand.elim

/-- Along a run of the worker, whatever else happens. -/
theorem Pointed.run {u u₁ v : St} {l : List (St × Action)} (hreach : Reachable (lifecycle P) u)
    (hstart : next P u .workerStart = some u₁) (hp : Run (lifecycle P) u₁ l v)
    (hone : ∀ p ∈ l, p.2 ≠ .workerStart) : Pointed l v := by
  have hreach₁ : Reachable (lifecycle P) u₁ := hreach.run (.single hstart)
  induction hp with
  | refl =>
    obtain rfl := next_workerStart hstart
    exact fun _ hstand => hstand.elim
  | tail hp hnext ih =>
    simp only [List.mem_append, or_imp, forall_and, List.mem_singleton, forall_eq] at hone
    exact (ih hone.1).step (control_reachable (hreach₁.run hp)) (Trail.run hstart hp hone.1)
      hone.2 (Step.of_next hnext) hnext

/-- **A line printed after an attach is printed because of a removal**: the client the run
attached was taken away before the worker looked for it. -/
theorem attachLost_of_attachMade {u u₁ v : St} {l : List (St × Action)} {scan : AstralScan}
    {attempts : ℕ} {report : Bool} (hreach : Reachable (lifecycle P) u)
    (hstart : next P u .workerStart = some u₁) (hp : Run (lifecycle P) u₁ l v)
    (hone : ∀ p ∈ l, p.2 ≠ .workerStart) (hworker : v.worker = .retry scan attempts report)
    (hmade : AttachMade (passSteps l)) : AttachLost l := by
  obtain ⟨client, hwith⟩ := attachMade_iff.mp hmade
  refine ⟨client, hwith, (Pointed.run hreach hstart hp hone client ?_).resolve_right ?_⟩
  · rw [hworker]
    exact hwith
  · simp [hworker, WorkerPc.unlooked]

/-! ### The report -/

/-- The stage a line names. -/
def Report.stage : Report → Stage
  | .waiting stage | .gaveUp stage => stage

theorem ClaimedStep.reports {sh sh' : Shared} {env : Env} {pc : ClaimedPc}
    {pc' : Option ClaimedPc} (h : ClaimedStep P sh env pc sh' pc') : sh'.reports = sh.reports := by
  cases h with
  | unregister => rw [Shared.i2cUnregisterDevice_eq]
  | _ => rfl

theorem PassStep.reports {sh sh' : Shared} {env : Env} {call call' : Pass}
    (h : PassStep P sh env call sh' call') : sh'.reports = sh.reports := by
  cases h with
  | claimed hstep | release hstep => exact hstep.reports
  | blocked | claim | put | returned => rfl

/-- A line is printed by the last step of a run, from the scan the run has kept. -/
theorem next_report {s s' : St} {env : Env} {r : Report} (hnext : next P s (.worker env) = some s')
    (hreport : s'.sh.reports = r :: s.sh.reports) :
    ∃ scan attempts report, s.worker = .retry scan attempts report ∧ r.stage = scan.stage := by
  have hline (hsame : s'.sh.reports = s.sh.reports) : False :=
    List.cons_ne_self r s.sh.reports (hreport.symm.trans hsame)
  obtain ⟨⟨sh', worker'⟩, hstep, rfl⟩ := Option.map_eq_some_iff.mp hnext
  cases hworker : s.worker with
  | idle => simp [hworker, WorkerPc.step] at hstep
  -- up to the last step of a run nothing is printed
  | pass call =>
    obtain ⟨rfl, rfl⟩ := by simpa [hworker, WorkerPc.step] using hstep
    exact (hline (call.step_cases s.sh env).reports).elim
  | attached scan | count scan =>
    obtain ⟨rfl, rfl⟩ := by simpa [hworker, WorkerPc.step] using hstep
    exact (hline rfl).elim
  | retry scan attempts report =>
    refine ⟨scan, attempts, report, rfl, ?_⟩
    simp only [hworker, WorkerPc.step] at hstep
    -- still waiting, with the line or in silence, or out of patience
    split_ifs at hstep with hlimit hprint
    · obtain ⟨rfl, rfl⟩ := by simpa using hstep
      rw [Shared.scheduleWork_eq] at hreport
      exact congrArg Report.stage (List.cons.inj hreport).1.symm
    · obtain ⟨rfl, rfl⟩ := by simpa using hstep
      rw [Shared.scheduleWork_eq] at hline
      exact (hline rfl).elim
    · obtain ⟨rfl, rfl⟩ := by simpa using hstep
      exact congrArg Report.stage (List.cons.inj hreport).1.symm

/-- A walk has reached the stage of what it met, once the attach has failed. -/
theorem StageReached.of_walked {ps : List (Shared × PassPc)} {sh : Shared}
    (hwalked : ∀ q, Walked ps q ↔ q sh) (hfailed : AttachFailed ps) :
    StageReached ps P (stageOf P sh.adapters) := by
  unfold stageOf
  split_ifs with hbus hcount
  · exact ⟨(hwalked _).mpr hbus, hfailed⟩
  · exact (hwalked _).mpr (by simpa [List.countP_eq_zero] using hcount)
  · exact (hwalked _).mpr ⟨rfl, fun adap hmem hacc hsel => hbus ⟨adap, hmem, hacc, hsel⟩⟩

/-- The stage reported is the stage reached exactly when the pass of the run was not turned
away, and did not come out of the attach with a client. -/
theorem stageReached_iff {ps : List (Shared × PassPc)} {scan : AstralScan} (h : Over P ps scan) :
    StageReached ps P scan.stage ↔ ¬ TurnedAway ps ∧ ¬ AttachMade ps := by
  cases h with
  | turnedAway haway hno hscan =>
    -- the scan is empty, and no walk stands behind it
    rw [hscan]
    exact iff_of_false (hno _) fun h => h.1 haway
  | failed hscanned hfailed hnone =>
    obtain ⟨sh, rfl, hwalked⟩ := hscanned.walked
    rw [walk_stage]
    exact iff_of_true (StageReached.of_walked hwalked hfailed) ⟨hscanned.own, hnone⟩
  | attached hscanned hattach hnone hcand =>
    obtain ⟨sh, rfl, hwalked⟩ := hscanned.walked
    -- the walk had a candidate, so the last branch is taken
    have hbus : SensorBus P sh.adapters := by
      by_contra hbus
      exact hcand (by rw [walk_complete hbus])
    rw [walk_stage, stageOf, if_pos hbus]
    exact iff_of_false (fun h => hnone h.2) fun h => h.2 hattach

/-- **The stage reported is the stage reached**, for whatever interleaving and whatever
adapters, exactly when the pass of the run was not turned away and did not come out of the
attach with a client. In a run of the driver the latter is a removal: the adapter of the
client the run attached was taken away before the worker looked for it. -/
theorem astral_stageReported_iff {u u₁ v t : St} {env : Env} {r : Report}
    {l : List (St × Action)} (hstart : next P u .workerStart = some u₁)
    (hp : Run (lifecycle P) u₁ l v) (hone : ∀ p ∈ l, p.2 ≠ .workerStart)
    (hnext : next P v (.worker env) = some t) (hreport : t.sh.reports = r :: v.sh.reports) :
    (StageReached (passSteps l) P r.stage ↔
        ¬ TurnedAway (passSteps l) ∧ ¬ AttachMade (passSteps l)) ∧
      (Reachable (lifecycle P) u →
        (StageReached (passSteps l) P r.stage ↔
          ¬ TurnedAway (passSteps l) ∧ ¬ AttachLost l)) := by
  obtain ⟨scan, attempts, report, hworker, hstage⟩ := next_report hnext hreport
  have htrail := Trail.run hstart hp hone
  rw [hworker] at htrail
  have hiff : StageReached (passSteps l) P r.stage ↔
      ¬ TurnedAway (passSteps l) ∧ ¬ AttachMade (passSteps l) := by
    rw [hstage]
    exact stageReached_iff htrail
  refine ⟨hiff, fun hreach => hiff.trans (and_congr_right fun _ => not_congr ?_)⟩
  exact ⟨attachLost_of_attachMade hreach hstart hp hone hworker, AttachLost.made⟩

theorem trace_worker {s t : St} {env : Env} {n : ℕ}
    (h : System.exec (next P) s (List.replicate n (.worker env)) = some t) :
    ∀ p ∈ System.trace (next P) s (List.replicate n (.worker env)), p.2 ≠ .workerStart := by
  intro p hmem
  have hact := List.mem_map_of_mem (f := Prod.snd) hmem
  rw [System.trace_actions h] at hact
  rw [List.eq_of_mem_replicate hact]
  simp

/-- The module is loaded while the card has published an adapter that is not the sensor's. -/
def otherAlone : List Action :=
  [.addAdapter 2 (otherAdapter 0 2).name (otherAdapter 0 2).parent,
    .notifyAdd (otherAdapter 0 2)] ++ loadRefused

/-- The worker's first run reports that adapter, which its walk has met. -/
theorem astral_stageReported_iff_otherAlone :
    ∃ (u₁ v t : St) (l : List (St × Action)), Run (lifecycle oneCard) u₁ l v ∧
      t.sh.reports = .waiting (.noSensorAdapter 1) :: v.sh.reports ∧
      StageReached (passSteps l) oneCard (.noSensorAdapter 1) := by
  have hrun : (System.exec (next oneCard) St.boot otherAlone).any (fun u =>
      (next oneCard u .workerStart).any fun u₁ =>
        (System.exec (next oneCard) u₁ (List.replicate 7 (.worker .idle))).any fun v =>
          decide (¬ TurnedAway (passSteps (System.trace (next oneCard) u₁
              (List.replicate 7 (.worker .idle)))) ∧
            ¬ AttachMade (passSteps (System.trace (next oneCard) u₁
              (List.replicate 7 (.worker .idle))))) &&
          (next oneCard v (.worker .idle)).any fun t =>
            decide (t.sh.reports = .waiting (.noSensorAdapter 1) :: v.sh.reports)) = true := by
    decide +kernel
  obtain ⟨u, hexecu, hu⟩ := Option.any_eq_true _ _ |>.mp hrun
  obtain ⟨u₁, hstart, hu₁⟩ := Option.any_eq_true _ _ |>.mp hu
  obtain ⟨v, hexec, hown, hv⟩ := System.any_decide_and_iff.mp hu₁
  obtain ⟨t, hnext, hreport⟩ := System.any_decide_iff.mp hv
  have hp : Run (lifecycle oneCard) u₁ _ v := System.exec_trace hexec
  -- the pass is its own, and it has attached nothing that could be lost
  have hreach : Reachable (lifecycle oneCard) u := System.exec_reachable rfl hexecu
  exact ⟨u₁, v, t, _, hp, hreport,
    ((astral_stageReported_iff hstart hp (trace_worker hexec) hnext hreport).2 hreach).mpr
      ⟨hown.1, fun hlost => hown.2 hlost.made⟩⟩

/-- The sensor adapter is there when the module is loaded. While `astral_init` is in its pass
another adapter of the card arrives, which queues the work. -/
def initClaims : List Action :=
  addSensor ++ List.replicate 3 (.init .idle) ++
    [.addAdapter 2 (otherAdapter 1 2).name (otherAdapter 1 2).parent,
      .notifyAdd (otherAdapter 1 2), .rearm]

/-- **A pass turned away reports a machine without adapters.** Both adapters are registered
when the worker prints that it waits for the NVIDIA driver to publish them: the pass of
`astral_init` still holds the claim, and the worker's own has not looked. -/
theorem astral_stageReported_turnedAway :
    ¬ ∀ (P : Setup) (u u₁ v t : St) (env : Env) (r : Report) (l : List (St × Action)),
      Reachable (lifecycle P) u → next P u .workerStart = some u₁ →
      Run (lifecycle P) u₁ l v → (∀ p ∈ l, p.2 ≠ .workerStart) →
      next P v (.worker env) = some t → t.sh.reports = r :: v.sh.reports →
      StageReached (passSteps l) P r.stage := by
  intro h
  have hrun : (System.exec (next oneCard) St.boot initClaims).any (fun u =>
      (next oneCard u .workerStart).any fun u₁ =>
        (System.exec (next oneCard) u₁ (List.replicate 3 (.worker .idle))).any fun v =>
          decide (¬ StageReached (passSteps (System.trace (next oneCard) u₁
            (List.replicate 3 (.worker .idle)))) oneCard .noAdapters) &&
          (next oneCard v (.worker .idle)).any fun t =>
            decide (t.sh.reports = .waiting .noAdapters :: v.sh.reports)) = true := by
    decide +kernel
  obtain ⟨u, hexecu, hu⟩ := Option.any_eq_true _ _ |>.mp hrun
  obtain ⟨u₁, hstart, hu₁⟩ := Option.any_eq_true _ _ |>.mp hu
  obtain ⟨v, hexec, hno, hv⟩ := System.any_decide_and_iff.mp hu₁
  obtain ⟨t, hnext, hreport⟩ := System.any_decide_iff.mp hv
  -- the line says that the walk met no adapter, and the run has not walked
  have hreached := h oneCard u u₁ v t .idle (.waiting .noAdapters) _
    (System.exec_reachable rfl hexecu) hstart (System.exec_trace hexec) (trace_worker hexec)
    hnext hreport
  exact hno hreached

end Astral
