import AstralHwmon.Guard.ExitStatus
import Mathlib.Logic.Relation

/-!
# What the guard does to its machine

A run of `astral-guard` acts on its machine in three ways: it lists a directory, it
opens a file and reads it, it sleeps. `Host.Steps` is a sequence of these, all at paths
that it may open; every function of the guard leads from one world to another by such a
sequence, along the worlds it passes on (`readPins_steps`, `SampleRun.steps`,
`ChipRuns.steps`).

`guardMain_footprint` says which paths these are: the class directory and two
attributes of its entries while chips are looked for, and after that the twelve
channels of the chips that were found.

What the guard's machine keeps at each of these steps it keeps over a whole run
(`Host.Steps.keeps`).
-/

open CText Relation

namespace Astral

variable {W : Type*}

/-- One thing the guard does to its machine, at a path it may open. -/
inductive Host.Step (host : Host W) (may : CStr → Prop) (w : W) : W → Prop
  | readDir {path : CStr} : may path → Host.Step host may w (host.readDir path w).2
  | readFile {path : CStr} : may path → Host.Step host may w (host.readFile path w).2
  | nanosleep (ts : Timespec) : Host.Step host may w (host.nanosleep ts w)

/-- Any number of them. -/
def Host.Steps (host : Host W) (may : CStr → Prop) : W → W → Prop :=
  ReflTransGen (host.Step may)

variable {host : Host W} {may may' : CStr → Prop} {w w' : W}

theorem Host.Steps.mono (h : host.Steps may w w') (hmay : ∀ path, may path → may' path) :
    host.Steps may' w w' := by
  refine h.lift id fun u v hstep => ?_
  cases hstep with
  | readDir hpath => exact .readDir (hmay _ hpath)
  | readFile hpath => exact .readFile (hmay _ hpath)
  | nanosleep ts => exact .nanosleep ts

/-- What every step keeps, a run keeps. -/
theorem Host.Steps.keeps {P : W → Prop} (hdir : ∀ path w, P w → P (host.readDir path w).2)
    (hfile : ∀ path w, P w → P (host.readFile path w).2)
    (hsleep : ∀ ts w, P w → P (host.nanosleep ts w)) (h : host.Steps may w w') (hw : P w) :
    P w' := by
  induction h with
  | refl => exact hw
  | tail _ hstep ih =>
    cases hstep with
    | readDir _ => exact hdir _ _ ih
    | readFile _ => exact hfile _ _ ih
    | nanosleep ts => exact hsleep _ _ ih

/-! ### Function by function -/

/-- The path `read_attr` opens. -/
def attrPath (dir attr : CStr) : CStr := snprintf (3072 + 64) (dir ++ '/' :: attr)

theorem readAttr_steps (host : Host W) (dir attr : CStr) (max : ℕ) (w : W)
    (hmay : may (attrPath dir attr)) : host.Steps may w (readAttr host dir attr max w).2 :=
  .single (.readFile hmay)

theorem readIntAttr_steps (host : Host W) (dir attr : CStr) (lo hi : ℤ) (w : W)
    (hmay : may (attrPath dir attr)) : host.Steps may w (readIntAttr host dir attr lo hi w).2 :=
  readAttr_steps host dir attr 32 w hmay

/-- The path of a chip at an entry of the class directory. -/
def chipPath (dir ent : CStr) : CStr := snprintf 3072 (dir ++ '/' :: ent)

/-- What is opened while chips are looked for among the entries of a directory: two
attributes of those that are not hidden. -/
def DiscoveryAttr (dir : CStr) (ents : List CStr) (path : CStr) : Prop :=
  ∃ ent ∈ ents, ent.head? ≠ some '.' ∧ (path = attrPath (chipPath dir ent) "name".toList ∨
    path = attrPath (chipPath dir ent) "update_interval".toList)

theorem findLoop_steps (host : Host W) (dir : CStr) (max : ℕ) {ents all : List CStr}
    (hents : ents ⊆ all) (out : List GuardChip) (w : W) :
    host.Steps (DiscoveryAttr dir all) w (findLoop host dir max ents out w).2 := by
  -- on the entries; the array may be full before they are
  induction ents generalizing out w with
  | nil => exact .refl
  | cons ent ents ih =>
    have hrest := ih (List.subset_of_cons_subset hents)
    unfold findLoop
    split
    · split
      · exact hrest _ _
      next hhidden =>
        have hent : ent ∈ all := hents List.mem_cons_self
        -- an entry that is not hidden: its name, and `update_interval` only if it matches
        have hname := readAttr_steps host (chipPath dir ent) "name".toList 64 w
          (show DiscoveryAttr dir all _ from ⟨ent, hent, hhidden, .inl rfl⟩)
        dsimp only
        cases hread : readAttr host (snprintf 3072 (dir ++ '/' :: ent)) "name".toList 64 w with
        | mk name w₁ =>
          rw [chipPath, hread] at hname
          cases name with
          | none => exact hname.trans (hrest _ _)
          | some name =>
            dsimp only
            split
            · exact hname.trans (hrest _ _)
            · refine hname.trans (.trans (readIntAttr_steps host _ _ _ _ _ ?_) (hrest _ _))
              exact ⟨ent, hent, hhidden, .inr rfl⟩
    · exact .refl

/-- The chips found are at entries of the directory that are not hidden. -/
theorem findLoop_path (host : Host W) (dir : CStr) (max : ℕ) {ents all : List CStr}
    (hents : ents ⊆ all) {out : List GuardChip}
    (hout : ∀ c ∈ out, ∃ ent ∈ all, ent.head? ≠ some '.' ∧ c.path = chipPath dir ent) (w : W) :
    ∀ c ∈ (findLoop host dir max ents out w).1,
      ∃ ent ∈ all, ent.head? ≠ some '.' ∧ c.path = chipPath dir ent := by
  -- on the entries, with what was found so far
  induction ents generalizing out w with
  | nil => exact hout
  | cons ent ents ih =>
    have hrest := @ih (List.subset_of_cons_subset hents)
    unfold findLoop
    split
    · split
      · exact hrest hout _
      next hhidden =>
        dsimp only
        split
        · exact hrest hout _
        · split
          · exact hrest hout _
          · refine hrest (fun c hc => ?_) _
            rcases List.mem_append.mp hc with hc | hc
            · exact hout c hc
            · obtain rfl := List.mem_singleton.mp hc
              exact ⟨ent, hents List.mem_cons_self, hhidden, rfl⟩
    · exact hout

/-- The channels of a chip. -/
def ChannelAttr (dir : CStr) (path : CStr) : Prop :=
  ∃ pin, path = attrPath dir (mvAttr pin) ∨ path = attrPath dir (maAttr pin)

theorem readPins_steps (host : Host W) (path : CStr) (pins : List Pin) (out : RawSample) (w : W) :
    host.Steps (ChannelAttr path) w (readPins host path pins out w).2 := by
  -- on the pins; a failed read of either channel ends the loop
  induction pins generalizing out w with
  | nil => exact .refl
  | cons pin pins ih =>
    rw [readPins]
    have hmv := readIntAttr_steps host path (mvAttr pin) guardMvMin guardMvMax w
      (show ChannelAttr path _ from ⟨pin, .inl rfl⟩)
    cases hread : readIntAttr host path (mvAttr pin) guardMvMin guardMvMax w with
    | mk mv w₁ =>
      rw [hread] at hmv
      cases mv with
      | none => exact hmv
      | some mv =>
        dsimp only
        have hma := readIntAttr_steps host path (maAttr pin) 0 guardMaMax w₁
          (show ChannelAttr path _ from ⟨pin, .inr rfl⟩)
        cases hread' : readIntAttr host path (maAttr pin) 0 guardMaMax w₁ with
        | mk ma w₂ =>
          rw [hread'] at hma
          cases ma with
          | none => exact hmv.trans hma
          | some ma => exact (hmv.trans hma).trans (ih _ _)

theorem afterReads_steps (host : Host W) (path : CStr) (attrs : List CStr) (w : W) :
    host.Steps (fun _ => True) w (afterReads host path attrs w) := by
  induction attrs generalizing w with
  | nil => exact .refl
  | cons attr attrs ih => exact (readAttr_steps host path attr 32 w trivial).trans (ih _)

theorem guardReadSample_steps (host : Host W) (c : GuardChip) (out : RawSample) (w : W) :
    host.Steps (ChannelAttr c.path) w (guardReadSample host c out w).2 :=
  readPins_steps host c.path _ out w

theorem nap_steps (host : Host W) (ms : ℤ) (w : W) : host.Steps may w (nap host ms w) := by
  unfold nap
  split
  · exact .refl
  · exact .single (.nanosleep _)

/-- The samples of a chip, one after another. -/
theorem SampleRun.steps {c : GuardChip} {gap : ℤ} {n : ℕ} {r : Option (List GuardSample)}
    (h : SampleRun host c gap n w r w') : host.Steps (ChannelAttr c.path) w w' := by
  -- a sample, the sleep if another is to come, and the rest
  induction h with
  | done => exact .refl
  | @read n w w₁ w₂ raw s r hread _ _ ih =>
    have hsample := guardReadSample_steps host c .unset w
    rw [hread] at hsample
    refine hsample.trans (ReflTransGen.trans ?_ ih)
    dsimp only
    split
    · exact nap_steps host gap w₁
    · exact .refl
  | @failed n w w₁ ret raw hread _ =>
    have hsample := guardReadSample_steps host c .unset w
    rw [hread] at hsample
    exact hsample

/-- The channels of a list of chips. -/
def SensorAttr (chips : List GuardChip) (path : CStr) : Prop :=
  ∃ c ∈ chips, ChannelAttr c.path path

theorem ChipRuns.steps {o : Options} {cs all : List GuardChip} (hcs : cs ⊆ all)
    {runs : List ChipRun} (h : ChipRuns host o cs w runs w') :
    host.Steps (SensorAttr all) w w' := by
  induction h with
  | nil => exact .refl
  | @cons c cs w w₁ w₂ r runs hrun _ ih =>
    have hchip : host.Steps (SensorAttr all) w w₁ :=
      hrun.steps.mono fun path hpath => ⟨c, hcs List.mem_cons_self, hpath⟩
    exact hchip.trans (ih (List.subset_of_cons_subset hcs))

/-- The samples of each chip are a stretch of the run. -/
theorem ChipRuns.stretch {o : Options} {cs : List GuardChip} {runs : List ChipRun}
    (h : ChipRuns host o cs w runs w') {r : ChipRun} (hr : r ∈ runs) :
    r.chip ∈ cs ∧ ∃ u v, host.Steps (fun _ => True) w u ∧
      SampleRun host r.chip (sampleGap o r.chip) o.samples.val.toNat u r.samples v ∧
      host.Steps (fun _ => True) v w' := by
  induction h with
  | nil => exact absurd hr List.not_mem_nil
  | @cons c cs w w₁ w₂ s runs hrun hrest ih =>
    rcases List.mem_cons.mp hr with rfl | hr
    · refine ⟨List.mem_cons_self, w, w₁, .refl, hrun, ?_⟩
      exact (hrest.steps (List.Subset.refl cs)).mono fun _ _ => trivial
    · obtain ⟨hmem, u, v, hbefore, hmid, hafter⟩ := ih hr
      refine ⟨List.mem_cons_of_mem c hmem, u, v, ?_, hmid, hafter⟩
      exact (hrun.steps.mono fun _ _ => trivial).trans hbefore

/-! ### The whole program -/

/-- What is opened while chips are looked for. -/
def DiscoveryPath (dir : CStr) (ents : Option (List CStr)) (path : CStr) : Prop :=
  path = dir ∨ ∃ all, ents = some all ∧ DiscoveryAttr dir all path

/-- **What looking for chips does.** It opens the class directory, and two attributes of
its entries; the chips it finds are at such entries. -/
theorem guardFindChips_steps (host : Host W) (root : CStr) (max : ℕ) (w : W) :
    let dir := snprintf 2048 (root ++ "/class/hwmon".toList)
    let ents := (host.readDir dir w).1
    host.Steps (DiscoveryPath dir ents) w (guardFindChips host root max w).2 ∧
      ∀ chips, (guardFindChips host root max w).1 = some chips → ∀ c ∈ chips,
        ∃ all, ents = some all ∧ ∃ ent ∈ all, ent.head? ≠ some '.' ∧
          c.path = chipPath dir ent := by
  intro dir ents
  have hlist : host.Steps (DiscoveryPath dir ents) w (host.readDir dir w).2 :=
    .single (.readDir (.inl rfl))
  have hents : ents = (host.readDir dir w).1 := rfl
  simp only [guardFindChips]
  rw [show snprintf 2048 (root ++ "/class/hwmon".toList) = dir from rfl]
  cases hread : host.readDir dir w with
  | mk found w₁ =>
    rw [hread] at hlist hents
    -- without a directory nothing is opened
    cases found with
    | none => exact ⟨hlist, fun chips h => absurd h (by simp)⟩
    | some all =>
      dsimp only at hents ⊢
      refine ⟨hlist.trans ((findLoop_steps host dir max (List.Subset.refl all) [] w₁).mono
        fun path hpath => .inr ⟨all, hents, hpath⟩), fun chips h c hc => ⟨all, hents, ?_⟩⟩
      obtain rfl := Option.some.inj h
      exact findLoop_path host dir max (List.Subset.refl all) (by simp) w₁ c
        ((List.mem_insertionSort _).mp hc)

/-- Past the search, only the channels of the chips found are opened. -/
theorem guardMonitor_steps (host : Host W) (o : Options) (w : W) :
    ∃ out w', guardMonitor host o w = some (out, w') ∧
      host.Steps (SensorAttr ((guardFindChips host o.sysfsRoot guardMaxChips w).1.getD []))
        (guardFindChips host o.sysfsRoot guardMaxChips w).2 w' := by
  unfold guardMonitor
  cases hfind : guardFindChips host o.sysfsRoot guardMaxChips w with
  | mk found w₁ =>
    rcases found with _ | _ | ⟨c, cs⟩
    · exact ⟨_, _, rfl, .refl⟩
    · exact ⟨_, _, rfl, .refl⟩
    · obtain ⟨runs, w', text, hruns, hloop, -⟩ :=
        chipLoop_runs host o (c :: cs) true .ok [] w₁
      dsimp only
      rw [hloop]
      exact ⟨_, w', rfl, hruns.steps (List.Subset.refl _)⟩

end Astral
