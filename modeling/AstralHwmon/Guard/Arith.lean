import AstralHwmon.Guard.ExitStatus
import AstralHwmon.Lib.CInt

/-!
# No arithmetic fault

`guard_eval`, `nap` and the part of `main` that deals with one chip, once more, with
every `int` expression, every index and the time given to `nanosleep` checked: a
computation that would overflow, divide by zero, leave an array or sleep for a time that
is none has no result. The definitions of `Astral.Checked` follow the source loop by
loop; those of the evaluator compute with integers that do not overflow.

`Checked.checkChip_eq` says that the two agree, on every machine and for all options that
`main` can hold. The bounds that make it so are enforced elsewhere: by `read_int_attr` on
the readings, by `parse_int` on the options, and they are carried here by
`GuardSample.InRange`, `GuardLimits.Tuned` and `Ranged`.
-/

open CText Fold CInt

namespace Astral

namespace Checked

variable (lim : GuardLimits)

/-- `total_ma`. -/
def totalMa (s : GuardSample) : Option ℤ :=
  (List.range 6).foldlM (fun t pin => do add t (← get s.ma pin)) 0

/-- The loop that keeps the lowest of the six readings. -/
def lowest (reading : Pin → ℤ) : Option ℤ := do
  let lo ← get reading 0
  (List.range' 1 5).foldlM (fun lo pin => do
    let x ← get reading pin
    return if x < lo then x else lo) lo

/-- The loop that keeps the highest of the six readings. -/
def highest (reading : Pin → ℤ) : Option ℤ := do
  let hi ← get reading 0
  (List.range' 1 5).foldlM (fun hi pin => do
    let x ← get reading pin
    return if x > hi then x else hi) hi

/-- `if (test) hits++;`. -/
def countIf (test : Prop) [Decidable test] (hits : ℕ) : Option ℕ :=
  if test then inc hits else some hits

/-- `if (test) hits[pin]++;`. -/
def bumpIf (test : Prop) [Decidable test] (hits : Pin → ℕ) (pin : ℕ) : Option (Pin → ℕ) :=
  if test then bump hits pin else some hits

/-- `if (test) xs[pin] = v;`. -/
def setIf (test : Prop) [Decidable test] (xs : Pin → ℤ) (pin : ℕ) (v : ℤ) : Option (Pin → ℤ) :=
  if test then set xs pin v else some xs

/-- The body of the pin loop. -/
def currentsAt (s : GuardSample) (t : Tally) (pin : ℕ) : Option Tally := do
  let ma ← get s.ma pin
  let worst ← get t.worstMa pin
  let worstMa ← setIf (ma > worst) t.worstMa pin ma
  let critHits ← bumpIf (ma ≥ lim.pinCritMa) t.critHits pin
  let warnHits ← bumpIf (ma ≥ lim.pinWarnMa) t.warnHits pin
  return { t with worstMa := worstMa, critHits := critHits, warnHits := warnHits }

/-- The pin loop. -/
def currents (t : Tally) (s : GuardSample) : Option Tally :=
  (List.range 6).foldlM (currentsAt lim s) t

/-- R4's block. -/
def voltages (t : Tally) (s : GuardSample) : Option Tally := do
  let lo ← lowest s.mv
  let mvCritHits ← countIf (lo < lim.mvCrit) t.mvCritHits
  let mvWarnHits ← countIf (lo < lim.mvWarn) t.mvWarnHits
  return { t with
    worstMv := if lo < t.worstMv then lo else t.worstMv
    mvCritHits := mvCritHits
    mvWarnHits := mvWarnHits }

/-- The body of R2's loop. -/
def opensAt (s : GuardSample) (t : Tally) (pin : ℕ) : Option Tally := do
  let ma ← get s.ma pin
  let openHits ← bumpIf (ma < lim.openPinMa) t.openHits pin
  return { t with openHits := openHits }

/-- R2's block. -/
def opens (t : Tally) (s : GuardSample) : Option Tally := do
  let total ← totalMa s
  if total ≥ lim.openGateMa then (List.range 6).foldlM (opensAt lim s) t else return t

/-- `if (lo * 100 < hi * pct) hits++;`. -/
def countUnder (lo hi pct : ℤ) (hits : ℕ) : Option ℕ := do
  let scaled ← mul lo 100
  let bound ← mul hi pct
  countIf (scaled < bound) hits

/-- R3's block. -/
def ratios (t : Tally) (s : GuardSample) : Option Tally := do
  let total ← totalMa s
  if total ≥ lim.ratioGateMa then
    let lo ← lowest s.ma
    let hi ← highest s.ma
    if hi > 0 then
      let scaled ← mul lo 100
      let pct ← div scaled hi
      let ratioCritHits ← countUnder lo hi lim.ratioCritPct t.ratioCritHits
      let ratioWarnHits ← countUnder lo hi lim.ratioWarnPct t.ratioWarnHits
      let noteHits ← countUnder lo hi lim.ratioNotePct t.noteHits
      return { t with
        worstPct := if pct < t.worstPct then pct else t.worstPct
        ratioCritHits := ratioCritHits
        ratioWarnHits := ratioWarnHits
        noteHits := noteHits }
    else return t
  else return t

/-- The body of the sample loop. -/
def sample (t : Tally) (s : GuardSample) : Option Tally := do
  let t ← currents lim t s
  let t ← voltages lim t s
  let t ← opens lim t s
  ratios lim t s

/-- `hits == (int)n`. -/
def always (hits n : ℕ) : Option Bool := do
  let n ← fit n
  return decide ((hits : ℤ) = n)

/-- `(int)pin + 1`. -/
def pinNumber (pin : ℕ) : Option ℕ := do
  let pin ← fit pin
  return (← add pin 1).toNat

/-- R2, for one pin. -/
def openPinRule (t : Tally) (n pin : ℕ) : Option (Option GuardFinding) := do
  if ← always (← get t.openHits pin) n then
    let number ← pinNumber pin
    return some ⟨.crit, .openPin, number, 0, snprintf 96 <|
      "pin ".toList ++ fmtInt (pin + 1) ++ " under ".toList ++ fmtInt lim.openPinMa
        ++ " mA while the connector is loaded".toList⟩
  else return none

/-- R1, for one pin. -/
def pinCurrentRule (t : Tally) (n pin : ℕ) : Option (Option GuardFinding) := do
  if ← always (← get t.critHits pin) n then
    let number ← pinNumber pin
    let worst ← get t.worstMa pin
    return some ⟨.crit, .pinCurrent, number, worst, snprintf 96 <|
      "pin ".toList ++ fmtInt (pin + 1) ++ " at ".toList ++ fmtInt worst
        ++ " mA, at or above the ".toList ++ fmtInt lim.pinCritMa ++ " mA rating".toList⟩
  else if ← always (← get t.warnHits pin) n then
    let number ← pinNumber pin
    let worst ← get t.worstMa pin
    return some ⟨.warn, .pinCurrent, number, worst, snprintf 96 <|
      "pin ".toList ++ fmtInt (pin + 1) ++ " at ".toList ++ fmtInt worst
        ++ " mA, above the ".toList ++ fmtInt lim.pinWarnMa ++ " mA warning point".toList⟩
  else return none

/-- The text of an imbalance finding at the warning and critical tiers. -/
def differText (pct worstPct : ℤ) : Option CStr := do
  let difference ← sub 100 pct
  return "pin currents differ by more than ".toList ++ fmtInt difference ++ "%: min/max ".toList
    ++ fmtInt worstPct ++ "%".toList

/-- R3. -/
def imbalanceRule (t : Tally) (n : ℕ) : Option (Option GuardFinding) := do
  if ← always t.ratioCritHits n then
    let text ← differText lim.ratioCritPct t.worstPct
    return some ⟨.crit, .imbalance, 0, t.worstPct, snprintf 96 text⟩
  else if ← always t.ratioWarnHits n then
    let text ← differText lim.ratioWarnPct t.worstPct
    return some ⟨.warn, .imbalance, 0, t.worstPct, snprintf 96 text⟩
  else if ← always t.noteHits n then
    return some ⟨.note, .imbalance, 0, t.worstPct, snprintf 96 <|
      "pin currents uneven: min/max ".toList ++ fmtInt t.worstPct
        ++ "% - worth watching".toList⟩
  else return none

/-- R4. -/
def voltageRule (t : Tally) (n : ℕ) : Option (Option GuardFinding) := do
  if ← always t.mvCritHits n then
    return some ⟨.crit, .voltage, 0, t.worstMv, snprintf 96 (lowestText t.worstMv lim.mvCrit)⟩
  else if ← always t.mvWarnHits n then
    return some ⟨.warn, .voltage, 0, t.worstMv, snprintf 96 (lowestText t.worstMv lim.mvWarn)⟩
  else return none

/-- `add`, where a rule has something to add: the finding goes into `f[n]`. -/
def addFinding (v : GuardVerdict) : Option GuardFinding → Option GuardVerdict
  | none => some v
  | some call =>
    if v.f.length = guardMaxFindings ∨ v.f.length < guardMaxFindings then some (v.add call)
    else none

/-- `guard_eval`, given an array that can be read up to the length of `ss`, and `n`. -/
def guardEval (ss : List GuardSample) (n : ℕ) : Option GuardVerdict :=
  if n = 0 then some .start
  else do
    let first ← ss[0]?
    let mv0 ← get first.mv 0
    let t ← (List.range n).foldlM (fun t i => ss[i]?.bind (sample lim t)) (.start mv0)
    let v ← (List.range 6).foldlM (fun v pin => do addFinding v (← openPinRule lim t n pin)) .start
    let v ← (List.range 6).foldlM (fun v pin => do addFinding v (← pinCurrentRule lim t n pin)) v
    let v ← addFinding v (← imbalanceRule lim t n)
    addFinding v (← voltageRule lim t n)

/-- A time `nanosleep` takes. -/
def TimeValid (ts : Timespec) : Prop := 0 ≤ ts.sec ∧ 0 ≤ ts.nsec ∧ ts.nsec < 1000000000

instance (ts : Timespec) : Decidable (TimeValid ts) := inferInstanceAs (Decidable (_ ∧ _ ∧ _))

variable {W : Type*} (host : Host W)

/-- The time `nap` asks for. The product is one of `long`. -/
def napTime (ms : ℤ) : Option Timespec := do
  let sec ← div ms 1000
  let rest ← mod ms 1000
  let nsec := rest * 1000000
  if longMin ≤ nsec ∧ nsec ≤ longMax ∧ TimeValid ⟨sec, nsec⟩ then return ⟨sec, nsec⟩ else none

/-- `nap`. -/
def nap (ms : ℤ) (w : W) : Option W :=
  if ms ≤ 0 then some w else (napTime ms).map fun ts => host.nanosleep ts w

/-- The sampling loop of `main`: each sample goes into `s[k]`. -/
def sampleLoop (c : GuardChip) (gap : ℤ) :
    ℕ → List RawSample → W → Option ((Bool × List RawSample) × W)
  | 0, s, w => some ((true, s), w)
  | k + 1, s, w =>
    if (s.length : ℤ) < guardMaxSamples then
      match guardReadSample host c .unset w with
      | ((ret, raw), w) =>
        if ret ≠ 0 then some ((false, s ++ [raw]), w)
        else (if 0 < k then nap host gap w else some w).bind (sampleLoop c gap k (s ++ [raw]))
    else none

/-- The verdict on the samples of a chip. -/
def verdict (o : Options) (s : List RawSample) : Option GuardVerdict := do
  let ss ← s.mapM RawSample.filled
  guardEval o.lim ss o.samples.val.toNat

/-- One chip: its samples, then its verdict. -/
def checkChip (o : Options) (c : GuardChip) (w : W) : Option (GuardVerdict × W) :=
  (sampleLoop host c (sampleGap o c) o.samples.val.toNat [] w).bind fun ((ok, s), w) =>
    if ok then (verdict o s).map (·, w) else some (unreadableVerdict c, w)

/-! ### What the bounds allow -/

variable {lim} {s : GuardSample} {t : Tally} {k : ℕ}

/-- No counter is beyond the number of samples counted. -/
structure Counted (k : ℕ) (t : Tally) : Prop where
  warnHits : ∀ pin, t.warnHits pin ≤ k
  critHits : ∀ pin, t.critHits pin ≤ k
  openHits : ∀ pin, t.openHits pin ≤ k
  noteHits : t.noteHits ≤ k
  ratioWarnHits : t.ratioWarnHits ≤ k
  ratioCritHits : t.ratioCritHits ≤ k
  mvWarnHits : t.mvWarnHits ≤ k
  mvCritHits : t.mvCritHits ≤ k

theorem counted_start (mv0 : ℤ) : Counted 0 (.start mv0) :=
  ⟨fun _ => le_rfl, fun _ => le_rfl, fun _ => le_rfl, le_rfl, le_rfl, le_rfl, le_rfl, le_rfl⟩

theorem counted_sample (ht : Counted k t) (s : GuardSample) :
    Counted (k + 1) (t.sample lim s) := by
  have hcount : ∀ {p : Prop} [Decidable p] {hits : ℕ}, hits ≤ k →
      (if p then hits + 1 else hits) ≤ k + 1 := fun h => by split <;> omega
  rw [Tally.sample_eq]
  exact ⟨fun pin => hcount (ht.warnHits pin), fun pin => hcount (ht.critHits pin),
    fun pin => hcount (ht.openHits pin), hcount ht.noteHits, hcount ht.ratioWarnHits,
    hcount ht.ratioCritHits, hcount ht.mvWarnHits, hcount ht.mvCritHits⟩

theorem lt_intMax {hits : ℕ} (h : hits ≤ 32) : (hits : ℤ) < intMax := by
  unfold intMax
  omega

theorem fits_of_le {v : ℤ} (hlo : -100000000 ≤ v) (hhi : v ≤ 100000000) : Fits v := by
  unfold Fits intMin intMax
  omega

theorem countIf_eq {test : Prop} [Decidable test] {hits : ℕ} (h : hits ≤ 32) :
    countIf test hits = some (if test then hits + 1 else hits) := by
  unfold countIf
  split
  · exact inc_eq_some (lt_intMax h)
  · rfl

theorem bumpIf_eq {test : Prop} [Decidable test] {hits : Pin → ℕ} {pin : Pin}
    (h : hits pin ≤ 32) : bumpIf test hits pin.val
      = some (Function.update hits pin (if test then hits pin + 1 else hits pin)) := by
  unfold bumpIf
  split
  · exact bump_val (lt_intMax h)
  · rw [Function.update_eq_self]

theorem setIf_eq (test : Prop) [Decidable test] (xs : Pin → ℤ) (pin : Pin) (v : ℤ) :
    setIf test xs pin.val v = some (Function.update xs pin (if test then v else xs pin)) := by
  unfold setIf
  split
  · exact set_val _ _ _
  · rw [Function.update_eq_self]

/-! ### The inner loops -/

theorem lowest_eq (reading : Pin → ℤ) : lowest reading = some (Astral.lowest reading) := rfl

theorem highest_eq (reading : Pin → ℤ) : highest reading = some (Astral.highest reading) := rfl

theorem totalMa_eq (hs : s.InRange) : totalMa s = some (Astral.totalMa s) := by
  -- after `i` pins the sum is at most `i` times the largest current
  have h := range_foldlM_eq_some (n := 6) (f := fun t pin => do add t (← get s.ma pin))
    (g := fun t pin => t + s.ma pin) (fun i t => 0 ≤ t ∧ t ≤ i * guardMaMax) (b := 0)
    ⟨le_rfl, by simp⟩ fun i t ⟨hlo, hhi⟩ => by
      obtain ⟨-, hma, hmax⟩ := hs i
      have hi := i.isLt
      unfold guardMaMax at hhi hmax ⊢
      rw [bind_eq (get_val s.ma i)]
      exact ⟨add_eq_some (fits_of_le (by omega) (by omega)), by omega, by push_cast; omega⟩
  exact h.1

/-- The pin loop's body, where it is free of faults. -/
def currentsStep (lim : GuardLimits) (s : GuardSample) (t : Tally) (pin : Pin) : Tally :=
  { t with
    worstMa := Function.update t.worstMa pin
      (if s.ma pin > t.worstMa pin then s.ma pin else t.worstMa pin)
    critHits := Function.update t.critHits pin
      (if s.ma pin ≥ lim.pinCritMa then t.critHits pin + 1 else t.critHits pin)
    warnHits := Function.update t.warnHits pin
      (if s.ma pin ≥ lim.pinWarnMa then t.warnHits pin + 1 else t.warnHits pin) }

theorem currentsAt_eq {pin : Pin} (hcrit : t.critHits pin ≤ 32) (hwarn : t.warnHits pin ≤ 32) :
    currentsAt lim s t pin.val = some (currentsStep lim s t pin) := by
  rw [currentsAt, bind_eq (get_val s.ma pin), bind_eq (get_val t.worstMa pin),
    bind_eq (setIf_eq _ _ pin _), bind_eq (bumpIf_eq hcrit), bind_eq (bumpIf_eq hwarn)]
  rfl

theorem foldl_currentsStep (lim : GuardLimits) (s : GuardSample) (t : Tally) :
    (List.finRange 6).foldl (currentsStep lim s) t = t.currents lim s := by
  -- three arrays are swept at once, and nothing else is touched
  have hframe : (List.finRange 6).foldl (currentsStep lim s) t = { t with
      worstMa := ((List.finRange 6).foldl (currentsStep lim s) t).worstMa
      critHits := ((List.finRange 6).foldl (currentsStep lim s) t).critHits
      warnHits := ((List.finRange 6).foldl (currentsStep lim s) t).warnHits } :=
    foldl_frame (fun t : Tally => (t.worstMa, t.critHits, t.warnHits))
      (fun t x => { t with worstMa := x.1, critHits := x.2.1, warnHits := x.2.2 })
      (fun _ => rfl) (fun _ _ _ => rfl) (fun _ _ => rfl) _ t
  have hworst : Sweeps (currentsStep lim s) Tally.worstMa
      fun pin worst => if s.ma pin > worst then s.ma pin else worst := fun _ _ => rfl
  have hcrit : Sweeps (currentsStep lim s) Tally.critHits
      fun pin hits => if s.ma pin ≥ lim.pinCritMa then hits + 1 else hits := fun _ _ => rfl
  have hwarn : Sweeps (currentsStep lim s) Tally.warnHits
      fun pin hits => if s.ma pin ≥ lim.pinWarnMa then hits + 1 else hits := fun _ _ => rfl
  rw [hframe, Tally.currents]
  congr 1
  · exact funext fun pin => hwarn.foldl_of_mem (List.nodup_finRange 6) (List.mem_finRange pin) t
  · exact funext fun pin => hcrit.foldl_of_mem (List.nodup_finRange 6) (List.mem_finRange pin) t
  · exact funext fun pin => hworst.foldl_of_mem (List.nodup_finRange 6) (List.mem_finRange pin) t

theorem currents_eq (ht : Counted k t) (hk : k ≤ 32) :
    currents lim t s = some (t.currents lim s) := by
  -- a pin the loop has not come to still has the counts it started with
  have h := range_foldlM_eq_some (n := 6) (f := currentsAt lim s) (g := currentsStep lim s)
    (fun i t' => ∀ pin : Pin, i ≤ pin.val → t'.critHits pin ≤ 32 ∧ t'.warnHits pin ≤ 32) (b := t)
    (fun pin _ => ⟨(ht.critHits pin).trans hk, (ht.warnHits pin).trans hk⟩)
    fun i t' hI => by
      refine ⟨currentsAt_eq (hI i le_rfl).1 (hI i le_rfl).2, fun pin hpin => ?_⟩
      have hne : pin ≠ i := by rintro rfl; omega
      simp only [currentsStep, Function.update_of_ne hne]
      exact hI pin (by omega)
  rw [currents, h.1, foldl_currentsStep]

theorem voltages_eq (hcrit : t.mvCritHits ≤ 32) (hwarn : t.mvWarnHits ≤ 32) :
    voltages lim t s = some (t.voltages lim s) := by
  rw [voltages, bind_eq (lowest_eq s.mv), bind_eq (countIf_eq hcrit), bind_eq (countIf_eq hwarn)]
  rfl

/-- The body of R2's loop, where it is free of faults. -/
def opensStep (lim : GuardLimits) (s : GuardSample) (t : Tally) (pin : Pin) : Tally :=
  { t with
    openHits := Function.update t.openHits pin
      (if s.ma pin < lim.openPinMa then t.openHits pin + 1 else t.openHits pin) }

theorem opensAt_eq {pin : Pin} (hopen : t.openHits pin ≤ 32) :
    opensAt lim s t pin.val = some (opensStep lim s t pin) := by
  rw [opensAt, bind_eq (get_val s.ma pin), bind_eq (bumpIf_eq hopen)]
  rfl

theorem foldl_opensStep (lim : GuardLimits) (s : GuardSample) (t : Tally) :
    (List.finRange 6).foldl (opensStep lim s) t = { t with
      openHits := fun pin =>
        if s.ma pin < lim.openPinMa then t.openHits pin + 1 else t.openHits pin } := by
  have hframe : (List.finRange 6).foldl (opensStep lim s) t = { t with
      openHits := ((List.finRange 6).foldl (opensStep lim s) t).openHits } :=
    foldl_frame (fun t : Tally => t.openHits) (fun t openHits => { t with openHits := openHits })
      (fun _ => rfl) (fun _ _ _ => rfl) (fun _ _ => rfl) _ t
  have hopen : Sweeps (opensStep lim s) Tally.openHits
      fun pin hits => if s.ma pin < lim.openPinMa then hits + 1 else hits := fun _ _ => rfl
  rw [hframe]
  congr 1
  exact funext fun pin => hopen.foldl_of_mem (List.nodup_finRange 6) (List.mem_finRange pin) t

theorem opens_eq (hs : s.InRange) (hopen : ∀ pin, t.openHits pin ≤ 32) :
    opens lim t s = some (t.opens lim s) := by
  have h := range_foldlM_eq_some (n := 6) (f := opensAt lim s) (g := opensStep lim s)
    (fun i t' => ∀ pin : Pin, i ≤ pin.val → t'.openHits pin ≤ 32) (b := t)
    (fun pin _ => hopen pin)
    fun i t' hI => by
      refine ⟨opensAt_eq (hI i le_rfl), fun pin hpin => ?_⟩
      have hne : pin ≠ i := by rintro rfl; omega
      simp only [opensStep, Function.update_of_ne hne]
      exact hI pin (by omega)
  rw [opens, bind_eq (totalMa_eq hs), Tally.opens]
  split
  · rw [h.1, foldl_opensStep]
  · rfl

/-- The tier that cannot be tuned is a percentage too. -/
theorem tuned_ratioCritPct (hlim : lim.Tuned) : 1 ≤ lim.ratioCritPct ∧ lim.ratioCritPct ≤ 100 := by
  have heq : lim.ratioCritPct = 60 := by rw [hlim.2.2]; rfl
  omega

theorem ma_mem (hs : s.InRange) : (0 ≤ Astral.lowest s.ma ∧ Astral.lowest s.ma ≤ 30000) ∧
    0 ≤ Astral.highest s.ma ∧ Astral.highest s.ma ≤ 30000 := by
  obtain ⟨pin, hlo⟩ := lowest_mem s.ma
  obtain ⟨pin', hhi⟩ := highest_mem s.ma
  rw [hlo, hhi]
  exact ⟨(hs pin).2, (hs pin').2⟩

theorem countUnder_eq {lo hi pct : ℤ} (hlo : 0 ≤ lo ∧ lo ≤ 30000) (hhi : 0 ≤ hi ∧ hi ≤ 30000)
    (hpct : 1 ≤ pct ∧ pct ≤ 100) {hits : ℕ} (h : hits ≤ 32) :
    countUnder lo hi pct hits = some (if lo * 100 < hi * pct then hits + 1 else hits) := by
  -- the widest product is a current times a hundred
  have hbound : hi * pct ≤ 30000 * 100 :=
    Int.mul_le_mul hhi.2 hpct.2 (by omega) (by decide)
  have hpos : 0 ≤ hi * pct := Int.mul_nonneg hhi.1 (by omega)
  rw [countUnder, bind_eq (mul_eq_some (fits_of_le (by omega) (by omega))),
    bind_eq (mul_eq_some (fits_of_le (by omega) (by omega)))]
  exact countIf_eq h

theorem ratios_eq (hlim : lim.Tuned) (hs : s.InRange) (hcrit : t.ratioCritHits ≤ 32)
    (hwarn : t.ratioWarnHits ≤ 32) (hnote : t.noteHits ≤ 32) :
    ratios lim t s = some (t.ratios lim s) := by
  obtain ⟨hlo, hhi⟩ := ma_mem hs
  have hcritPct := tuned_ratioCritPct hlim
  obtain ⟨hwarnPct, hnotePct, -⟩ := hlim
  rw [ratios, bind_eq (totalMa_eq hs), Tally.ratios]
  split
  next =>
    rw [bind_eq (lowest_eq s.ma), bind_eq (highest_eq s.ma)]
    dsimp only
    split
    next hpos =>
      -- the quotient is no larger than what is divided
      have hquot : 0 ≤ (Astral.lowest s.ma * 100).tdiv (Astral.highest s.ma) ∧
          (Astral.lowest s.ma * 100).tdiv (Astral.highest s.ma) ≤ Astral.lowest s.ma * 100 :=
        ⟨Int.tdiv_nonneg (by omega) hhi.1, Int.tdiv_le_self _ (by omega)⟩
      rw [bind_eq (mul_eq_some (fits_of_le (by omega) (by omega))),
        bind_eq (div_eq_some (by omega) (fits_of_le (by omega) (by omega))),
        bind_eq (countUnder_eq hlo hhi hcritPct hcrit),
        bind_eq (countUnder_eq hlo hhi hwarnPct hwarn),
        bind_eq (countUnder_eq hlo hhi hnotePct hnote)]
      rfl
    next => rfl
  next => rfl

/-- **One sample** is counted without a fault. -/
theorem sample_eq (hlim : lim.Tuned) (hs : s.InRange) (ht : Counted k t) (hk : k ≤ 32) :
    sample lim t s = some (t.sample lim s) := by
  -- no block touches the counters of a later one
  have hopens : ((t.currents lim s).voltages lim s).opens lim s = _ := Tally.opens_eq _ s
  have hratios : ratios lim (((t.currents lim s).voltages lim s).opens lim s) s
      = some (t.sample lim s) := by
    refine ratios_eq hlim hs ?_ ?_ ?_ <;> rw [hopens]
    · exact ht.ratioCritHits.trans hk
    · exact ht.ratioWarnHits.trans hk
    · exact ht.noteHits.trans hk
  have hvoltages : voltages lim (t.currents lim s) s = some ((t.currents lim s).voltages lim s) :=
    voltages_eq (ht.mvCritHits.trans hk) (ht.mvWarnHits.trans hk)
  have hopen : opens lim ((t.currents lim s).voltages lim s) s
      = some (((t.currents lim s).voltages lim s).opens lim s) :=
    opens_eq hs fun pin => (ht.openHits pin).trans hk
  rw [sample, bind_eq (currents_eq ht hk), bind_eq hvoltages, bind_eq hopen, hratios]

/-! ### The rules -/

variable {n : ℕ} {ss : List GuardSample}

theorem always_eq (hits : ℕ) (hn : n ≤ 32) : always hits n = some (decide (hits = n)) := by
  rw [always, bind_eq (fit_eq_some (fits_of_le (by omega) (by omega)))]
  exact congrArg some (decide_eq_decide.mpr (by omega))

theorem pinNumber_eq (pin : Pin) : pinNumber pin.val = some (pin.val + 1) := by
  have hpin := pin.isLt
  rw [pinNumber, bind_eq (fit_eq_some (fits_of_le (by omega) (by omega))),
    bind_eq (add_eq_some (fits_of_le (by omega) (by omega)))]
  exact congrArg some (by omega)

/-- A test of the source between two ways on. -/
theorem ite_decide {α : Type*} {p : Prop} [Decidable p] {x y : Option α} {a b : α}
    (hx : x = some a) (hy : y = some b) :
    (if decide p = true then x else y) = some (if p then a else b) := by
  by_cases h : p
  · rw [if_pos (decide_eq_true h), if_pos h, hx]
  · rw [if_neg (by simpa using h), if_neg h, hy]

theorem openPinRule_eq (hn : n ≤ 32) (pin : Pin) :
    openPinRule lim t n pin.val = some (Astral.openPinRule lim t n pin) := by
  rw [openPinRule, bind_eq (get_val t.openHits pin), bind_eq (always_eq _ hn)]
  exact ite_decide (by rw [bind_eq (pinNumber_eq pin)]; rfl) rfl

theorem pinCurrentRule_eq (hn : n ≤ 32) (pin : Pin) :
    pinCurrentRule lim t n pin.val = some (Astral.pinCurrentRule lim t n pin) := by
  rw [pinCurrentRule, bind_eq (get_val t.critHits pin), bind_eq (always_eq _ hn)]
  refine ite_decide (by rw [bind_eq (pinNumber_eq pin), bind_eq (get_val t.worstMa pin)]; rfl) ?_
  rw [bind_eq (get_val t.warnHits pin), bind_eq (always_eq _ hn)]
  exact ite_decide (by rw [bind_eq (pinNumber_eq pin), bind_eq (get_val t.worstMa pin)]; rfl) rfl

theorem differText_eq {pct : ℤ} (hpct : 1 ≤ pct ∧ pct ≤ 100) (worstPct : ℤ) :
    differText pct worstPct = some (Astral.differText pct worstPct) := by
  rw [differText, bind_eq (sub_eq_some (fits_of_le (by omega) (by omega)))]
  rfl

theorem imbalanceRule_eq (hlim : lim.Tuned) (hn : n ≤ 32) :
    imbalanceRule lim t n = some (Astral.imbalanceRule lim t n) := by
  rw [imbalanceRule, bind_eq (always_eq _ hn)]
  refine ite_decide (by rw [bind_eq (differText_eq (tuned_ratioCritPct hlim) _)]; rfl) ?_
  rw [bind_eq (always_eq _ hn)]
  refine ite_decide (by rw [bind_eq (differText_eq hlim.1 _)]; rfl) ?_
  rw [bind_eq (always_eq _ hn)]
  exact ite_decide rfl rfl

theorem voltageRule_eq (hn : n ≤ 32) :
    voltageRule lim t n = some (Astral.voltageRule lim t n) := by
  rw [voltageRule, bind_eq (always_eq _ hn)]
  refine ite_decide rfl ?_
  rw [bind_eq (always_eq _ hn)]
  exact ite_decide rfl rfl

theorem addFinding_eq (v : GuardVerdict) (call : Option GuardFinding) :
    addFinding v call = some (call.toList.foldl GuardVerdict.add v) := by
  cases call with
  | none => rfl
  | some call => exact if_pos v.room.eq_or_lt

/-- A loop over the pins adds what the rule says of each. -/
theorem foldlM_addFinding {rule : ℕ → Option (Option GuardFinding)}
    {rule' : Pin → Option GuardFinding} (h : ∀ pin : Pin, rule pin.val = some (rule' pin))
    (v : GuardVerdict) : (List.range 6).foldlM (fun v pin => do addFinding v (← rule pin)) v
      = some (((List.finRange 6).filterMap rule').foldl GuardVerdict.add v) := by
  have hloop := range_foldlM_eq_some (n := 6) (f := fun v pin => do addFinding v (← rule pin))
    (g := fun v pin => (rule' pin).toList.foldl GuardVerdict.add v) (fun _ _ => True) (b := v)
    trivial fun pin v _ => by
      rw [bind_eq (h pin)]
      exact ⟨addFinding_eq v _, trivial⟩
  rw [hloop.1, List.foldl_filterMap]
  congr 2
  funext v pin
  cases rule' pin <;> rfl

/-! ### The evaluator -/

/-- The sample loop. -/
theorem tallied_eq (hlim : lim.Tuned) (hs : ∀ s ∈ ss, s.InRange) (hn : ss.length ≤ 32) (mv0 : ℤ) :
    (List.range ss.length).foldlM (fun t i => ss[i]?.bind (sample lim t)) (.start mv0)
      = some (tallied lim mv0 ss) := by
  have hloop := foldlM_eq_some (f := sample lim) (g := Tally.sample lim) Counted (l := ss)
    (k := 0) (counted_start mv0) fun i hi t ht =>
      ⟨sample_eq hlim (hs _ (List.getElem_mem hi)) ht (by omega), counted_sample ht _⟩
  rw [range_foldlM_getElem?, hloop.1]
  rfl

/-- **The evaluator** has no fault on the samples and the limits it is given. -/
theorem guardEval_eq (hlim : lim.Tuned) (hs : ∀ s ∈ ss, s.InRange) (hn : ss.length ≤ 32) :
    guardEval lim ss ss.length = some (Astral.guardEval lim ss) := by
  cases ss with
  | nil => rfl
  | cons first rest =>
    have hfirst : (first :: rest)[0]? = some first := rfl
    have hmv0 : get first.mv 0 = some (first.mv 0) := get_val first.mv 0
    have htally := tallied_eq hlim hs hn (first.mv 0)
    rw [guardEval, if_neg (by simp), bind_eq hfirst, bind_eq hmv0, bind_eq htally,
      bind_eq (foldlM_addFinding (fun pin => openPinRule_eq hn pin) _),
      bind_eq (foldlM_addFinding (fun pin => pinCurrentRule_eq hn pin) _),
      bind_eq (imbalanceRule_eq hlim hn), bind_eq (addFinding_eq _ _),
      bind_eq (voltageRule_eq hn), addFinding_eq]
    simp only [Astral.guardEval, ruleFindings, List.foldl_append]

/-! ### One chip -/

/-- **Every gap makes a valid time.** -/
theorem napTime_eq {ms : ℤ} (hpos : 0 ≤ ms) (hmax : ms ≤ guardMaxIntervalMs) :
    napTime ms = some ⟨ms.tdiv 1000, ms.tmod 1000 * 1000000⟩ ∧
      TimeValid ⟨ms.tdiv 1000, ms.tmod 1000 * 1000000⟩ := by
  have hrest := Int.tmod_nonneg 1000 hpos
  have hlt := Int.tmod_lt_of_pos ms (show (0 : ℤ) < 1000 by decide)
  have hquot := Int.tdiv_nonneg hpos (show (0 : ℤ) ≤ 1000 by decide)
  have hself := Int.tdiv_le_self 1000 hpos
  unfold guardMaxIntervalMs at hmax
  have hdiv : div ms 1000 = some (ms.tdiv 1000) :=
    div_eq_some (by decide) (fits_of_le (by omega) (by omega))
  have hmod : mod ms 1000 = some (ms.tmod 1000) := by rw [mod, hdiv, Option.map_some]
  -- an hour at most, and less than a second of nanoseconds
  have hvalid : TimeValid ⟨ms.tdiv 1000, ms.tmod 1000 * 1000000⟩ :=
    ⟨hquot, by dsimp only; omega, by dsimp only; omega⟩
  refine ⟨?_, hvalid⟩
  rw [napTime, bind_eq hdiv, bind_eq hmod]
  exact if_pos ⟨by unfold longMin; omega, by unfold longMax; omega, hvalid⟩

variable {W : Type*}

theorem nap_eq (host : Host W) {ms : ℤ} (hpos : 0 ≤ ms) (hmax : ms ≤ guardMaxIntervalMs) (w : W) :
    nap host ms w = some (Astral.nap host ms w) := by
  unfold nap Astral.nap
  split
  · rfl
  · rw [(napTime_eq hpos hmax).1, Option.map_some]

theorem sampleGap_mem (o : Options) (c : GuardChip) :
    0 ≤ sampleGap o c ∧ sampleGap o c ≤ guardMaxIntervalMs := by
  unfold sampleGap
  split
  · exact o.interval.property
  · exact c.updateIntervalMs.property

theorem sampleLoop_eq (host : Host W) (c : GuardChip) {gap : ℤ} (hpos : 0 ≤ gap)
    (hmax : gap ≤ guardMaxIntervalMs)
    {n : ℕ} {raws : List RawSample} (hroom : ((raws.length + n : ℕ) : ℤ) ≤ guardMaxSamples)
    (w : W) : sampleLoop host c gap n raws w = some (Astral.sampleLoop host c gap n raws w) := by
  -- on the samples still to take, with the room left for them in the array
  induction n generalizing raws w with
  | zero => rfl
  | succ n ih =>
    have hslot : (raws.length : ℤ) < guardMaxSamples := by push_cast at hroom; omega
    rw [sampleLoop, Astral.sampleLoop, if_pos hslot]
    cases hread : guardReadSample host c .unset w with
    | mk out w' =>
      obtain ⟨ret, raw⟩ := out
      dsimp only
      by_cases hret : ret ≠ 0
      · rw [if_pos hret, if_pos hret]
      -- the gap is slept between samples only
      · have hnap : (if 0 < n then nap host gap w' else some w')
            = some (if 0 < n then Astral.nap host gap w' else w') := by
          split
          · exact nap_eq host hpos hmax w'
          · rfl
        rw [if_neg hret, if_neg hret, hnap, Option.bind_some]
        refine ih ?_ _
        rw [List.length_append, List.length_singleton]
        omega

/-- One chip is dealt with as it is over the integers, and gets a verdict. -/
theorem checkChip_eq (host : Host W) (o : Options) (c : GuardChip) (w : W) :
    ∃ v w', checkChip host o c w = some (v, w') ∧ Astral.checkChip host o c w = (some v, w') := by
  have hn : ((o.samples.val.toNat : ℕ) : ℤ) ≤ guardMaxSamples := by
    have := o.samples.property
    omega
  have hroom :
      ((([] : List RawSample).length + o.samples.val.toNat : ℕ) : ℤ) ≤ guardMaxSamples := by
    rw [List.length_nil, Nat.zero_add]
    exact hn
  have hloop := sampleLoop_eq host c (sampleGap_mem o c).1 (sampleGap_mem o c).2 hroom w
  have hnil : ([] : List RawSample).mapM RawSample.filled = some [] := rfl
  obtain ⟨r, hrun, hr⟩ := sampleLoop_run host c (sampleGap o c) o.samples.val.toNat hnil w
  rw [checkChip, hloop, Option.bind_some, Astral.checkChip]
  cases hrun' : Astral.sampleLoop host c (sampleGap o c) o.samples.val.toNat [] w with
  | mk out w' =>
    obtain ⟨ok, raws⟩ := out
    rw [hrun'] at hr
    cases r with
    | none =>
      -- a read failed, and nothing is evaluated
      obtain rfl : ok = false := hr
      exact ⟨_, w', rfl, rfl⟩
    | some ss =>
      obtain ⟨rfl, hfilled⟩ : ok = true ∧ raws.mapM RawSample.filled = some ss := hr
      -- as many samples as were asked for, each in range: what the evaluation relies on
      obtain ⟨hlen, hs⟩ := hrun.length_eq ss rfl
      have heval : guardEval o.lim ss o.samples.val.toNat = some (Astral.guardEval o.lim ss) := by
        unfold guardMaxSamples at hn
        rw [← hlen]
        exact guardEval_eq o.lim_tuned hs (by omega)
      have hverdict : verdict o raws = some (Astral.guardEval o.lim ss) := by
        rw [verdict, bind_eq hfilled, heval]
      refine ⟨Astral.guardEval o.lim ss, w', ?_, ?_⟩
      · simp only [if_true, hverdict, Option.map_some]
      · simp only [if_true, hfilled, Option.map_some]

end Checked

/-- **No arithmetic fault on any admitted input.** Take any options the option loop can
leave, any chip, and a machine that answers each read as it likes. Then

* the run over the chip, with every `int` expression, division, index and time checked,
  is free of faults, and gives the verdict that is computed over the integers;
* so is the evaluation of every list of one to 32 samples whose readings are in the
  bounds that `read_int_attr` is given;
* and the gap between two samples, whether it is `--interval` or the chip's own, is a time
  that `nanosleep` takes. -/
theorem guardMain_noArithmeticFault {W : Type*} (host : Host W) (o : Options) (c : GuardChip)
    (w : W) :
    (∃ v w', Checked.checkChip host o c w = some (v, w') ∧ checkChip host o c w = (some v, w')) ∧
      (∀ ss : List GuardSample, 1 ≤ ss.length → (ss.length : ℤ) ≤ guardMaxSamples →
        (∀ s ∈ ss, s.InRange) →
          Checked.guardEval o.lim ss ss.length = some (guardEval o.lim ss)) ∧
      ∃ ts, Checked.napTime (sampleGap o c) = some ts ∧ Checked.TimeValid ts := by
  refine ⟨Checked.checkChip_eq host o c w, fun ss _ hn hs => ?_, ?_⟩
  · unfold guardMaxSamples at hn
    exact Checked.guardEval_eq o.lim_tuned hs (by omega)
  · obtain ⟨hpos, hmax⟩ := Checked.sampleGap_mem o c
    exact ⟨_, Checked.napTime_eq hpos hmax⟩

/-- Readings far beyond those bounds do overflow the sum. -/
example : Checked.totalMa ⟨fun _ => 12000, fun _ => 500000000⟩ = none := by
  decide

end Astral
