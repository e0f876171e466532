import AstralHwmon.Pipeline.Machine

/-!
# Persistence rests on distinct transfers

The guard reports a finding only if it holds in every sample of a run. That is
a defence against one odd frame only if no transfer is behind two samples, and
whether it is depends on two programs: the driver serves one frame for
`ASTRAL_CACHE_TTL`, and the guard sleeps for the interval the driver publishes.

`Machine.reads` lists the twelve reads of a sample with the worlds they are made
in, `Machine.sources` the transfers behind them. The end of one sample and the
start of any later one are a cache lifetime apart (`end_before`), so each read
of the later one serves a newer transfer than each read of the earlier
(`Machine.later_read`).
-/

open CText Transition

namespace Astral

/-! ### The sampling loop, sample by sample -/

section Loop

variable {W : Type*} {host : Host W} {c : GuardChip} {gap : ℤ}

/-- The world in which each sample of a run starts, if those before it succeed. -/
def sampleWorld (host : Host W) (c : GuardChip) (gap : ℤ) : W → ℕ → W
  | w, 0 => w
  | w, i + 1 => sampleWorld host c gap (nap host gap (guardReadSample host c .unset w).2) i

/-- When the loop succeeds, so does each of its samples; the samples are those
read in the worlds above, and the run ends with the last of them. -/
theorem sampleLoop_ok {n : ℕ} {raws : List RawSample} {w : W}
    (h : (sampleLoop host c gap n raws w).1.1 = true) :
    (∀ i < n, (guardReadSample host c .unset (sampleWorld host c gap w i)).1.1 = 0) ∧
      (sampleLoop host c gap n raws w).1.2 = raws ++ (List.range n).map
        (fun i => (guardReadSample host c .unset (sampleWorld host c gap w i)).1.2) ∧
      ∀ k, n = k + 1 → (sampleLoop host c gap n raws w).2
        = (guardReadSample host c .unset (sampleWorld host c gap w k)).2 := by
  induction n generalizing raws w with
  | zero =>
    exact ⟨fun i hi => absurd hi (Nat.not_lt_zero i), by simp [sampleLoop],
      fun k hk => absurd hk (Nat.succ_ne_zero k).symm⟩
  | succ n ih =>
    rw [sampleLoop] at h ⊢
    cases hread : guardReadSample host c .unset w with
    | mk out w' =>
      obtain ⟨ret, raw⟩ := out
      rw [hread] at h
      dsimp only at h ⊢
      by_cases hret : ret = 0
      · rw [if_neg (not_not.mpr hret)] at h ⊢
        -- no nap follows the last sample
        have hfirst : (guardReadSample host c .unset w).1.1 = 0 := by rw [hread]; exact hret
        cases n with
        | zero =>
          refine ⟨fun i hi => ?_, ?_, fun k hk => ?_⟩
          · obtain rfl : i = 0 := by omega
            exact hfirst
          · simp [sampleLoop, sampleWorld, hread]
          · obtain rfl : k = 0 := by omega
            simp [sampleLoop, sampleWorld, hread]
        | succ n =>
          -- the rest of the loop starts after the nap
          rw [if_pos (Nat.succ_pos n)] at h ⊢
          have hworld : ∀ i, sampleWorld host c gap (nap host gap w') i
              = sampleWorld host c gap w (i + 1) := fun i => by rw [sampleWorld, hread]
          have hhead : (guardReadSample host c .unset (sampleWorld host c gap w 0)).1.2 = raw := by
            rw [sampleWorld, hread]
          obtain ⟨hall, hraws, hend⟩ := ih h
          refine ⟨fun i hi => ?_, ?_, fun k hk => ?_⟩
          · cases i with
            | zero => exact hfirst
            | succ i => rw [← hworld]; exact hall i (by omega)
          · rw [hraws, List.range_succ_eq_map (n := n + 1), List.map_cons, List.map_map, hhead,
              List.append_assoc, List.singleton_append]
            refine congrArg (fun l => raws ++ raw :: l) (List.map_congr_left fun i _ => ?_)
            rw [Function.comp_apply, hworld]
          · obtain rfl : k = n + 1 := by omega
            rw [hend n rfl, hworld]
      · rw [if_pos hret] at h
        exact absurd h (by simp)

end Loop

/-! ### One sample on the machine -/

variable {m : Machine}

/-- The twelve reads of a sample begun in `w`: channel and world of each. -/
def Machine.reads (m : Machine) (w : World) : List (HwmonType × Pin × World) :=
  (List.finRange 6).flatMap fun pin =>
    [(.in, pin, m.host.mvWorld w pin), (.curr, pin, m.host.maWorld w pin)]

/-- The transfers behind the twelve values of a sample, by their positions. -/
def Machine.sources (m : Machine) (w : World) : List ℕ :=
  (m.reads w).map fun r => (m.next r.1 r.2.1 r.2.2).timed.source

theorem Machine.mem_reads (m : Machine) (w : World) (pin : Pin) :
    (.in, pin, m.host.mvWorld w pin) ∈ m.reads w ∧
      (.curr, pin, m.host.maWorld w pin) ∈ m.reads w :=
  ⟨List.mem_flatMap.mpr ⟨pin, List.mem_finRange pin, List.mem_cons_self⟩,
    List.mem_flatMap.mpr ⟨pin, List.mem_finRange pin,
      List.mem_cons_of_mem _ List.mem_cons_self⟩⟩

/-- A successful read between two worlds. -/
structure Machine.ReadWithin (m : Machine) (w e : World) (type : HwmonType) (pin : Pin)
    (v : World) : Prop where
  chip : type ≠ .chip
  inv : v.timed.Inv m.clk
  ok : (m.host.reply type pin v).ret = .ok ()
  started : w.timed.Before v.timed
  ended : (m.next type pin v).timed.Before e.timed

/-- Reading a voltage file moves the world on by one call. -/
theorem Machine.after_mv (hdir : m.dir.length < 3072) (pin : Pin) (v : World) :
    afterReads m.host.toHost m.dir [mvAttr pin] v = m.next .in pin v := by
  have hfile : afterReads m.host.toHost m.dir [mvAttr pin] v
      = (m.host.readFile (snprintf (3072 + 64) (m.dir ++ '/' :: mvAttr pin)) v).2 := rfl
  rw [hfile, attrPath_eq hdir (attr_length_le pin).1, mvAttr_eq]
  simp only [Machine.host, driverHost, channelOf_in]

theorem Machine.after_ma (hdir : m.dir.length < 3072) (pin : Pin) (v : World) :
    afterReads m.host.toHost m.dir [maAttr pin] v = m.next .curr pin v := by
  have hfile : afterReads m.host.toHost m.dir [maAttr pin] v
      = (m.host.readFile (snprintf (3072 + 64) (m.dir ++ '/' :: maAttr pin)) v).2 := rfl
  rw [hfile, attrPath_eq hdir (attr_length_le pin).2, maAttr_eq]
  simp only [Machine.host, driverHost, channelOf_curr]

/-- The reads of a sample, before, at and after a pin. -/
theorem pinAttrs_split (pin : Pin) :
    pinAttrs (List.finRange 6) = pinAttrs ((List.finRange 6).take pin.val) ++
      ([mvAttr pin] ++ ([maAttr pin] ++ pinAttrs ((List.finRange 6).drop (pin.val + 1)))) := by
  revert pin
  decide

/-- **A sample that succeeds** is twelve successful reads. -/
theorem Machine.sample_reads {c : GuardChip} (hc : c.path = m.dir) {w : World}
    (hw : w.timed.Inv m.clk) (hret : (guardReadSample m.host.toHost c .unset w).1.1 = 0) :
    w.timed.Before (guardReadSample m.host.toHost c .unset w).2.timed ∧
      (guardReadSample m.host.toHost c .unset w).2.timed.Inv m.clk ∧
      (∀ r ∈ m.reads w, m.ReadWithin w (guardReadSample m.host.toHost c .unset w).2
        r.1 r.2.1 r.2.2) := by
  have hdir : m.dir.length < 3072 := hc ▸ c.path_fits
  have hcases := guardReadSample_cases m.host.toHost c .unset w
  rw [hc] at hcases
  obtain ⟨-, hend, hread⟩ := hcases.resolve_right fun h => by
    rw [hret] at h; exact absurd h.1 (by decide)
  rw [hend]
  refine ⟨m.before_afterReads _ _ w, inv_afterReads hw _ _, fun r hr => ?_⟩
  obtain ⟨pin, -, hmem⟩ := List.mem_flatMap.mp hr
  obtain ⟨mv, ma, hmv, hma, -, -⟩ := hread pin
  -- the rest of the sample runs from the world after this pin's two reads
  have hrest : (m.next .curr pin (m.host.maWorld w pin)).timed.Before
      (afterReads m.host.toHost m.dir (pinAttrs (List.finRange 6)) w).timed := by
    rw [pinAttrs_split pin, afterReads_append, afterReads_append, afterReads_append,
      after_ma hdir]
    exact m.before_afterReads _ _ _
  have hmid : m.next .in pin (m.host.mvWorld w pin) = m.host.maWorld w pin :=
    (after_mv hdir pin _).symm
  have hinv : (m.host.mvWorld w pin).timed.Inv m.clk := inv_afterReads hw _ _
  have hstart : w.timed.Before (m.host.mvWorld w pin).timed := m.before_afterReads _ _ w
  -- the voltage is read first, the current in the world it leaves
  rcases List.mem_cons.mp hmem with rfl | hmem
  · exact ⟨HwmonType.noConfusion, hinv,
      (reply_of_readIntAttr hdir (attr_length_le pin).1 (m.host.mv_file pin _) hmv).1, hstart,
      hmid ▸ (m.before_next .curr pin _).trans hrest⟩
  · obtain rfl := List.mem_singleton.mp hmem
    refine ⟨HwmonType.noConfusion, hmid ▸ (inv_ready hinv).call _,
      (reply_of_readIntAttr hdir (attr_length_le pin).2 (m.host.ma_file pin _) hma).1, ?_, hrest⟩
    rw [← hmid]
    exact hstart.trans (m.before_next .in pin _)

/-- What a channel has in the frame of the transfer at a position. -/
def Timed.Holds (s : Timed) (i : ℕ) (type : HwmonType) (pin : Pin) (v : ℤ) : Prop :=
  ∃ x frame, s.transfers[i]? = some x ∧ astralReadFrame x.result = .ok frame ∧
    v = frame.value type pin

theorem Timed.Before.holds {s t : Timed} (h : s.Before t) {i : ℕ} {type : HwmonType} {pin : Pin}
    {v : ℤ} (hs : s.Holds i type pin v) : t.Holds i type pin v := by
  obtain ⟨x, frame, hx, hrest⟩ := hs
  exact ⟨x, frame, h.getElem? hx, hrest⟩

theorem AstralFrame.value_mem (frame : AstralFrame) (type : HwmonType) (pin : Pin) :
    0 ≤ frame.value type pin ∧ frame.value type pin < 10 ^ 5 := by
  have hmv := (frame.millivolts pin).toNat_lt
  have hma := (frame.milliamps pin).toNat_lt
  unfold AstralFrame.value
  split <;> omega

/-- A value the guard got from a read is its channel's in the read's source. -/
theorem Machine.ReadWithin.holds {w e v : World} {type : HwmonType} {pin : Pin}
    (h : m.ReadWithin w e type pin v) (hdir : m.dir.length < 3072) {attr : CStr}
    (hattr : attr.length ≤ 32)
    (hfile : (m.host.readFile (m.dir ++ '/' :: attr) v).1 = hwmonShow (m.host.reply type pin v))
    {lo hi : ℤ} {val : Ranged lo hi}
    (hread : (readIntAttr m.host.toHost m.dir attr lo hi v).1 = some val) :
    e.timed.Holds (m.next type pin v).timed.source type pin val.val := by
  obtain ⟨x, frame, hx, hframe, -, hval⟩ := read_value h.inv h.chip h.ok
  have heq := (reply_of_readIntAttr hdir hattr hfile hread).2
  rw [hval] at heq
  exact h.ended.holds ⟨x, frame, hx, hframe, heq (frame.value_mem _ _).1 (frame.value_mem _ _).2⟩

/-- **What is behind a sample.** Each of its twelve values is its channel's in the
frame of the transfer its read was served. -/
theorem Machine.sample_values {c : GuardChip} (hc : c.path = m.dir) {w : World}
    (hw : w.timed.Inv m.clk) (hret : (guardReadSample m.host.toHost c .unset w).1.1 = 0)
    (pin : Pin) :
    ∃ mv ma, (guardReadSample m.host.toHost c .unset w).1.2.mv pin = some mv ∧
      (guardReadSample m.host.toHost c .unset w).1.2.ma pin = some ma ∧
      (guardReadSample m.host.toHost c .unset w).2.timed.Holds
        (m.next .in pin (m.host.mvWorld w pin)).timed.source .in pin mv.val ∧
      (guardReadSample m.host.toHost c .unset w).2.timed.Holds
        (m.next .curr pin (m.host.maWorld w pin)).timed.source .curr pin ma.val := by
  have hdir : m.dir.length < 3072 := hc ▸ c.path_fits
  obtain ⟨-, -, hreads⟩ := sample_reads hc hw hret
  have hcases := guardReadSample_cases m.host.toHost c .unset w
  rw [hc] at hcases
  obtain ⟨-, -, hread⟩ := hcases.resolve_right fun h => by
    rw [hret] at h; exact absurd h.1 (by decide)
  obtain ⟨mv, ma, hmv, hma, hslotv, hslota⟩ := hread pin
  have hin := hreads (.in, pin, m.host.mvWorld w pin) (m.mem_reads w pin).1
  have hcurr := hreads (.curr, pin, m.host.maWorld w pin) (m.mem_reads w pin).2
  have hfilev := m.host.mv_file pin (m.host.mvWorld w pin)
  have hfilec := m.host.ma_file pin (m.host.maWorld w pin)
  exact ⟨mv, ma, hslotv, hslota, hin.holds hdir (attr_length_le pin).1 hfilev hmv,
    hcurr.holds hdir (attr_length_le pin).2 hfilec hma⟩

/-! ### One run on the machine -/

/-- A nap lasts at least as long as asked. -/
theorem Machine.now_nap {gap : ℤ} (hgap : (astralCacheTtlMs : ℤ) ≤ gap) (w : World) :
    w.timed.now + astralCacheTtlMs * m.ms ≤ (nap m.host.toHost gap w).timed.now ∧
      nap m.host.toHost gap w
        = m.sleep ⟨gap.tdiv 1000, gap.tmod 1000 * 1000000⟩ w := by
  have hpos : ¬ gap ≤ 0 := by unfold astralCacheTtlMs at hgap; omega
  have hnap : nap m.host.toHost gap w
      = m.sleep ⟨gap.tdiv 1000, gap.tmod 1000 * 1000000⟩ w := if_neg hpos
  have hmillis : astralCacheTtlMs
      ≤ (⟨gap.tdiv 1000, gap.tmod 1000 * 1000000⟩ : Timespec).millis := by
    simp only [Timespec.millis, Int.tdiv_eq_ediv_of_nonneg (not_le.mp hpos).le,
      Int.tmod_eq_emod_of_nonneg (not_le.mp hpos).le]
    omega
  refine ⟨?_, hnap⟩
  rw [hnap]
  refine (Nat.add_le_add_left (Nat.mul_le_mul_right m.ms hmillis) _).trans ?_
  exact (le_max_right _ _).trans (Nat.le_add_right _ _)

section Run

variable {c : GuardChip} {gap : ℤ}

/-- A world and what a nap makes of it. -/
theorem Machine.nap_spec (hgap : (astralCacheTtlMs : ℤ) ≤ gap) {w : World}
    (hw : w.timed.Inv m.clk) :
    w.timed.Before (nap m.host.toHost gap w).timed ∧ (nap m.host.toHost gap w).timed.Inv m.clk := by
  rw [(now_nap hgap w).2]
  exact ⟨m.before_sleep _ w, inv_sleep hw _⟩

/-- The samples of a run start one after the other. -/
theorem Machine.before_sampleWorld (hc : c.path = m.dir) (hgap : (astralCacheTtlMs : ℤ) ≤ gap)
    {k : ℕ} {w : World} (hw : w.timed.Inv m.clk)
    (hall : ∀ i < k, (guardReadSample m.host.toHost c .unset
      (sampleWorld m.host.toHost c gap w i)).1.1 = 0) :
    w.timed.Before (sampleWorld m.host.toHost c gap w k).timed ∧
      (sampleWorld m.host.toHost c gap w k).timed.Inv m.clk := by
  induction k generalizing w with
  | zero => exact ⟨.refl _, hw⟩
  | succ k ih =>
    obtain ⟨hbefore, hinv, -⟩ := sample_reads hc hw (hall 0 (Nat.succ_pos k))
    obtain ⟨hnap, hinvnap⟩ := nap_spec hgap hinv
    obtain ⟨hrest, hinvrest⟩ := ih hinvnap fun i hi => hall (i + 1) (Nat.succ_lt_succ hi)
    exact ⟨(hbefore.trans hnap).trans hrest, hinvrest⟩

/-- A cache lifetime lies between the end of a sample and the start of a later one. -/
theorem Machine.end_before (hc : c.path = m.dir) (hgap : (astralCacheTtlMs : ℤ) ≤ gap)
    {j k : ℕ} (hjk : j < k) {w : World} (hw : w.timed.Inv m.clk)
    (hall : ∀ i < k, (guardReadSample m.host.toHost c .unset
      (sampleWorld m.host.toHost c gap w i)).1.1 = 0) :
    (guardReadSample m.host.toHost c .unset
        (sampleWorld m.host.toHost c gap w j)).2.timed.Before
      (sampleWorld m.host.toHost c gap w k).timed ∧
    (guardReadSample m.host.toHost c .unset
        (sampleWorld m.host.toHost c gap w j)).2.timed.now + astralCacheTtlMs * m.ms
      ≤ (sampleWorld m.host.toHost c gap w k).timed.now := by
  -- down to the first sample, whose nap is the gap; the later ones only add time
  induction j generalizing k w with
  | zero =>
    obtain ⟨k, rfl⟩ : ∃ k', k = k' + 1 := ⟨k - 1, by omega⟩
    obtain ⟨-, hinv, -⟩ := sample_reads hc hw (hall 0 (Nat.succ_pos k))
    obtain ⟨hnap, hinvnap⟩ := nap_spec hgap hinv
    obtain ⟨hrest, -⟩ := before_sampleWorld hc hgap hinvnap
      fun i hi => hall (i + 1) (Nat.succ_lt_succ hi)
    exact ⟨hnap.trans hrest, (now_nap hgap _).1.trans hrest.now⟩
  | succ j ih =>
    obtain ⟨k, rfl⟩ : ∃ k', k = k' + 1 := ⟨k - 1, by omega⟩
    obtain ⟨-, hinv, -⟩ := sample_reads hc hw (hall 0 (Nat.succ_pos k))
    exact ih (by omega) (nap_spec hgap hinv).2 fun i hi => hall (i + 1) (Nat.succ_lt_succ hi)

end Run

/-! ### The published interval -/

/-- Every chip found carries the interval its `update_interval` had when it was
read, or the default. -/
theorem findLoop_interval {W : Type*} {host : Host W} {classDir : CStr} {max : ℕ}
    {P : GuardChip → Prop}
    (hP : ∀ c : GuardChip, (∃ w, c.updateIntervalMs
      = ((readIntAttr host c.path "update_interval".toList 0 guardMaxIntervalMs w).1.getD
          ⟨guardDefaultIntervalMs, by decide⟩)) → P c)
    (ents : List CStr) {out : List GuardChip} (hout : ∀ c ∈ out, P c) (w : W) :
    ∀ c ∈ (findLoop host classDir max ents out w).1, P c := by
  induction ents generalizing out w with
  | nil => exact hout
  | cons ent ents ih =>
    unfold findLoop
    split
    · split
      · exact ih hout w
      · dsimp only
        split
        · exact ih hout _
        · split
          · exact ih hout _
          · refine ih (fun c hc => ?_) _
            rcases List.mem_append.mp hc with hc | hc
            · exact hout c hc
            · obtain rfl := List.mem_singleton.mp hc
              exact hP _ ⟨_, rfl⟩
    · exact hout

theorem channelOf_updateInterval (dir : CStr) :
    channelOf dir (dir ++ '/' :: updateIntervalName) = none := by
  simp only [channelOf, List.append_cancel_left_eq, List.cons.injEq, true_and]
  decide

theorem astralRead_updateInterval (ttl : Jiffies) (data : AstralData) (io : CallIo)
    (channel val : ℤ) : astralRead ttl data io .chip .updateInterval channel val
      = ⟨.ok (), astralCacheTtlMs, data, none⟩ := by
  rw [astralRead, if_pos rfl, if_neg (not_not.mpr rfl)]

/-- The driver publishes its cache lifetime. -/
theorem Machine.update_interval (hdir : m.dir.length < 3072) (w : World) :
    ∃ v, (readIntAttr m.host.toHost m.dir "update_interval".toList 0 guardMaxIntervalMs w).1
      = some v ∧ v.val = astralCacheTtlMs := by
  have hfile : (m.host.readFile (m.dir ++ '/' :: updateIntervalName) w).1
      = some (fmtInt astralCacheTtlMs ++ ['\n']) := by
    have hread : (m.host.readFile (m.dir ++ '/' :: updateIntervalName) w)
        = m.otherFile (m.dir ++ '/' :: updateIntervalName) w := by
      simp only [Machine.host, driverHost, channelOf_updateInterval]
    rw [hread, Machine.otherFile, if_pos rfl, astralRead_updateInterval]
    rfl
  have hlo : (0 : ℤ) ≤ astralCacheTtlMs := by decide
  have hhi : (astralCacheTtlMs : ℤ) ≤ guardMaxIntervalMs := by decide
  have hattr : "update_interval".toList.length ≤ 32 := by decide
  exact ⟨⟨astralCacheTtlMs, hlo, hhi⟩,
    readIntAttr_show hdir hattr hfile hlo (by decide) hlo hhi, rfl⟩

/-- A chip found on the machine has the interval the driver publishes. -/
theorem Machine.found_interval {root : CStr} {max : ℕ} {w : World} {chips : List GuardChip}
    (hfind : (guardFindChips m.host.toHost root max w).1 = some chips) {c : GuardChip}
    (hc : c ∈ chips) (hdir : c.path = m.dir) : c.updateIntervalMs.val = astralCacheTtlMs := by
  unfold guardFindChips at hfind
  dsimp only at hfind
  split at hfind
  · exact absurd hfind (by simp)
  · dsimp only at hfind
    obtain rfl := Option.some.inj hfind
    refine findLoop_interval (P := fun c => c.path = m.dir → c.updateIntervalMs.val
      = astralCacheTtlMs) ?_ _ (by simp) _ c ((List.mem_insertionSort _).mp hc) hdir
    rintro c ⟨w, hw⟩ hdir
    obtain ⟨v, hv, hval⟩ := m.update_interval (hdir ▸ c.path_fits) w
    rw [hw, hdir, hv]
    exact hval

/-! ### Distinct transfers -/

/-- With the default interval, or one no shorter than the chip's, the gap is at
least the driver's cache lifetime. -/
theorem ttl_le_sampleGap {o : Options} {c : GuardChip}
    (hc : c.updateIntervalMs.val = astralCacheTtlMs)
    (hgap : o.interval.val = 0 ∨ c.updateIntervalMs.val ≤ o.interval.val) :
    (astralCacheTtlMs : ℤ) ≤ sampleGap o c := by
  unfold sampleGap
  split
  next hpos => rcases hgap with h | h <;> omega
  next => exact hc.ge

/-- **Persistence rests on distinct transfers.** Take a chip the guard found, the
driver in any state it can be in, any other readers at any times, and a gap no
shorter than the interval the chip publishes. If every sample of a run shorter
than `2 ^ 63` ticks succeeds, then

* each value of a sample is its channel's in the frame of a transfer behind it;
* no transfer is behind two samples of the run;
* so with two samples or more, every transfer misses one of them. -/
theorem samples_distinctTransfers (m : Machine) (o : Options) {w₀ w : World}
    {chips : List GuardChip} {c : GuardChip}
    (hfind : (guardFindChips m.host.toHost o.sysfsRoot guardMaxChips w₀).1 = some chips)
    (hc : c ∈ chips) (hdir : c.path = m.dir)
    (hgap : o.interval.val = 0 ∨ c.updateIntervalMs.val ≤ o.interval.val)
    (hw : Reachable (timedSystem m.clk) w.timed)
    (hok : (sampleLoop m.host.toHost c (sampleGap o c) o.samples.val.toNat [] w).1.1 = true)
    (hshort : m.clk.ticks
      (sampleLoop m.host.toHost c (sampleGap o c) o.samples.val.toNat [] w).2.timed.now < 2 ^ 63) :
    let n := o.samples.val.toNat
    let run := sampleLoop m.host.toHost c (sampleGap o c) n [] w
    let start := sampleWorld m.host.toHost c (sampleGap o c) w
    (∀ i < n, ∀ pin, ∃ raw mv ma, run.1.2[i]? = some raw ∧ raw.mv pin = some mv ∧
      raw.ma pin = some ma ∧ (∃ a ∈ m.sources (start i), run.2.timed.Holds a .in pin mv.val) ∧
      ∃ a ∈ m.sources (start i), run.2.timed.Holds a .curr pin ma.val) ∧
    (∀ j k, j < k → k < n → List.Disjoint (m.sources (start j)) (m.sources (start k))) ∧
    (2 ≤ n → ∀ x, ∃ i < n, x ∉ m.sources (start i)) := by
  intro n run start
  have hgap' := ttl_le_sampleGap (Machine.found_interval hfind hc hdir) hgap
  have hinv := timedSystem_inv hw
  obtain ⟨hall, hraws, hend⟩ := sampleLoop_ok hok
  obtain ⟨last, hlast⟩ : ∃ k, n = k + 1 := ⟨n - 1, by
    have := o.samples.property.1
    have : n = o.samples.val.toNat := rfl
    omega⟩
  -- every sample ends no later than the run
  have hbound : ∀ i < n, (guardReadSample m.host.toHost c .unset (start i)).2.timed.Before
      run.2.timed := by
    intro i hi
    rw [show run.2 = _ from hend last hlast]
    rcases Nat.lt_or_ge i last with hlt | hge
    · obtain ⟨hbefore, -⟩ := Machine.end_before hdir hgap' hlt hinv
        fun i' hi' => hall i' (by omega)
      have hfinal := hall last (by omega)
      obtain ⟨-, hinvlast⟩ := Machine.before_sampleWorld hdir hgap' hinv
        (k := last) fun i' hi' => hall i' (by omega)
      exact hbefore.trans (Machine.sample_reads hdir hinvlast hfinal).1
    · obtain rfl : i = last := by omega
      exact .refl _
  have hstart : ∀ i < n, (start i).timed.Inv m.clk := fun i hi =>
    (Machine.before_sampleWorld hdir hgap' hinv fun i' hi' => hall i' (by omega)).2
  have hdisjoint : ∀ j k, j < k → k < n →
      List.Disjoint (m.sources (start j)) (m.sources (start k)) := by
    -- a read of each sample, a lifetime apart, cannot be served one transfer
    intro j k hjk hk a haj hak
    obtain ⟨r, hr, rfl⟩ := List.mem_map.mp haj
    obtain ⟨r', hr', heq⟩ := List.mem_map.mp hak
    have hj := (Machine.sample_reads hdir (hstart j (by omega)) (hall j (by omega))).2.2 r hr
    have hk' := (Machine.sample_reads hdir (hstart k hk) (hall k hk)).2.2 r' hr'
    obtain ⟨hbefore, hlate⟩ := Machine.end_before hdir hgap' hjk hinv
      fun i' hi' => hall i' (by omega)
    have hbetween := (hj.ended.trans hbefore).trans hk'.started
    have hshort' := (m.clk.ticks_mono (hk'.ended.trans (hbound k hk)).now).trans_lt hshort
    have hgap'' : (m.next r.1 r.2.1 r.2.2).timed.now + astralCacheTtlMs * m.ms
        ≤ r'.2.2.timed.now :=
      (Nat.add_le_add_right hj.ended.now _).trans (hlate.trans hk'.started.now)
    have := Machine.later_read hj.inv hk'.inv hj.chip hk'.chip hj.ok hk'.ok hbetween hgap'' hshort'
    omega
  refine ⟨fun i hi pin => ?_, hdisjoint, fun hn x => ?_⟩
  · obtain ⟨mv, ma, hmv, hma, hv, ha⟩ := Machine.sample_values hdir (hstart i hi) (hall i hi) pin
    obtain ⟨hin, hcurr⟩ := m.mem_reads (start i) pin
    refine ⟨_, mv, ma, ?_, hmv, hma, ⟨_, List.mem_map.mpr ⟨_, hin, rfl⟩, (hbound i hi).holds hv⟩,
      ⟨_, List.mem_map.mpr ⟨_, hcurr, rfl⟩, (hbound i hi).holds ha⟩⟩
    rw [show run.1.2 = _ from hraws, List.nil_append, List.getElem?_map, List.getElem?_range hi]
    rfl
  · by_cases h0 : x ∈ m.sources (start 0)
    · exact ⟨1, hn, fun h1 => hdisjoint 0 1 Nat.one_pos hn h0 h1⟩
    · exact ⟨0, by omega, h0⟩

/-- A machine that nobody else uses, whose chip always answers the idle frame. -/
def quietMachine : Machine where
  clk := wrappingClock
  ms := 1
  ttl_exact := by decide
  dir := "/sys/class/hwmon/hwmon7".toList
  schedule _ := ⟨[], 0, .block idleBlock, 0⟩
  entries _ _ := some ["hwmon7".toList]
  files path _ :=
    if path = "/sys/class/hwmon/hwmon7/name".toList then some (guardChipName ++ ['\n']) else none

/-- The options of a run that takes two samples. -/
def twoSamples : Options := { Options.default with samples := ⟨2, by decide⟩ }

/-- Two samples of an idle chip, 200 ms apart across the wrap of the counter,
rest on two transfers. -/
theorem samples_distinctTransfers_quiet :
    List.Disjoint (quietMachine.sources ⟨.start, 0⟩)
      (quietMachine.sources (sampleWorld quietMachine.host.toHost idleChip 200 ⟨.start, 0⟩ 1)) := by
  have hfind : (guardFindChips quietMachine.host.toHost twoSamples.sysfsRoot guardMaxChips
      ⟨.start, 0⟩).1 = some [idleChip] := by
    decide +kernel
  have hok : (sampleLoop quietMachine.host.toHost idleChip (sampleGap twoSamples idleChip)
      twoSamples.samples.val.toNat [] ⟨.start, 0⟩).1.1 = true := by
    decide +kernel
  have hshort : quietMachine.clk.ticks (sampleLoop quietMachine.host.toHost idleChip
      (sampleGap twoSamples idleChip) twoSamples.samples.val.toNat [] ⟨.start, 0⟩).2.timed.now
        < 2 ^ 63 := by
    decide +kernel
  exact (samples_distinctTransfers quietMachine twoSamples hfind List.mem_cons_self rfl (Or.inl rfl)
    timedSystem_start hok hshort).2.1 0 1 (by decide) (by decide)

end Astral
