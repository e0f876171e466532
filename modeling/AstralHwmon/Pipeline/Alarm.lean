import AstralHwmon.Guard.Faults
import AstralHwmon.Guard.Footprint
import AstralHwmon.Guard.Tuning
import AstralHwmon.Pipeline.Persistence

/-!
# From the connector to the exit status

What the exit status of `astral-guard` says about the frames that the chip gave, with
the driver, its cache and any other readers in between.

A sample that the guard reads is put together from frames that passed the driver's gate
(`Timed.Composes`), and the frames of a later sample are later ones
(`SampleRun.composes`). Against this the status is

* *sound*: a status of 1 or 2 names a fault that is there in as many samples as were
  asked for, each put together from frames of its own (`guardMain_evidence`);
* *complete*: a fault that is there in every frame from the start of the run on is
  reported at its level, unless a transfer fails meanwhile (`guardMain_sustained`);
* *honest* about what it could not see: a status of 3, with a chip found, comes of a
  transfer that failed during the run (`guardMain_unknown`).
-/

open CText Transition

namespace Astral

/-! ### The cache from one time to a later one -/

variable {clk : Clock}

/-- The frame cached is one of those transferred. -/
def Timed.Room (s : Timed) : Prop := s.source ≤ s.transfers.length

/-- `t` is a later state of the cache than `s`. -/
structure Timed.Later (clk : Clock) (s t : Timed) : Prop where
  before : s.Before t
  inv : t.Inv clk
  source : s.source ≤ t.source
  room : t.Room

theorem Timed.Later.refl {s : Timed} (hs : s.Inv clk) (hroom : s.Room) : Timed.Later clk s s :=
  ⟨.refl s, hs, le_rfl, hroom⟩

theorem Timed.Later.trans {s t u : Timed} (h : Timed.Later clk s t) (h' : Timed.Later clk t u) :
    Timed.Later clk s u :=
  ⟨h.before.trans h'.before, h'.inv, h.source.trans h'.source, h'.room⟩

theorem Timed.Later.call {s t : Timed} (h : Timed.Later clk s t) (c : TimedCall) :
    Timed.Later clk s (t.call clk c) := by
  have hroom : t.source ≤ t.transfers.length := h.room
  -- the source stays, or is the transfer just made
  have hstep : t.source ≤ (t.call clk c).source ∧
      (t.call clk c).source ≤ (t.call clk c).transfers.length := by
    rcases t.call_cases clk c with heq | ⟨data, -, heq⟩ | ⟨frame, -, -, heq⟩ <;> rw [heq] <;>
      simp only [List.length_append, List.length_singleton] <;> omega
  exact ⟨h.before.trans (t.before_call clk c), h.inv.call c, h.source.trans hstep.1, hstep.2⟩

theorem Timed.Later.calls {s t : Timed} (h : Timed.Later clk s t) (cs : List TimedCall) :
    Timed.Later clk s (cs.foldl (Timed.call clk) t) := by
  induction cs generalizing t with
  | nil => exact h
  | cons c cs ih => exact ih (h.call c)

theorem Timed.Later.wait {s t : Timed} (h : Timed.Later clk s t) {now : ℕ} (hnow : t.now ≤ now) :
    Timed.Later clk s { t with now := now } :=
  ⟨h.before.trans ⟨hnow, List.prefix_refl _⟩, h.inv.wait hnow, h.source, h.room⟩

theorem timedSystem_room {s : Timed} (h : Reachable (timedSystem clk) s) : s.Room := by
  refine h.invariant (I := fun s => s.Inv clk ∧ s.Room) (fun s hs => ?_) (fun s c t hI hstep => ?_)
    |>.2
  · rw [show s = .start from hs]
    exact ⟨fun hv => absurd hv (by decide), Nat.zero_le _⟩
  · rw [show t = s.call clk c from hstep]
    have hlater := (Timed.Later.refl hI.1 hI.2).call c
    exact ⟨hlater.inv, hlater.room⟩

variable {m : Machine} {may : CStr → Prop}

/-- Whatever the guard does to its machine, the cache only moves on. -/
theorem Machine.later_steps {s : Timed} {w w' : World} (h : m.host.toHost.Steps may w w')
    (hw : Timed.Later m.clk s w.timed) : Timed.Later m.clk s w'.timed := by
  refine h.keeps (P := fun w => Timed.Later m.clk s w.timed) (fun path w hw => hw)
    (fun path w hw => ?_) (fun ts w hw => ?_) hw
  · rcases m.readFile_world path w with ⟨type, pin, heq⟩ | heq <;> rw [heq]
    · exact (hw.calls _).call _
    · exact hw
  · exact (hw.calls _).wait ((le_max_left _ _).trans (Nat.le_add_right _ _))

theorem Machine.later_sample {s : Timed} {c : GuardChip} {w w' : World} {out : ℤ × RawSample}
    (hread : guardReadSample m.host.toHost c .unset w = (out, w'))
    (hw : Timed.Later m.clk s w.timed) : Timed.Later m.clk s w'.timed := by
  have hsteps := guardReadSample_steps m.host.toHost c .unset w
  rw [hread] at hsteps
  exact later_steps hsteps hw

/-- Between two samples there is a nap, after the last there is none. -/
theorem Machine.later_pause {s : Timed} (gap : ℤ) (n : ℕ) {w : World}
    (hw : Timed.Later m.clk s w.timed) :
    Timed.Later m.clk s (if 0 < n then nap m.host.toHost gap w else w).timed := by
  have hnap : m.host.toHost.Steps (fun _ => True) w (nap m.host.toHost gap w) :=
    nap_steps m.host.toHost gap w
  split
  · exact later_steps hnap hw
  · exact hw

/-! ### The frames behind a sample -/

/-- The transfer at a position read a frame that passed the gate, and a channel has the
value `v` in it. -/
def Timed.Shows (s : Timed) (i : ℕ) (type : HwmonType) (pin : Pin) (v : ℤ) : Prop :=
  ∃ x frame, s.transfers[i]? = some x ∧ astralReadFrame x.result = .ok frame ∧
    astralFramePlausible frame = true ∧ v = frame.value type pin

theorem Timed.Before.shows {s t : Timed} (h : s.Before t) {i : ℕ} {type : HwmonType} {pin : Pin}
    {v : ℤ} (hs : s.Shows i type pin v) : t.Shows i type pin v := by
  obtain ⟨x, frame, hx, hrest⟩ := hs
  exact ⟨x, frame, h.getElem? hx, hrest⟩

/-- A sample put together from the frames of transfers in a set. -/
def Timed.Composes (t : Timed) (A : Set ℕ) (s : GuardSample) : Prop :=
  ∀ pin, (∃ i ∈ A, t.Shows i .in pin (s.mv pin)) ∧ ∃ i ∈ A, t.Shows i .curr pin (s.ma pin)

theorem Timed.Before.composes {s t : Timed} (h : s.Before t) {A : Set ℕ} {x : GuardSample}
    (hs : s.Composes A x) : t.Composes A x := fun pin =>
  ⟨(hs pin).1.imp fun _ hi => ⟨hi.1, h.shows hi.2⟩,
    (hs pin).2.imp fun _ hi => ⟨hi.1, h.shows hi.2⟩⟩

theorem Timed.Composes.mono {t : Timed} {A B : Set ℕ} {s : GuardSample} (h : t.Composes A s)
    (hsub : A ⊆ B) : t.Composes B s := fun pin =>
  ⟨(h pin).1.imp fun _ hi => ⟨hsub hi.1, hi.2⟩, (h pin).2.imp fun _ hi => ⟨hsub hi.1, hi.2⟩⟩

/-- The positions of the transfers behind a sample begun in `w`. -/
def Machine.behind (m : Machine) (w : World) : Set ℕ := {a | a ∈ m.sources w}

/-- The frame that a successful read was served passed the gate. -/
theorem Machine.ReadWithin.shows {w e v : World} {type : HwmonType} {pin : Pin} {val : ℤ}
    (h : m.ReadWithin w e type pin v)
    (hholds : e.timed.Holds (m.next type pin v).timed.source type pin val) :
    e.timed.Shows (m.next type pin v).timed.source type pin val := by
  obtain ⟨x, frame, hx, hframe, hval⟩ := hholds
  obtain ⟨x', frame', hx', hframe', hpl, -⟩ := read_value h.inv h.chip h.ok
  obtain rfl := Option.some.inj (hx.symm.trans (h.ended.getElem? hx'))
  obtain rfl := Except.ok.inj (hframe.symm.trans hframe')
  exact ⟨x, frame, hx, hframe, hpl, hval⟩

/-- A sample is put together from the frames behind it. -/
theorem Machine.sample_composes {c : GuardChip} (hc : c.path = m.dir) {w w' : World}
    (hw : w.timed.Inv m.clk) {raw : RawSample} {s : GuardSample}
    (hread : guardReadSample m.host.toHost c .unset w = ((0, raw), w'))
    (hfilled : raw.filled = some s) : w'.timed.Composes (m.behind w) s := by
  have hret : (guardReadSample m.host.toHost c .unset w).1.1 = 0 := by rw [hread]
  obtain ⟨-, -, hreads⟩ := sample_reads hc hw hret
  intro pin
  obtain ⟨mv, ma, hmv, hma, hin, hcurr⟩ := sample_values hc hw hret pin
  obtain ⟨hmemv, hmema⟩ := m.mem_reads w pin
  have hshowv := (hreads _ hmemv).shows hin
  have hshowa := (hreads _ hmema).shows hcurr
  rw [hread] at hmv hma hshowv hshowa
  -- the values of the sample are those of its slots
  obtain ⟨mv', ma', hmv', hma', hsv, hsa⟩ := RawSample.filled_eq_some hfilled pin
  obtain rfl := Option.some.inj (hmv.symm.trans hmv')
  obtain rfl := Option.some.inj (hma.symm.trans hma')
  rw [hsv, hsa]
  exact ⟨⟨_, List.mem_map.mpr ⟨_, hmemv, rfl⟩, hshowv⟩,
    ⟨_, List.mem_map.mpr ⟨_, hmema, rfl⟩, hshowa⟩⟩

/-! ### The frames behind a run -/

/-- Everything in one set of positions comes before everything in another. -/
def Precedes (A B : Set ℕ) : Prop := ∀ a ∈ A, ∀ b ∈ B, a < b

/-- Every position in a set is that of a transfer that a read was served which ended a
cache lifetime ago. -/
def Machine.Past (m : Machine) (A : Set ℕ) (w : World) : Prop :=
  ∀ a ∈ A, ∃ type pin v, type ≠ .chip ∧ v.timed.Inv m.clk ∧
    (m.host.reply type pin v).ret = .ok () ∧ a = (m.next type pin v).timed.source ∧
    (m.next type pin v).timed.Before w.timed ∧
    (m.next type pin v).timed.now + astralCacheTtlMs * m.ms ≤ w.timed.now

theorem Machine.Past.later {A : Set ℕ} {w w' : World} (h : m.Past A w)
    (hbefore : w.timed.Before w'.timed) : m.Past A w' := by
  intro a ha
  obtain ⟨type, pin, v, hchip, hinv, hok, heq, hend, hgap⟩ := h a ha
  exact ⟨type, pin, v, hchip, hinv, hok, heq, hend.trans hbefore, hgap.trans hbefore.now⟩

/-- What was read a lifetime before a sample comes before what is behind it. -/
theorem Machine.Past.precedes {c : GuardChip} (hc : c.path = m.dir) {A : Set ℕ} {w : World}
    (h : m.Past A w) (hw : w.timed.Inv m.clk)
    (hret : (guardReadSample m.host.toHost c .unset w).1.1 = 0)
    (hshort : m.clk.ticks (guardReadSample m.host.toHost c .unset w).2.timed.now < 2 ^ 63) :
    Precedes A (m.behind w) := by
  intro a ha b hb
  obtain ⟨type, pin, v, hchip, hinv, hok, rfl, hend, hgap⟩ := h a ha
  obtain ⟨r, hr, rfl⟩ := List.mem_map.mp hb
  have hread := (sample_reads hc hw hret).2.2 r hr
  refine later_read hinv hread.inv hchip hread.chip hok hread.ok (hend.trans hread.started)
    (hgap.trans hread.started.now) ?_
  exact (m.clk.ticks_mono hread.ended.now).trans_lt hshort

/-- What is behind a sample is past after a nap. -/
theorem Machine.past_nap {c : GuardChip} (hc : c.path = m.dir) {gap : ℤ}
    (hgap : (astralCacheTtlMs : ℤ) ≤ gap) {w : World} (hw : w.timed.Inv m.clk)
    (hret : (guardReadSample m.host.toHost c .unset w).1.1 = 0) :
    m.Past (m.behind w)
      (nap m.host.toHost gap (guardReadSample m.host.toHost c .unset w).2) := by
  obtain ⟨-, hinv, hreads⟩ := sample_reads hc hw hret
  intro a ha
  obtain ⟨r, hr, rfl⟩ := List.mem_map.mp ha
  have hread := hreads r hr
  refine ⟨r.1, r.2.1, r.2.2, hread.chip, hread.inv, hread.ok, rfl,
    hread.ended.trans (nap_spec hgap hinv).1, ?_⟩
  exact (Nat.add_le_add_right hread.ended.now _).trans (now_nap hgap _).1

/-- **The frames behind a run.** Each sample of a run is put together from frames of its
own: those of a sample come before those of the next. -/
theorem SampleRun.composes {c : GuardChip} (hc : c.path = m.dir) {gap : ℤ}
    (hgap : (astralCacheTtlMs : ℤ) ≤ gap) {n : ℕ} {w w' : World} {r : Option (List GuardSample)}
    (h : SampleRun m.host.toHost c gap n w r w') {s₀ : Timed} (hw : Timed.Later m.clk s₀ w.timed)
    (hshort : m.clk.ticks w'.timed.now < 2 ^ 63) :
    ∀ ss, r = some ss → ∃ sets : List (Set ℕ),
      List.Forall₂ (fun s A => w'.timed.Composes A s) ss sets ∧ sets.Pairwise Precedes ∧
      ∀ A, m.Past A w → ∀ B ∈ sets, Precedes A B := by
  induction h with
  | done =>
    rintro ss ⟨⟩
    exact ⟨[], .nil, .nil, fun _ _ B hB => absurd hB List.not_mem_nil⟩
  | @read n w w₁ w₂ raw s r hread hfilled hrest ih =>
    intro ss hss
    obtain ⟨rest, rfl, rfl⟩ := Option.map_eq_some_iff.mp hss
    have hret : (guardReadSample m.host.toHost c .unset w).1.1 = 0 := by rw [hread]
    have hw₁ := Machine.later_sample hread hw
    -- the world the next sample starts from
    have hnext := Machine.later_pause gap n (.refl hw₁.inv hw₁.room)
    have hend : w₁.timed.Before w₂.timed :=
      hnext.before.trans (Machine.later_steps hrest.steps (.refl hnext.inv hnext.room)).before
    have hshort₁ : m.clk.ticks (guardReadSample m.host.toHost c .unset w).2.timed.now < 2 ^ 63 := by
      rw [hread]
      exact (m.clk.ticks_mono hend.now).trans_lt hshort
    obtain ⟨sets, hall, hsets, hpast⟩ := ih (hw₁.trans hnext) hshort rest rfl
    have hself : ∀ B ∈ sets, Precedes (m.behind w) B := by
      intro B hB
      -- with no sample to follow there is no nap, and no set
      have hn : 0 < n := by
        rcases Nat.eq_zero_or_pos n with rfl | hn
        · cases hrest
          cases hall
          exact absurd hB List.not_mem_nil
        · exact hn
      refine hpast _ ?_ B hB
      rw [if_pos hn]
      have hpast₁ := Machine.past_nap hc hgap hw.inv hret
      rwa [hread] at hpast₁
    refine ⟨m.behind w :: sets,
      .cons (hend.composes (Machine.sample_composes hc hw.inv hread hfilled)) hall,
      List.pairwise_cons.mpr ⟨hself, hsets⟩, fun A hA B hB => ?_⟩
    rcases List.mem_cons.mp hB with rfl | hB
    · exact hA.precedes hc hw.inv hret hshort₁
    · have hbefore : w.timed.Before w₁.timed := by
        have := (Machine.sample_reads hc hw.inv hret).1
        rwa [hread] at this
      exact hpast A (hA.later (hbefore.trans hnext.before)) B hB
  | failed => exact fun ss hss => absurd hss (by simp)

/-- What is behind a sample is not older than what was cached before it. -/
theorem Machine.le_behind {c : GuardChip} (hc : c.path = m.dir) {s₀ : Timed} {w : World}
    (hw : Timed.Later m.clk s₀ w.timed) : m.behind w ⊆ {i | s₀.source ≤ i} := by
  intro a ha
  obtain ⟨r, hr, rfl⟩ := List.mem_map.mp ha
  have hdir : m.dir.length < 3072 := hc ▸ c.path_fits
  obtain ⟨pin, -, hmem⟩ := List.mem_flatMap.mp hr
  -- the world after a read is one the guard's steps lead to
  have hmv : Timed.Later m.clk s₀ (m.host.mvWorld w pin).timed :=
    later_steps (afterReads_steps m.host.toHost _ _ w) hw
  have hnextv : Timed.Later m.clk s₀ (m.next .in pin (m.host.mvWorld w pin)).timed := by
    rw [← after_mv hdir]
    exact later_steps (afterReads_steps m.host.toHost _ _ _) hmv
  rcases List.mem_cons.mp hmem with rfl | hmem
  · exact hnextv.source
  · obtain rfl := List.mem_singleton.mp hmem
    have hma : Timed.Later m.clk s₀ (m.host.maWorld w pin).timed := by
      rw [HwmonHost.maWorld]
      exact later_steps (afterReads_steps m.host.toHost _ _ _) hmv
    have hnexta := later_steps (afterReads_steps m.host.toHost m.dir [maAttr pin] _) hma
    rw [after_ma hdir] at hnexta
    exact hnexta.source

/-- Every sample of a run is put together from frames that were cached at its start or
transferred since. -/
theorem SampleRun.composed {c : GuardChip} (hc : c.path = m.dir) {gap : ℤ} {n : ℕ} {w w' : World}
    {r : Option (List GuardSample)} (h : SampleRun m.host.toHost c gap n w r w') {s₀ : Timed}
    (hw : Timed.Later m.clk s₀ w.timed) :
    ∀ ss, r = some ss → ∀ s ∈ ss, w'.timed.Composes {i | s₀.source ≤ i} s := by
  induction h with
  | done =>
    rintro ss ⟨⟩ s hs
    exact absurd hs List.not_mem_nil
  | @read n w w₁ w₂ raw s r hread hfilled hrest ih =>
    intro ss hss
    obtain ⟨rest, rfl, rfl⟩ := Option.map_eq_some_iff.mp hss
    have hw₁ := Machine.later_sample hread hw
    have hnext := Machine.later_pause gap n (.refl hw₁.inv hw₁.room)
    intro s' hs'
    rcases List.mem_cons.mp hs' with rfl | hs'
    · have hend := hnext.before.trans
        (Machine.later_steps hrest.steps (.refl hnext.inv hnext.room)).before
      exact (hend.composes (Machine.sample_composes hc hw.inv hread hfilled)).mono
        (Machine.le_behind hc hw)
    · exact ih (hw₁.trans hnext) rest rfl s' hs'
  | failed => exact fun ss hss => absurd hss (by simp)

/-! ### Reads that fail -/

/-- Of the transfers made from `s` to `t`, one failed. -/
def Timed.Failed (s t : Timed) : Prop :=
  ∃ i y, s.transfers.length ≤ i ∧ t.transfers[i]? = some y ∧ ¬ y.result.Good

theorem Timed.Failed.widen {s t u v : Timed} (h : t.Failed u) (hst : s.Before t)
    (huv : u.Before v) : s.Failed v := by
  obtain ⟨i, y, hi, hy, hbad⟩ := h
  exact ⟨i, y, hst.transfers.length_le.trans hi, huv.getElem? hy, hbad⟩

/-- A read of a channel that fails has made a transfer that failed. -/
theorem Timed.call_read_error {s : Timed} {c : TimedCall} {type : HwmonType} {attr : HwmonAttr}
    {pin : Pin} {val : ℤ} {e : Errno} (hc : c.request = .read type attr pin.val val)
    (htype : type = .in ∨ type = .curr)
    (hret : (s.reply clk c type attr pin.val val).ret = .error e) : s.Failed (s.call clk c) := by
  have hchip : type ≠ .chip := by rcases htype with rfl | rfl <;> decide
  have hch : ¬ ((pin.val : ℤ) < 0 ∨ 6 ≤ (pin.val : ℤ)) := by omega
  have hrun : c.request.run clk.cacheTtl s.data (c.io clk s)
      = ((astralRefreshLocked clk.cacheTtl s.data (c.io clk s)).data,
          (astralRefreshLocked clk.cacheTtl s.data (c.io clk s)).transfer) := by
    rw [hc, Request.run, astralRead, if_neg hchip, dif_neg hch]
  rw [Timed.reply, astralRead, if_neg hchip, dif_neg hch] at hret
  rcases astralRefreshLocked_cases clk.cacheTtl s.data (c.io clk s) with
    ⟨-, hr⟩ | ⟨-, hbad, e', hr⟩ | ⟨-, frame, -, -, hr⟩
  -- what the refresh got, the read returns
  · rw [hr] at hret
    rcases htype with rfl | rfl <;> exact absurd hret (by simp [astralReadSwitch])
  · refine ⟨s.transfers.length, ⟨c.result, s.now + c.wait + c.busy⟩, le_rfl, ?_, hbad⟩
    rw [Timed.call, hrun, hr]
    exact List.getElem?_concat_length
  · rw [hr] at hret
    rcases htype with rfl | rfl <;> exact absurd hret (by simp [astralReadSwitch])

/-- A channel that the guard cannot read has made a transfer that failed: what the driver
publishes is within the guard's bounds. -/
theorem Machine.read_failed (hdir : m.dir.length < 3072) {type : HwmonType}
    (htype : type = .in ∨ type = .curr) {pin : Pin} {w : World} (hw : w.timed.Inv m.clk)
    {attr : CStr} (hattr : attr.length ≤ 32)
    (hfile : (m.host.readFile (m.dir ++ '/' :: attr) w).1 = hwmonShow (m.host.reply type pin w))
    {lo hi : ℤ} (hbounds : ∀ frame, astralFramePlausible frame = true →
      lo ≤ frame.value type pin ∧ frame.value type pin ≤ hi)
    (hnone : (readIntAttr m.host.toHost m.dir attr lo hi w).1 = none) :
    w.timed.Failed (m.next type pin w).timed := by
  have hchip : type ≠ .chip := by rcases htype with rfl | rfl <;> decide
  cases hret : (m.host.reply type pin w).ret with
  | ok u =>
    obtain ⟨x, frame, -, -, hpl, hval⟩ := read_value hw hchip hret
    rw [hwmonShow_of_ok hret, hval] at hfile
    obtain ⟨h0, hlt⟩ := frame.value_mem type pin
    obtain ⟨hlo, hhi⟩ := hbounds frame hpl
    have hread := readIntAttr_show hdir hattr hfile h0 hlt hlo hhi
    exact absurd (hnone.symm.trans hread) (by simp)
  | error e =>
    have hfailed : (m.ready w).Failed (m.next type pin w).timed :=
      Timed.call_read_error (s := m.ready w) (c := m.call w type pin) rfl htype hret
    exact hfailed.widen (m.before_ready w) (.refl _)

/-- A sample that fails has made a transfer that failed. -/
theorem Machine.readPins_failed (hdir : m.dir.length < 3072) (pins : List Pin) (out : RawSample)
    {w : World} (hw : w.timed.Inv m.clk)
    (hret : (readPins m.host.toHost m.dir pins out w).1.1 ≠ 0) :
    w.timed.Failed (readPins m.host.toHost m.dir pins out w).2.timed := by
  induction pins generalizing out w with
  | nil => exact absurd rfl hret
  | cons pin pins ih =>
    have hbounds : ∀ frame, astralFramePlausible frame = true →
        (guardMvMin ≤ frame.value .in pin ∧ frame.value .in pin ≤ guardMvMax) ∧
          0 ≤ frame.value .curr pin ∧ frame.value .curr pin ≤ guardMaMax := by
      intro frame hpl
      obtain ⟨hlo, hhi, hma⟩ := (astralFramePlausible_iff frame).mp hpl pin
      simp only [AstralFrame.value, if_true, reduceCtorEq, if_false, guardMvMin, guardMvMax,
        guardMaMax]
      omega
    rw [readPins] at hret ⊢
    cases hmv : readIntAttr m.host.toHost m.dir (mvAttr pin) guardMvMin guardMvMax w with
    | mk mv w₁ =>
      obtain rfl : w₁ = m.next .in pin w := (readIntAttr_world hmv).trans (after_mv hdir pin w)
      have hinv₁ : (m.next .in pin w).timed.Inv m.clk := (inv_ready hw).call _
      rw [hmv] at hret
      cases mv with
      | none =>
        exact read_failed hdir (.inl rfl) hw (attr_length_le pin).1 (m.host.mv_file pin w)
          (fun frame hpl => (hbounds frame hpl).1) (congrArg Prod.fst hmv)
      | some mv =>
        dsimp only at hret ⊢
        cases hma : readIntAttr m.host.toHost m.dir (maAttr pin) 0 guardMaMax
            (m.next .in pin w) with
        | mk ma w₂ =>
          obtain rfl : w₂ = m.next .curr pin (m.next .in pin w) :=
            (readIntAttr_world hma).trans (after_ma hdir pin _)
          rw [hma] at hret
          cases ma with
          | none =>
            refine (read_failed hdir (.inr rfl) hinv₁ (attr_length_le pin).2
              (m.host.ma_file pin _) (fun frame hpl => (hbounds frame hpl).2)
              (congrArg Prod.fst hma)).widen (m.before_next .in pin w) (.refl _)
          | some ma =>
            refine (ih _ ((inv_ready hinv₁).call _) hret).widen ?_ (.refl _)
            exact (m.before_next .in pin w).trans (m.before_next .curr pin _)

/-- A run that gives up on a chip has made a transfer that failed. -/
theorem SampleRun.failed_transfer {c : GuardChip} (hc : c.path = m.dir) {gap : ℤ} {n : ℕ}
    {w w' : World} {r : Option (List GuardSample)}
    (h : SampleRun m.host.toHost c gap n w r w') {s₀ : Timed}
    (hw : Timed.Later m.clk s₀ w.timed) (hr : r = none) : s₀.Failed w'.timed := by
  have hdir : m.dir.length < 3072 := hc ▸ c.path_fits
  induction h with
  | done => exact absurd hr (by simp)
  | @read n w w₁ w₂ raw s r hread _ _ ih =>
    exact ih (Machine.later_pause gap n (Machine.later_sample hread hw))
      (Option.map_eq_none_iff.mp hr)
  | @failed n w w₁ ret raw hread hret =>
    have hfailed := Machine.readPins_failed hdir (List.finRange 6) .unset hw.inv (by
      rw [← hc]
      change (guardReadSample m.host.toHost c .unset w).1.1 ≠ 0
      rw [hread]
      exact hret)
    rw [← hc] at hfailed
    change w.timed.Failed (guardReadSample m.host.toHost c .unset w).2.timed at hfailed
    rw [hread] at hfailed
    exact hfailed.widen hw.before (.refl _)

/-! ### The exit status -/

section Status

variable {version : CStr} {argv : List CStr} {o : Options} {w w' : World} {out : Outcome}

/-- The chips that the guard finds. -/
def Machine.found (m : Machine) (o : Options) (w : World) : List GuardChip :=
  (guardFindChips m.host.toHost o.sysfsRoot guardMaxChips w).1.getD []

/-- What a run did with one of the chips. -/
structure Machine.Visited (m : Machine) (o : Options) (w w' : World) (r : ChipRun) : Prop where
  found : r.chip ∈ m.found o w
  samples : ∀ ss, r.samples = some ss →
    ss ≠ [] ∧ (ss.length : ℤ) = o.samples ∧ ∀ s ∈ ss, s.InRange
  stretch : ∃ u v, Timed.Later m.clk w.timed u.timed ∧
    SampleRun m.host.toHost r.chip (sampleGap o r.chip) o.samples.val.toNat u r.samples v ∧
    v.timed.Before w'.timed

/-- What a monitoring run comes to: 3 without a chip, and with one what its runs tell. -/
theorem Machine.main_runs (hparse : optionLoop version argv.tail .default = .run o)
    (hw : Reachable (timedSystem m.clk) w.timed)
    (hrun : guardMain version m.host.toHost argv w = some (out, w')) :
    (m.found o w = [] ∧ out.exitCode = 3) ∨ ∃ runs, Tells o runs out ∧
      runs.map ChipRun.chip = m.found o w ∧ ∀ r ∈ runs, m.Visited o w w' r := by
  have hstart := Timed.Later.refl (timedSystem_inv hw) (timedSystem_room hw)
  rw [guardMain_of_run hparse] at hrun
  obtain ⟨out', w'', hmonitor, hspec, -⟩ := guardMonitor_monitored m.host.toHost o w
  obtain ⟨rfl, rfl⟩ := Prod.mk.inj (Option.some.inj (hmonitor.symm.trans hrun))
  have hfind := (guardFindChips_steps m.host.toHost o.sysfsRoot guardMaxChips w).1
  have hfound : m.found o w
      = (guardFindChips m.host.toHost o.sysfsRoot guardMaxChips w).1.getD [] := rfl
  unfold Monitored at hspec
  cases hchips : guardFindChips m.host.toHost o.sysfsRoot guardMaxChips w with
  | mk chips w₁ =>
    rw [hchips] at hspec hfind hfound
    rcases chips with _ | _ | ⟨c, cs⟩
    · exact .inl ⟨hfound, hspec⟩
    · exact .inl ⟨hfound, hspec⟩
    · obtain ⟨runs, hruns, hread, htells⟩ := hspec
      refine .inr ⟨runs, htells, hfound ▸ hruns.read.1, fun r hr => ?_⟩
      obtain ⟨hmem, u, v, hbefore, hsamples, hafter⟩ := hruns.stretch hr
      have hu := later_steps hbefore (later_steps hfind hstart)
      have hv := later_steps hsamples.steps (.refl hu.inv hu.room)
      refine ⟨hfound ▸ hmem, fun ss hss => ?_, u, v, hu, hsamples,
        (later_steps hafter (.refl hv.inv hv.room)).before⟩
      obtain ⟨hlen, hpos, hrange⟩ := hread r hr ss hss
      exact ⟨List.ne_nil_of_length_pos hpos, hlen, hrange⟩

/-- A chip found has the interval that the driver publishes. -/
theorem Machine.found_ttl {c : GuardChip} (hc : c ∈ m.found o w) (hdir : c.path = m.dir) :
    c.updateIntervalMs.val = astralCacheTtlMs := by
  unfold found at hc
  cases hchips : (guardFindChips m.host.toHost o.sysfsRoot guardMaxChips w).1 with
  | none =>
    rw [hchips, Option.getD_none] at hc
    exact absurd hc List.not_mem_nil
  | some chips =>
    rw [hchips, Option.getD_some] at hc
    exact found_interval hchips hc hdir

theorem exists_of_forall₂ {α β : Type*} {R : α → β → Prop} {l : List α} {l' : List β}
    (h : List.Forall₂ R l l') {b : β} (hb : b ∈ l') : ∃ a ∈ l, R a b := by
  induction h with
  | nil => exact absurd hb List.not_mem_nil
  | @cons a b' l l' hab _ ih =>
    rcases List.mem_cons.mp hb with rfl | hb
    · exact ⟨a, List.mem_cons_self, hab⟩
    · obtain ⟨c, hc, hR⟩ := ih hb
      exact ⟨c, List.mem_cons_of_mem a hc, hR⟩

theorem GuardLevel.code_injective : Function.Injective GuardLevel.code := by
  intro l l' h
  cases l <;> cases l' <;> first | rfl | exact absurd h (by decide)

/-- **An alarm has frames to show for it.** On a machine with the driver's chip and no
other, with the driver in any state it can be in, any other readers at any times and a
gap no shorter than the interval the chip publishes: when the guard exits with 1 or 2,
there is a fault at a tier of that level, and as many sets of transfers as samples were
asked for, each older than the next, such that from the frames of each a sample is put
together that shows the fault. -/
theorem guardMain_evidence (m : Machine)
    (hparse : optionLoop version argv.tail .default = .run o)
    (hgap : o.interval.val = 0 ∨ astralCacheTtlMs ≤ o.interval.val)
    (hw : Reachable (timedSystem m.clk) w.timed) (honly : ∀ c ∈ m.found o w, c.path = m.dir)
    (hrun : guardMain version m.host.toHost argv w = some (out, w'))
    (hshort : m.clk.ticks w'.timed.now < 2 ^ 63) {level : GuardLevel}
    (hlevel : level = .warn ∨ level = .crit) (hcode : out.exitCode = level.code) :
    ∃ fault : Fault, ∃ x, (level, x) ∈ o.lim.tiers fault.rule ∧ ∃ sets : List (Set ℕ),
      (sets.length : ℤ) = o.samples ∧ sets.Pairwise Precedes ∧
      ∀ A ∈ sets, ∃ s, w'.timed.Composes A s ∧ fault.Test o.lim x s := by
  rcases Machine.main_runs hparse hw hrun with ⟨-, hthree⟩ | ⟨runs, htells, -, hvisited⟩
  · rw [hcode] at hthree
    rcases hlevel with rfl | rfl <;> exact absurd hthree (by decide)
  -- the chip whose level the status is
  obtain ⟨r, hr, heq, -, -⟩ := htells.worst
  obtain ⟨hfound, hread, u, v, hu, hsamples, hend⟩ := hvisited r hr
  have hdir := honly r.chip hfound
  have hverdict : (r.verdict o.lim).level = level :=
    GuardLevel.code_injective (heq.symm.trans hcode)
  cases hss : r.samples with
  | none =>
    -- a chip that was not read is UNKNOWN
    rw [ChipRun.verdict, hss] at hverdict
    rcases hlevel with rfl | rfl <;> exact absurd hverdict (by simp [unreadableVerdict])
  | some ss =>
    rw [ChipRun.verdict, hss] at hverdict
    obtain ⟨hne, hlen, hrange⟩ := hread ss hss
    have hrank : 0 < alarmRank (guardEval o.lim ss).level := by
      rw [hverdict]
      rcases hlevel with rfl | rfl <;> decide
    obtain ⟨fault, x, hx, htest⟩ := guardEval_persists hne hrange hrank
    have hinterval := Machine.found_ttl hfound hdir
    have hsample := ttl_le_sampleGap hinterval (hinterval.symm ▸ hgap)
    obtain ⟨sets, hall, hsets, -⟩ := hsamples.composes hdir hsample hu
      ((m.clk.ticks_mono hend.now).trans_lt hshort) ss hss
    refine ⟨fault, x, hverdict ▸ hx, sets, ?_, hsets, fun A hA => ?_⟩
    · rw [← hall.length_eq, hlen]
    · obtain ⟨s, hs, hcomposes⟩ := exists_of_forall₂ hall hA
      exact ⟨s, hend.composes hcomposes, htest s hs⟩

/-- Every pin at 12 V and 9.6 A, which is above the rating of a pin. -/
def hotBlock : List UInt8 :=
  [0x2e, 0xe0, 0x25, 0x80, 0x2e, 0xe0, 0x25, 0x80, 0x2e, 0xe0, 0x25, 0x80,
   0x2e, 0xe0, 0x25, 0x80, 0x2e, 0xe0, 0x25, 0x80, 0x2e, 0xe0, 0x25, 0x80]

/-- A machine that nobody else uses, whose chip answers every transfer in the same way. -/
def steadyMachine (result : SmbusResult) : Machine :=
  { quietMachine with schedule := fun _ => ⟨[], 0, result, 0⟩ }

/-- A command line that asks for two samples. -/
def twoSamplesArgv : List CStr := ["astral-guard".toList, "--samples".toList, "2".toList]

/-- Two samples of an overloaded connector rest on a set of frames each. -/
theorem guardMain_evidence_hot : ∃ w', ∃ fault : Fault, ∃ x,
    (.crit, x) ∈ guardLimitsDefault.tiers fault.rule ∧ ∃ sets : List (Set ℕ), sets.length = 2 ∧
      sets.Pairwise Precedes ∧
      ∀ A ∈ sets, ∃ s, (w' : World).timed.Composes A s ∧ fault.Test guardLimitsDefault x s := by
  let run := guardMain [] (steadyMachine (.block hotBlock)).host.toHost twoSamplesArgv ⟨.start, 0⟩
  have hends : (run.map fun r => (r.1.exitCode,
      decide ((steadyMachine (.block hotBlock)).clk.ticks r.2.timed.now < 2 ^ 63)))
      = some (2, true) := by
    decide +kernel
  obtain ⟨⟨out, w'⟩, hrun, hend⟩ := Option.map_eq_some_iff.mp hends
  obtain ⟨hcode, hshort⟩ := Prod.mk.inj hend
  have honly : ∀ c ∈ (steadyMachine (.block hotBlock)).found twoSamples ⟨.start, 0⟩,
      c.path = (steadyMachine (.block hotBlock)).dir := by
    decide +kernel
  obtain ⟨fault, x, hx, sets, hlen, hrest⟩ := guardMain_evidence (steadyMachine (.block hotBlock))
    (o := twoSamples) rfl (.inl rfl) timedSystem_start honly hrun (of_decide_eq_true hshort)
    (.inr rfl) hcode
  exact ⟨w', fault, x, hx, sets, Int.ofNat_inj.mp hlen, hrest⟩

/-- **A fault that stays is reported.** Whatever the cache held and whoever else reads:
if every sample that can be put together from frames cached at the start or transferred
since shows a fault at some tier, the guard exits with a status at least as severe as
that of the tier, unless a transfer fails during the run. -/
theorem guardMain_sustained (m : Machine)
    (hparse : optionLoop version argv.tail .default = .run o)
    (hw : Reachable (timedSystem m.clk) w.timed) (hchip : ∃ c ∈ m.found o w, c.path = m.dir)
    (hrun : guardMain version m.host.toHost argv w = some (out, w')) {fault : Fault}
    {level : GuardLevel} {x : ℤ} (htier : (level, x) ∈ o.lim.tiers fault.rule)
    (hfault : ∀ s, w'.timed.Composes {i | w.timed.source ≤ i} s → fault.Test o.lim x s) :
    (∃ l, out.exitCode = l.code ∧ alarmRank level ≤ guardSeverity l) ∨
      w.timed.Failed w'.timed := by
  obtain ⟨c, hc, hdir⟩ := hchip
  rcases Machine.main_runs hparse hw hrun with ⟨hnone, -⟩ | ⟨runs, htells, hchips, hvisited⟩
  · rw [hnone] at hc
    exact absurd hc List.not_mem_nil
  -- the run over the driver's chip
  obtain ⟨r, hr, rfl⟩ : ∃ r ∈ runs, r.chip = c := by
    rw [← hchips] at hc
    exact List.mem_map.mp hc
  obtain ⟨-, hread, u, v, hu, hsamples, hend⟩ := hvisited r hr
  cases hss : r.samples with
  | none => exact .inr ((hsamples.failed_transfer hdir hu hss).widen (.refl _) hend)
  | some ss =>
    obtain ⟨worst, -, heq, -, hworst⟩ := htells.worst
    obtain ⟨hne, -, hrange⟩ := hread ss hss
    refine .inl ⟨_, heq, le_trans ?_ (hworst r hr)⟩
    rw [ChipRun.verdict, hss, ← alarmRank_eq_severity (guardEval_level_ne_note o.lim ss)]
    have hpersists : fault.Persists o.lim ss level :=
      ⟨x, htier, fun s hs => hfault s (hend.composes (hsamples.composed hdir hu ss hss s hs))⟩
    exact hpersists.le_guardEval hne hrange

/-- A connector that is overloaded from the start is CRITICAL, unless a transfer fails. -/
theorem guardMain_sustained_hot : ∃ out w',
    guardMain [] (steadyMachine (.block hotBlock)).host.toHost twoSamplesArgv ⟨.start, 0⟩
      = some (out, w') ∧
    ((∃ l, out.exitCode = l.code ∧ alarmRank .crit ≤ guardSeverity l) ∨
      Timed.Failed .start w'.timed) := by
  let run := guardMain [] (steadyMachine (.block hotBlock)).host.toHost twoSamplesArgv ⟨.start, 0⟩
  have hends : (run.map fun r => r.2.timed.transfers.map Transfer.result)
      = some [.block hotBlock, .block hotBlock] := by
    decide +kernel
  obtain ⟨⟨out, w'⟩, hrun, hresults⟩ := Option.map_eq_some_iff.mp hends
  have hchip : ∃ c ∈ (steadyMachine (.block hotBlock)).found twoSamples ⟨.start, 0⟩,
      c.path = (steadyMachine (.block hotBlock)).dir := by
    decide +kernel
  have htier : (.crit, 9500) ∈ twoSamples.lim.tiers (Fault.pinCurrent 0).rule := by decide
  refine ⟨out, w', hrun, guardMain_sustained (steadyMachine (.block hotBlock)) (o := twoSamples)
    rfl timedSystem_start hchip hrun htier fun s hs => ?_⟩
  -- every frame there is has 9.6 A on pin 1
  obtain ⟨-, i, -, y, frame, hy, hframe, -, hval⟩ := hs 0
  have hmem : y.result ∈ w'.timed.transfers.map Transfer.result :=
    List.mem_map.mpr ⟨y, List.mem_of_getElem? hy, rfl⟩
  rw [hresults] at hmem
  have hresult : y.result = .block hotBlock := by simpa using hmem
  rw [hresult] at hframe
  obtain rfl := Except.ok.inj hframe
  change 9500 ≤ s.ma 0
  rw [hval]
  decide

/-- **UNKNOWN is honest.** On a machine where the driver's chip and no other is found, a
status of 3 means that a transfer failed during the run. -/
theorem guardMain_unknown (m : Machine)
    (hparse : optionLoop version argv.tail .default = .run o)
    (hw : Reachable (timedSystem m.clk) w.timed) (hne : m.found o w ≠ [])
    (honly : ∀ c ∈ m.found o w, c.path = m.dir)
    (hrun : guardMain version m.host.toHost argv w = some (out, w')) (hcode : out.exitCode = 3) :
    w.timed.Failed w'.timed := by
  rcases Machine.main_runs hparse hw hrun with ⟨hnone, -⟩ | ⟨runs, htells, -, hvisited⟩
  · exact absurd hnone hne
  obtain ⟨r, hr, heq, -, -⟩ := htells.worst
  obtain ⟨hfound, hread, u, v, hu, hsamples, hend⟩ := hvisited r hr
  have hverdict : (r.verdict o.lim).level = .unknown :=
    GuardLevel.code_injective (heq.symm.trans hcode)
  cases hss : r.samples with
  | none => exact (hsamples.failed_transfer (honly _ hfound) hu hss).widen (.refl _) hend
  | some ss =>
    -- no rule has a tier for UNKNOWN
    rw [ChipRun.verdict, hss] at hverdict
    obtain ⟨hne, -, hrange⟩ := hread ss hss
    obtain ⟨fault, x, hx, -⟩ := guardEval_persists hne hrange (by rw [hverdict]; decide)
    rw [hverdict] at hx
    cases hrule : fault.rule <;> simp [hrule, GuardLimits.tiers] at hx

/-- A chip that does not answer is UNKNOWN. -/
theorem guardMain_unknown_mute : ∃ w', Timed.Failed .start (w' : World).timed := by
  let run := guardMain [] (steadyMachine (.error EIO)).host.toHost twoSamplesArgv ⟨.start, 0⟩
  have hends : (run.map fun r => r.1.exitCode) = some 3 := by decide +kernel
  obtain ⟨⟨out, w'⟩, hrun, hcode⟩ := Option.map_eq_some_iff.mp hends
  have hne : (steadyMachine (.error EIO)).found twoSamples ⟨.start, 0⟩ ≠ [] := by decide +kernel
  have honly : ∀ c ∈ (steadyMachine (.error EIO)).found twoSamples ⟨.start, 0⟩,
      c.path = (steadyMachine (.error EIO)).dir := by
    decide +kernel
  exact ⟨w', guardMain_unknown (steadyMachine (.error EIO)) (o := twoSamples) rfl
    timedSystem_start hne honly hrun hcode⟩

end Status

end Astral
