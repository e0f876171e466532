import AstralHwmon.Driver.Traffic
import AstralHwmon.Pipeline.Persistence

/-!
# Whether a sample is one frame

`guard_read_sample` makes twelve reads, each with a cache test of its own, and any other
reader may come between two of them. The sample is one frame exactly when no transfer is
made after the first read (`Machine.oneSource_iff`).

Less than `ASTRAL_CACHE_TTL` from the first read to the last is not enough for that. It is
when the first read transfers; when it is served a frame that is older than the sample, the
frame must not expire before the last read (`sample_oneFrame_iff`).
-/

open CText Transition WrapCounter

namespace Astral

/-! ### Calls made one after another -/

variable {clk : Clock}

/-- `t` is `s` after some calls. -/
def Timed.Calls (clk : Clock) (s t : Timed) : Prop :=
  ∃ cs : List TimedCall, t = cs.foldl (Timed.call clk) s

namespace Timed.Calls

theorem refl (s : Timed) : Calls clk s s := ⟨[], rfl⟩

theorem single (s : Timed) (c : TimedCall) : Calls clk s (s.call clk c) := ⟨[c], rfl⟩

theorem trans {s t u : Timed} (h₁ : Calls clk s t) (h₂ : Calls clk t u) : Calls clk s u := by
  obtain ⟨cs, rfl⟩ := h₁
  obtain ⟨ds, rfl⟩ := h₂
  exact ⟨cs ++ ds, List.foldl_append.symm⟩

theorem before {s t : Timed} (h : Calls clk s t) : s.Before t := by
  obtain ⟨cs, rfl⟩ := h
  exact before_calls clk cs s

/-- Calls that made no transfer have left the cache alone. -/
theorem same {s t : Timed} (h : Calls clk s t) (hlen : t.transfers.length = s.transfers.length) :
    t.data = s.data ∧ t.source = s.source := by
  obtain ⟨cs, rfl⟩ := h
  induction cs generalizing s with
  | nil => exact ⟨rfl, rfl⟩
  | cons c cs ih =>
    have hrest := (before_calls clk cs (s.call clk c)).transfers.length_le
    rw [List.foldl_cons] at hlen ⊢
    rcases s.call_cases clk c with hcall | ⟨data, -, hcall⟩ | ⟨frame, -, -, hcall⟩
    · rw [hcall] at hlen ⊢
      exact ih hlen
    -- a transfer stays in the list
    · rw [hcall, List.length_append, List.length_singleton] at hrest
      rw [hcall] at hlen
      omega
    · rw [hcall, List.length_append, List.length_singleton] at hrest
      rw [hcall] at hlen
      omega

/-- Calls make no transfer while what is cached is fresh. -/
theorem hits {s t : Timed} (h : Calls clk s t)
    (hfresh : ∀ u, s.now ≤ u → u ≤ t.now → s.data.fresh clk.cacheTtl (clk.jiffies u) = true) :
    t.data = s.data ∧ t.transfers = s.transfers := by
  obtain ⟨cs, rfl⟩ := h
  induction cs generalizing s with
  | nil => exact ⟨rfl, rfl⟩
  | cons c cs ih =>
    have hend := (before_calls clk cs (s.call clk c)).now
    rw [List.foldl_cons] at hfresh ⊢
    rcases s.call_traffic clk c with ⟨-, hcall⟩ | ⟨-, hmiss, -⟩
    · rw [hcall] at hfresh ⊢
      exact ih fun u hu => hfresh u ((Nat.le_add_right _ _).trans hu)
    · have hit := hfresh (s.now + c.wait) (Nat.le_add_right _ _)
        ((s.now_le_call clk c).trans hend)
      exact absurd (hit.symm.trans hmiss) (by decide)

end Timed.Calls

/-! ### When a frame stays fresh -/

/-- What is fresh at two times close to each other is fresh between them. -/
theorem AstralData.fresh_between {data : AstralData} {t u v : ℕ}
    (hfirst : data.fresh clk.cacheTtl (clk.jiffies t) = true)
    (hlast : data.fresh clk.cacheTtl (clk.jiffies v) = true) (htu : t ≤ u) (huv : u ≤ v)
    (hclose : clk.ticks v < clk.ticks t + clk.ttl) :
    data.fresh clk.cacheTtl (clk.jiffies u) = true := by
  simp only [AstralData.fresh, Bool.and_eq_true] at hfirst hlast ⊢
  refine ⟨hfirst.1, ?_⟩
  have hle := clk.ttl_le
  have htu' := clk.ticks_mono htu
  have huv' := clk.ticks_mono huv
  have hbetween := before_between (e := clk.ticks u - clk.ticks t) (d := clk.ticks v - clk.ticks t)
    (by decide) hfirst.2 (by rw [Nat.add_sub_cancel' (htu'.trans huv')]; exact hlast.2)
    (by omega) (by omega)
  rwa [Nat.add_sub_cancel' htu'] at hbetween

/-- A frame is fresh for `ASTRAL_CACHE_TTL` ticks after its commit. -/
theorem AstralData.fresh_after {data : AstralData} {t u : ℕ} (hvalid : data.valid = true)
    (hstamp : data.lastUpdated = clk.jiffies t) (htu : t ≤ u)
    (hclose : clk.ticks u < clk.ticks t + clk.ttl) :
    data.fresh clk.cacheTtl (clk.jiffies u) = true := by
  by_contra hmiss
  have hlate := Clock.le_of_not_fresh hvalid hstamp htu (Bool.eq_false_iff.mpr hmiss)
  omega

/-! ### The twelve reads as calls -/

variable {m : Machine}

theorem Machine.calls_ready (m : Machine) (w : World) : Timed.Calls m.clk w.timed (m.ready w) :=
  ⟨_, rfl⟩

theorem Machine.calls_next (m : Machine) (type : HwmonType) (pin : Pin) (w : World) :
    Timed.Calls m.clk w.timed (m.next type pin w).timed :=
  (m.calls_ready w).trans (.single _ _)

theorem Machine.calls_readFile (m : Machine) (path : CStr) (w : World) :
    Timed.Calls m.clk w.timed (m.host.readFile path w).2.timed := by
  rcases m.readFile_world path w with ⟨type, pin, h⟩ | h <;> rw [h]
  · exact m.calls_next type pin w
  · exact .refl _

theorem Machine.calls_afterReads (m : Machine) (dir : CStr) (attrs : List CStr) (w : World) :
    Timed.Calls m.clk w.timed (afterReads m.host.toHost dir attrs w).timed := by
  induction attrs generalizing w with
  | nil => exact .refl _
  | cons attr attrs ih => exact (m.calls_readFile _ w).trans (ih _)

/-- The world after the first `n` reads of a sample begun in `w`. -/
def Machine.afterRead (m : Machine) (w : World) (n : ℕ) : World :=
  afterReads m.host.toHost m.dir ((pinAttrs (List.finRange 6)).take n) w

theorem Machine.calls_afterRead (m : Machine) (w : World) {i j : ℕ} (hij : i ≤ j) :
    Timed.Calls m.clk (m.afterRead w i).timed (m.afterRead w j).timed := by
  obtain ⟨d, rfl⟩ := Nat.exists_eq_add_of_le hij
  rw [afterRead, afterRead, List.take_add, afterReads_append]
  exact m.calls_afterReads _ _ _

/-- The reads of a pin are two consecutive ones of the sample. -/
theorem Machine.next_eq_afterRead (hdir : m.dir.length < 3072) (w : World) (pin : Pin) :
    m.next .in pin (m.host.mvWorld w pin) = m.afterRead w (2 * pin.val + 1) ∧
      m.next .curr pin (m.host.maWorld w pin) = m.afterRead w (2 * pin.val + 2) := by
  have htake : (pinAttrs (List.finRange 6)).take (2 * pin.val + 1)
        = pinAttrs ((List.finRange 6).take pin.val) ++ [mvAttr pin] ∧
      (pinAttrs (List.finRange 6)).take (2 * pin.val + 2)
        = pinAttrs ((List.finRange 6).take pin.val) ++ ([mvAttr pin] ++ [maAttr pin]) := by
    revert pin
    decide
  constructor
  · rw [← after_mv hdir, afterRead, htake.1, afterReads_append]
    rfl
  · rw [← after_ma hdir, afterRead, htake.2, afterReads_append, afterReads_append]
    rfl

/-- When a read of the guard tests the cache. -/
def Machine.checkedAt (m : Machine) (w : World) : ℕ := (m.ready w).now + (m.schedule w.step).wait

/-- The world of the last of the twelve reads. -/
def Machine.lastRead (m : Machine) (w : World) : World := m.host.maWorld w (Fin.last 5)

theorem Machine.next_first (hdir : m.dir.length < 3072) (w : World) :
    m.next .in 0 w = m.afterRead w 1 := (next_eq_afterRead hdir w 0).1

theorem Machine.next_last (hdir : m.dir.length < 3072) (w : World) :
    m.next .curr 5 (m.lastRead w) = m.afterRead w 12 := (next_eq_afterRead hdir w 5).2

theorem Machine.mem_reads_first (m : Machine) (w : World) : (.in, 0, w) ∈ m.reads w :=
  (m.mem_reads w 0).1

theorem Machine.mem_reads_last (m : Machine) (w : World) : (.curr, 5, m.lastRead w) ∈ m.reads w :=
  (m.mem_reads w 5).2

/-- A sample is served one transfer exactly when none is made after its first read. -/
theorem Machine.oneSource_iff {c : GuardChip} (hc : c.path = m.dir) {w : World}
    (hw : w.timed.Inv m.clk) (hret : (guardReadSample m.host.toHost c .unset w).1.1 = 0) :
    (∃ i, ∀ a ∈ m.sources w, a = i) ↔
      (m.afterRead w 12).timed.transfers.length = (m.afterRead w 1).timed.transfers.length := by
  have hdir : m.dir.length < 3072 := hc ▸ c.path_fits
  obtain ⟨-, -, hreads⟩ := sample_reads hc hw hret
  -- a read serves the newest transfer there is then
  have hnewest : ∀ r ∈ m.reads w, (m.next r.1 r.2.1 r.2.2).timed.source + 1
      = (m.next r.1 r.2.1 r.2.2).timed.transfers.length := by
    intro r hr
    have hread := hreads r hr
    obtain ⟨x, -, hnew, -⟩ := (inv_ready hread.inv).call (m.call r.2.2 r.1 r.2.1)
      (next_valid hread.chip hread.ok)
    exact hnew
  constructor
  · rintro ⟨i, hi⟩
    have hsame := (hi _ (List.mem_map_of_mem (m.mem_reads_last w))).trans
      (hi _ (List.mem_map_of_mem (m.mem_reads_first w))).symm
    have hfirst := hnewest _ (m.mem_reads_first w)
    have hlast := hnewest _ (m.mem_reads_last w)
    dsimp only at hsame hfirst hlast
    rw [next_first hdir, next_last hdir] at hsame
    rw [next_first hdir] at hfirst
    rw [next_last hdir] at hlast
    omega
  · intro hlen
    refine ⟨(m.afterRead w 1).timed.source, fun a ha => ?_⟩
    obtain ⟨r, hr, rfl⟩ := List.mem_map.mp ha
    -- no transfer is made up to any of the reads
    obtain ⟨n, hn, hnext⟩ : ∃ n, n < 12 ∧ m.next r.1 r.2.1 r.2.2 = m.afterRead w (n + 1) := by
      obtain ⟨pin, -, hmem⟩ := List.mem_flatMap.mp hr
      rcases List.mem_cons.mp hmem with rfl | hmem
      · exact ⟨_, by omega, (next_eq_afterRead hdir w pin).1⟩
      · obtain rfl := List.mem_singleton.mp hmem
        exact ⟨_, by omega, (next_eq_afterRead hdir w pin).2⟩
    have hhead := m.calls_afterRead w (show 1 ≤ n + 1 by omega)
    have htail := m.calls_afterRead w (show n + 1 ≤ 12 by omega)
    have hle := hhead.before.transfers.length_le
    have hge := htail.before.transfers.length_le
    rw [hnext]
    exact (hhead.same (by omega)).2

/-- What the read of a channel does in a sample that succeeds: a hit, or a miss that
transfers. -/
theorem Machine.ReadWithin.cases {w e v : World} {type : HwmonType} {pin : Pin}
    (h : m.ReadWithin w e type pin v) :
    ((m.ready v).data.fresh m.clk.cacheTtl (m.clk.jiffies (m.checkedAt v)) = true ∧
        (m.next type pin v).timed = { m.ready v with now := m.checkedAt v }) ∨
      ((m.ready v).data.fresh m.clk.cacheTtl (m.clk.jiffies (m.checkedAt v)) = false ∧
        (m.next type pin v).timed.data.valid = true ∧
        (m.next type pin v).timed.data.lastUpdated = m.clk.jiffies (m.next type pin v).timed.now ∧
        m.checkedAt v ≤ (m.next type pin v).timed.now ∧
        (m.next type pin v).timed.transfers.length = (m.ready v).transfers.length + 1) := by
  obtain ⟨-, -, hcases⟩ :=
    Timed.call_read_ok (s := m.ready v) (c := m.call v type pin) rfl h.chip h.ok
  have hnext : (m.next type pin v).timed = (m.ready v).call m.clk (m.call v type pin) := rfl
  refine hcases.imp id fun ⟨hmiss, frame, hcall⟩ => ⟨hmiss, ?_⟩
  rw [hnext, hcall]
  exact ⟨rfl, rfl, Nat.le_add_right _ _, List.length_append⟩

/-- In a sample that is short enough, no transfer is made after the first read exactly when
a frame that it is served does not expire before the last. -/
theorem Machine.noTransfer_iff {c : GuardChip} (hc : c.path = m.dir) {w : World}
    (hw : w.timed.Inv m.clk) (hret : (guardReadSample m.host.toHost c .unset w).1.1 = 0)
    (hclose : m.clk.ticks (m.checkedAt (m.lastRead w)) < m.clk.ticks (m.checkedAt w) + m.clk.ttl) :
    (m.afterRead w 12).timed.transfers.length = (m.afterRead w 1).timed.transfers.length ↔
      ((m.ready w).data.fresh m.clk.cacheTtl (m.clk.jiffies (m.checkedAt w)) = true →
        (m.ready w).data.fresh m.clk.cacheTtl
            (m.clk.jiffies (m.checkedAt (m.lastRead w))) = true) := by
  have hdir : m.dir.length < 3072 := hc ▸ c.path_fits
  obtain ⟨-, -, hreads⟩ := sample_reads hc hw hret
  have hfirst := (hreads _ (m.mem_reads_first w)).cases
  have hlast := (hreads _ (m.mem_reads_last w)).cases
  dsimp only at hfirst hlast
  rw [next_first hdir] at hfirst
  rw [next_last hdir] at hlast
  -- everything from the first read up to the last is calls
  have hmid : Timed.Calls m.clk (m.afterRead w 1).timed (m.ready (m.lastRead w)) := by
    have hworld : m.lastRead w = m.afterRead w 11 :=
      (after_mv hdir 5 _).trans (next_eq_afterRead hdir w 5).1
    exact hworld ▸ (m.calls_afterRead w (by decide)).trans (m.calls_ready _)
  have hchecked : (m.ready (m.lastRead w)).now ≤ m.checkedAt (m.lastRead w) := Nat.le_add_right _ _
  constructor
  · intro hlen hfresh
    rcases hfirst with ⟨-, hone⟩ | ⟨hmiss, -⟩
    · rcases hlast with ⟨hit, htwelve⟩ | ⟨-, -, -, -, hmore⟩
      · -- what the last read hits is still what the first one did
        have hsame := (hmid.same (by rw [← hlen, htwelve])).1
        rw [hone] at hsame
        rwa [hsame] at hit
      · have := hmid.before.transfers.length_le
        omega
    · exact absurd (hfresh.symm.trans hmiss) (by decide)
  · intro hcond
    have hnow : (m.afterRead w 1).timed.now ≤ m.checkedAt (m.lastRead w) :=
      hmid.before.now.trans hchecked
    -- what the first read leaves is fresh up to the last
    have hfresh : ∀ u, (m.afterRead w 1).timed.now ≤ u → u ≤ m.checkedAt (m.lastRead w) →
        (m.afterRead w 1).timed.data.fresh m.clk.cacheTtl (m.clk.jiffies u) = true := by
      intro u hu hlate
      rcases hfirst with ⟨hit, hone⟩ | ⟨-, hvalid, hstamp, hended, -⟩
      · rw [hone] at hu ⊢
        exact AstralData.fresh_between hit (hcond hit) hu hlate hclose
      · refine AstralData.fresh_after hvalid hstamp hu ?_
        have := m.clk.ticks_mono hended
        have := m.clk.ticks_mono hlate
        omega
    obtain ⟨hdata, htransfers⟩ := hmid.hits fun u hu hlate => hfresh u hu (hlate.trans hchecked)
    rcases hlast with ⟨-, htwelve⟩ | ⟨hmiss, -⟩
    · rw [htwelve, ← htransfers]
    · rw [hdata, hfresh _ hnow le_rfl] at hmiss
      exact absurd hmiss (by decide)

/-! ### One frame -/

/-- A sample is one frame: all its reads are served one transfer, and each of its twelve
values is its channel's in the frame of that transfer. -/
def Machine.OneFrame (m : Machine) (c : GuardChip) (w : World) : Prop :=
  ∃ i, (∀ a ∈ m.sources w, a = i) ∧ ∀ pin, ∃ mv ma,
    (guardReadSample m.host.toHost c .unset w).1.2.mv pin = some mv ∧
    (guardReadSample m.host.toHost c .unset w).1.2.ma pin = some ma ∧
    (guardReadSample m.host.toHost c .unset w).2.timed.Holds i .in pin mv.val ∧
    (guardReadSample m.host.toHost c .unset w).2.timed.Holds i .curr pin ma.val

/-- The cache tests of a sample are made within less than `ASTRAL_CACHE_TTL` ticks. -/
def Machine.WithinTtl (m : Machine) (w : World) : Prop :=
  ∀ r ∈ m.reads w, ∀ r' ∈ m.reads w,
    m.clk.ticks (m.checkedAt r.2.2) < m.clk.ticks (m.checkedAt r'.2.2) + m.clk.ttl

/-- **When a sample is one frame.** Take the driver in any state it can be in, any other
readers at any times, and a sample that succeeds with its twelve reads within less than
`ASTRAL_CACHE_TTL` of each other. It is one frame if and only if the frame that the first
read finds in the cache, if it is fresh then, is still fresh when the last read tests the
cache. -/
theorem sample_oneFrame_iff (m : Machine) {c : GuardChip} (hc : c.path = m.dir) {w : World}
    (hw : Reachable (timedSystem m.clk) w.timed)
    (hret : (guardReadSample m.host.toHost c .unset w).1.1 = 0) (hwithin : m.WithinTtl w) :
    m.OneFrame c w ↔
      ((m.ready w).data.fresh m.clk.cacheTtl (m.clk.jiffies (m.checkedAt w)) = true →
        (m.ready w).data.fresh m.clk.cacheTtl
          (m.clk.jiffies (m.checkedAt (m.lastRead w))) = true) := by
  have hinv := timedSystem_inv hw
  have hclose := hwithin _ (m.mem_reads_last w) _ (m.mem_reads_first w)
  rw [← Machine.noTransfer_iff hc hinv hret hclose, ← Machine.oneSource_iff hc hinv hret]
  refine exists_congr fun i => ⟨And.left, fun hi => ⟨hi, fun pin => ?_⟩⟩
  obtain ⟨mv, ma, hmv, hma, hin, hcurr⟩ := Machine.sample_values hc hinv hret pin
  rw [hi _ (List.mem_map_of_mem (m.mem_reads w pin).1)] at hin
  rw [hi _ (List.mem_map_of_mem (m.mem_reads w pin).2)] at hcurr
  exact ⟨mv, ma, hmv, hma, hin, hcurr⟩

/-- A sample that fills an empty cache is one frame. -/
theorem sample_oneFrame_iff_quiet : quietMachine.OneFrame idleChip ⟨.start, 0⟩ := by
  have hret : (guardReadSample quietMachine.host.toHost idleChip .unset ⟨.start, 0⟩).1.1 = 0 := by
    decide +kernel
  have hwithin : quietMachine.WithinTtl ⟨.start, 0⟩ := by
    unfold Machine.WithinTtl
    decide +kernel
  exact (sample_oneFrame_iff quietMachine rfl timedSystem_start hret hwithin).mpr
    fun hfresh => absurd hfresh (by decide)

/-- Every pin at 12 V and 8 A. -/
def loadedBlock : List UInt8 :=
  [0x2e, 0xe0, 0x1f, 0x40, 0x2e, 0xe0, 0x1f, 0x40, 0x2e, 0xe0, 0x1f, 0x40,
   0x2e, 0xe0, 0x1f, 0x40, 0x2e, 0xe0, 0x1f, 0x40, 0x2e, 0xe0, 0x1f, 0x40]

/-- A machine on which another reader has filled the cache from an idle card 194 ms before
a sample of twelve reads, 1 ms apart, during which the card is loaded. -/
def expiringMachine : Machine :=
  { quietMachine with
    schedule := fun n =>
      if n = 0 then ⟨[⟨0, .block idleBlock, 0, .refresh⟩], 194, .block loadedBlock, 0⟩
      else ⟨[], 1, .block loadedBlock, 0⟩ }

/-- The idle frame expires after the sixth read, so that pins 1 to 3 are idle in the sample
and pins 4 to 6 are loaded. -/
theorem sample_oneFrame_expiring : ¬ ∀ (m : Machine) (c : GuardChip) (w : World),
    c.path = m.dir → Reachable (timedSystem m.clk) w.timed →
    (guardReadSample m.host.toHost c .unset w).1.1 = 0 → m.WithinTtl w → m.OneFrame c w := by
  intro h
  have hret :
      (guardReadSample expiringMachine.host.toHost idleChip .unset ⟨.start, 0⟩).1.1 = 0 := by
    decide +kernel
  have hwithin : expiringMachine.WithinTtl ⟨.start, 0⟩ := by
    unfold Machine.WithinTtl
    decide +kernel
  obtain ⟨i, hi, -⟩ := h expiringMachine idleChip ⟨.start, 0⟩ rfl timedSystem_start hret hwithin
  have hfirst := hi 0 (by decide +kernel)
  have hlast := hi 1 (by decide +kernel)
  omega

example : ∃ s, (guardReadSample expiringMachine.host.toHost idleChip .unset ⟨.start, 0⟩).1.2.filled
    = some s ∧ (s.ma 0, s.ma 2, s.ma 3, s.ma 5) = (420, 440, 8000, 8000) := by
  decide +kernel

end Astral
