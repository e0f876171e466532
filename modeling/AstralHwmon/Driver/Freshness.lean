import AstralHwmon.Driver.PlausibilityGate

/-!
# Freshness across counter wraparound

`timedSystem` puts the calls of `cacheSystem` on a time line. Time is a count of
units from the start of the run; `jiffies` is a 64-bit counter that stood at an
arbitrary value there and advances once every `tick` units, wrapping. A call
waits for its lock, tests the cache, and takes some further time when it makes
a transfer. The waits and durations are arbitrary, so a run is any sequence of
reads at any times with any transfer outcomes.

The state keeps every transfer made, oldest first, each with the time it was
committed or failed, and the *source* of the cached frame: the position of the
transfer whose frame was committed last. The source is bookkeeping and no
function of the driver reads it; forgetting it and the times gives a run of
`cacheSystem` (`timedSystem_untimed`).

The invariant `Timed.Inv` ties `last_updated` to the true commit time of the
source, whatever mix of hits, misses and failures led there. Against it the
wrapped comparison of the cache test is an honest bound on age
(`Clock.fresh_iff`), as long as the run is shorter than half the counter's
range.
-/

open Transition WrapCounter

namespace Astral

/-- The clock a run is timed by, and `ASTRAL_CACHE_TTL` on it. -/
structure Clock where
  /-- `jiffies` at the start of the run. -/
  start : Jiffies
  /-- Units of time per tick. -/
  tick : ℕ
  tick_pos : 0 < tick
  /-- `msecs_to_jiffies(ASTRAL_CACHE_TTL_MS)`. -/
  ttl : ℕ
  /-- `msecs_to_jiffies` never returns more than `MAX_JIFFY_OFFSET`. -/
  ttl_le : ttl ≤ 2 ^ 62 - 2

/-- Ticks elapsed at a time. -/
def Clock.ticks (clk : Clock) (t : ℕ) : ℕ := t / clk.tick

/-- The value of `jiffies` at a time. -/
def Clock.jiffies (clk : Clock) (t : ℕ) : Jiffies := reading clk.start (clk.ticks t)

/-- `ASTRAL_CACHE_TTL`. -/
def Clock.cacheTtl (clk : Clock) : Jiffies := BitVec.ofNat 64 clk.ttl

theorem Clock.ticks_mono (clk : Clock) {t u : ℕ} (h : t ≤ u) : clk.ticks t ≤ clk.ticks u :=
  Nat.div_le_div_right h

/-- A transfer and the time it was committed or failed. -/
structure Transfer where
  result : SmbusResult
  committed : ℕ

/-- The cache on the time line. -/
structure Timed where
  data : AstralData
  now : ℕ
  /-- All transfers so far, oldest first. -/
  transfers : List Transfer
  /-- The position of the transfer whose frame is cached. -/
  source : ℕ

/-- The state `astral_attach` starts from. -/
def Timed.start : Timed := ⟨.zeroed, 0, [], 0⟩

/-- A call on the time line. -/
structure TimedCall where
  /-- Time from the end of the previous call to this one's cache test. -/
  wait : ℕ
  /-- How its transfer ends, should it make one. -/
  result : SmbusResult
  /-- Time from the cache test to the end of the transfer. -/
  busy : ℕ
  request : Request

variable (clk : Clock)

/-- What the kernel hands a call made in `s`. -/
def TimedCall.io (s : Timed) (c : TimedCall) : CallIo where
  checked := clk.jiffies (s.now + c.wait)
  transfer := c.result
  committed := clk.jiffies (s.now + c.wait + c.busy)

/-- The state one call leaves. -/
def Timed.call (s : Timed) (c : TimedCall) : Timed :=
  match c.request.run clk.cacheTtl s.data (c.io clk s) with
  | (data, none) => { s with data := data, now := s.now + c.wait }
  | (data, some r) =>
    { data := data
      now := s.now + c.wait + c.busy
      transfers := s.transfers ++ [⟨r, s.now + c.wait + c.busy⟩]
      -- a transfer leaves a valid cache exactly when its frame was committed
      source := if data.valid then s.transfers.length else s.source }

/-- Runs of timed calls on one attached chip. -/
def timedSystem : System Timed TimedCall where
  init s := s = .start
  step s c t := t = s.call clk c

/-- A valid cache holds the plausible decode of its source, the newest transfer,
stamped with `jiffies` at the time of its commit. -/
def Timed.Inv (s : Timed) : Prop :=
  s.data.valid = true → ∃ x, s.transfers[s.source]? = some x ∧
    s.source + 1 = s.transfers.length ∧ x.committed ≤ s.now ∧
    s.data.lastUpdated = clk.jiffies x.committed ∧
    astralReadFrame x.result = .ok s.data.frame ∧ astralFramePlausible s.data.frame = true

variable {clk}

/-- **The cache test is a bound on age.** With less than half the counter's
range elapsed since the start, the wrapped comparison says that fewer than
`ASTRAL_CACHE_TTL` ticks have passed since the commit. -/
theorem Clock.fresh_iff {data : AstralData} {c t : ℕ}
    (hstamp : data.lastUpdated = clk.jiffies c) (hct : c ≤ t) (hrun : clk.ticks t < 2 ^ 63) :
    data.fresh clk.cacheTtl (clk.jiffies t) = true ↔
      data.valid = true ∧ clk.ticks t - clk.ticks c < clk.ttl := by
  -- `last_updated + TTL` wraps like `jiffies` itself: it is a reading, `TTL` ticks on
  have hmono := clk.ticks_mono hct
  have hle := clk.ttl_le
  have hbefore : before (reading clk.start (clk.ticks t))
      (reading clk.start (clk.ticks c + clk.ttl)) = true ↔ clk.ticks t < clk.ticks c + clk.ttl :=
    before_iff (by decide) (by omega) (by omega)
  rw [AstralData.fresh, hstamp, Clock.jiffies, Clock.jiffies, Clock.cacheTtl, reading_add,
    Bool.and_eq_true, hbefore]
  refine and_congr_right fun _ => ?_
  omega

/-! ### What one call does -/

/-- A call either leaves the cache alone, or invalidates it after a failed
transfer, or commits a good one; time and the transfers only grow. -/
theorem Timed.call_cases (clk : Clock) (s : Timed) (c : TimedCall) :
    (s.call clk c = { s with now := s.now + c.wait }) ∨
    (∃ data : AstralData, data.valid = false ∧
      s.call clk c
        = ⟨data, s.now + c.wait + c.busy,
            s.transfers ++ [⟨c.result, s.now + c.wait + c.busy⟩], s.source⟩) ∨
    (∃ frame, astralReadFrame c.result = .ok frame ∧ astralFramePlausible frame = true ∧
      s.call clk c
        = ⟨⟨frame, clk.jiffies (s.now + c.wait + c.busy), true⟩, s.now + c.wait + c.busy,
            s.transfers ++ [⟨c.result, s.now + c.wait + c.busy⟩], s.transfers.length⟩) := by
  unfold Timed.call
  rcases Request.run_cases clk.cacheTtl s.data (c.io clk s) c.request with heq | heq
  · rw [heq]; exact Or.inl rfl
  rw [heq]
  -- hit, failure, commit
  rcases astralRefreshLocked_cases clk.cacheTtl s.data (c.io clk s) with
    ⟨-, hr⟩ | ⟨-, -, e, hr⟩ | ⟨-, frame, hread, hpl, hr⟩ <;> rw [hr]
  · exact Or.inl rfl
  · exact Or.inr (Or.inl ⟨{ s.data with valid := false }, rfl, by simp [TimedCall.io]⟩)
  · exact Or.inr (Or.inr ⟨frame, hread, hpl, by simp [TimedCall.io]⟩)

theorem Timed.now_le_call (clk : Clock) (s : Timed) (c : TimedCall) :
    s.now + c.wait ≤ (s.call clk c).now := by
  rcases s.call_cases clk c with h | ⟨data, -, h⟩ | ⟨frame, -, -, h⟩ <;> rw [h] <;>
    simp only [Nat.le_add_right]

theorem Timed.prefix_call (clk : Clock) (s : Timed) (c : TimedCall) :
    s.transfers <+: (s.call clk c).transfers := by
  rcases s.call_cases clk c with h | ⟨data, -, h⟩ | ⟨frame, -, -, h⟩
  · rw [h]
  · rw [h]; exact List.prefix_append _ _
  · rw [h]; exact List.prefix_append _ _

theorem Timed.Inv.call {s : Timed} (h : s.Inv clk) (c : TimedCall) : (s.call clk c).Inv clk := by
  rcases s.call_cases clk c with heq | ⟨data, hv, heq⟩ | ⟨frame, hread, hpl, heq⟩ <;>
    rw [heq]
  · -- only time has passed
    intro hv
    obtain ⟨x, hx, hnew, hle, hrest⟩ := h hv
    exact ⟨x, hx, hnew, Nat.le_add_right_of_le hle, hrest⟩
  · exact fun hv' => absurd hv' (by simp [hv])
  -- the new source is the transfer just made, stamped as it was committed
  · exact fun _ => ⟨⟨c.result, s.now + c.wait + c.busy⟩, by simp, by simp, le_refl _, rfl,
      hread, hpl⟩

theorem timedSystem_inv {s : Timed} (h : Reachable (timedSystem clk) s) : s.Inv clk :=
  h.invariant (fun s hs hv => by rw [show s = .start from hs] at hv; exact absurd hv (by decide))
    (fun s c t hI hstep => by rw [show t = s.call clk c from hstep]; exact hI.call c)

theorem timedSystem_start : Reachable (timedSystem clk) .start :=
  ⟨.start, [], rfl, Run.refl _⟩

theorem timedSystem_call {s : Timed} (h : Reachable (timedSystem clk) s) (c : TimedCall) :
    Reachable (timedSystem clk) (s.call clk c) := by
  have hstep : (timedSystem clk).step s c (s.call clk c) := rfl
  exact h.run (Run.single hstep)

theorem timedSystem_length_le {s t : Timed} {l : List (Timed × TimedCall)}
    (hp : Run (timedSystem clk) s l t) : s.transfers.length ≤ t.transfers.length := by
  refine Run.history (J := fun _ t => s.transfers.length ≤ t.transfers.length) le_rfl
    (fun _ t c u _ hJ hstep => ?_) hp
  rw [show u = t.call clk c from hstep]
  exact hJ.trans (t.prefix_call clk c).length_le

/-- Forgetting times and source gives a run of the untimed cache. -/
def Timed.untimed (s : Timed) : CacheState :=
  ⟨s.data, (s.transfers.map Transfer.result).reverse⟩

theorem timedSystem_untimed {s : Timed} (h : Reachable (timedSystem clk) s) :
    Reachable (cacheSystem clk.cacheTtl) s.untimed := by
  refine h.invariant (I := fun s => Reachable (cacheSystem clk.cacheTtl) s.untimed)
    (fun s hs => ?_) (fun s c t hI hstep => ?_)
  · rw [show s = .start from hs]
    exact ⟨.start, [], rfl, Run.refl _⟩
  · refine hI.run (Run.single (a := ⟨c.io clk s, c.request⟩) ?_)
    change t.untimed = s.untimed.call clk.cacheTtl ⟨c.io clk s, c.request⟩
    rw [show t = s.call clk c from hstep, Timed.call, CacheState.call]
    -- the same call on the same data, whose transfer goes to the other end of the list
    cases hrun : c.request.run clk.cacheTtl s.data (c.io clk s) with
    | mk data transfer => cases transfer <;> simp [Timed.untimed, hrun]

/-! ### What a successful read serves -/

/-- The reply to a read made as the timed call `c`. -/
def Timed.reply (clk : Clock) (s : Timed) (c : TimedCall) (type : HwmonType) (attr : HwmonAttr)
    (channel val : ℤ) : ReadReply :=
  astralRead clk.cacheTtl s.data (c.io clk s) type attr channel val

/-- A successful read is a hit, which leaves the cache alone, or a miss that commits the
frame it transfers; either way it leaves a valid cache, and returns what is cached. -/
theorem Timed.call_read_ok {s : Timed} {c : TimedCall} {type : HwmonType} {attr : HwmonAttr}
    {channel val : ℤ} (hc : c.request = .read type attr channel val) (hchip : type ≠ .chip)
    (hret : (s.reply clk c type attr channel val).ret = .ok ()) :
    (s.call clk c).data.valid = true ∧
    (∃ pin : Pin, (pin.val : ℤ) = channel ∧ (s.reply clk c type attr channel val).val
      = (s.call clk c).data.frame.value type pin) ∧
    ((s.data.fresh clk.cacheTtl (clk.jiffies (s.now + c.wait)) = true ∧
        s.call clk c = { s with now := s.now + c.wait }) ∨
      (s.data.fresh clk.cacheTtl (clk.jiffies (s.now + c.wait)) = false ∧ ∃ frame,
        s.call clk c
          = ⟨⟨frame, clk.jiffies (s.now + c.wait + c.busy), true⟩, s.now + c.wait + c.busy,
              s.transfers ++ [⟨c.result, s.now + c.wait + c.busy⟩], s.transfers.length⟩)) := by
  obtain ⟨-, pin, hpin, hrefresh, heq⟩ := astralRead_eq_ok hchip hret
  have hrun : c.request.run clk.cacheTtl s.data (c.io clk s)
      = ((astralRefreshLocked clk.cacheTtl s.data (c.io clk s)).data,
          (astralRefreshLocked clk.cacheTtl s.data (c.io clk s)).transfer) := by
    rw [hc, Request.run, heq]
  simp only [Timed.reply, heq, Timed.call, hrun]
  -- a hit, a failed transfer, or a good one
  rcases astralRefreshLocked_cases clk.cacheTtl s.data (c.io clk s) with
    ⟨hit, hr⟩ | ⟨-, -, e, hr⟩ | ⟨hmiss, frame, -, -, hr⟩ <;> rw [hr] at hrefresh ⊢
  -- what is fresh is valid
  · have hv : s.data.valid = true := by
      simp only [AstralData.fresh, Bool.and_eq_true] at hit
      exact hit.1
    exact ⟨hv, ⟨pin, hpin, rfl⟩, Or.inl ⟨hit, rfl⟩⟩
  · exact absurd hrefresh (by simp)
  · exact ⟨rfl, ⟨pin, hpin, rfl⟩, Or.inr ⟨hmiss, frame, rfl⟩⟩

/-- A successful read leaves a valid cache. -/
theorem Timed.call_valid {s : Timed} {c : TimedCall} {type : HwmonType}
    {attr : HwmonAttr} {channel val : ℤ} (hc : c.request = .read type attr channel val)
    (hchip : type ≠ .chip) (hret : (s.reply clk c type attr channel val).ret = .ok ()) :
    (s.call clk c).data.valid = true :=
  (call_read_ok hc hchip hret).1

/-- **A successful read serves its source**: the newest transfer, made by the
read itself or committed fewer than `ASTRAL_CACHE_TTL` ticks before its cache
test. -/
theorem Timed.Inv.served {s : Timed} (hs : s.Inv clk) {c : TimedCall} {type : HwmonType}
    {attr : HwmonAttr} {channel val : ℤ} (hc : c.request = .read type attr channel val)
    (hchip : type ≠ .chip) (hrun : clk.ticks (s.now + c.wait) < 2 ^ 63)
    (hret : (s.reply clk c type attr channel val).ret = .ok ()) :
    let s' := s.call clk c
    ∃ x frame, ∃ pin : Pin, s'.transfers[s'.source]? = some x ∧
      s'.source + 1 = s'.transfers.length ∧
      astralReadFrame x.result = .ok frame ∧ astralFramePlausible frame = true ∧
      (pin.val : ℤ) = channel ∧ (s.reply clk c type attr channel val).val = frame.value type pin ∧
      (s'.source = s.transfers.length ∨
        s'.source < s.transfers.length ∧ x.committed ≤ s.now ∧
          clk.ticks (s.now + c.wait) - clk.ticks x.committed < clk.ttl) := by
  obtain ⟨hvalid, ⟨pin, hpin, hval⟩, hcases⟩ := call_read_ok hc hchip hret
  obtain ⟨x, hx, hnew, -, -, hread, hpl⟩ := hs.call c hvalid
  refine ⟨x, _, pin, hx, hnew, hread, hpl, hpin, hval, ?_⟩
  rcases hcases with ⟨hit, hcall⟩ | ⟨-, frame, hcall⟩
  · -- a hit serves the source the invariant speaks of, and the test bounds its age
    rw [hcall] at hvalid hx hnew ⊢
    obtain ⟨x', hx', -, hle, hstamp, -⟩ := hs hvalid
    obtain rfl := Option.some.inj (hx'.symm.trans hx)
    have hage := ((Clock.fresh_iff hstamp (Nat.le_add_right_of_le hle) hrun).mp hit).2
    exact Or.inr ⟨by dsimp only at hnew ⊢; omega, hle, hage⟩
  · -- a miss that succeeds serves the transfer it made
    rw [hcall]
    exact Or.inl rfl

/-! ### Freshness -/

/-- **Freshness across wraparound.** With `jiffies` starting anywhere, in every
run shorter than `2 ^ 63` ticks, a read of a channel that succeeds returns the
pin's value in the decode of a transfer it made itself, or of one committed
fewer than `ASTRAL_CACHE_TTL` ticks before its cache test; and no read that
succeeds later in the run serves an older transfer. -/
theorem astralRead_fresh {s : Timed} {c : TimedCall} {type : HwmonType} {attr : HwmonAttr}
    {channel val : ℤ} (hs : Reachable (timedSystem clk) s)
    (hc : c.request = .read type attr channel val) (hchip : type ≠ .chip)
    (hret : (s.reply clk c type attr channel val).ret = .ok ())
    (hshort : clk.ticks (s.now + c.wait) < 2 ^ 63) :
    (∃ x frame, ∃ pin : Pin, (s.call clk c).transfers[(s.call clk c).source]? = some x ∧
      astralReadFrame x.result = .ok frame ∧ (pin.val : ℤ) = channel ∧
      (s.reply clk c type attr channel val).val = frame.value type pin ∧
      ((s.call clk c).source = s.transfers.length ∨
        (s.call clk c).source < s.transfers.length ∧ x.committed ≤ s.now + c.wait ∧
          clk.ticks (s.now + c.wait) - clk.ticks x.committed < clk.ttl)) ∧
    ∀ {t : Timed} {l : List (Timed × TimedCall)} {d : TimedCall} {type' : HwmonType}
      {attr' : HwmonAttr} {channel' val' : ℤ},
      Run (timedSystem clk) (s.call clk c) l t → d.request = .read type' attr' channel' val' →
      type' ≠ .chip → (t.reply clk d type' attr' channel' val').ret = .ok () →
      clk.ticks (t.now + d.wait) < 2 ^ 63 →
      (s.call clk c).source ≤ (t.call clk d).source := by
  have hInv := timedSystem_inv hs
  obtain ⟨x, frame, pin, hx, hnew, hread, -, hpin, hval, hage⟩ :=
    hInv.served hc hchip hshort hret
  refine ⟨⟨x, frame, pin, hx, hread, hpin, hval,
    hage.imp id fun ⟨h1, h2, h3⟩ => ⟨h1, Nat.le_add_right_of_le h2, h3⟩⟩, ?_⟩
  intro t l d type' attr' channel' val' hp hd hchip' hret' hshort'
  have ht := timedSystem_inv ((timedSystem_call hs c).run hp)
  obtain ⟨-, -, -, -, hnew', -⟩ := ht.served hd hchip' hshort' hret'
  -- each serves the newest transfer of its moment, and transfers only accumulate
  have hmono := timedSystem_length_le hp
  have hgrow := (t.prefix_call clk d).length_le
  omega

/-- A clock of 1000 ticks a second, about to wrap. -/
def wrappingClock : Clock where
  start := BitVec.ofNat 64 (2 ^ 64 - 100)
  tick := 1
  tick_pos := by decide
  ttl := 200
  ttl_le := by decide

/-- Freshness across the wrap: 150 ticks after a commit the counter has wrapped,
and the read is a hit on a transfer made before that. -/
theorem astralRead_fresh_wrapping :
    ∃ x frame, ∃ pin : Pin, [Transfer.mk (.block idleBlock) 0][0]? = some x ∧
      astralReadFrame x.result = .ok frame ∧ (pin.val : ℤ) = 5 ∧
      (460 : ℤ) = frame.value .curr pin ∧
      (0 = 1 ∨ 0 < 1 ∧ x.committed ≤ 0 + 150 ∧
        wrappingClock.ticks (0 + 150) - wrappingClock.ticks x.committed < 200) :=
  (astralRead_fresh
    (s := Timed.start.call wrappingClock ⟨0, .block idleBlock, 0, .refresh⟩)
    (c := ⟨150, .error EIO, 0, .read .curr .other 5 0⟩)
    (timedSystem_call timedSystem_start _) rfl (by decide) (by decide) (by decide)).1

end Astral
