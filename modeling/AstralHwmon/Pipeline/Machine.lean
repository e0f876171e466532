import AstralHwmon.Driver.Freshness
import AstralHwmon.Guard.Main
import AstralHwmon.Pipeline.Surface

/-!
# The driver and the guard on one machine

`Machine.host` puts the timed cache of the driver behind the guard's host. A
schedule, arbitrary and fixed in advance, says what happens around every step of
the guard: which calls other readers make before it, how long the guard's own
call waits and how its transfer ends, should it make one, and how much longer
than asked a sleep lasts.

The two facts assumed of the kernel are in the definitions: `nanosleep` returns
no earlier than asked (`Machine.sleep`), and `msecs_to_jiffies(200)` ticks last
200 ms (`Machine.ttl_exact`).

Nothing on the machine goes back: time passes and transfers accumulate
(`Timed.Before`), and the cache invariant survives every step of the guard
(`Machine.inv_readFile`, `Machine.inv_sleep`). `Machine.later_read` is what the
rest is for: a read made a cache lifetime after another serves a newer transfer.
-/

open CText Transition

namespace Astral

/-! ### Time passes and transfers accumulate -/

/-- `t` is no earlier than `s`, and nothing transferred by `s` is forgotten. -/
structure Timed.Before (s t : Timed) : Prop where
  now : s.now ≤ t.now
  transfers : s.transfers <+: t.transfers

theorem Timed.Before.refl (s : Timed) : s.Before s := ⟨le_rfl, List.prefix_refl _⟩

theorem Timed.Before.trans {s t u : Timed} (h₁ : s.Before t) (h₂ : t.Before u) : s.Before u :=
  ⟨h₁.now.trans h₂.now, h₁.transfers.trans h₂.transfers⟩

theorem Timed.before_call (clk : Clock) (s : Timed) (c : TimedCall) : s.Before (s.call clk c) :=
  ⟨(Nat.le_add_right _ _).trans (s.now_le_call clk c), s.prefix_call clk c⟩

theorem Timed.before_calls (clk : Clock) (cs : List TimedCall) (s : Timed) :
    s.Before (cs.foldl (Timed.call clk) s) := by
  induction cs generalizing s with
  | nil => exact .refl s
  | cons c cs ih => exact (s.before_call clk c).trans (ih _)

theorem Timed.Inv.calls {clk : Clock} {s : Timed} (h : s.Inv clk) (cs : List TimedCall) :
    (cs.foldl (Timed.call clk) s).Inv clk := by
  induction cs generalizing s with
  | nil => exact h
  | cons c cs ih => exact ih (h.call c)

/-- Time may pass without a call. -/
theorem Timed.Inv.wait {clk : Clock} {s : Timed} (h : s.Inv clk) {now : ℕ} (hnow : s.now ≤ now) :
    ({ s with now := now } : Timed).Inv clk := by
  intro hv
  obtain ⟨x, hx, hnew, hle, hrest⟩ := h hv
  exact ⟨x, hx, hnew, hle.trans hnow, hrest⟩

/-! ### The machine -/

/-- What happens around one step of the guard. -/
structure Slot where
  /-- The calls other readers make before it. -/
  others : List TimedCall
  /-- How long the guard's call waits, or how much longer its sleep lasts. -/
  wait : ℕ
  result : SmbusResult
  busy : ℕ

/-- A machine with one chip and everything else on it. -/
structure Machine where
  clk : Clock
  /-- Units of time per millisecond. -/
  ms : ℕ
  ttl_exact : clk.ttl * clk.tick = astralCacheTtlMs * ms
  dir : CStr
  schedule : ℕ → Slot
  /-- The directories and the other files of the machine, at each step. -/
  entries : CStr → ℕ → Option (List CStr)
  files : CStr → ℕ → Option CStr

/-- The driver's cache, and the guard's position in the schedule. -/
structure World where
  timed : Timed
  step : ℕ

/-- Whole milliseconds in a `timespec`. -/
def Timespec.millis (ts : Timespec) : ℕ := ts.sec.toNat * 1000 + ts.nsec.toNat / 1000000

variable (m : Machine)

/-- The cache as the guard's step finds it. -/
def Machine.ready (w : World) : Timed :=
  (m.schedule w.step).others.foldl (Timed.call m.clk) w.timed

/-- The guard's read of a channel, as a call on the cache. -/
def Machine.call (w : World) (type : HwmonType) (pin : Pin) : TimedCall :=
  ⟨(m.schedule w.step).wait, (m.schedule w.step).result, (m.schedule w.step).busy,
    .read type .other pin.val 0⟩

/-- What the kernel hands a call of the guard. -/
def Machine.io (w : World) : CallIo :=
  (⟨(m.schedule w.step).wait, (m.schedule w.step).result, (m.schedule w.step).busy,
    .refresh⟩ : TimedCall).io m.clk (m.ready w)

/-- The world after the guard's read of a channel. -/
def Machine.next (type : HwmonType) (pin : Pin) (w : World) : World :=
  ⟨(m.ready w).call m.clk (m.call w type pin), w.step + 1⟩

/-- The name of the attribute that publishes the cache's lifetime. -/
def updateIntervalName : CStr := "update_interval".toList

/-- The chip's `update_interval`, which needs no lock, and the other files. -/
def Machine.otherFile (path : CStr) (w : World) : Option CStr × World :=
  if path = m.dir ++ '/' :: updateIntervalName then
    (hwmonShow (astralRead m.clk.cacheTtl (m.ready w).data (m.io w) .chip .updateInterval 0 0),
      ⟨w.timed, w.step + 1⟩)
  else (m.files path w.step, ⟨w.timed, w.step + 1⟩)

/-- `nanosleep`: others go on, and the sleep lasts at least as long as asked. -/
def Machine.sleep (ts : Timespec) (w : World) : World :=
  ⟨{ m.ready w with
      now := max (m.ready w).now (w.timed.now + ts.millis * m.ms) + (m.schedule w.step).wait },
    w.step + 1⟩

/-- The machine as the guard meets it: the chip's files are the driver's, read at the
machine's own times. -/
def Machine.host : HwmonHost m.clk.cacheTtl World :=
  driverHost m.dir (fun w => (m.ready w).data) m.io m.next
    { readDir := fun path w => (m.entries path w.step, ⟨w.timed, w.step + 1⟩)
      readFile := m.otherFile
      nanosleep := m.sleep }

variable {m}

theorem Machine.before_ready (m : Machine) (w : World) : w.timed.Before (m.ready w) :=
  Timed.before_calls m.clk _ _

theorem Machine.inv_ready {w : World} (h : w.timed.Inv m.clk) : (m.ready w).Inv m.clk :=
  h.calls _

theorem Machine.before_next (m : Machine) (type : HwmonType) (pin : Pin) (w : World) :
    w.timed.Before (m.next type pin w).timed :=
  (m.before_ready w).trans (Timed.before_call m.clk _ _)

/-- What reading a file does to the world: a call, or nothing. -/
theorem Machine.readFile_world (path : CStr) (w : World) :
    (∃ type pin, (m.host.readFile path w).2 = m.next type pin w) ∨
      (m.host.readFile path w).2 = ⟨w.timed, w.step + 1⟩ := by
  simp only [Machine.host, driverHost]
  cases channelOf m.dir path with
  | some ch => exact Or.inl ⟨ch.1, ch.2, rfl⟩
  | none =>
    refine Or.inr ?_
    simp only [Machine.otherFile]
    split <;> rfl

theorem Machine.before_readFile (m : Machine) (path : CStr) (w : World) :
    w.timed.Before (m.host.readFile path w).2.timed := by
  rcases m.readFile_world path w with ⟨type, pin, h⟩ | h <;> rw [h]
  · exact m.before_next type pin w
  · exact .refl _

theorem Machine.inv_readFile {w : World} (h : w.timed.Inv m.clk) (path : CStr) :
    (m.host.readFile path w).2.timed.Inv m.clk := by
  rcases m.readFile_world path w with ⟨type, pin, heq⟩ | heq <;> rw [heq]
  · exact (inv_ready h).call _
  · exact h

theorem Machine.before_afterReads (m : Machine) (dir : CStr) (attrs : List CStr) (w : World) :
    w.timed.Before (afterReads m.host.toHost dir attrs w).timed := by
  induction attrs generalizing w with
  | nil => exact .refl _
  | cons attr attrs ih => exact (m.before_readFile _ w).trans (ih _)

theorem Machine.inv_afterReads {w : World} (h : w.timed.Inv m.clk) (dir : CStr)
    (attrs : List CStr) : (afterReads m.host.toHost dir attrs w).timed.Inv m.clk := by
  induction attrs generalizing w with
  | nil => exact h
  | cons attr attrs ih => exact ih (inv_readFile h _)

theorem Machine.before_sleep (m : Machine) (ts : Timespec) (w : World) :
    w.timed.Before (m.sleep ts w).timed :=
  (m.before_ready w).trans
    ⟨(le_max_left _ _).trans (Nat.le_add_right _ _), List.prefix_refl _⟩

theorem Machine.inv_sleep {w : World} (h : w.timed.Inv m.clk) (ts : Timespec) :
    (m.sleep ts w).timed.Inv m.clk :=
  (inv_ready h).wait ((le_max_left _ _).trans (Nat.le_add_right _ _))

/-! ### What the guard's reads are served -/

/-- A successful read of a channel leaves a valid cache. -/
theorem Machine.next_valid {type : HwmonType} {pin : Pin} {w : World} (hchip : type ≠ .chip)
    (hok : (m.host.reply type pin w).ret = .ok ()) : (m.next type pin w).timed.data.valid = true :=
  Timed.call_valid rfl hchip hok

/-- A transfer known before is known, at its place, ever after. -/
theorem Timed.Before.getElem? {s t : Timed} (h : s.Before t) {i : ℕ} {x : Transfer}
    (hx : s.transfers[i]? = some x) : t.transfers[i]? = some x := by
  obtain ⟨newer, hnewer⟩ := h.transfers
  obtain ⟨hlt, -⟩ := List.getElem?_eq_some_iff.mp hx
  rw [← hnewer, List.getElem?_append_left hlt, hx]

/-- A successful read of a channel returns the pin's value in the frame of its
source, a good transfer. -/
theorem Machine.read_value {type : HwmonType} {pin : Pin} {w : World} (hw : w.timed.Inv m.clk)
    (hchip : type ≠ .chip) (hok : (m.host.reply type pin w).ret = .ok ()) :
    ∃ x frame, (m.next type pin w).timed.transfers[(m.next type pin w).timed.source]? = some x ∧
      astralReadFrame x.result = .ok frame ∧ astralFramePlausible frame = true ∧
      (m.host.reply type pin w).val = frame.value type pin := by
  obtain ⟨hvalid, ⟨pin', hpin, hval⟩, -⟩ :=
    Timed.call_read_ok (s := m.ready w) (c := m.call w type pin) rfl hchip hok
  obtain ⟨x, hx, -, -, -, hread, hpl⟩ := (inv_ready hw).call (m.call w type pin) hvalid
  obtain rfl : pin' = pin := Fin.ext (by exact_mod_cast hpin)
  exact ⟨x, _, hx, hread, hpl, hval⟩

/-- **A read made a cache lifetime after another serves a newer transfer.** -/
theorem Machine.later_read {type type' : HwmonType} {pin pin' : Pin} {w v : World}
    (hw : w.timed.Inv m.clk) (hv : v.timed.Inv m.clk) (hchip : type ≠ .chip)
    (hchip' : type' ≠ .chip) (hok : (m.host.reply type pin w).ret = .ok ())
    (hok' : (m.host.reply type' pin' v).ret = .ok ())
    (hbefore : (m.next type pin w).timed.Before v.timed)
    (hgap : (m.next type pin w).timed.now + astralCacheTtlMs * m.ms ≤ v.timed.now)
    (hshort : m.clk.ticks (m.next type' pin' v).timed.now < 2 ^ 63) :
    (m.next type pin w).timed.source < (m.next type' pin' v).timed.source := by
  -- both reads serve the newest transfer of their moment
  have hready := hbefore.trans (m.before_ready v)
  have hcheck : m.clk.ticks ((m.ready v).now + (m.call v type' pin').wait) < 2 ^ 63 :=
    (m.clk.ticks_mono (Timed.now_le_call m.clk _ _)).trans_lt hshort
  obtain ⟨x, -, -, hx, hnewest, -, -, -, -, hage⟩ :=
    (inv_ready hv).served (c := m.call v type' pin') rfl hchip' hcheck hok'
  have hinv : (m.next type pin w).timed.Inv m.clk := (inv_ready hw).call _
  obtain ⟨x₁, hx₁, hnewest₁, hle₁, -⟩ := hinv (next_valid hchip hok)
  have hlen := hready.transfers.length_le
  have hlen' := ((m.ready v).prefix_call m.clk (m.call v type' pin')).length_le
  change (m.next type pin w).timed.source < ((m.ready v).call m.clk (m.call v type' pin')).source
  rcases hage with hown | ⟨-, -, hage⟩
  -- its own transfer is newer than any made before it
  · omega
  · by_contra hnot
    -- no transfer was made since, so the read would serve the same one, which is too old
    have hsame : ((m.ready v).call m.clk (m.call v type' pin')).source
        = (m.next type pin w).timed.source := by omega
    rw [hsame, (hready.trans (Timed.before_call m.clk _ _)).getElem? hx₁] at hx
    obtain rfl := Option.some.inj hx
    -- committed before the first read ended, a whole lifetime before the second's check
    have hlate : x₁.committed + m.clk.ttl * m.clk.tick
        ≤ (m.ready v).now + (m.call v type' pin').wait := by
      have := (m.before_ready v).now
      rw [m.ttl_exact]
      omega
    have hticks : m.clk.ticks x₁.committed + m.clk.ttl
        ≤ m.clk.ticks ((m.ready v).now + (m.call v type' pin').wait) := by
      have := m.clk.ticks_mono hlate
      rwa [Clock.ticks, Clock.ticks, Nat.add_mul_div_right _ _ m.clk.tick_pos] at this
    omega

end Astral
