import AstralHwmon.Driver.Regs
import AstralHwmon.Lib.WrapCounter

/-!
# The read cache and the hwmon read callback

`struct astral_data` and the three functions that touch it:
`astral_refresh_locked`, `astral_refresh` and `astral_read`
(`driver/astral_hwmon.c`). All three run under `data->lock`, so a call is one
state transformation. What the kernel hands a call — the two readings of
`jiffies` and the outcome of the transfer it makes, if it makes one — is a
`CallIo`.

The refresh has three outcomes, stated once as `astralRefreshLocked_cases`: a
cache hit that changes nothing, a failed transfer that invalidates the cache,
and a good transfer that is committed to it. Everything proved about the cache
goes through that lemma and `astralRead_eq_ok`, which says what a successful
read of a channel returns.
-/

open WrapCounter

namespace Astral

/-- A reading of `jiffies`. -/
abbrev Jiffies := BitVec 64

/-- `ASTRAL_CACHE_TTL_MS`. -/
def astralCacheTtlMs : ℕ := 200

/-- `struct astral_data`, without the client and the lock. -/
structure AstralData where
  frame : AstralFrame
  lastUpdated : Jiffies
  valid : Bool

/-- The data as `devm_kzalloc` hands it to `astral_attach`. -/
def AstralData.zeroed : AstralData where
  frame := ⟨fun _ => 0, fun _ => 0⟩
  lastUpdated := 0
  valid := false

/-- What the kernel hands one call. -/
structure CallIo where
  /-- `jiffies` at the cache test. -/
  checked : Jiffies
  /-- How the block read ends, should the call make it. -/
  transfer : SmbusResult
  /-- `jiffies` when a fresh frame is committed. -/
  committed : Jiffies

/-- The outcome of a refresh. -/
structure Refreshed where
  ret : Except Errno Unit
  data : AstralData
  /-- The transfer the call made, if it made one. -/
  transfer : Option SmbusResult

variable (ttl : Jiffies)

/-- The cache test of `astral_refresh_locked`. -/
def AstralData.fresh (data : AstralData) (now : Jiffies) : Bool :=
  data.valid && before now (data.lastUpdated + ttl)

/-- `astral_refresh_locked`. -/
def astralRefreshLocked (data : AstralData) (io : CallIo) : Refreshed :=
  if data.fresh ttl io.checked then
    { ret := .ok (), data := data, transfer := none }
  else
    -- decoded beside the cache, which keeps its frame until the new one has passed
    match astralReadFrame io.transfer with
    | .error e =>
      { ret := .error e, data := { data with valid := false }, transfer := some io.transfer }
    | .ok fresh =>
      if !astralFramePlausible fresh then
        -- `-EPROTO` tells the probe that the chip answered with nonsense
        { ret := .error EPROTO, data := { data with valid := false },
          transfer := some io.transfer }
      else
        { ret := .ok (),
          data := { frame := fresh, lastUpdated := io.committed, valid := true },
          transfer := some io.transfer }

/-- `astral_refresh`: the refresh, bracketed by the lock. -/
def astralRefresh (data : AstralData) (io : CallIo) : Refreshed :=
  astralRefreshLocked ttl data io

/-- `enum hwmon_sensor_types`. -/
inductive HwmonType
  | chip | temp | in | curr | power | energy | humidity | fan | pwm | intrusion
  deriving DecidableEq

/-- The attributes `astral_read` tells apart: `hwmon_chip_update_interval`, and
any other. -/
inductive HwmonAttr
  | updateInterval
  | other
  deriving DecidableEq

/-- The outcome of `astral_read`, with the value behind its `val` pointer. -/
structure ReadReply where
  ret : Except Errno Unit
  val : ℤ
  data : AstralData
  transfer : Option SmbusResult

/-- The tail of `astral_read`, from the refresh it ran to the code and the value
it returns. `val` is what the caller's variable holds. -/
def astralReadSwitch (r : Refreshed) (type : HwmonType) (pin : Pin) (val : ℤ) :
    Except Errno Unit × ℤ :=
  match r.ret with
  | .error e =>
    -- userspace wants the conventional code
    if e = EPROTO then (.error EIO, val) else (.error e, val)
  | .ok () =>
    match type with
    | .in => (.ok (), (r.data.frame.millivolts pin).toNat)
    | .curr => (.ok (), (r.data.frame.milliamps pin).toNat)
    | _ => (.error EOPNOTSUPP, val)

/-- `astral_read`. `val` is what the caller's variable holds before the call. -/
def astralRead (data : AstralData) (io : CallIo) (type : HwmonType) (attr : HwmonAttr)
    (channel val : ℤ) : ReadReply :=
  if type = .chip then
    -- a constant of the driver: no lock, no transfer
    if attr ≠ .updateInterval then
      { ret := .error EOPNOTSUPP, val := val, data := data, transfer := none }
    else
      { ret := .ok (), val := astralCacheTtlMs, data := data, transfer := none }
  else if h : channel < 0 ∨ 6 ≤ channel then
    { ret := .error EINVAL, val := val, data := data, transfer := none }
  else
    let r := astralRefreshLocked ttl data io
    let out := astralReadSwitch r type ⟨channel.toNat, by omega⟩ val
    { ret := out.1, val := out.2, data := r.data, transfer := r.transfer }

/-- A call on the cache: the probe's refresh, or a read of the hwmon surface. -/
inductive Request
  | refresh
  | read (type : HwmonType) (attr : HwmonAttr) (channel val : ℤ)

/-- The data a call leaves, and the transfer it made, if it made one. -/
def Request.run (data : AstralData) (io : CallIo) : Request → AstralData × Option SmbusResult
  | .refresh =>
    let r := astralRefresh ttl data io
    (r.data, r.transfer)
  | .read type attr channel val =>
    let r := astralRead ttl data io type attr channel val
    (r.data, r.transfer)

/-! ### What one call can do -/

/-- A refresh answers from the cache, fails and invalidates it, or commits the
frame of a good transfer. -/
theorem astralRefreshLocked_cases (data : AstralData) (io : CallIo) :
    (data.fresh ttl io.checked = true ∧
      astralRefreshLocked ttl data io = ⟨.ok (), data, none⟩) ∨
    (data.fresh ttl io.checked = false ∧ ¬ io.transfer.Good ∧ ∃ e,
      astralRefreshLocked ttl data io
        = ⟨.error e, { data with valid := false }, some io.transfer⟩) ∨
    (data.fresh ttl io.checked = false ∧ ∃ frame,
      astralReadFrame io.transfer = .ok frame ∧ astralFramePlausible frame = true ∧
      astralRefreshLocked ttl data io
        = ⟨.ok (), ⟨frame, io.committed, true⟩, some io.transfer⟩) := by
  unfold astralRefreshLocked
  cases hit : data.fresh ttl io.checked with
  | true => exact Or.inl ⟨rfl, rfl⟩
  | false =>
    refine Or.inr ?_
    cases hread : astralReadFrame io.transfer with
    | error e =>
      -- a transfer that gave no frame is not good
      refine Or.inl ⟨rfl, fun ⟨_, hok, _⟩ => ?_, e, rfl⟩
      rw [hread] at hok
      exact absurd hok (by simp)
    | ok frame =>
      cases hpl : astralFramePlausible frame with
      | true => exact Or.inr ⟨rfl, frame, rfl, hpl, by simp [hpl]⟩
      | false =>
        -- nor is one whose frame, the only one it decodes to, is implausible
        refine Or.inl ⟨rfl, fun ⟨g, hok, hg⟩ => ?_, EPROTO, by simp [hpl]⟩
        rw [hread] at hok
        obtain rfl := Except.ok.inj hok
        rw [hpl] at hg
        exact absurd hg (by simp)

/-- A successful refresh leaves a valid cache. -/
theorem astralRefreshLocked_valid {ttl : Jiffies} {data : AstralData} {io : CallIo}
    (h : (astralRefreshLocked ttl data io).ret = .ok ()) :
    (astralRefreshLocked ttl data io).data.valid = true := by
  rcases astralRefreshLocked_cases ttl data io with
    ⟨hit, heq⟩ | ⟨-, -, e, heq⟩ | ⟨-, frame, -, -, heq⟩
  · -- the cache test itself asks for validity
    rw [heq]
    simp only [AstralData.fresh, Bool.and_eq_true] at hit
    exact hit.1
  · rw [heq] at h; exact absurd h (by simp)
  · rw [heq]

/-- A call leaves the cache untouched, or as a refresh does. -/
theorem Request.run_cases (data : AstralData) (io : CallIo) (request : Request) :
    request.run ttl data io = (data, none) ∨
      request.run ttl data io = ((astralRefreshLocked ttl data io).data,
        (astralRefreshLocked ttl data io).transfer) := by
  cases request with
  | refresh => exact Or.inr rfl
  | read type attr channel val =>
    simp only [Request.run, astralRead]
    -- the chip type and a channel out of range return before the refresh
    split
    · split <;> exact Or.inl rfl
    split
    · exact Or.inl rfl
    · exact Or.inr rfl

variable {ttl}

/-- The value a frame gives a channel: millivolts for `in`, milliamps for
`curr`. -/
def AstralFrame.value (frame : AstralFrame) (type : HwmonType) (pin : Pin) : ℤ :=
  if type = .in then (frame.millivolts pin).toNat else (frame.milliamps pin).toNat

theorem astralReadSwitch_eq_ok {r : Refreshed} {type : HwmonType} {pin : Pin} {val : ℤ}
    (h : (astralReadSwitch r type pin val).1 = .ok ()) :
    (type = .in ∨ type = .curr) ∧ r.ret = .ok () ∧
      astralReadSwitch r type pin val = (.ok (), r.data.frame.value type pin) := by
  cases hret : r.ret with
  | error e => by_cases he : e = EPROTO <;> simp [astralReadSwitch, hret, he] at h
  -- past the refresh only the two channel types leave the code at success
  | ok u => cases type <;> simp [astralReadSwitch, hret, AstralFrame.value] at h ⊢

theorem astralReadSwitch_error {r : Refreshed} {type : HwmonType} {pin : Pin} {val : ℤ}
    {e : Errno} (h : (astralReadSwitch r type pin val).1 = .error e) :
    (astralReadSwitch r type pin val).2 = val ∧ e ≠ EPROTO := by
  cases hret : r.ret with
  | error e' =>
    by_cases he : e' = EPROTO
    -- mapped to `-EIO`, so the code reported is another
    · simp only [astralReadSwitch, hret, if_pos he, Except.error.injEq] at h ⊢
      exact ⟨trivial, h ▸ by decide⟩
    · simp only [astralReadSwitch, hret, if_neg he, Except.error.injEq] at h ⊢
      exact ⟨trivial, h ▸ he⟩
  | ok u =>
    have hne : EOPNOTSUPP ≠ EPROTO := by decide
    cases type <;> simp only [astralReadSwitch, hret, Except.error.injEq, reduceCtorEq] at h ⊢
    all_goals exact ⟨trivial, h ▸ hne⟩

/-- **A successful read of a channel** refreshed the cache successfully and
returns the cached value of the pin the channel names. -/
theorem astralRead_eq_ok {data : AstralData} {io : CallIo} {type : HwmonType}
    {attr : HwmonAttr} {channel val : ℤ} (hchip : type ≠ .chip)
    (h : (astralRead ttl data io type attr channel val).ret = .ok ()) :
    (type = .in ∨ type = .curr) ∧ ∃ pin : Pin, (pin.val : ℤ) = channel ∧
      (astralRefreshLocked ttl data io).ret = .ok () ∧
      astralRead ttl data io type attr channel val
        = ⟨.ok (), (astralRefreshLocked ttl data io).data.frame.value type pin,
            (astralRefreshLocked ttl data io).data,
            (astralRefreshLocked ttl data io).transfer⟩ := by
  unfold astralRead at h ⊢
  rw [if_neg hchip] at h ⊢
  -- a channel out of range is refused before the refresh
  split at h
  · exact absurd h (by simp)
  next hch =>
    rw [dif_neg hch]
    obtain ⟨htype, hret, hout⟩ := astralReadSwitch_eq_ok h
    refine ⟨htype, ⟨channel.toNat, by omega⟩, ?_, hret, ?_⟩
    · change ((channel.toNat : ℕ) : ℤ) = channel
      omega
    · simp only [hout]

/-- A failing read leaves the caller's variable alone and reports a code
userspace knows. -/
theorem astralRead_error {data : AstralData} {io : CallIo} {type : HwmonType}
    {attr : HwmonAttr} {channel val : ℤ} {e : Errno}
    (h : (astralRead ttl data io type attr channel val).ret = .error e) :
    (astralRead ttl data io type attr channel val).val = val ∧ e ≠ EPROTO := by
  unfold astralRead at h ⊢
  by_cases hchip : type = .chip
  · rw [if_pos hchip] at h ⊢
    by_cases hattr : attr ≠ .updateInterval
    · rw [if_pos hattr] at h ⊢
      exact ⟨rfl, by obtain rfl := Except.error.inj h; decide⟩
    · rw [if_neg hattr] at h
      exact absurd h (by simp)
  · rw [if_neg hchip] at h ⊢
    by_cases hch : channel < 0 ∨ 6 ≤ channel
    · rw [dif_pos hch] at h ⊢
      exact ⟨rfl, by obtain rfl := Except.error.inj h; decide⟩
    · rw [dif_neg hch] at h ⊢
      exact astralReadSwitch_error h

end Astral
