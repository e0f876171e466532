import AstralHwmon.Driver.PlausibilityGate
import AstralHwmon.Lib.CriticalSection

/-!
# Any number of readers, statement by statement

`cacheSystem` takes a call on the cache for one step, because it runs under
`data->lock`. Here a call is what it is in `driver/astral_hwmon.c`: tests made without
the lock, `mutex_lock`, one statement after another, `mutex_unlock`. The threads that
call `astral_refresh` and `astral_read` are interleaved in every order
(`readersSystem`). `jiffies` is read where the code reads it, the transfer is a
statement of its own, and `data->frame = fresh` is twelve stores, in whatever order
the compiler has them; a thread that looked at the cache without the lock could see
half a frame, or an old frame that is marked as good.

`RefreshPc.At` says at each position of `astral_refresh_locked` what has become of the
data the call started from. It gives `astralReader_serves`: left alone, the body
does what `Request.run` does in one step. With the rule for calls under one lock, the
threads show what the sequential calls show (`astral_linearizable`), and what is
known of those holds of the threads at the moment a call has its answer:
`astral_read_newest` is what that says of a read, and of two reads that follow each other.
-/

open Transition Monitor CriticalSection WrapCounter

namespace Astral

/-- A word of `struct astral_frame`. -/
inductive FrameWord
  | millivolts (pin : Pin)
  | milliamps (pin : Pin)
  deriving DecidableEq

/-- All of them. -/
def FrameWord.all : List FrameWord :=
  (List.finRange 6).map .millivolts ++ (List.finRange 6).map .milliamps

theorem FrameWord.mem_all (w : FrameWord) : w ∈ FrameWord.all := by
  cases w <;> simp [FrameWord.all]

/-- The word of the frame. -/
def AstralFrame.word (frame : AstralFrame) : FrameWord → UInt16
  | .millivolts pin => frame.millivolts pin
  | .milliamps pin => frame.milliamps pin

/-- One word of a frame is overwritten with that of another. -/
def AstralFrame.store (frame fresh : AstralFrame) : FrameWord → AstralFrame
  | .millivolts pin =>
    { frame with millivolts := Function.update frame.millivolts pin (fresh.millivolts pin) }
  | .milliamps pin =>
    { frame with milliamps := Function.update frame.milliamps pin (fresh.milliamps pin) }

theorem AstralFrame.store_word (frame fresh : AstralFrame) (w v : FrameWord) :
    (frame.store fresh w).word v = if v = w then fresh.word v else frame.word v := by
  cases w <;> cases v <;> simp only [AstralFrame.store, AstralFrame.word, Function.update_apply,
    FrameWord.millivolts.injEq, FrameWord.milliamps.injEq, reduceCtorEq, if_false]
  all_goals
    split
    next h => rw [h]
    next => rfl

theorem AstralFrame.ext_word {f g : AstralFrame} (h : ∀ w, f.word w = g.word w) : f = g :=
  AstralFrame.ext (fun p => h (.millivolts p)) (fun p => h (.milliamps p))

/-- What the kernel and the compiler hand a statement. -/
structure StatementIo where
  jiffies : Jiffies
  transfer : SmbusResult
  /-- The order in which the words of a frame are stored. -/
  order : { order : List FrameWord // order.Perm FrameWord.all }

/-- What a call returns: `astral_refresh` its code, `astral_read` also the value behind
its pointer. -/
inductive Reply
  | refresh (ret : Except Errno Unit)
  | read (ret : Except Errno Unit) (val : ℤ)
  deriving DecidableEq

deriving instance DecidableEq for Request

/-- What a call returns when it is made in one step. -/
def Request.reply (ttl : Jiffies) (data : AstralData) (io : CallIo) : Request → Reply
  | .refresh => .refresh (astralRefresh ttl data io).ret
  | .read type attr channel val =>
    .read (astralRead ttl data io type attr channel val).ret
      (astralRead ttl data io type attr channel val).val

/-- The caller of `astral_refresh_locked`, with the arguments it still needs. -/
inductive RefreshCaller
  | refresh
  | read (type : HwmonType) (pin : Pin) (val : ℤ)

/-- The end of the caller: its code, and for `astral_read` the switch that copies the
value. -/
def RefreshCaller.reply (data : AstralData) (ret : Except Errno Unit) : RefreshCaller → Reply
  | .refresh => .refresh ret
  | .read type pin val =>
    let out := astralReadSwitch ⟨ret, data, none⟩ type pin val
    .read out.1 out.2

/-- The positions under `data->lock`: the statements of `astral_refresh_locked`, and the
end of its caller. -/
inductive RefreshPc
  /-- `data->valid &&` -/
  | valid
  /-- `time_before(jiffies, data->last_updated + ASTRAL_CACHE_TTL)` -/
  | expiry
  /-- `astral_read_frame(data->client, &fresh)` -/
  | transfer
  /-- `data->valid = false; return ret;` -/
  | failed (ret : Errno)
  /-- `astral_frame_plausible(&fresh)` -/
  | framePlausible (fresh : AstralFrame)
  /-- `data->frame = fresh`, with the words that are left to store. -/
  | store (fresh : AstralFrame) (left : List FrameWord)
  /-- `data->last_updated = jiffies` -/
  | stamp
  /-- `data->valid = true` -/
  | publish
  /-- Back in the caller, which copies its value. -/
  | done (ret : Except Errno Unit)

/-- One statement under the lock. -/
def astralStatement (ttl : Jiffies) (d : CacheState) (io : StatementIo) :
    RefreshCaller × RefreshPc → CacheState × (RefreshCaller × RefreshPc ⊕ Reply)
  | (caller, .valid) =>
    (d, .inl (caller, if d.data.valid then .expiry else .transfer))
  | (caller, .expiry) =>
    (d, .inl (caller,
      if before io.jiffies (d.data.lastUpdated + ttl) then .done (.ok ()) else .transfer))
  | (caller, .transfer) =>
    ({ d with transfers := io.transfer :: d.transfers },
      .inl (caller, match astralReadFrame io.transfer with
        | .error ret => .failed ret
        | .ok fresh => .framePlausible fresh))
  | (caller, .failed ret) =>
    ({ d with data := { d.data with valid := false } }, .inl (caller, .done (.error ret)))
  | (caller, .framePlausible fresh) =>
    (d, .inl (caller,
      if !astralFramePlausible fresh then .failed EPROTO else .store fresh io.order.1))
  | (caller, .store fresh (w :: left)) =>
    ({ d with data := { d.data with frame := d.data.frame.store fresh w } },
      .inl (caller, .store fresh left))
  | (caller, .store _ []) => (d, .inl (caller, .stamp))
  | (caller, .stamp) =>
    ({ d with data := { d.data with lastUpdated := io.jiffies } }, .inl (caller, .publish))
  | (caller, .publish) =>
    ({ d with data := { d.data with valid := true } }, .inl (caller, .done (.ok ())))
  | (caller, .done ret) => (d, .inr (caller.reply d.data ret))

theorem channel_lt {channel : ℤ} (h : ¬ (channel < 0 ∨ 6 ≤ channel)) : channel.toNat < 6 := by
  omega

/-- `astral_refresh` and `astral_read`: what they test before they take `data->lock`, and
what they do under it. -/
def astralReader (ttl : Jiffies) :
    Method CacheState Request (RefreshCaller × RefreshPc) StatementIo Reply where
  enter
    | .refresh => .inr (.refresh, .valid)
    | .read type attr channel val =>
      if type = .chip then
        if attr ≠ .updateInterval then .inl (.read (.error EOPNOTSUPP) val)
        else .inl (.read (.ok ()) astralCacheTtlMs)
      else if h : channel < 0 ∨ 6 ≤ channel then .inl (.read (.error EINVAL) val)
      else .inr (.read type ⟨channel.toNat, channel_lt h⟩ val, .valid)
  body := astralStatement ttl

variable {T : Type*} [DecidableEq T]

/-- The threads that call them on one chip. -/
def readersSystem (T : Type*) [DecidableEq T] (ttl : Jiffies) :
    System (State CacheState T (Pc Request (RefreshCaller × RefreshPc) Reply))
      (Act T StatementIo (T × Request)) :=
  (astralReader ttl).code.system (Method.idle (· = .start))

/-! ### The body, left alone -/

variable {ttl : Jiffies}

/-- What has become of the data `d₀` the body started from. -/
def RefreshPc.At (ttl : Jiffies) (d₀ : CacheState) : RefreshPc → CacheState → Prop
  | .valid, d => d = d₀
  | .expiry, d => d = d₀ ∧ d₀.data.valid = true
  | .transfer, d => d = d₀ ∧ ∃ now, d₀.data.fresh ttl now = false
  | .failed ret, d => ∃ io, d = ⟨d₀.data, io.transfer :: d₀.transfers⟩ ∧
      astralRefreshLocked ttl d₀.data io
        = ⟨.error ret, { d₀.data with valid := false }, some io.transfer⟩
  | .framePlausible fresh, d => ∃ now transfer, d₀.data.fresh ttl now = false ∧
      astralReadFrame transfer = .ok fresh ∧ d = ⟨d₀.data, transfer :: d₀.transfers⟩
  | .store fresh left, d => ∃ now transfer, d₀.data.fresh ttl now = false ∧
      astralReadFrame transfer = .ok fresh ∧ astralFramePlausible fresh = true ∧
      d.transfers = transfer :: d₀.transfers ∧ ∀ w, w ∉ left → d.data.frame.word w = fresh.word w
  | .stamp, d => ∃ now transfer, d₀.data.fresh ttl now = false ∧
      astralReadFrame transfer = .ok d.data.frame ∧ astralFramePlausible d.data.frame = true ∧
      d.transfers = transfer :: d₀.transfers
  | .publish, d => ∃ now transfer, d₀.data.fresh ttl now = false ∧
      astralReadFrame transfer = .ok d.data.frame ∧ astralFramePlausible d.data.frame = true ∧
      d.transfers = transfer :: d₀.transfers
  | .done ret, d => ∃ io, d.data = (astralRefreshLocked ttl d₀.data io).data ∧
      d.transfers = (astralRefreshLocked ttl d₀.data io).transfer.toList ++ d₀.transfers ∧
      ret = (astralRefreshLocked ttl d₀.data io).ret

/-- A statement leads to the assertion at the next. -/
theorem RefreshPc.At.statement {d₀ d d' : CacheState} {caller caller' : RefreshCaller}
    {pc pc' : RefreshPc} {io : StatementIo} (h : pc.At ttl d₀ d)
    (hstep : astralStatement ttl d io (caller, pc) = (d', .inl (caller', pc'))) :
    caller' = caller ∧ pc'.At ttl d₀ d' := by
  cases pc with
  | valid =>
    obtain rfl : d = d₀ := h
    obtain ⟨rfl, rfl, rfl⟩ : d = d' ∧ caller = caller' ∧ _ = pc' := by
      simpa [astralStatement] using hstep
    cases hvalid : d.data.valid with
    | true => exact ⟨rfl, rfl, hvalid⟩
    | false => exact ⟨rfl, rfl, 0, by simp [AstralData.fresh, hvalid]⟩
  | expiry =>
    obtain ⟨rfl, hvalid⟩ : d = d₀ ∧ d₀.data.valid = true := h
    obtain ⟨rfl, rfl, rfl⟩ : d = d' ∧ caller = caller' ∧ _ = pc' := by
      simpa [astralStatement] using hstep
    have hfresh : d.data.fresh ttl io.jiffies = before io.jiffies (d.data.lastUpdated + ttl) := by
      simp [AstralData.fresh, hvalid]
    cases hbefore : before io.jiffies (d.data.lastUpdated + ttl) with
    | true =>
      -- a cache hit
      have hhit : astralRefreshLocked ttl d.data ⟨io.jiffies, io.transfer, io.jiffies⟩
          = ⟨.ok (), d.data, none⟩ := by
        simp [astralRefreshLocked, hfresh, hbefore]
      exact ⟨rfl, ⟨io.jiffies, io.transfer, io.jiffies⟩, by simp [hhit]⟩
    | false => exact ⟨rfl, rfl, io.jiffies, hfresh.trans hbefore⟩
  | transfer =>
    obtain ⟨rfl, now, hfresh⟩ : d = d₀ ∧ ∃ now, d₀.data.fresh ttl now = false := h
    obtain ⟨rfl, rfl, rfl⟩ : _ = d' ∧ caller = caller' ∧ _ = pc' := by
      simpa [astralStatement] using hstep
    cases hread : astralReadFrame io.transfer with
    | error ret =>
      exact ⟨rfl, ⟨now, io.transfer, now⟩, rfl, by simp [astralRefreshLocked, hfresh, hread]⟩
    | ok fresh => exact ⟨rfl, now, io.transfer, hfresh, hread, rfl⟩
  | failed ret =>
    obtain ⟨cio, rfl, hrefresh⟩ := h
    obtain ⟨rfl, rfl, rfl⟩ : _ = d' ∧ caller = caller' ∧ _ = pc' := by
      simpa [astralStatement] using hstep
    exact ⟨rfl, cio, by simp [hrefresh]⟩
  | framePlausible fresh =>
    obtain ⟨now, transfer, hfresh, hread, rfl⟩ := h
    obtain ⟨rfl, rfl, rfl⟩ : _ = d' ∧ caller = caller' ∧ _ = pc' := by
      simpa [astralStatement] using hstep
    cases hpl : astralFramePlausible fresh with
    | true =>
      -- every word is left to store
      refine ⟨rfl, now, transfer, hfresh, hread, hpl, rfl, fun w hw => absurd ?_ hw⟩
      exact io.order.2.mem_iff.mpr w.mem_all
    | false =>
      exact ⟨rfl, ⟨now, transfer, now⟩, rfl, by simp [astralRefreshLocked, hfresh, hread, hpl]⟩
  | store fresh left =>
    obtain ⟨now, transfer, hfresh, hread, hpl, htransfers, hwords⟩ := h
    cases left with
    | nil =>
      obtain ⟨rfl, rfl, rfl⟩ : d = d' ∧ caller = caller' ∧ _ = pc' := by
        simpa [astralStatement] using hstep
      have hframe : d.data.frame = fresh := AstralFrame.ext_word fun w => hwords w (by simp)
      exact ⟨rfl, now, transfer, hfresh, hframe ▸ hread, hframe ▸ hpl, htransfers⟩
    | cons w left =>
      obtain ⟨rfl, rfl, rfl⟩ : _ = d' ∧ caller = caller' ∧ _ = pc' := by
        simpa [astralStatement] using hstep
      refine ⟨rfl, now, transfer, hfresh, hread, hpl, htransfers, fun v hv => ?_⟩
      rw [AstralFrame.store_word]
      split
      next => rfl
      next hne => exact hwords v (by simp [hne, hv])
  | stamp =>
    obtain ⟨now, transfer, hfresh, hread, hpl, htransfers⟩ := h
    obtain ⟨rfl, rfl, rfl⟩ : _ = d' ∧ caller = caller' ∧ _ = pc' := by
      simpa [astralStatement] using hstep
    exact ⟨rfl, now, transfer, hfresh, hread, hpl, htransfers⟩
  | publish =>
    obtain ⟨now, transfer, hfresh, hread, hpl, htransfers⟩ := h
    obtain ⟨rfl, rfl, rfl⟩ : _ = d' ∧ caller = caller' ∧ _ = pc' := by
      simpa [astralStatement] using hstep
    have hcommit : astralRefreshLocked ttl d₀.data ⟨now, transfer, d.data.lastUpdated⟩
        = ⟨.ok (), ⟨d.data.frame, d.data.lastUpdated, true⟩, some transfer⟩ := by
      simp [astralRefreshLocked, hfresh, hread, hpl]
    exact ⟨rfl, ⟨now, transfer, d.data.lastUpdated⟩, by simp [hcommit, htransfers]⟩
  | done ret => simp [astralStatement] at hstep

/-- The end of a caller: what it answers, given what the refresh left. -/
theorem astralStatement_done {d d' : CacheState} {caller : RefreshCaller} {pc : RefreshPc}
    {io : StatementIo} {r : Reply} (h : astralStatement ttl d io (caller, pc) = (d', .inr r)) :
    d' = d ∧ ∃ ret, pc = .done ret ∧ r = caller.reply d.data ret := by
  cases pc with
  | done ret =>
    obtain ⟨rfl, rfl⟩ : d = d' ∧ _ = r := by simpa [astralStatement] using h
    exact ⟨rfl, ret, rfl, rfl⟩
  | store fresh left => cases left <;> simp [astralStatement] at h
  | valid | expiry | transfer | failed _ | framePlausible _ | stamp | publish =>
    simp [astralStatement] at h

/-- What a body in which the assertions hold has become of. -/
theorem astralReader_at {d₀ d : CacheState} {caller caller' : RefreshCaller} {pc : RefreshPc}
    (h : (astralReader ttl).Under d₀ (caller, .valid) d (caller', pc)) :
    caller' = caller ∧ pc.At ttl d₀ d := by
  refine h.outline (J := fun l d => l.1 = caller ∧ l.2.At ttl d₀ d) ⟨rfl, rfl⟩ ?_
  rintro ⟨caller₁, pc₁⟩ d₁ io d₂ ⟨caller₂, pc₂⟩ ⟨rfl, hat⟩ hstep
  exact hat.statement hstep

/-- The switch at the end of `astral_read` looks at the code and the data only. -/
theorem astralReadSwitch_of_data {r : Refreshed} {data : AstralData} (h : data = r.data)
    (type : HwmonType) (pin : Pin) (val : ℤ) :
    astralReadSwitch ⟨r.ret, data, none⟩ type pin val = astralReadSwitch r type pin val := by
  simp only [astralReadSwitch, h]

/-- Past the tests made without the lock, a read is a refresh and the switch. -/
theorem astralRead_locked {data : AstralData} {io : CallIo} {type : HwmonType}
    {attr : HwmonAttr} {channel val : ℤ} (hchip : type ≠ .chip)
    (hchannel : ¬ (channel < 0 ∨ 6 ≤ channel)) :
    let r := astralRefreshLocked ttl data io
    let out := astralReadSwitch r type ⟨channel.toNat, channel_lt hchannel⟩ val
    astralRead ttl data io type attr channel val = ⟨out.1, out.2, r.data, r.transfer⟩ := by
  simp only [astralRead, if_neg hchip, dif_neg hchannel]

/-- A read that takes the lock has passed the tests made without it. -/
theorem astralReader_enter_read {type : HwmonType} {attr : HwmonAttr} {channel val : ℤ}
    {l₀ : RefreshCaller × RefreshPc}
    (h : (astralReader ttl).enter (.read type attr channel val) = .inr l₀) :
    type ≠ .chip ∧ ∃ hchannel : ¬ (channel < 0 ∨ 6 ≤ channel),
      l₀ = (.read type ⟨channel.toNat, channel_lt hchannel⟩ val, .valid) := by
  simp only [astralReader] at h
  split at h
  next => split at h <;> exact absurd h (by simp)
  next hchip =>
    split at h
    next => exact absurd h (by simp)
    next hchannel => exact ⟨hchip, hchannel, (Sum.inr.inj h).symm⟩

/-- A call starts its body at the cache test. -/
theorem astralReader_enter {q : Request} {l₀ : RefreshCaller × RefreshPc}
    (h : (astralReader ttl).enter q = .inr l₀) : ∃ caller, l₀ = (caller, .valid) := by
  cases q with
  | refresh => exact ⟨.refresh, by simpa [astralReader] using h.symm⟩
  | read type attr channel val =>
    obtain ⟨-, hchannel, rfl⟩ := astralReader_enter_read h
    exact ⟨_, rfl⟩

/-- A call that does not take the lock leaves the cache alone. -/
theorem astralReader_early {d : CacheState} {q : Request} {r : Reply} (io : CallIo)
    (h : (astralReader ttl).enter q = .inl r) :
    d.call ttl ⟨io, q⟩ = d ∧ q.reply ttl d.data io = r := by
  cases q with
  | refresh => simp [astralReader] at h
  | read type attr channel val =>
    simp only [astralReader] at h
    simp only [CacheState.call, Request.run, Request.reply, astralRead]
    split at h
    next hchip =>
      split at h
      next hattr => simpa [hchip, hattr] using h
      next hattr => simpa [hchip, hattr] using h
    next hchip =>
      split at h
      next hchannel => simpa [hchip, hchannel] using h
      next => exact absurd h (by simp)

/-- **Left alone, a call does what it does in one step.** -/
theorem astralReader_serves {d d' : CacheState} {q : Request} {r : Reply}
    (h : (astralReader ttl).Serves d q d' r) :
    ∃ io, d' = d.call ttl ⟨io, q⟩ ∧ r = q.reply ttl d.data io := by
  cases h with
  | early henter =>
    -- nothing is read, so any answer of the chip explains it
    obtain ⟨hcall, hreply⟩ := astralReader_early (d := d) ⟨0, .error EIO, 0⟩ henter
    exact ⟨_, hcall.symm, hreply.symm⟩
  | @body l₀ l d₁ d' io r henter hunder hlast =>
    obtain ⟨caller, pc⟩ := l
    obtain ⟨rfl, ret, rfl, rfl⟩ := astralStatement_done hlast
    -- under the lock the statements have come to what one refresh makes of the data
    cases q with
    | refresh =>
      obtain rfl : (RefreshCaller.refresh, RefreshPc.valid) = l₀ := by
        simpa [astralReader] using henter
      obtain ⟨rfl, cio, hdata, htransfers, rfl⟩ := astralReader_at hunder
      refine ⟨cio, ?_, rfl⟩
      simp [CacheState.call, Request.run, astralRefresh, ← hdata, ← htransfers]
    | read type attr channel val =>
      obtain ⟨hchip, hchannel, rfl⟩ := astralReader_enter_read henter
      obtain ⟨rfl, cio, hdata, htransfers, rfl⟩ := astralReader_at hunder
      refine ⟨cio, ?_, ?_⟩
      · simp [CacheState.call, Request.run, astralRead_locked hchip hchannel, ← hdata,
          ← htransfers]
      · simp only [Request.reply, astralRead_locked hchip hchannel, RefreshCaller.reply]
        rw [astralReadSwitch_of_data hdata]

/-- A statement under the lock only adds to the transfers. -/
theorem astralStatement_transfers {d d' : CacheState} {io : StatementIo}
    {l : RefreshCaller × RefreshPc} {next : RefreshCaller × RefreshPc ⊕ Reply}
    (h : astralStatement ttl d io l = (d', next)) : d.transfers <:+ d'.transfers := by
  obtain ⟨caller, pc⟩ := l
  obtain rfl : (astralStatement ttl d io (caller, pc)).1 = d' := congrArg Prod.fst h
  cases pc with
  | transfer => exact List.suffix_cons _ _
  | store fresh left => cases left <;> exact List.suffix_rfl
  | valid | expiry | failed | framePlausible | stamp | publish | done => exact List.suffix_rfl

/-! ### The threads -/

/-- What serving a request does to the cache. -/
def cacheServes (ttl : Jiffies) (d : CacheState) (q : Request) (d' : CacheState) (r : Reply) :
    Prop :=
  ∃ io, d' = d.call ttl ⟨io, q⟩ ∧ r = q.reply ttl d.data io

/-- The cache as its callers want it: calls are made one after another. -/
def cacheObject (T : Type*) [DecidableEq T] (ttl : Jiffies) :
    System (Object CacheState T Request Reply) (ObjectAct T Request Reply) :=
  object (· = .start) (cacheServes ttl)

/-- Requests served one after another are a run of calls. -/
theorem cacheSystem_of_serial {d d' : CacheState} (h : Serial (cacheServes ttl) d d') :
    ∃ l, Run (cacheSystem ttl) d l d' := by
  induction h with
  | refl => exact ⟨[], .refl d⟩
  | tail _ hserves ih =>
    obtain ⟨l, hp⟩ := ih
    obtain ⟨q, -, io, hcall, -⟩ := hserves
    have hstep : (cacheSystem ttl).step _ ⟨io, q⟩ _ := hcall
    exact ⟨_, hp.tail hstep⟩

section Threads

variable {s t : State CacheState T (Pc Request (RefreshCaller × RefreshPc) Reply)}
  {l : List (State CacheState T (Pc Request (RefreshCaller × RefreshPc) Reply) ×
    Act T StatementIo (T × Request))}
  {o : Object CacheState T Request Reply}

/-- A run of the threads is a run of the cache that shows the same. -/
theorem readersSystem_run (h : (astralReader ttl).Explains s o)
    (hp : Run (readersSystem T ttl) s l t) :
    ∃ l' o', Run (cacheObject T ttl) o l' o' ∧
      observed ObjectAct.event l' = observed Method.event l ∧ (astralReader ttl).Explains t o' := by
  obtain ⟨l', o', hp', hobs, ho'⟩ := ((astralReader ttl).simulation _).run h hp
  exact ⟨l', o', object_mono (fun _ _ _ _ => astralReader_serves) hp', hobs, ho'⟩

/-- Behind the threads there is always a cache that calls have got to. -/
theorem readersSystem_explained (h : Reachable (readersSystem T ttl) s) :
    ∃ o, (astralReader ttl).Explains s o ∧ Reachable (cacheSystem ttl) o.data := by
  obtain ⟨s₀, l, h₀, hp⟩ := h
  obtain ⟨o₀, ho₀, hrel⟩ := ((astralReader ttl).simulation _).init s₀ h₀
  obtain ⟨l', o, hp', -, ho⟩ := readersSystem_run hrel hp
  obtain ⟨m, hm⟩ := cacheSystem_of_serial (object_serial hp')
  exact ⟨o, ho, o₀.data, m, ho₀.1, hm⟩

/-- The record of transfers only grows. -/
theorem readersSystem_transfers (hs : Reachable (readersSystem T ttl) s)
    (hp : Run (readersSystem T ttl) s l t) : s.data.transfers <:+ t.data.transfers := by
  refine Run.history (J := fun _ t => s.data.transfers <:+ t.data.transfers) List.suffix_rfl
    (fun l t a u hpre hJ hnext => hJ.trans ?_) hp
  obtain ⟨o, ho⟩ := Method.reachable_explained (hs.run hpre)
  have hstep := Method.step_of_next (fun t => (ho.client t).one) hnext
  generalize Method.event t a = ev at hstep
  cases hstep with
  | body _ hbody | last _ hbody => exact astralStatement_transfers hbody
  | invoke | early | acquire | release | reply => exact List.suffix_rfl

/-- A value is that of a channel in the newest of the transfers, which is good. -/
def ServesNewest (transfers : List SmbusResult) (type : HwmonType) (channel val : ℤ) : Prop :=
  ∃ r frame, transfers.head? = some r ∧ astralReadFrame r = .ok frame ∧
    astralFramePlausible frame = true ∧
    ∃ pin : Pin, (pin.val : ℤ) = channel ∧ val = frame.value type pin

/-- A read that is served returns the newest of the transfers that are there then. -/
theorem cacheServes_newest {d d' : CacheState} {type : HwmonType} {attr : HwmonAttr}
    {channel val v : ℤ} (hd : d.Newest) (hchip : type ≠ .chip)
    (h : cacheServes ttl d (.read type attr channel val) d' (.read (.ok ()) v)) :
    ServesNewest d'.transfers type channel v := by
  obtain ⟨io, rfl, hreply⟩ := h
  obtain ⟨hret, rfl⟩ := Reply.read.inj hreply
  obtain ⟨r, frame, hserved⟩ := hd.served hchip hret.symm
  exact ⟨r, frame, hserved⟩

/-- A channel is not read without the lock. -/
theorem astralReader_enter_ne {type : HwmonType} {attr : HwmonAttr} {channel val v : ℤ}
    (hchip : type ≠ .chip) :
    (astralReader ttl).enter (.read type attr channel val) ≠ .inl (.read (.ok ()) v) := by
  simp only [astralReader, if_neg hchip]
  split <;> simp

/-- `w` is the moment of the run from `s` to `t` at which the read that the thread `x` is about
to return from is served: the thread holds `data->lock`, and its value is that of its channel
in the newest transfer there is at that moment, which was read whole and passed the gate. -/
def ReadAt (ttl : Jiffies) (s : State CacheState T (Pc Request (RefreshCaller × RefreshPc) Reply))
    (l : List (State CacheState T (Pc Request (RefreshCaller × RefreshPc) Reply) ×
      Act T StatementIo (T × Request)))
    (t : State CacheState T (Pc Request (RefreshCaller × RefreshPc) Reply)) (x : T)
    (type : HwmonType) (attr : HwmonAttr) (channel val v : ℤ)
    (w : State CacheState T (Pc Request (RefreshCaller × RefreshPc) Reply)) : Prop :=
  (astralReader ttl).AnsweredAt (· = .start) s l t x (.read type attr channel val)
    (.read (.ok ()) v) w ∧ ServesNewest w.data.transfers type channel v

/-- A read that is about to return has been served at a moment of any run in which it had yet
to be. -/
theorem exists_readAt (hs : Reachable (readersSystem T ttl) s)
    (hp : Run (readersSystem T ttl) s l t) {x : T} {type : HwmonType} {attr : HwmonAttr}
    {channel val v : ℤ} (hchip : type ≠ .chip) (hopen : Method.Unanswered s l x)
    (hx : t.stack x = [.ret (.read type attr channel val) (.read (.ok ()) v)]) :
    ∃ w, ReadAt ttl s l t x type attr channel val v w := by
  obtain ⟨w, hw⟩ :=
    (Method.exists_answeredAt hs hp hopen (Or.inr hx)).resolve_left (astralReader_enter_ne hchip)
  obtain ⟨u, hu, hserves⟩ := hw.serves hs
  obtain ⟨o, ho, hreach⟩ := readersSystem_explained hu
  exact ⟨w, hw, cacheServes_newest (cacheSystem_newest hreach) hchip
    (astralReader_serves (hserves o ho))⟩

/-- The transfers of that moment are between those of the ends of the run. -/
theorem ReadAt.transfers (hs : Reachable (readersSystem T ttl) s) {x : T} {type : HwmonType}
    {attr : HwmonAttr} {channel val v : ℤ}
    {w : State CacheState T (Pc Request (RefreshCaller × RefreshPc) Reply)}
    (h : ReadAt ttl s l t x type attr channel val v w) :
    s.data.transfers <:+ w.data.transfers ∧ w.data.transfers <:+ t.data.transfers := by
  obtain ⟨⟨l₁, u, e, l₂, -, hbefore, hstep, hafter, -⟩, -⟩ := h
  have hw : Run (readersSystem T ttl) s _ w := hbefore.tail hstep
  exact ⟨readersSystem_transfers hs hw, readersSystem_transfers (hs.run hw) hafter⟩

/-- The statements that are left under the lock, the last one not counted. -/
def RefreshPc.rank : RefreshPc → ℕ
  | .valid => 19
  | .expiry => 18
  | .transfer => 17
  | .framePlausible _ => 16
  | .store _ left => left.length + 3
  | .stamp => 2
  | .publish | .failed _ => 1
  | .done _ => 0

theorem FrameWord.length_order (io : StatementIo) : io.order.1.length = 12 := by
  rw [io.order.2.length_eq]
  decide

/-- Every statement leaves fewer. -/
theorem astralStatement_rank {d d' : CacheState} {io : StatementIo}
    {l l' : RefreshCaller × RefreshPc} (h : astralStatement ttl d io l = (d', .inl l')) :
    l'.2.rank < l.2.rank := by
  obtain ⟨caller, pc⟩ := l
  -- by the statement; the stores still to come count for one each
  cases pc with
  | store fresh left =>
    cases left <;>
      · obtain ⟨-, rfl⟩ : _ = d' ∧ _ = l' := by simpa [astralStatement] using h
        simp [RefreshPc.rank]
  | framePlausible fresh =>
    obtain ⟨-, rfl⟩ : d = d' ∧ _ = l' := by simpa [astralStatement] using h
    cases astralFramePlausible fresh <;> simp [RefreshPc.rank, FrameWord.length_order io]
  | transfer =>
    obtain ⟨-, rfl⟩ : _ = d' ∧ _ = l' := by simpa [astralStatement] using h
    cases astralReadFrame io.transfer <;> simp [RefreshPc.rank]
  | valid | expiry =>
    obtain ⟨-, rfl⟩ : _ = d' ∧ _ = l' := by simpa [astralStatement] using h
    dsimp only
    split <;> simp [RefreshPc.rank]
  | stamp | publish | failed _ =>
    obtain ⟨-, rfl⟩ : _ = d' ∧ _ = l' := by simpa [astralStatement] using h
    simp [RefreshPc.rank]
  | done ret => simp [astralStatement] at h

omit [DecidableEq T] in
/-- What is left of a call in a run of the threads. -/
theorem left_le_rank (h : (astralReader ttl).Explains s o) (x : T) :
    Method.left (fun l => l.2.rank) (s.stack x) ≤ 21 := by
  have hmatch := h.client x
  generalize s.stack x = stack at hmatch ⊢
  rcases stack with _ | ⟨pc, _ | ⟨pc', rest⟩⟩
  · simp [Method.left]
  · cases pc with
    | body q l =>
      obtain ⟨-, l₀, henter, hunder⟩ := hmatch
      obtain ⟨caller, rfl⟩ := astralReader_enter henter
      -- the body starts at the cache test, and its statements only bring the rank down
      have hrank : l.2.rank ≤ 19 := by
        refine hunder.outline (J := fun l _ => l.2.rank ≤ 19) (by simp [RefreshPc.rank]) ?_
        exact fun l d io d' l' hle hstep => (astralStatement_rank hstep).le.trans hle
      simp only [Method.left]
      omega
    | unlock q r | entry q | ret q r => simp [Method.left]
  · exact absurd hmatch.one (by simp)

/-! ### Two readers -/

/-- Nobody reads, and nothing is cached. -/
def idleReaders : State CacheState Bool (Pc Request (RefreshCaller × RefreshPc) Reply) :=
  ⟨.start, none, fun _ => []⟩

/-- A statement run at `jiffies`, on a chip whose block is that of an idle card. -/
def idleIo (jiffies : Jiffies) : StatementIo := ⟨jiffies, .block idleBlock, FrameWord.all, .refl _⟩

/-- A read of `in0_input`. -/
def voltageRead : Request := .read .in .other 0 (-1)

/-- A read of `curr6_input`. -/
def currentRead : Request := .read .curr .other 5 (-1)

/-- One thread reads a voltage; the other enters a read of a current in the meantime. -/
def firstRead : List (Act Bool StatementIo (Bool × Request)) :=
  .start (false, voltageRead) :: (List.replicate 9 (.run false (idleIo 1000)) ++
    .start (true, currentRead) :: List.replicate 12 (.run false (idleIo 1001)))

/-- It is served from the frame the first one fetched. -/
def secondRead : List (Act Bool StatementIo (Bool × Request)) :=
  List.replicate 5 (.run true (idleIo 1002))

/-- The runs of the two readers. -/
theorem twoReads_run : ∃ t u l l',
    Run (readersSystem Bool 50) idleReaders l t ∧ Run (readersSystem Bool 50) t l' u ∧
    Method.returning t false = some (voltageRead, .read (.ok ()) 12176) ∧
    (Method.returning t true = none ∧ t.lock = none) ∧
    Method.returning u true = some (currentRead, .read (.ok ()) 460) ∧ u.lock = none := by
  have hrun : ((System.exec (astralReader 50).code.next idleReaders firstRead).any fun t =>
      decide (Method.returning t false = some (voltageRead, .read (.ok ()) 12176) ∧
        Method.returning t true = none ∧ t.lock = none) &&
      (System.exec (astralReader 50).code.next t secondRead).any fun u => decide
        (Method.returning u true = some (currentRead, .read (.ok ()) 460) ∧ u.lock = none)) = true :=
    by decide +kernel
  obtain ⟨t, ht, ⟨hfirst, hopen⟩, hsecond⟩ := System.any_decide_and_iff.mp hrun
  obtain ⟨u, hu, hdone⟩ := System.any_decide_iff.mp hsecond
  exact ⟨t, u, _, _, System.exec_trace ht, System.exec_trace hu, hfirst, hopen, hdone⟩

/-! ### What holds of every run -/

/-- **Calls on the cache are linearizable.** Whatever any number of threads see of each
other in a run, statement by statement, is what they see in a run in which every call
is made in one step, between the moment it is entered and the moment it returns. The
data that stand when `data->lock` is free are those of the calls made so far. -/
theorem astral_linearizable (ttl : Jiffies) (hs : (readersSystem T ttl).init s)
    (hp : Run (readersSystem T ttl) s l t) :
    ∃ o l' o', (cacheObject T ttl).init o ∧ Run (cacheObject T ttl) o l' o' ∧
      observed ObjectAct.event l' = observed Method.event l ∧
      Reachable (cacheSystem ttl) o'.data ∧ (t.lock = none → o'.data = t.data) := by
  obtain ⟨o, ho, hrel⟩ := ((astralReader ttl).simulation _).init s hs
  obtain ⟨l', o', hp', hobs, ho'⟩ := readersSystem_run hrel hp
  obtain ⟨m, hm⟩ := cacheSystem_of_serial (object_serial hp')
  exact ⟨o, l', o', ho, hp', hobs, ⟨o.data, m, ho.1, hm⟩, ho'.data_of_free⟩

/-- The two readers, as two calls made in one step each. -/
theorem astral_linearizable_twoReads : ∃ u l, Run (readersSystem Bool 50) idleReaders l u ∧
    u.lock = none ∧ ∃ o l' o', (cacheObject Bool 50).init o ∧ Run (cacheObject Bool 50) o l' o' ∧
      observed ObjectAct.event l' = observed Method.event l ∧
      Reachable (cacheSystem 50) o'.data ∧ o'.data = u.data := by
  obtain ⟨t, u, l, l', hp, hp', -, -, -, hfree⟩ := twoReads_run
  obtain ⟨o, m, o', ho, hm, hobs, hreach, hdata⟩ :=
    astral_linearizable 50 ⟨rfl, rfl, fun _ => rfl⟩ (hp.trans hp')
  exact ⟨u, _, hp.trans hp', hfree, o, m, o', ho, hm, hobs, hreach, hdata hfree⟩

/-- **No reader is handed half a frame, and none an older one.** Every read that is about to
return a value has had it, at a moment of its call with `data->lock` held, from the newest
transfer of that moment, which was read whole and passed the gate. A read that at some point of
the run had yet to get to its answer, on another thread or in a later call of the same one, is
served from the transfer that any read about to return at that point was served from, or from a
later one. -/
theorem astral_read_newest (ttl : Jiffies) {u : State CacheState T
      (Pc Request (RefreshCaller × RefreshPc) Reply)}
    {l' : List (State CacheState T (Pc Request (RefreshCaller × RefreshPc) Reply) ×
      Act T StatementIo (T × Request))}
    (hs : (readersSystem T ttl).init s) (hp : Run (readersSystem T ttl) s l t)
    (hp' : Run (readersSystem T ttl) t l' u) {y : T} {type' : HwmonType} {attr' : HwmonAttr}
    {channel' val' v' : ℤ} (hchip' : type' ≠ .chip)
    (hy : u.stack y = [.ret (.read type' attr' channel' val') (.read (.ok ()) v')]) :
    (∃ w', ReadAt ttl s (l ++ l') u y type' attr' channel' val' v' w') ∧
      (Method.Unanswered t l' y → ∃ w', ReadAt ttl t l' u y type' attr' channel' val' v' w' ∧
        ∀ {x : T} {type : HwmonType} {attr : HwmonAttr} {channel val v : ℤ}, type ≠ .chip →
          t.stack x = [.ret (.read type attr channel val) (.read (.ok ()) v)] →
            ∃ w, ReadAt ttl s l t x type attr channel val v w ∧
              w.data.transfers <:+ w'.data.transfers) := by
  have hreach : Reachable (readersSystem T ttl) s := ⟨s, [], hs, .refl s⟩
  have hidle : Method.idle (· = .start) s := hs
  refine ⟨exists_readAt hreach (hp.trans hp') hchip' (Method.unanswered_of_idle hidle _ y) hy,
    fun hopen => ?_⟩
  -- the later call is served in the second part of the run, the earlier one in the first
  obtain ⟨w', hw'⟩ := exists_readAt (hreach.run hp) hp' hchip' hopen hy
  refine ⟨w', hw', fun hchip hx => ?_⟩
  obtain ⟨w, hw⟩ := exists_readAt hreach hp hchip (Method.unanswered_of_idle hidle _ _) hx
  exact ⟨w, hw, (hw.transfers hreach).2.trans (hw'.transfers (hreach.run hp)).1⟩

/-- The second reader is served from the frame the first one was served from, or a later one. -/
theorem astral_read_newest_twoReads : ∃ t u l l' w w',
    ReadAt 50 idleReaders l t false .in .other 0 (-1) 12176 w ∧
      ReadAt 50 t l' u true .curr .other 5 (-1) 460 w' ∧
      w.data.transfers <:+ w'.data.transfers := by
  obtain ⟨t, u, l, l', hp, hp', hfirst, ⟨hopen, hfree⟩, hsecond, -⟩ := twoReads_run
  have hidle : (readersSystem Bool 50).init idleReaders := ⟨rfl, rfl, fun _ => rfl⟩
  obtain ⟨o, ho⟩ := Method.reachable_explained (m := astralReader 50) ⟨_, l, hidle, hp⟩
  have hopen' : Method.Unanswered t l' true := by
    refine Or.inl fun q r =>
      ⟨fun hstack => ?_, fun hstack => by simp [Method.returning, hstack] at hopen⟩
    -- at `unlock` it would hold the lock
    have howner := (ho.locked.of_stack hstack).2.mpr rfl
    rw [hfree] at howner
    exact absurd howner (by simp)
  obtain ⟨-, hlater⟩ := astral_read_newest 50 hidle hp hp' (show HwmonType.curr ≠ .chip by decide)
    (Method.stack_of_returning hsecond)
  obtain ⟨w', hw', hearlier⟩ := hlater hopen'
  obtain ⟨w, hw, hsuffix⟩ :=
    hearlier (show HwmonType.in ≠ .chip by decide) (Method.stack_of_returning hfirst)
  exact ⟨t, u, l, l', w, w', hw, hw', hsuffix⟩

/-- **`data->lock` is held for at most 21 statements**, and by a thread that can always
go on: in any run during which a thread holds it, it takes no more steps than that, and
as long as it has it its next step is enabled, whatever the other threads do. -/
theorem astral_lock_bounded (ttl : Jiffies) (hs : Reachable (readersSystem T ttl) s) {x : T}
    (hp : Run (readersSystem T ttl) s l t) (hheld : ∀ p ∈ l, p.1.lock = some x) :
    l.countP (fun p => Method.thread p.2 = x) ≤ 21 ∧
      (t.lock = some x → l.countP (fun p => Method.thread p.2 = x) < 21 ∧
        ∀ io, ∃ u, (readersSystem T ttl).step t (.run x io) u) := by
  obtain ⟨o, ho⟩ := Method.reachable_explained hs
  obtain ⟨o', ho'⟩ := Method.reachable_explained (hs.run hp)
  have hsum := Method.own_add_left_le (fun l => l.2.rank)
    (fun _ _ _ _ _ hstep => astralStatement_rank hstep) hs hp hheld
  have hstart := left_le_rank ho x
  refine ⟨by omega, fun hlock => ⟨?_, fun io => ?_⟩⟩
  · have hpos := ho'.left_pos (fun l => l.2.rank) hlock
    omega
  · exact Code.owner_goesOn ho'.locked (Method.disciplined t) hlock io

/-- A reader in its body, with another one waiting. -/
theorem astral_lock_bounded_twoReads : ∃ s t l, Reachable (readersSystem Bool 50) s ∧
    Run (readersSystem Bool 50) s l t ∧ t.lock = some false ∧
    l.countP (fun p => Method.thread p.2 = false) < 21 ∧
      ∀ io, ∃ u, (readersSystem Bool 50).step t (.run false io) u := by
  have hrun : ((System.exec (astralReader 50).code.next idleReaders (firstRead.take 2)).any
      fun s => decide (s.lock = some false) &&
        (System.exec (astralReader 50).code.next s ((firstRead.drop 2).take 15)).any fun t =>
        decide (t.lock = some false ∧ ∀ p ∈ System.trace (astralReader 50).code.next s
          ((firstRead.drop 2).take 15), p.1.lock = some false)) = true := by
    decide +kernel
  obtain ⟨s, hs, -, hlast⟩ := System.any_decide_and_iff.mp hrun
  obtain ⟨t, ht, hlock, hheld⟩ := System.any_decide_iff.mp hlast
  have hp : Run (readersSystem Bool 50) s _ t := System.exec_trace ht
  have hreach : Reachable (readersSystem Bool 50) s :=
    System.exec_reachable ⟨rfl, rfl, fun _ => rfl⟩ hs
  obtain ⟨-, hleft⟩ := astral_lock_bounded 50 hreach hp hheld
  exact ⟨s, t, _, hreach, hp, hlock, hleft hlock⟩

end Threads

end Astral
