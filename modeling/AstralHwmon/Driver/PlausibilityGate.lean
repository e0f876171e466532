import AstralHwmon.Driver.Cache
import AstralHwmon.Lib.Transition

/-!
# The plausibility gate over whole runs

`cacheSystem` runs `astral_refresh` and `astral_read` calls against one
`struct astral_data`, in any order and number: the calls are serialised by
`data->lock`, so a run of any number of readers is a sequence of calls. Every
call brings its own readings of `jiffies` and its own transfer outcome, with no
relation between them. The state keeps the transfers made so far, newest first.

The invariant is `CacheState.Newest`: a valid cache holds the decode of the
*newest* transfer, and that frame passed the gate. It rests on the one spec
lemma of the refresh. A failed transfer clears `valid`, so it never has to say
anything about an older frame, which is how a failed read is kept from serving
what it did not read.
-/

open Transition

namespace Astral

variable (ttl : Jiffies)

/-- A call on the cache, with what the kernel hands it. -/
structure CacheCall where
  io : CallIo
  request : Request

/-- The cache together with the transfers made so far, newest first. -/
structure CacheState where
  data : AstralData
  transfers : List SmbusResult

/-- The state `astral_attach` starts from. -/
def CacheState.start : CacheState := ⟨.zeroed, []⟩

/-- The state one call leaves. -/
def CacheState.call (s : CacheState) (c : CacheCall) : CacheState :=
  ⟨(c.request.run ttl s.data c.io).1,
    (c.request.run ttl s.data c.io).2.toList ++ s.transfers⟩

/-- Runs of calls on one attached chip. -/
def cacheSystem : System CacheState CacheCall where
  init s := s = .start
  step s c t := t = s.call ttl c

/-- A valid cache holds the plausible decode of the newest transfer. -/
def CacheState.Newest (s : CacheState) : Prop :=
  s.data.valid = true → ∃ r, s.transfers.head? = some r ∧
    astralReadFrame r = .ok s.data.frame ∧ astralFramePlausible s.data.frame = true

variable {ttl}

/-- A refresh keeps the cache the newest transfer's, whatever its outcome. -/
theorem CacheState.Newest.refresh {s : CacheState} (h : s.Newest) (io : CallIo) :
    CacheState.Newest ⟨(astralRefreshLocked ttl s.data io).data,
      (astralRefreshLocked ttl s.data io).transfer.toList ++ s.transfers⟩ := by
  rcases astralRefreshLocked_cases ttl s.data io with
    ⟨-, heq⟩ | ⟨-, -, e, heq⟩ | ⟨-, frame, hread, hpl, heq⟩
  · -- a hit changes neither the cache nor the transfers
    rw [heq]; exact h
  · -- the cache is invalid now
    rw [heq]; intro hv; exact absurd hv (by simp)
  · -- the transfer committed is the newest
    rw [heq]; exact fun _ => ⟨io.transfer, rfl, hread, hpl⟩

theorem CacheState.Newest.call {s : CacheState} (h : s.Newest) (c : CacheCall) :
    (s.call ttl c).Newest := by
  unfold CacheState.call
  rcases Request.run_cases ttl s.data c.io c.request with heq | heq <;> rw [heq]
  · exact h
  · exact h.refresh c.io

theorem cacheSystem_newest {s : CacheState} (h : Reachable (cacheSystem ttl) s) : s.Newest :=
  h.invariant (fun s hs hv => by rw [show s = .start from hs] at hv; exact absurd hv (by decide))
    (fun s c t hI hstep => by rw [show t = s.call ttl c from hstep]; exact hI.call c)

/-- A run only adds transfers. -/
theorem cacheSystem_transfers {s t : CacheState} {l : List (CacheState × CacheCall)}
    (hp : Run (cacheSystem ttl) s l t) : ∃ newer, t.transfers = newer ++ s.transfers := by
  refine Run.history (J := fun _ t => ∃ newer, t.transfers = newer ++ s.transfers)
    ⟨[], rfl⟩ (fun _ t c u _ hJ hstep => ?_) hp
  obtain ⟨newer, hn⟩ := hJ
  rw [show u = t.call ttl c from hstep]
  exact ⟨_ ++ newer, by rw [CacheState.call, hn, List.append_assoc]⟩

/-- **The newest transfer is what a successful read serves.** -/
theorem CacheState.Newest.served {s : CacheState} (hs : s.Newest) {io : CallIo}
    {type : HwmonType} {attr : HwmonAttr} {channel val : ℤ} (hchip : type ≠ .chip)
    (h : (astralRead ttl s.data io type attr channel val).ret = .ok ()) :
    let reply := astralRead ttl s.data io type attr channel val
    ∃ r frame, (reply.transfer.toList ++ s.transfers).head? = some r ∧
      astralReadFrame r = .ok frame ∧ astralFramePlausible frame = true ∧
      ∃ pin : Pin, (pin.val : ℤ) = channel ∧ reply.val = frame.value type pin := by
  obtain ⟨-, pin, hpin, hret, heq⟩ := astralRead_eq_ok hchip h
  -- the refresh it ran succeeded, so the cache it copied from is valid
  obtain ⟨r, hhead, hread, hpl⟩ := hs.refresh io (astralRefreshLocked_valid hret)
  rw [heq]
  exact ⟨r, _, hhead, hread, hpl, pin, hpin, rfl⟩

/-! ### The gate -/

/-- **Driver plausibility gate.** In every run from the zeroed data of
`astral_attach`, with `s` any state of the run and `t` any later one, a read
made in `t`

* that succeeds on a voltage or current channel returns that pin's value in
  the decode of the newest transfer, which returned exactly 24 bytes and all
  of whose twelve values lie in the plausible window;
* never succeeds after a newest transfer that failed, was short or decoded to
  an implausible frame, unless a good transfer was made in between (the
  constant `update_interval` of the chip is no reading);
* leaves the caller's variable untouched when it fails, and never reports
  `-EPROTO`. -/
theorem astralRead_plausibilityGate (ttl : Jiffies) {s t : CacheState}
    {l : List (CacheState × CacheCall)} (hs : Reachable (cacheSystem ttl) s)
    (hp : Run (cacheSystem ttl) s l t) (io : CallIo) (type : HwmonType)
    (attr : HwmonAttr) (channel val : ℤ) :
    let reply := astralRead ttl t.data io type attr channel val
    let transfers := reply.transfer.toList ++ t.transfers
    (type = .in ∨ type = .curr → reply.ret = .ok () →
      ∃ bytes, ∃ h : bytes.length = 24, ∃ pin : Pin, (pin.val : ℤ) = channel ∧
        transfers.head? = some (.block bytes) ∧
        let frame := astralDecodeFrame ⟨bytes.toArray, by simpa using h⟩
        reply.val = (if type = .in then (frame.millivolts pin).toNat
          else (frame.milliamps pin).toNat : ℤ) ∧
        ∀ p, 6000 ≤ (frame.millivolts p).toNat ∧ (frame.millivolts p).toNat ≤ 13000 ∧
          (frame.milliamps p).toNat ≤ 30000) ∧
    (∀ bad, s.transfers.head? = some bad → ¬ bad.Good → type ≠ .chip → reply.ret = .ok () →
      ∃ newer, transfers = newer ++ s.transfers ∧ ∃ r ∈ newer, r.Good) ∧
    (∀ e, reply.ret = .error e → reply.val = val ∧ e ≠ EPROTO) := by
  have hnew : t.Newest := cacheSystem_newest (hs.run hp)
  refine ⟨fun htype hret => ?_, fun bad hbad hnot hchip hret => ?_, fun e he =>
    astralRead_error he⟩
  · -- what is served is the newest transfer's, and that one passed length check and gate
    have hchip : type ≠ .chip := by rcases htype with rfl | rfl <;> decide
    obtain ⟨r, frame, hhead, hread, hpl, pin, hpin, hval⟩ := hnew.served hchip hret
    obtain ⟨bytes, hlen, rfl, rfl⟩ := astralReadFrame_eq_ok_iff.mp hread
    exact ⟨bytes, hlen, pin, hpin, hhead, hval, (astralFramePlausible_iff _).mp hpl⟩
  · obtain ⟨r, frame, hhead, hread, hpl, -⟩ := hnew.served hchip hret
    obtain ⟨newer, hn⟩ := cacheSystem_transfers hp
    set reply := astralRead ttl t.data io type attr channel val
    refine ⟨reply.transfer.toList ++ newer, by rw [hn, List.append_assoc], r, ?_, frame,
      hread, hpl⟩
    -- the good newest transfer cannot be the bad one the run started from
    rw [hn, ← List.append_assoc] at hhead
    cases hnewer : reply.transfer.toList ++ newer with
    | nil =>
      rw [hnewer, List.nil_append, hbad] at hhead
      obtain rfl := Option.some.inj hhead
      exact absurd ⟨frame, hread, hpl⟩ hnot
    | cons x xs =>
      rw [hnewer, List.cons_append, List.head?_cons] at hhead
      obtain rfl := Option.some.inj hhead
      exact List.mem_cons_self

/-- A block captured from the idle reference card. -/
def idleBlock : List UInt8 :=
  [0x2f, 0x88, 0x01, 0xcc, 0x2f, 0x88, 0x01, 0xe0, 0x2f, 0x88, 0x01, 0xa4,
   0x2f, 0x90, 0x01, 0xb8, 0x2f, 0x80, 0x01, 0xb8, 0x2f, 0x90, 0x01, 0xa4]

/-- The gate at work: a short first transfer leaves nothing to serve, and the
read after it answers from the frame it fetches itself. -/
theorem astralRead_plausibilityGate_idle :
    ∃ bytes, ∃ h : bytes.length = 24, ∃ pin : Pin, (pin.val : ℤ) = 0 ∧
      [SmbusResult.block idleBlock, .block [0x2f]].head? = some (.block bytes) ∧
      let frame := astralDecodeFrame ⟨bytes.toArray, by simpa using h⟩
      (12176 : ℤ) = (if HwmonType.in = .in then (frame.millivolts pin).toNat
        else (frame.milliamps pin).toNat : ℤ) ∧
      ∀ p, 6000 ≤ (frame.millivolts p).toNat ∧ (frame.millivolts p).toNat ≤ 13000 ∧
        (frame.milliamps p).toNat ≤ 30000 :=
  (astralRead_plausibilityGate 50 (s := .start)
    (t := CacheState.start.call 50 ⟨⟨0, .block [0x2f], 0⟩, .refresh⟩)
    ⟨.start, [], rfl, .refl _⟩ (Run.single rfl) ⟨1, .block idleBlock, 6⟩ .in .other 0 (-1)).1
    (Or.inl rfl) (by decide)

end Astral
