import AstralHwmon.Lib.CText
import AstralHwmon.Driver.Regs

/-!
# The oracle's decoder

`decode_frame` (`src/astral_oracle/decode.py`), the implementation that the
driver's is checked against. It goes over the pins by their numbers, 1 first, and
looks at each pin's pair of words as soon as it is decoded, with half-open ranges;
the first pin that is out of them ends the decode. Numbers are Python's, without
a width.

`decodeFrame_eq_ok_iff` says when it returns, and what.
-/

open CText

namespace Astral.Oracle

/-- `BLOCK_LEN`. -/
def blockLen : ℕ := 24

/-- `PIN_COUNT`. -/
def pinCount : ℕ := 6

/-- A `range` of Python, its upper end excluded. -/
structure PyRange where
  start : ℕ
  stop : ℕ

instance : Membership ℕ PyRange := ⟨fun r n => r.start ≤ n ∧ n < r.stop⟩

instance (n : ℕ) (r : PyRange) : Decidable (n ∈ r) := inferInstanceAs (Decidable (_ ∧ _))

/-- `PLAUSIBLE_MV`. -/
def plausibleMv : PyRange := ⟨6000, 13001⟩

/-- `PLAUSIBLE_MA`. -/
def plausibleMa : PyRange := ⟨0, 30001⟩

/-- What the oracle raises, with its message. -/
inductive PyError
  | frameError (message : CStr)
  | i2cError (message : CStr)
  | valueError (message : CStr)
  deriving DecidableEq

/-- `PinReading`. -/
structure PinReading where
  pin : ℕ
  millivolts : ℕ
  milliamps : ℕ
  deriving DecidableEq

/-- `_u16_be`. -/
def u16Be (raw : List UInt8) (offset : ℕ) (h : offset + 1 < raw.length) : ℕ :=
  (raw[offset].toNat <<< 8) ||| raw[offset + 1].toNat

/-- The message about a pin out of range. -/
def implausibleSample (pin millivolts milliamps : ℕ) : CStr :=
  "implausible sample on pin ".toList ++ fmtInt pin ++ ": ".toList ++ fmtInt millivolts ++
    " mV, ".toList ++ fmtInt milliamps ++ " mA".toList

/-- The loop of `decode_frame` over the pins still to decode. -/
def decodePins (raw : List UInt8) (h : blockLen ≤ raw.length) :
    List Pin → Except PyError (List PinReading)
  | [] => .ok []
  | i :: pins =>
    let pin := i.val + 1
    let base := (pinCount - pin) * 4
    have hbase : base + 3 < raw.length := by
      simp only [base, pin, pinCount, blockLen] at h ⊢; omega
    let millivolts := u16Be raw base (by omega)
    let milliamps := u16Be raw (base + 2) (by omega)
    if millivolts ∉ plausibleMv ∨ milliamps ∉ plausibleMa then
      .error (.frameError (implausibleSample pin millivolts milliamps))
    else (decodePins raw h pins).map (⟨pin, millivolts, milliamps⟩ :: ·)

/-- `decode_frame`. -/
def decodeFrame (raw : List UInt8) : Except PyError (List PinReading) :=
  if h : raw.length < blockLen then
    .error (.frameError ("frame is ".toList ++ fmtInt raw.length ++
      " bytes, need at least ".toList ++ fmtInt blockLen))
  else decodePins raw (Nat.le_of_not_lt h) (List.finRange 6)

/-! ### What is decoded -/

/-- The first block of a byte string, as the driver decodes it. -/
def firstBlock (raw : List UInt8) (h : blockLen ≤ raw.length) : AstralBlock :=
  ⟨(raw.take 24).toArray, by have : 24 ≤ raw.length := h; simpa using this⟩

/-- The readings of a frame, pin 1 first. -/
def readingsOf (frame : AstralFrame) : List PinReading :=
  (List.finRange 6).map fun pin =>
    ⟨pin.val + 1, (frame.millivolts pin).toNat, (frame.milliamps pin).toNat⟩

variable {raw : List UInt8}

theorem u16Be_eq (offset : ℕ) (h : offset + 1 < raw.length) :
    u16Be raw offset h = 256 * raw[offset].toNat + raw[offset + 1].toNat := by
  rw [u16Be, ← Nat.shiftLeft_add_eq_or_of_lt raw[offset + 1].toNat_lt, Nat.shiftLeft_eq]
  omega

/-- A word of the oracle's is the driver's word at the same offset. -/
theorem u16Be_firstBlock (h : blockLen ≤ raw.length) {offset offset' : ℕ}
    (hoffset : offset = offset') (hlt' : offset' + 1 < 24) (hlt : offset + 1 < raw.length) :
    u16Be raw offset hlt = (astralU16Be (firstBlock raw h) offset' hlt').toNat := by
  subst hoffset
  rw [u16Be_eq, astralU16Be_toNat]
  simp [firstBlock]

/-- What the loop returns, and when. -/
theorem decodePins_eq_ok_iff (h : blockLen ≤ raw.length) (pins : List Pin)
    {readings : List PinReading} : decodePins raw h pins = .ok readings ↔
      (∀ pin ∈ pins, ((astralDecodeFrame (firstBlock raw h)).millivolts pin).toNat ∈ plausibleMv ∧
        ((astralDecodeFrame (firstBlock raw h)).milliamps pin).toNat ∈ plausibleMa) ∧
      readings = pins.map fun pin =>
        ⟨pin.val + 1, ((astralDecodeFrame (firstBlock raw h)).millivolts pin).toNat,
          ((astralDecodeFrame (firstBlock raw h)).milliamps pin).toNat⟩ := by
  induction pins generalizing readings with
  | nil => simp [decodePins, eq_comm]
  | cons i pins ih =>
    -- counted from 1 and from 0, the pin has its words at the same offsets
    have hbase : (pinCount - (i.val + 1)) * 4 = (6 - 1 - i.val) * 4 := by
      simp only [pinCount]; omega
    have hlen : (6 - 1 - i.val) * 4 + 3 < raw.length := by simp only [blockLen] at h; omega
    have hmv : u16Be raw ((pinCount - (i.val + 1)) * 4) (by omega)
        = ((astralDecodeFrame (firstBlock raw h)).millivolts i).toNat :=
      u16Be_firstBlock h hbase (by omega) _
    have hma : u16Be raw ((pinCount - (i.val + 1)) * 4 + 2) (by omega)
        = ((astralDecodeFrame (firstBlock raw h)).milliamps i).toNat :=
      u16Be_firstBlock h (by rw [hbase]) (by omega) _
    rw [decodePins, hmv, hma, List.forall_mem_cons, List.map_cons]
    split
    next hout =>
      refine iff_of_false (by simp) fun hall => ?_
      exact hout.elim (fun hno => hno hall.1.1.1) (fun hno => hno hall.1.1.2)
    next hin =>
      simp only [not_or, not_not] at hin
      cases hrest : decodePins raw h pins with
      | error e =>
        -- another pin is out of range
        refine iff_of_false (by simp [Except.map]) fun hall => ?_
        have := ih.mpr ⟨hall.1.2, rfl⟩
        rw [hrest] at this
        exact absurd this (by simp)
      | ok rest =>
        obtain ⟨hall, rfl⟩ := ih.mp hrest
        simp only [Except.map, Except.ok.injEq]
        exact ⟨fun heq => ⟨⟨hin, hall⟩, heq.symm⟩, fun heq => heq.2.symm⟩

/-- The half-open ranges are the driver's bounds. -/
theorem mem_plausible_iff (frame : AstralFrame) :
    (∀ pin ∈ List.finRange 6, (frame.millivolts pin).toNat ∈ plausibleMv ∧
      (frame.milliamps pin).toNat ∈ plausibleMa) ↔ astralFramePlausible frame = true := by
  rw [astralFramePlausible_iff]
  simp only [List.mem_finRange, forall_const]
  refine forall_congr' fun pin => ?_
  change (6000 ≤ _ ∧ _ < 13001) ∧ (0 ≤ _ ∧ _ < 30001) ↔ _
  omega

/-- **When the oracle decodes, and what.** It takes every byte string of a block or
more whose first block the driver would publish, and reads what the driver reads. -/
theorem decodeFrame_eq_ok_iff {readings : List PinReading} : decodeFrame raw = .ok readings ↔
    ∃ h : blockLen ≤ raw.length,
      astralFramePlausible (astralDecodeFrame (firstBlock raw h)) = true ∧
      readings = readingsOf (astralDecodeFrame (firstBlock raw h)) := by
  unfold decodeFrame
  split
  next hshort => exact iff_of_false (by simp) fun ⟨h, _⟩ => absurd hshort (Nat.not_lt.mpr h)
  next hlong =>
    rw [decodePins_eq_ok_iff, mem_plausible_iff]
    exact ⟨fun hok => ⟨Nat.le_of_not_lt hlong, hok⟩, fun ⟨_, hok⟩ => hok⟩

/-- A frame that is cut short is refused as such. -/
theorem decodeFrame_short (hshort : raw.length < blockLen) :
    ∃ message, decodeFrame raw = .error (.frameError message) :=
  ⟨_, dif_pos hshort⟩

end Astral.Oracle
