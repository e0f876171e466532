import Mathlib.Data.PNat.Basic
import Mathlib.Tactic.Common

/-!
# Block read and decode of the pin block

The register layer of the driver (`driver/astral_regs.c`, `driver/astral.h`):
a 24-byte block holds six pairs of big-endian words, millivolts then
milliamps, in *reverse* pin order. `astralDecodeFrame` is the decoder,
`astralReadFrame` the transfer with its length check, and
`astralFramePlausible` the gate every published frame has passed.

An SMBus transfer is what the adapter answered: a negative error number, or a
byte count together with the bytes. An error number is carried as its absolute
value, which the code returns negated.

The facts the rest of the development uses are the arithmetic reading of a
decoded word (`astralU16Be_toNat`), the byte offsets of a pin
(`astralDecodeFrame_millivolts`, `astralDecodeFrame_milliamps`) and the bounds
behind the gate (`astralFramePlausible_iff`).
-/

namespace Astral

/-- A pin of the connector: one of `ASTRAL_PIN_COUNT`, index `0` being pin 1. -/
abbrev Pin := Fin 6

/-- `ASTRAL_MV_MIN`. -/
def astralMvMin : UInt16 := 6000

/-- `ASTRAL_MV_MAX`. -/
def astralMvMax : UInt16 := 13000

/-- `ASTRAL_MA_MAX`. -/
def astralMaMax : UInt16 := 30000

/-- An error number, as its absolute value: the code returns it negated. -/
abbrev Errno := ℕ+

/-- Input/output error: the transfer failed. -/
def EIO : Errno := 5

/-- No such device: the machine has no supported card. -/
def ENODEV : Errno := 19

/-- Invalid argument: a channel out of range, or a module parameter `addr` outside
0x08..0x77. -/
def EINVAL : Errno := 22

/-- Protocol error: the transfer was short, or the frame is not plausible. -/
def EPROTO : Errno := 71

/-- Operation not supported: the attribute does not exist. -/
def EOPNOTSUPP : Errno := 95

/-- `struct astral_frame`. -/
structure AstralFrame where
  millivolts : Pin → UInt16
  milliamps : Pin → UInt16

@[ext] theorem AstralFrame.ext {f g : AstralFrame} (hv : ∀ p, f.millivolts p = g.millivolts p)
    (ha : ∀ p, f.milliamps p = g.milliamps p) : f = g := by
  obtain ⟨fv, fa⟩ := f
  obtain ⟨gv, ga⟩ := g
  obtain rfl : fv = gv := funext hv
  obtain rfl : fa = ga := funext ha
  rfl

/-- The block a decode starts from: `ASTRAL_BLOCK_LEN` bytes, no fewer. -/
abbrev AstralBlock := Vector UInt8 24

/-- The outcome of `i2c_smbus_read_i2c_block_data`: an error, or the bytes
transferred, whose number is the count it returns. -/
inductive SmbusResult
  | error (errno : Errno)
  | block (bytes : List UInt8)
  deriving DecidableEq

/-- `astral_u16_be`. -/
def astralU16Be (buf : AstralBlock) (offset : ℕ) (h : offset + 1 < 24) : UInt16 :=
  (buf[offset].toUInt16 <<< 8) ||| buf[offset + 1].toUInt16

/-- `astral_decode_frame`: pin 1 at offset 20, pin 6 at offset 0. -/
def astralDecodeFrame (buf : AstralBlock) : AstralFrame where
  millivolts pin :=
    astralU16Be buf ((6 - 1 - pin.val) * 4) (by omega)
  milliamps pin :=
    astralU16Be buf ((6 - 1 - pin.val) * 4 + 2) (by omega)

/-- `astral_read_frame`, given the outcome of its transfer: a short or
over-long count is a transport failure. -/
def astralReadFrame : SmbusResult → Except Errno AstralFrame
  | .error e => .error e
  | .block bytes =>
    -- a count other than the one asked for is no answer
    if h : bytes.length = 24 then
      .ok (astralDecodeFrame ⟨bytes.toArray, by simpa using h⟩)
    else
      .error EIO

/-- `astral_frame_plausible`. -/
def astralFramePlausible (frame : AstralFrame) : Bool :=
  (List.finRange 6).all fun pin =>
    !(frame.millivolts pin < astralMvMin || frame.millivolts pin > astralMvMax) &&
      !(frame.milliamps pin > astralMaMax)

/-! ### What a decoded word is -/

/-- A big-endian word read from two bytes. -/
theorem astralU16Be_toNat (buf : AstralBlock) (offset : ℕ)
    (h : offset + 1 < 24) :
    (astralU16Be buf offset h).toNat
      = 256 * (buf[offset]).toNat + (buf[offset + 1]).toNat := by
  -- each byte is below 256, so the shift loses nothing and the halves are disjoint
  have hlo : (buf[offset + 1]).toNat < 2 ^ 8 := (buf[offset + 1]).toNat_lt
  have hhi : (buf[offset]).toNat < 2 ^ 8 := (buf[offset]).toNat_lt
  have hshift : (buf[offset]).toNat <<< 8 % 2 ^ 16 = (buf[offset]).toNat <<< 8 := by
    rw [Nat.shiftLeft_eq]; omega
  simp only [astralU16Be, UInt16.toNat_or, UInt16.toNat_shiftLeft, UInt8.toNat_toUInt16]
  -- and the disjunction of disjoint halves is their sum
  rw [show (UInt16.toNat 8) % 16 = 8 from rfl, hshift,
    ← Nat.shiftLeft_add_eq_or_of_lt hlo, Nat.shiftLeft_eq]
  omega

/-- The millivolts of pin `pin + 1` sit at offset `4 * (5 - pin)`. -/
theorem astralDecodeFrame_millivolts (buf : AstralBlock) (pin : Pin) :
    ((astralDecodeFrame buf).millivolts pin).toNat
      = 256 * buf[4 * (5 - pin.val)].toNat
        + buf[4 * (5 - pin.val) + 1].toNat := by
  have h := astralU16Be_toNat buf ((6 - 1 - pin.val) * 4) (by omega)
  simp only [Nat.mul_comm _ 4] at h
  simpa [astralDecodeFrame, Nat.mul_comm _ 4] using h

/-- The milliamps of pin `pin + 1` sit at offset `4 * (5 - pin) + 2`. -/
theorem astralDecodeFrame_milliamps (buf : AstralBlock) (pin : Pin) :
    ((astralDecodeFrame buf).milliamps pin).toNat
      = 256 * buf[4 * (5 - pin.val) + 2].toNat
        + buf[4 * (5 - pin.val) + 3].toNat := by
  have h := astralU16Be_toNat buf ((6 - 1 - pin.val) * 4 + 2)
    (by omega)
  simp only [Nat.mul_comm _ 4] at h
  simpa [astralDecodeFrame, Nat.mul_comm _ 4] using h

/-! ### What the gate lets through -/

/-- The gate accepts a frame exactly when all six voltages lie in the window
and all six currents are at most the ceiling. -/
theorem astralFramePlausible_iff (frame : AstralFrame) :
    astralFramePlausible frame = true ↔
      ∀ pin, 6000 ≤ (frame.millivolts pin).toNat ∧ (frame.millivolts pin).toNat ≤ 13000 ∧
        (frame.milliamps pin).toNat ≤ 30000 := by
  simp only [astralFramePlausible, List.all_eq_true, List.mem_finRange, forall_const]
  refine forall_congr' fun pin => ?_
  simp [astralMvMin, astralMvMax, astralMaMax, UInt16.lt_iff_toNat_lt, and_assoc]

/-- A transfer yields a frame exactly when it returned `ASTRAL_BLOCK_LEN`
bytes, and the frame is their decode. -/
theorem astralReadFrame_eq_ok_iff {r : SmbusResult} {frame : AstralFrame} :
    astralReadFrame r = .ok frame ↔
      ∃ bytes, ∃ h : bytes.length = 24, r = .block bytes ∧
        frame = astralDecodeFrame ⟨bytes.toArray, by simpa using h⟩ := by
  cases r with
  | error e => simp [astralReadFrame]
  | block bytes =>
    by_cases h : bytes.length = 24
    · simp only [astralReadFrame, dif_pos h, Except.ok.injEq, SmbusResult.block.injEq]
      exact ⟨fun hf => ⟨bytes, h, rfl, hf.symm⟩,
        fun ⟨b, hb, he, hf⟩ => by subst he; exact hf.symm⟩
    · simp only [astralReadFrame, dif_neg h, reduceCtorEq, SmbusResult.block.injEq, false_iff]
      rintro ⟨b, hb, rfl, -⟩
      exact h hb

/-- A transfer whose bytes pass both the length check and the gate. -/
def SmbusResult.Good (r : SmbusResult) : Prop :=
  ∃ frame, astralReadFrame r = .ok frame ∧ astralFramePlausible frame = true

instance : DecidablePred SmbusResult.Good := fun r =>
  match h : astralReadFrame r with
  | .error _ => .isFalse fun ⟨_, hok, _⟩ => by simp [h] at hok
  | .ok frame => decidable_of_iff (astralFramePlausible frame = true)
    ⟨fun hpl => ⟨frame, h, hpl⟩, fun ⟨_, hok, hpl⟩ => by
      rw [h] at hok
      exact Except.ok.inj hok ▸ hpl⟩

end Astral
