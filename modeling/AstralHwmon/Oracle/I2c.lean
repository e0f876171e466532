import AstralHwmon.Oracle.Decode

/-!
# The oracle's transfer, and the two decoders side by side

`read_block` and `read_pins` (`src/astral_oracle/i2c.py`). A `I2cDev` answers the
three system calls they make; the buffer of the last is shared with the kernel, and
its first byte goes in as the count asked for and comes out as the count produced,
with the bytes after it. What is in the buffer beyond them is left over from
elsewhere.

The driver and the oracle are given the outcome of one transfer each in its own
form (`Answers`), and `decoders_agree` says that they make the same of it.
-/

open CText

namespace Astral.Oracle

/-- `I2C_SMBUS_BLOCK_MAX`. -/
def i2cSmbusBlockMax : ℕ := 32

/-- `REG_BASE`. -/
def regBase : ℕ := 0x80

/-- `DEFAULT_ADDR`. -/
def defaultAddr : ℕ := 0x2b

/-- The buffer of a block transfer, its count first. -/
abbrev SmbusBlock := Vector UInt8 34

/-- The answers of an i2c device file: the text of the `OSError`, if a call raises
one. -/
structure I2cDev where
  openFails : Option CStr
  selectFails : Option CStr
  /-- The transfer of a block, from a register and of a length. -/
  transfer : ℕ → ℕ → Except CStr SmbusBlock

/-- A byte as `:#04x` formats it. -/
def fmtHex (n : ℕ) : CStr :=
  "0x".toList ++ List.replicate (2 - (Nat.toDigits 16 n).length) '0' ++ Nat.toDigits 16 n

/-- `read_block`. -/
def readBlock (dev : I2cDev) (bus addr reg length : ℕ) : Except PyError (List UInt8) :=
  if ¬ (0 < length ∧ length ≤ i2cSmbusBlockMax) then
    .error (.valueError ("length must be 1..".toList ++ fmtInt i2cSmbusBlockMax ++
      ", got ".toList ++ fmtInt length))
  else
    match dev.openFails with
    | some exc =>
      .error (.i2cError ("cannot open /dev/i2c-".toList ++ fmtInt bus ++ ": ".toList ++ exc))
    | none =>
      match dev.selectFails with
      | some exc =>
        .error (.i2cError ("cannot select address ".toList ++ fmtHex addr ++ ": ".toList ++ exc))
      | none =>
        match dev.transfer reg length with
        | .error exc =>
          .error (.i2cError ("block read at ".toList ++ fmtHex reg ++ " failed: ".toList ++ exc))
        | .ok block =>
          -- the count that came back, not the one that was asked for
          let produced := block[0].toNat
          if produced ≠ length then
            .error (.i2cError ("block read at ".toList ++ fmtHex reg ++ " returned ".toList ++
              fmtInt produced ++ " bytes, expected ".toList ++ fmtInt length))
          else .ok ((block.toList.drop 1).take length)

/-- `read_pins`. -/
def readPins (dev : I2cDev) (bus addr : ℕ) : Except PyError (List PinReading) :=
  match readBlock dev bus addr regBase blockLen with
  | .error e => .error e
  | .ok raw => decodeFrame raw

/-! ### One outcome, two forms -/

/-- The outcome of a transfer as the kernel hands it to the driver, and as its
device file hands it to the oracle: an error is an error, and the bytes come with
their count, whatever follows them. -/
def Answers : SmbusResult → Except CStr SmbusBlock → Prop
  | .error _, .error _ => True
  | .block bytes, .ok block =>
    block[0].toNat = bytes.length ∧ (block.toList.drop 1).take bytes.length = bytes
  | _, _ => False

/-- A transfer is made: the device opens and the address is selected. -/
def I2cDev.Reachable (dev : I2cDev) : Prop := dev.openFails = none ∧ dev.selectFails = none

variable {dev : I2cDev} {r : SmbusResult}

/-- The oracle takes the block exactly when the driver does, and then its bytes. -/
theorem readBlock_eq_ok_iff (hdev : dev.Reachable) (bus addr : ℕ)
    (hr : Answers r (dev.transfer regBase blockLen)) {raw : List UInt8} :
    readBlock dev bus addr regBase blockLen = .ok raw ↔ r = .block raw ∧ raw.length = 24 := by
  have hlength : ¬ ¬ (0 < blockLen ∧ blockLen ≤ i2cSmbusBlockMax) := by decide
  rw [readBlock, if_neg hlength, hdev.1, hdev.2]
  dsimp only
  cases hblock : dev.transfer regBase blockLen with
  | error exc =>
    rw [hblock] at hr
    cases r with
    | error e => simp
    | block bytes => exact absurd hr id
  | ok block =>
    rw [hblock] at hr
    cases r with
    | error e => exact absurd hr id
    | block bytes =>
      obtain ⟨hcount, hbytes⟩ := hr
      simp only [hcount, SmbusResult.block.injEq]
      by_cases hlen : bytes.length = blockLen
      · rw [if_neg (not_not.mpr hlen), ← hlen, hbytes, Except.ok.injEq]
        exact ⟨fun h => ⟨h, h ▸ hlen⟩, fun h => h.1⟩
      · rw [if_pos hlen]
        refine iff_of_false (by simp) ?_
        rintro ⟨rfl, h⟩
        exact hlen h

/-- A block of the right length is its own first block. -/
theorem firstBlock_of_length {raw : List UInt8} (h : raw.length = 24)
    (hle : blockLen ≤ raw.length) : firstBlock raw hle = ⟨raw.toArray, by simpa using h⟩ := by
  simp only [firstBlock, List.take_of_length_le h.le]

/-- **The two decoders agree.** Whatever a transfer comes to, the oracle returns
readings exactly when the driver has a frame that it would publish, and they are
the readings of that frame. And whatever bytes the oracle's decoder is given, it
returns readings exactly when there is a block of them that decodes to a plausible
frame in the driver, and the rest of the bytes does not matter. -/
theorem decoders_agree :
    (∀ (dev : I2cDev) (bus addr : ℕ) (r : SmbusResult), dev.Reachable →
      Answers r (dev.transfer regBase blockLen) → ∀ readings,
        readPins dev bus addr = .ok readings ↔ ∃ frame, astralReadFrame r = .ok frame ∧
          astralFramePlausible frame = true ∧ readings = readingsOf frame) ∧
    (∀ (raw : List UInt8) (h : blockLen ≤ raw.length) readings,
      decodeFrame raw = .ok readings ↔
        astralFramePlausible (astralDecodeFrame (firstBlock raw h)) = true ∧
          readings = readingsOf (astralDecodeFrame (firstBlock raw h))) ∧
    ∀ raw : List UInt8, raw.length < blockLen →
      ∃ message, decodeFrame raw = .error (.frameError message) := by
  refine ⟨fun dev bus addr r hdev hr readings => ?_, fun raw h readings => ?_,
    fun raw hshort => decodeFrame_short hshort⟩
  · have hblock : readPins dev bus addr = .ok readings ↔
        ∃ raw, (r = .block raw ∧ raw.length = 24) ∧ decodeFrame raw = .ok readings := by
      simp only [← readBlock_eq_ok_iff hdev bus addr hr]
      unfold readPins
      cases readBlock dev bus addr regBase blockLen <;> simp
    rw [hblock]
    constructor
    · rintro ⟨raw, ⟨rfl, hlen⟩, hdecode⟩
      obtain ⟨hle, hadmitted, hreadings⟩ := decodeFrame_eq_ok_iff.mp hdecode
      rw [firstBlock_of_length hlen] at hadmitted hreadings
      exact ⟨_, astralReadFrame_eq_ok_iff.mpr ⟨raw, hlen, rfl, rfl⟩, hadmitted, hreadings⟩
    · rintro ⟨frame, hframe, hadmitted, rfl⟩
      obtain ⟨raw, hlen, rfl, rfl⟩ := astralReadFrame_eq_ok_iff.mp hframe
      have hle : blockLen ≤ raw.length := le_of_eq hlen.symm
      refine ⟨raw, ⟨rfl, hlen⟩, decodeFrame_eq_ok_iff.mpr ⟨hle, ?_⟩⟩
      rw [firstBlock_of_length hlen hle]
      exact ⟨hadmitted, rfl⟩
  · rw [decodeFrame_eq_ok_iff]
    exact ⟨fun ⟨_, hok⟩ => hok, fun hok => ⟨h, hok⟩⟩

/-- A block in which every pin reads 12168 mV and 460 mA. -/
def evenBlock : List UInt8 := (List.replicate 6 [0x2f, 0x88, 0x01, 0xcc]).flatten

/-- A device file that answers with that block. -/
def evenDev : I2cDev where
  openFails := none
  selectFails := none
  transfer _ _ := .ok ⟨(24 :: evenBlock ++ List.replicate 9 0xff).toArray, by decide⟩

/-- The six pins read the same on both sides, with a tail and without, and not from
a shorter string. -/
theorem decoders_agree_even :
    readPins evenDev 4 defaultAddr
        = .ok ((List.finRange 6).map fun pin => ⟨pin.val + 1, 12168, 460⟩) ∧
      decodeFrame (evenBlock ++ [1, 2, 3])
        = .ok ((List.finRange 6).map fun pin => ⟨pin.val + 1, 12168, 460⟩) ∧
      ∃ message, decodeFrame (evenBlock.take 20) = .error (.frameError message) := by
  obtain ⟨htransfer, hlong, hshort⟩ := decoders_agree
  refine ⟨?_, ?_, hshort _ (by decide)⟩
  · refine (htransfer evenDev 4 defaultAddr (.block evenBlock) ⟨rfl, rfl⟩ ⟨rfl, rfl⟩ _).mpr ?_
    exact ⟨_, rfl, by decide +kernel, by decide +kernel⟩
  · exact (hlong (evenBlock ++ [1, 2, 3]) (by decide) _).mpr
      ⟨by decide +kernel, by decide +kernel⟩

end Astral.Oracle
