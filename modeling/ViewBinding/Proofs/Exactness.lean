import Mathlib
import ViewBinding.Decimal.Binary

/-!
# Integers are exact

A natural number of less than 54 bits has a floating-point number with a mantissa of full length: the number is made
by shifting, by rounding where there is nothing to round, and by a multiplication with one. What sign, exponent and
fraction say is what the logical model of floating-point numbers says, so the number stands for the integer it was made
of.
-/

namespace ViewBinding.Decimal

open Float.Model (Format totalExponent UnpackedFloat)
open Float.Model.UnpackedFloat

variable {m k : Nat} {e : Int} {s : Sign}

theorem shift_exact (m k : Nat) :
    (⟨m * 2 ^ k, false, false⟩ : ExtendedMantissa) >>> k = ⟨m, false, false⟩ := by
  induction k generalizing m with
  | zero =>
    rw [pow_zero, Nat.mul_one]
    rfl
  | succ k inductionHypothesis =>
    have hstep : (⟨m * 2 ^ (k + 1), false, false⟩ : ExtendedMantissa) >>> (k + 1)
        = ((⟨m * 2 * 2 ^ k, false, false⟩ : ExtendedMantissa) >>> k).shiftRightOne := by
      rw [pow_succ, Nat.mul_assoc, Nat.mul_comm 2]
      rfl
    rw [hstep, inductionHypothesis]
    simp [ExtendedMantissa.shiftRightOne]

/-- The mantissa gets 53 bits, save where the exponent is the least one. -/
theorem targetExponent_eq (n : Nat) (e : Int) :
    Format.binary64.targetExponent (totalExponent n e) = max (n.log2 + 1 + e - 53) (-1074) := rfl

/-- A mantissa of full length. -/
structure Full (m : Nat) : Prop where
  least : 2 ^ 52 ≤ m
  bound : m < 2 ^ 53

theorem Full.pos (h : Full m) : 0 < m := Nat.lt_of_lt_of_le (by decide) h.least

theorem Full.log2_mul (h : Full m) (k : Nat) : (m * 2 ^ k).log2 = 52 + k := by
  rw [Nat.log2_eq_iff (Nat.mul_pos h.pos (Nat.two_pow_pos k)).ne']
  constructor
  · rw [pow_add]
    exact Nat.mul_le_mul_right _ h.least
  · rw [show 52 + k + 1 = 53 + k by omega, pow_add]
    exact Nat.mul_lt_mul_of_pos_right h.bound (Nat.two_pow_pos k)

/-- Zeros at the end are cut off, and nothing else is. -/
theorem Full.shiftToTargetExponent (h : Full m) {target : Int} (htarget : e + k = target) (hleast : -1074 ≤ target) :
    shiftToTargetExponent Format.binary64 (m * 2 ^ k) e .exact = (⟨m, false, false⟩, target) := by
  have hexponent : Format.binary64.targetExponent (totalExponent (m * 2 ^ k) e) = target := by
    rw [targetExponent_eq, h.log2_mul]
    omega
  have hshift : (target - e).toNat = k := by omega
  unfold Float.Model.UnpackedFloat.shiftToTargetExponent shiftToExponent
  simp only [hexponent, hshift]
  exact Prod.ext (shift_exact m k) htarget

theorem Full.roundWithAccuracy (h : Full m) {target : Int} (htarget : e + k = target) (hleast : -1074 ≤ target) :
    roundWithAccuracy Format.binary64 s (m * 2 ^ k) e .exact = .finite s m target h.pos := by
  have hagain := h.shiftToTargetExponent (k := 0) (Int.add_zero target) hleast
  rw [pow_zero, Nat.mul_one] at hagain
  unfold Float.Model.UnpackedFloat.roundWithAccuracy
  rw [h.shiftToTargetExponent htarget hleast]
  simp [ExtendedMantissa.roundedMantissa, ExtendedMantissa.accuracy, Accuracy.roundToNearestEven, hagain, h.pos.ne']

/-! ### Bits -/

section Bits

variable (bits : BitVec Format.binary64.numBits)

theorem toNat_unpackExponent : (unpackExponent bits).toNat = (bits.toNat >>> 52) % 2048 := by
  simp [unpackExponent]

theorem toNat_unpackMantissa : (unpackMantissa bits).toNat = bits.toNat % Binary.unit := by
  simp [unpackMantissa, Binary.unit]

theorem toNat_unpackSign : (unpackSign bits).toNat = bits.toNat >>> 63 := by
  have hlt : bits.toNat >>> 63 < 2 := by
    have hbits : bits.toNat < 2 ^ 64 := bits.isLt
    rw [Nat.shiftRight_eq_div_pow]
    omega
  simpa [unpackSign] using Nat.mod_eq_of_lt hlt

theorem ofBitVec_unpackSign : (Sign.ofBitVec (unpackSign bits) == .negative) = (bits.toNat >>> 63 == 1) := by
  rw [← toNat_unpackSign]
  generalize unpackSign bits = sign
  revert sign
  decide

end Bits

/-- The first bit of a mantissa is not among the bits of a number, except of the smallest ones. -/
theorem toNat_one_append (mantissa : BitVec 52) : (1#1 ++ mantissa).toNat = Binary.unit + mantissa.toNat := by
  rw [BitVec.toNat_append, ← Nat.shiftLeft_add_eq_or_of_lt mantissa.isLt]
  rfl

/-- What a number of the logical model stands for. -/
def Binary.ofUnpacked : UnpackedFloat → Binary
  | .infinity s => .infinite (s == .negative)
  | .notANumber => .nan
  | .zero s => .finite (s == .negative) 0 leastExponent
  | .finite s m e _ => .finite (s == .negative) m e

theorem Binary.ofFloat_eq (x : Float) : Binary.ofFloat x = .ofUnpacked x.toModel.unpack := by
  let bits : BitVec Format.binary64.numBits := x.toModel.toBits.toBitVec
  have hexponent : (x.toBits.toNat >>> 52) % 2048 = (unpackExponent bits).toNat := (toNat_unpackExponent bits).symm
  have hmantissa : x.toBits.toNat % Binary.unit = (unpackMantissa bits).toNat := (toNat_unpackMantissa bits).symm
  have hsign : (x.toBits.toNat >>> 63 == 1) = (Sign.ofBitVec (unpackSign bits) == .negative) :=
    (ofBitVec_unpackSign bits).symm
  change _ = Binary.ofUnpacked (UnpackedFloat.unpack Format.binary64 bits)
  have hlast : (unpackExponent bits).toNat = 2047 ↔ unpackExponent bits = -1#11 := by
    rw [← BitVec.toNat_inj]
    rfl
  have hfirst : (unpackExponent bits).toNat = 0 ↔ unpackExponent bits = 0#11 := by
    rw [← BitVec.toNat_inj]
    rfl
  have hzero : (unpackMantissa bits).toNat = 0 ↔ unpackMantissa bits = 0#52 := by
    rw [← BitVec.toNat_inj]
    rfl
  have hunit : (1#1 ++ unpackMantissa bits).toNat = Binary.unit + (unpackMantissa bits).toNat :=
    toNat_one_append (unpackMantissa bits)
  unfold Binary.ofFloat UnpackedFloat.unpack
  simp only [hsign, hexponent, hmantissa, hlast, hfirst, hzero]
  split
  · split <;> rfl
  · split
    · next hexponent =>
      split
      · next hmantissa =>
        simp only [hmantissa]
        rfl
      · simp only [hexponent]
        rfl
    · simp only [Binary.ofUnpacked, hunit]
      rfl

/-! ### Packing -/

theorem Full.log2_add_one (h : Full m) : m.log2 + 1 = Format.binary64.mantissaBits := by
  have hlog := h.log2_mul 0
  rw [pow_zero, Nat.mul_one, Nat.add_zero] at hlog
  rw [hlog]
  rfl

theorem Full.toNat_one_append (h : Full m) : (1#1 ++ BitVec.ofNat 52 m).toNat = m := by
  have hleast := h.least
  have hbound := h.bound
  rw [Decimal.toNat_one_append, BitVec.toNat_ofNat, Binary.unit]
  omega

/-- A number with a mantissa of full length is packed without loss. -/
theorem Full.unpack_pack (h : Full m) (hleast : -1074 ≤ e) (hlast : e ≤ 971) :
    (Float.Model.pack (.finite s m e h.pos)).unpack = .finite s m e h.pos := by
  obtain ⟨biased, hbiased⟩ : ∃ biased : Nat, e + 1075 = biased := ⟨(e + 1075).toNat, by omega⟩
  have hexponent : (e + Format.binary64.exponentBias + Format.binary64.mantissaBitsWithoutImplicit).toNat = biased := by
    change (e + (1023 : Int) + (52 : Int)).toNat = biased
    omega
  have hfinite : ¬ 2 ^ Format.binary64.exponentBits ≤ biased + 1 := by
    change ¬ 2 ^ 11 ≤ biased + 1
    omega
  have hpack : UnpackedFloat.pack Format.binary64 (.finite s m e h.pos)
      = packComponents Format.binary64 s (BitVec.ofNat _ biased) (BitVec.ofNat _ m) := by
    simp only [UnpackedFloat.pack, hexponent, if_neg hfinite, if_pos h.log2_add_one]
  have htoNat : (BitVec.ofNat 11 biased).toNat = biased := Nat.mod_eq_of_lt (by omega)
  have hnumber : BitVec.ofNat 11 biased ≠ -1#11 := by
    intro heq
    have hall : biased = 2047 := htoNat.symm.trans (congrArg BitVec.toNat heq)
    omega
  have hnormal : BitVec.ofNat 11 biased ≠ 0#11 := by
    intro heq
    have hnone : biased = 0 := htoNat.symm.trans (congrArg BitVec.toNat heq)
    omega
  change UnpackedFloat.unpack Format.binary64 (UnpackedFloat.pack Format.binary64 _) = _
  rw [hpack, UnpackedFloat.unpack]
  simp only [unpackExponent_packComponents, unpackMantissa_packComponents, unpackSign_packComponents,
    Sign.ofBitVec_toBitVec, if_neg hnumber, if_neg hnormal, h.toNat_one_append]
  have hbias : Format.binary64.exponentBias = 1023 := rfl
  rw [UnpackedFloat.finite.injEq, htoNat, hbias]
  exact ⟨rfl, rfl, by omega⟩

/-! ### Integers -/

/-- A natural number that is not too long for a mantissa. -/
structure Fits (n : Nat) : Prop where
  pos : 0 < n
  bound : n < 2 ^ 53

variable {n : Nat}

theorem Fits.log2_le (h : Fits n) : n.log2 ≤ 52 := by
  have hlog := (Nat.log2_lt h.pos.ne').mpr h.bound
  omega

theorem Fits.full (h : Fits n) : Full (n <<< (52 - n.log2)) := by
  rw [Nat.shiftLeft_eq]
  constructor
  · calc 2 ^ 52 = 2 ^ n.log2 * 2 ^ (52 - n.log2) := by rw [← pow_add, Nat.add_sub_of_le h.log2_le]
      _ ≤ n * 2 ^ (52 - n.log2) := Nat.mul_le_mul_right _ (Nat.log2_self_le h.pos.ne')
  · calc n * 2 ^ (52 - n.log2) < 2 ^ (n.log2 + 1) * 2 ^ (52 - n.log2) :=
          Nat.mul_lt_mul_of_pos_right Nat.lt_log2_self (Nat.two_pow_pos _)
      _ = 2 ^ 53 := by
        have hlog := h.log2_le
        rw [← pow_add]
        congr 1
        omega

/-- The number that a natural number has, with a mantissa of full length. -/
def Fits.unpacked (h : Fits n) (s : Sign) : UnpackedFloat :=
  .finite s (n <<< (52 - n.log2)) (n.log2 - 52) h.full.pos

theorem Fits.unpack_pack (h : Fits n) (s : Sign) : (Float.Model.pack (h.unpacked s)).unpack = h.unpacked s := by
  have hlog := h.log2_le
  exact h.full.unpack_pack (by omega) (by omega)

theorem Fits.ofNat_eq (h : Fits n) : UnpackedFloat.ofNat Format.binary64 n = h.unpacked .positive := by
  have hlog := h.log2_le
  have htarget : Format.binary64.targetExponent (totalExponent n 0) = n.log2 - 52 := by
    rw [targetExponent_eq]
    omega
  have hshift : (0 - ((n.log2 : Int) - 52)).toNat = 52 - n.log2 := by omega
  have hcompare : compare (n : Int) 0 = .gt := by
    have hpos := h.pos
    simp only [compare, compareOfLessAndEq]
    rw [if_neg (by omega), if_neg (by omega)]
  have hround : roundWithAccuracy Format.binary64 .positive (n <<< (52 - n.log2) * 2 ^ 0) (0 - (52 - n.log2 : Nat))
      .exact = h.unpacked .positive := h.full.roundWithAccuracy (by omega) (by omega)
  rw [pow_zero, Nat.mul_one] at hround
  unfold UnpackedFloat.ofNat UnpackedFloat.ofInt UnpackedFloat.normalize
  simp only [hcompare, UnpackedFloat.round, htarget, decreaseExponent, hshift, Int.toNat_natCast]
  exact hround

/-- Making a number of a natural number multiplies it by one, which is exact too. -/
theorem Fits.unpack_ofNat (h : Fits n) : (Float.ofNat n).toModel.unpack = h.unpacked .positive := by
  have hlog := h.log2_le
  have hbound := h.bound
  have hword : n.toUInt64.toNat = n := Nat.mod_eq_of_lt (by omega)
  have hfirst : n.toUInt64.toFloat.toModel.unpack = h.unpacked .positive := by
    change (Float.Model.pack (UnpackedFloat.ofNat Format.binary64 n.toUInt64.toNat)).unpack = _
    rw [hword, h.ofNat_eq, h.unpack_pack]
  have hone : (Float.ofBits 0x3FF0000000000000).toModel.unpack = .finite .positive (2 ^ 52) (-52) (by decide) := by
    rfl
  have hproduct : Float.ofNat n = n.toUInt64.toFloat * Float.ofBits 0x3FF0000000000000 := by
    change Float.ofScientific n false 0 = _
    rw [Float.ofScientific, dif_pos ⟨hbound, by decide⟩]
    rfl
  have hmul : UnpackedFloat.mul Format.binary64 (h.unpacked .positive) (.finite .positive (2 ^ 52) (-52) (by decide))
      = h.unpacked .positive := h.full.roundWithAccuracy (by omega) (by omega)
  rw [hproduct]
  change (Float.Model.pack (UnpackedFloat.mul Format.binary64 n.toUInt64.toFloat.toModel.unpack
    (Float.ofBits 0x3FF0000000000000).toModel.unpack)).unpack = _
  rw [hfirst, hone, hmul, h.unpack_pack]

/-- What a natural number's number stands for is the natural number. -/
theorem Fits.integer? (h : Fits n) (s : Sign) :
    (Binary.ofUnpacked (h.unpacked s)).integer? = some (if s == .negative then -(n : Int) else n) := by
  have hlog := h.log2_le
  have hdivisor : (-((n.log2 : Int) - 52)).toNat = 52 - n.log2 := by omega
  have hwhole : ((n.log2 : Int) - 52).toNat = 0 := by omega
  have hpos : 0 < 1 <<< (52 - n.log2) := by
    rw [Nat.shiftLeft_eq, Nat.one_mul]
    exact Nat.two_pow_pos _
  have hproduct : n <<< (52 - n.log2) = n * 1 <<< (52 - n.log2) := by
    simp only [Nat.shiftLeft_eq, Nat.one_mul]
  simp only [unpacked, Binary.ofUnpacked, Binary.integer?, hdivisor, hwhole, hproduct, Nat.mul_mod_left, if_true,
    Nat.mul_div_cancel _ hpos, Nat.shiftLeft_zero]

/-- Integers of less than 54 bits are exact. -/
theorem Binary.integer?_ofInt {n : Int} (hbound : n.natAbs < 2 ^ 53) :
    (Binary.ofFloat (Float.ofInt n)).integer? = some n := by
  rw [Binary.ofFloat_eq]
  cases n with
  | ofNat n =>
    cases n with
    | zero => rfl
    | succ k =>
      have h : Fits (k + 1) := ⟨Nat.succ_pos k, hbound⟩
      change (Binary.ofUnpacked (Float.ofNat (k + 1)).toModel.unpack).integer? = _
      rw [h.unpack_ofNat, h.integer?]
      rfl
  | negSucc k =>
    have h : Fits (k + 1) := ⟨Nat.succ_pos k, hbound⟩
    have hneg : (Float.ofInt (.negSucc k)).toModel.unpack = h.unpacked .negative := by
      change (Float.Model.pack (Float.ofNat (k + 1)).toModel.unpack.neg).unpack = _
      rw [h.unpack_ofNat]
      exact h.unpack_pack .negative
    rw [hneg, h.integer?]
    rfl

/-- Equal numbers are the same integer, or none. -/
theorem Binary.integer?_eq_of_same {a b : Binary} (h : a.same b = true) : a.integer? = b.integer? := by
  have hzero : ∀ negative e, (Binary.finite negative 0 e).integer? = some 0 := by
    intro negative e
    cases negative <;> simp [Binary.integer?]
  cases a <;> cases b <;> simp only [Binary.same, Bool.or_eq_true, Bool.and_eq_true, beq_iff_eq,
    Bool.false_eq_true] at h
  case infinite.infinite => rfl
  case finite.finite =>
    rcases h with ⟨rfl, rfl⟩ | ⟨⟨rfl, rfl⟩, rfl⟩
    · rw [hzero, hzero]
    · rfl

end ViewBinding.Decimal
