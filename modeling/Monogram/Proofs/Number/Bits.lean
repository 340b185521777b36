import Monogram.Proofs.Number.Equality
import Monogram.Value.Basic

/-! # Floats and their bits

A float that is a number is given by its unpacked form, and this by the sign, the exponent and the
mantissa in its bits.  So two numbers are equal exactly when they have the same bits, both zeros taken
as one, and this is what a map knows of a number.

* `Parts` — the parts of the bits of a float; `Parts.injective`.
* `eq_of_unpack` — floats with one unpacked form are one float.
* `Number.equal_iff_key` — equal numbers are numbers with one key.
-/

namespace Monogram

open Float.Model (UnpackedFloat Format)
open Float.Model.UnpackedFloat (unpack unpackSign unpackExponent unpackMantissa Sign)

/-! ## The parts of a float -/

theorem ofBitVec_injective {s t : BitVec 1} (same : Sign.ofBitVec s = Sign.ofBitVec t) : s = t := by
  rcases BitVec.eq_zero_or_eq_one s with rfl | rfl <;>
    rcases BitVec.eq_zero_or_eq_one t with rfl | rfl
  · rfl
  · cases same
  · cases same
  · rfl

/-- Bits are the same when sign, exponent and mantissa are. -/
theorem eq_of_parts {b c : BitVec Format.binary64.numBits} (sign : unpackSign b = unpackSign c)
    (exponent : unpackExponent b = unpackExponent c)
    (mantissa : unpackMantissa b = unpackMantissa c) : b = c := by
  apply BitVec.eq_of_toNat_eq
  have high := congrArg BitVec.toNat sign
  have middle := congrArg BitVec.toNat exponent
  have low := congrArg BitVec.toNat mantissa
  simp only [unpackSign, unpackExponent, unpackMantissa, BitVec.toNat_cast, BitVec.extractLsb_toNat,
    Nat.shiftRight_eq_div_pow] at high middle low
  have b_bound : b.toNat < 2 ^ 64 := b.isLt
  have c_bound : c.toNat < 2 ^ 64 := c.isLt
  simp at high middle low
  omega

/-- Sign, exponent and mantissa in the bits of a float, and the float that they make.  The mantissa
of a normal float lacks its leading bit. -/
inductive Parts (spec : Format) (s : BitVec 1) : BitVec spec.exponentBits →
    BitVec spec.mantissaBitsWithoutImplicit → UnpackedFloat → Prop where
  | notANumber {e m} : Parts spec s e m .notANumber
  | infinity {sign} (signed : sign = Sign.ofBitVec s) : Parts spec s (-1#_) 0#_ (.infinity sign)
  | zero {sign} (signed : sign = Sign.ofBitVec s) : Parts spec s 0#_ 0#_ (.zero sign)
  | subnormal {m sign n x pos} (signed : sign = Sign.ofBitVec s) (mantissa : n = m.toNat)
      (exponent : x = 1 - ((spec.exponentBias : Int) + spec.mantissaBitsWithoutImplicit)) :
      Parts spec s 0#_ m (.finite sign n x pos)
  | normal {e m sign n x pos} (signed : sign = Sign.ofBitVec s)
      (mantissa : n = 2 ^ spec.mantissaBitsWithoutImplicit + m.toNat)
      (exponent : x = e.toNat - ((spec.exponentBias : Int) + spec.mantissaBitsWithoutImplicit)) :
      Parts spec s e m (.finite sign n x pos)

theorem unpack_parts (spec : Format) (b : BitVec spec.numBits) :
    Parts spec (unpackSign b) (unpackExponent b) (unpackMantissa b) (unpack spec b) := by
  unfold unpack
  simp only []
  split
  · next special =>
    split
    · next none =>
      rw [special, none]
      exact .infinity rfl
    · exact .notANumber
  · split
    · next low =>
      split
      · next none =>
        rw [low, none]
        exact .zero rfl
      · rw [low]
        exact .subnormal rfl rfl (by simp; omega)
    · refine .normal rfl ?_ rfl
      rw [BitVec.toNat_append, ← Nat.shiftLeft_add_eq_or_of_lt (BitVec.isLt _), Nat.shiftLeft_eq]
      simp

/-- A float that is a number has one sign, one exponent and one mantissa. -/
theorem Parts.injective {spec : Format} {s s' : BitVec 1} {e e' : BitVec spec.exponentBits}
    {m m' : BitVec spec.mantissaBitsWithoutImplicit} {u : UnpackedFloat} (first : Parts spec s e m u)
    (second : Parts spec s' e' m' u) (defined : u.isNaN = false) : s = s' ∧ e = e' ∧ m = m' := by
  have := m.isLt
  have := m'.isLt
  cases first with
  | notANumber => simp [UnpackedFloat.isNaN] at defined
  | infinity signed =>
    cases second with
    | infinity signed' => exact ⟨ofBitVec_injective (signed.symm.trans signed'), rfl, rfl⟩
  | zero signed =>
    cases second with
    | zero signed' => exact ⟨ofBitVec_injective (signed.symm.trans signed'), rfl, rfl⟩
  | subnormal signed mantissa =>
    cases second with
    | subnormal signed' mantissa' =>
      exact ⟨ofBitVec_injective (signed.symm.trans signed'), rfl, BitVec.eq_of_toNat_eq (by omega)⟩
    -- only a normal float has the leading bit
    | normal signed' mantissa' => omega
  | normal signed mantissa exponent =>
    cases second with
    | subnormal signed' mantissa' => omega
    | normal signed' mantissa' exponent' =>
      exact ⟨ofBitVec_injective (signed.symm.trans signed'), BitVec.eq_of_toNat_eq (by omega),
        BitVec.eq_of_toNat_eq (by omega)⟩

theorem toBits_injective {x y : Float} (same : x.toBits = y.toBits) : x = y := by
  obtain ⟨⟨b, valid⟩⟩ := x
  obtain ⟨⟨c, valid'⟩⟩ := y
  obtain rfl : b = c := same
  rfl

theorem eq_of_unpack {x y : Float} (same : x.toModel.unpack = y.toModel.unpack)
    (defined : x.isNaN = false) : x = y := by
  have first := unpack_parts Format.binary64 x.toModel.toBits.toBitVec
  have second := unpack_parts Format.binary64 y.toModel.toBits.toBitVec
  change unpack Format.binary64 _ = unpack Format.binary64 _ at same
  rw [← same] at second
  obtain ⟨sign, exponent, mantissa⟩ := first.injective second defined
  exact toBits_injective (UInt64.toBitVec_inj.1 (eq_of_parts sign exponent mantissa))

/-! ## Keys of numbers -/

theorem beq_float_self {x : Float} (defined : x.isNaN = false) : (x == x) = true :=
  (beq_float_iff x x).2 (.inr ⟨rfl, defined⟩)

theorem beq_zero_iff {x : Float} : (x == 0) = true ↔ ∃ s, x.toModel.unpack = .zero s := by
  have zero : (0 : Float).toModel.unpack = .zero .positive := by rfl
  rw [beq_float_iff, zero]
  constructor
  · rintro (⟨s, -, found, -⟩ | ⟨same, -⟩)
    · exact ⟨s, found⟩
    · exact ⟨_, same⟩
  · rintro ⟨s, found⟩
    exact .inl ⟨s, _, found, rfl⟩

/-- Floats other than the zeros are equal when they are one float. -/
theorem beq_float_iff_eq {x y : Float} (defined : x.isNaN = false) (nonzero : (x == 0) = false) :
    (x == y) = true ↔ x = y := by
  constructor
  · intro equal
    obtain ⟨s, -, zero, -⟩ | ⟨same, -⟩ := (beq_float_iff x y).1 equal
    · simp [beq_zero_iff.2 ⟨s, zero⟩] at nonzero
    · exact eq_of_unpack same defined
  · rintro rfl
    exact beq_float_self defined

/-- Numbers are equal when a map knows the same of them. -/
theorem Number.equal_iff_key {x y : Number} (x_defined : ∀ negative, x ≠ .undefined negative)
    (y_defined : ∀ negative, y ≠ .undefined negative) :
    x.equal y = true ↔ Key.ofNumber x = Key.ofNumber y := by
  cases x with
  | undefined negative => exact absurd rfl (x_defined negative)
  | defined a a_defined =>
    cases y with
    | undefined negative => exact absurd rfl (y_defined negative)
    | defined b b_defined =>
      change (a == b) = true ↔ _
      simp only [Key.ofNumber, Key.number.injEq]
      by_cases a_zero : (a == 0) = true
      · by_cases b_zero : (b == 0) = true
        · simp [a_zero, b_zero, beq_float_trans a_zero (beq_float_symm b_zero)]
        · have apart : (a == b) ≠ true := fun equal =>
            b_zero (beq_float_trans (beq_float_symm equal) a_zero)
          simp only [a_zero, b_zero, apart, if_true, Bool.false_eq_true, if_false, false_iff]
          intro same
          obtain rfl := toBits_injective same
          exact b_zero (beq_float_self rfl)
      · rw [Bool.not_eq_true] at a_zero
        rw [beq_float_iff_eq a_defined a_zero]
        constructor
        · rintro rfl
          rfl
        · intro same
          by_cases b_zero : (b == 0) = true
          · simp only [a_zero, b_zero, if_true, Bool.false_eq_true, if_false] at same
            obtain rfl := toBits_injective same
            simp [beq_float_self (x := 0) rfl] at a_zero
          · simp only [a_zero, b_zero, Bool.false_eq_true, if_false] at same
            exact toBits_injective same

end Monogram
