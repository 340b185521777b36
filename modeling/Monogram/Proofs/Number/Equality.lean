import Mathlib
import Monogram.Number.Basic

/-! # Equality of numbers

Two floats are equal when both are zeros, or when they are the same and defined.  So equality of
numbers is symmetric and transitive, and reflexive on what is defined.

* `beq_unpacked_iff` — the comparison of floats in closed form.
* `Number.equal_symm`, `Number.equal_trans`, `Number.equal_self`
* `isNaN_ofNat`, `Number.ofNat_defined` — whole numbers are defined.
-/

namespace Monogram

open Float.Model (UnpackedFloat Format)

/-! ## The comparison of floats -/

theorem beq_unpacked_iff (a b : UnpackedFloat) :
    a.beq b = true ↔ (∃ s t, a = .zero s ∧ b = .zero t) ∨ a = b ∧ a.isNaN = false := by
  unfold UnpackedFloat.beq
  cases a with
  | notANumber => simp [UnpackedFloat.compare, UnpackedFloat.isNaN]
  | infinity s =>
    cases b with
    | infinity t => cases s <;> cases t <;> simp [UnpackedFloat.compare, UnpackedFloat.isNaN] <;> rfl
    | notANumber | zero | finite => cases s <;> simp [UnpackedFloat.compare]
  | zero s =>
    cases b with
    | infinity t | finite t => cases t <;> simp [UnpackedFloat.compare]
    | notANumber | zero => simp [UnpackedFloat.compare]
  | finite s m e _ =>
    cases b with
    | infinity t => cases s <;> cases t <;> simp [UnpackedFloat.compare]
    | notANumber | zero => cases s <;> simp [UnpackedFloat.compare]
    | finite t m' e' _ =>
      -- the exponents decide first, then the mantissas
      cases s <;> cases t <;>
        simp [UnpackedFloat.compare, UnpackedFloat.isNaN, Ordering.then_eq_eq, and_comm]

theorem beq_float_iff (x y : Float) :
    (x == y) = true ↔
      (∃ s t, x.toModel.unpack = .zero s ∧ y.toModel.unpack = .zero t)
        ∨ x.toModel.unpack = y.toModel.unpack ∧ x.isNaN = false :=
  beq_unpacked_iff x.toModel.unpack y.toModel.unpack

theorem beq_float_symm {x y : Float} (equal : (x == y) = true) : (y == x) = true := by
  obtain ⟨s, t, x_zero, y_zero⟩ | ⟨same, defined⟩ := (beq_float_iff x y).1 equal
  · exact (beq_float_iff y x).2 (.inl ⟨t, s, y_zero, x_zero⟩)
  · refine (beq_float_iff y x).2 (.inr ⟨same.symm, ?_⟩)
    change y.toModel.unpack.isNaN = false
    rw [← same]
    exact defined

theorem beq_float_trans {x y z : Float} (first : (x == y) = true) (second : (y == z) = true) :
    (x == z) = true := by
  refine (beq_float_iff x z).2 ?_
  obtain ⟨s, t, x_zero, y_zero⟩ | ⟨same, defined⟩ := (beq_float_iff x y).1 first
  · obtain ⟨-, u, -, z_zero⟩ | ⟨same, -⟩ := (beq_float_iff y z).1 second
    · exact .inl ⟨s, u, x_zero, z_zero⟩
    · exact .inl ⟨s, t, x_zero, same.symm.trans y_zero⟩
  · obtain ⟨t, u, y_zero, z_zero⟩ | ⟨same', -⟩ := (beq_float_iff y z).1 second
    · exact .inl ⟨t, u, same.trans y_zero, z_zero⟩
    · exact .inr ⟨same.trans same', defined⟩

/-! ## Whole numbers -/

theorem isNaN_unpack {spec : Format} {b : BitVec spec.numBits} :
    (UnpackedFloat.unpack spec b).isNaN = true ↔
      UnpackedFloat.unpackExponent b = -1#_ ∧ UnpackedFloat.unpackMantissa b ≠ 0#_ := by
  have := spec.he
  unfold UnpackedFloat.unpack
  simp only []
  split
  · split <;> simp [UnpackedFloat.isNaN, *]
  · split
    · split <;> simp [UnpackedFloat.isNaN, *]
      omega
    · simp [UnpackedFloat.isNaN, *]

/-- Packing makes nothing undefined. -/
theorem isNaN_unpack_pack {spec : Format} {u : UnpackedFloat} (defined : u.isNaN = false) :
    (UnpackedFloat.unpack spec (UnpackedFloat.pack spec u)).isNaN = false := by
  rw [Bool.eq_false_iff, Ne, isNaN_unpack]
  fun_cases UnpackedFloat.pack with
  | case1 => simp [UnpackedFloat.isNaN] at defined
  | case2 | case4 => simp [UnpackedFloat.packedInfinity]
  | case3 => simp [UnpackedFloat.packedZero]
  | case5 s m e _ actual biased in_range =>
    -- the exponent of a normal float is below the one of the special values
    rw [UnpackedFloat.unpackExponent_packComponents]
    rintro ⟨special, -⟩
    have at_most := congrArg BitVec.toNat special
    have below : biased < 2 ^ spec.exponentBits := by omega
    simp [BitVec.neg_one_eq_allOnes, Nat.mod_eq_of_lt below] at at_most
    omega
  | case6 =>
    have := spec.he
    rw [UnpackedFloat.unpackExponent_packComponents]
    simp
    omega

theorem isNaN_roundWithAccuracy (spec : Format) (s : UnpackedFloat.Sign) (m : Nat) (e : Int)
    (accuracy : UnpackedFloat.Accuracy) :
    (UnpackedFloat.roundWithAccuracy spec s m e accuracy).isNaN = false := by
  unfold UnpackedFloat.roundWithAccuracy
  simp only []
  split <;> rfl

theorem isNaN_ofNat_unpacked (spec : Format) (n : Nat) :
    (UnpackedFloat.ofNat spec n).isNaN = false := by
  unfold UnpackedFloat.ofNat UnpackedFloat.ofInt UnpackedFloat.normalize
  split
  · exact isNaN_roundWithAccuracy ..
  · rfl
  · exact isNaN_roundWithAccuracy ..

/-- A product is undefined only where a factor is, or where an infinity meets a zero. -/
theorem isNaN_mul (spec : Format) {u v : UnpackedFloat} (u_defined : u.isNaN = false)
    (v_finite : v.isFinite = true) (nonzero : ∀ s, v ≠ .zero s) :
    (UnpackedFloat.mul spec u v).isNaN = false := by
  cases v with
  | notANumber | infinity => simp [UnpackedFloat.isFinite] at v_finite
  | zero s => exact absurd rfl (nonzero s)
  | finite =>
    cases u with
    | notANumber => simp [UnpackedFloat.isNaN] at u_defined
    | infinity | zero => rfl
    | finite => exact isNaN_roundWithAccuracy ..

theorem unpack_one :
    (Float.ofBits 0x3FF0000000000000).toModel.unpack
      = .finite .positive (2 ^ 52) (-52) (by decide) := by
  rfl

theorem isNaN_ofScientific (spec : Format) (n : Nat) :
    (UnpackedFloat.ofScientific spec n 0).isNaN = false := by
  unfold UnpackedFloat.ofScientific
  split
  · rfl
  · split
    · rfl
    · split
      · rfl
      · split
        · exact isNaN_mul _ rfl rfl nofun
        · contradiction

/-- A float made of a whole number is defined, though it may be infinite. -/
theorem isNaN_ofNat (n : Nat) : (Float.ofNat n).isNaN = false := by
  change (Float.ofScientific n false 0).isNaN = false
  unfold Float.ofScientific
  split
  · change (n.toUInt64.toFloat * Float.ofBits 0x3FF0000000000000).isNaN = false
    refine isNaN_unpack_pack (isNaN_mul _ (isNaN_unpack_pack (isNaN_ofNat_unpacked _ _)) ?_ ?_)
    · rw [unpack_one]
      rfl
    · rw [unpack_one]
      nofun
  · exact isNaN_unpack_pack (isNaN_ofScientific _ _)

namespace Number

theorem equal_symm {x y : Number} (equal : x.equal y = true) : y.equal x = true := by
  cases x with
  | undefined => simp [Number.equal, related] at equal
  | defined a _ =>
    cases y with
    | undefined => simp [Number.equal, related] at equal
    | defined b _ => exact beq_float_symm (x := a) (y := b) equal

theorem equal_trans {x y z : Number} (first : x.equal y = true) (second : y.equal z = true) :
    x.equal z = true := by
  cases x with
  | undefined => simp [Number.equal, related] at first
  | defined a _ =>
    cases y with
    | undefined => simp [Number.equal, related] at second
    | defined b _ =>
      cases z with
      | undefined => simp [Number.equal, related] at second
      | defined c _ => exact beq_float_trans (x := a) (y := b) (z := c) first second

/-- Only an undefined number is not equal to itself. -/
theorem equal_self {x : Number} : x.equal x = true ↔ ∀ negative, x ≠ .undefined negative := by
  cases x with
  | undefined negative => simp [Number.equal, related]
  | defined a defined => simpa [Number.equal, related] using (beq_float_iff a a).2 (.inr ⟨rfl, defined⟩)

theorem ofNat_defined (n : Nat) (negative : Bool) : ofNat n ≠ .undefined negative := by
  unfold ofNat ofFloat
  rw [dif_pos (isNaN_ofNat n)]
  nofun

end Number

end Monogram
