import CodeMetrics.Comparison.Basic
import CodeMetrics.Proofs.Rounding

/-! Whole numbers of at most 53 bits are exact: they are held without loss, and sums and differences
    of them are exact too as long as they have no more bits. So what is added up in numbers of 64
    bits is the sum, whatever the order. -/

namespace CodeMetrics.Rounding

open Float.Model Float.Model.UnpackedFloat

/-- The value of a number; zero where it is not finite. -/
def value : UnpackedFloat → ℚ
  | .finite s n t _ => (s.apply n : ℤ) * 2 ^ t
  | _ => 0

/-- The exact value of a number of 64 bits; zero where it is not finite. -/
def exactValue (x : Float) : ℚ := value x.toModel.unpack

/-- A finite number other than the negative zero, in the form that packing keeps. -/
def Regular : UnpackedFloat → Prop
  | .zero .positive => True
  | .finite _ n t _ => Canonical n t
  | _ => False

/-- A number of 64 bits that is a whole number. -/
structure Stands (x : Float) (k : ℤ) : Prop where
  regular : Regular x.toModel.unpack
  exact : exactValue x = k

/-! ### Numbers by their values -/

theorem unpack_pack_regular {u : UnpackedFloat} (regular : Regular u) :
    (Float.Model.pack u).unpack = u := by
  match u with
  | .zero .positive => exact unpack_packedZero
  | .finite s n t _ => exact unpack_pack regular s

theorem inside_self (n : ℕ) (t : ℤ) : Inside n t (n * 2 ^ t) := by
  have hpos : (0 : ℚ) < 2 ^ t := by positivity
  refine ⟨?_, by gcongr; linarith, fun _ => ⟨by gcongr; linarith, by gcongr; linarith⟩⟩
  gcongr
  split <;> linarith

theorem describes_exact (m : ℕ) :
    Describes (ExtendedMantissa.ofMantissaAndAccuracy m .exact) m := by
  simp [Describes, ExtendedMantissa.ofMantissaAndAccuracy, Tells]

theorem log2_shiftLeft {m : ℕ} (h : m ≠ 0) (k : ℕ) : (m <<< k).log2 = m.log2 + k := by
  rw [Nat.shiftLeft_eq, Nat.log2_eq_iff (by positivity)]
  refine ⟨?_, ?_⟩
  · rw [pow_add]
    exact Nat.mul_le_mul_right _ (Nat.log2_self_le h)
  · rw [show m.log2 + k + 1 = m.log2 + 1 + k by ring, pow_add]
    exact Nat.mul_lt_mul_of_pos_right Nat.lt_log2_self (by positivity)

/-- Digits are put behind a mantissa without changing the value. -/
theorem shiftLeft_value (m k : ℕ) (e : ℤ) :
    ((m <<< k : ℕ) : ℚ) * 2 ^ (e - k) = m * 2 ^ e := by
  rw [Nat.shiftLeft_eq, zpow_sub₀ (by norm_num), zpow_natCast]
  push_cast
  field_simp

theorem totalExponent_shiftLeft {m : ℕ} (h : m ≠ 0) (k : ℕ) (e : ℤ) :
    totalExponent (m <<< k) (e - k) = totalExponent m e := by
  simp only [totalExponent, log2_shiftLeft h]
  push_cast
  ring

/-- A value that is a number is rounded to the number. -/
theorem round_eq {m : ℕ} (h : m ≠ 0) {e : ℤ} {n : ℕ} {t : ℤ} (canonical : Canonical n t)
    (same : (m : ℚ) * 2 ^ e = n * 2 ^ t) (s : Sign) :
    UnpackedFloat.round Format.binary64 s m e = .finite s n t canonical.pos := by
  rw [UnpackedFloat.round, decreaseExponent]
  refine roundWithAccuracy_eq (describes_exact _) ?_ canonical ?_ s
  · rw [totalExponent_shiftLeft h]
    omega
  · rw [shiftLeft_value, same]
    exact inside_self n t

/-- Every positive whole number of at most 53 bits is a number. -/
theorem exists_canonical {k : ℕ} (pos : 0 < k) (small : k < 2 ^ 53) :
    ∃ (n : ℕ) (t : ℤ), Canonical n t ∧ (n : ℚ) * 2 ^ t = k := by
  have short : k.log2 ≤ 52 := Nat.lt_succ_iff.1 ((Nat.log2_lt pos.ne').2 small)
  have split : (2 : ℕ) ^ 52 = 2 ^ k.log2 * 2 ^ (52 - k.log2) := by
    rw [← pow_add]; congr 1; omega
  have split' : (2 : ℕ) ^ 53 = 2 ^ (k.log2 + 1) * 2 ^ (52 - k.log2) := by
    rw [← pow_add]; congr 1; omega
  have low : 2 ^ 52 ≤ k * 2 ^ (52 - k.log2) := by
    rw [split]; exact Nat.mul_le_mul_right _ (Nat.log2_self_le pos.ne')
  have high : k * 2 ^ (52 - k.log2) < 2 ^ 53 := by
    rw [split']; exact Nat.mul_lt_mul_of_pos_right Nat.lt_log2_self (by positivity)
  refine ⟨k * 2 ^ (52 - k.log2), k.log2 - 52,
    ⟨by positivity, high, by omega, by omega, Or.inl low⟩, ?_⟩
  have back : ((k.log2 : ℤ) - 52) = -((52 - k.log2 : ℕ) : ℤ) := by omega
  rw [back, zpow_neg, zpow_natCast]
  push_cast
  field_simp

theorem round_whole {m k : ℕ} {e : ℤ} (pos : 0 < m) (same : (m : ℚ) * 2 ^ e = k)
    (small : k < 2 ^ 53) (s : Sign) :
    Regular (UnpackedFloat.round Format.binary64 s m e) ∧
      value (UnpackedFloat.round Format.binary64 s m e) = (s.apply k : ℤ) := by
  have kposQ : (0 : ℚ) < k := by
    rw [← same]
    positivity
  obtain ⟨n, t, canonical, exact⟩ := exists_canonical (by exact_mod_cast kposQ) small
  rw [round_eq pos.ne' canonical (same.trans exact.symm)]
  refine ⟨canonical, ?_⟩
  cases s <;> simp [value, Sign.apply, exact]

/-- A result that is a whole number of at most 53 bits is not changed by rounding. -/
theorem normalize_whole {m e k : ℤ} (same : (m : ℚ) * 2 ^ e = k) (small : k.natAbs < 2 ^ 53) :
    Regular (UnpackedFloat.normalize Format.binary64 m e .positive) ∧
      value (UnpackedFloat.normalize Format.binary64 m e .positive) = k := by
  have hpos : (0 : ℚ) < 2 ^ e := by positivity
  rw [UnpackedFloat.normalize]
  rcases lt_trichotomy m 0 with neg | rfl | pos
  · have kneg : (k : ℚ) < 0 := by
      rw [← same]
      exact mul_neg_of_neg_of_pos (by exact_mod_cast neg) hpos
    have same' : (((-m).toNat : ℕ) : ℚ) * 2 ^ e = k.natAbs := by
      rw [Nat.cast_natAbs, abs_of_neg (by exact_mod_cast kneg), Int.cast_neg, ← same, ← neg_mul]
      congr 1
      exact_mod_cast Int.toNat_of_nonneg (by omega : 0 ≤ -m)
    rw [show compare m 0 = .lt from Int.compare_eq_lt.2 neg]
    refine (round_whole (by omega) same' small .negative).imp id fun h => h.trans ?_
    have kneg : k < 0 := by exact_mod_cast kneg
    exact congrArg Int.cast (show -(k.natAbs : ℤ) = k by omega)
  · have kzero : (k : ℚ) = 0 := by rw [← same]; simp
    exact ⟨trivial, kzero.symm⟩
  · have kpos : (0 : ℚ) < k := by
      rw [← same]
      exact mul_pos (by exact_mod_cast pos) hpos
    have same' : ((m.toNat : ℕ) : ℚ) * 2 ^ e = k.natAbs := by
      rw [Nat.cast_natAbs, abs_of_pos (by exact_mod_cast kpos), ← same]
      congr 1
      exact_mod_cast Int.toNat_of_nonneg pos.le
    rw [show compare m 0 = .gt from Int.compare_eq_gt.2 pos]
    refine (round_whole (by omega) same' small .positive).imp id fun h => h.trans ?_
    have kpos : 0 < k := by exact_mod_cast kpos
    exact congrArg Int.cast (show (k.natAbs : ℤ) = k by omega)

/-! ### Sums and differences -/

/-- A mantissa brought to a lower exponent keeps its value. -/
theorem apply_shiftLeft (s : Sign) (m : ℕ) {e t : ℤ} (low : t ≤ e) :
    ((s.apply (m <<< (e - t).toNat : ℕ) : ℤ) : ℚ) * 2 ^ t = (s.apply m : ℤ) * 2 ^ e := by
  have kept := shiftLeft_value m (e - t).toNat e
  rw [show e - (e - t).toNat = t by omega] at kept
  cases s <;> simp only [Sign.apply, Int.cast_neg, Int.cast_natCast, neg_mul, kept]

theorem add_whole {u v : UnpackedFloat} (hu : Regular u) (hv : Regular v) {k : ℤ}
    (sum : value u + value v = k) (small : k.natAbs < 2 ^ 53) :
    Regular (UnpackedFloat.add Format.binary64 u v) ∧
      value (UnpackedFloat.add Format.binary64 u v) = k := by
  match u, v with
  | .zero .positive, .zero .positive => exact ⟨trivial, (zero_add (0 : ℚ)).symm.trans sum⟩
  | .zero .positive, .finite .. => exact ⟨hv, (zero_add (value _)).symm.trans sum⟩
  | .finite .., .zero .positive => exact ⟨hu, (add_zero (value _)).symm.trans sum⟩
  | .finite s₁ m₁ e₁ _, .finite s₂ m₂ e₂ _ =>
    refine normalize_whole ?_ small
    rw [Int.cast_add, add_mul, apply_shiftLeft s₁ m₁ (min_le_left e₁ e₂),
      apply_shiftLeft s₂ m₂ (min_le_right e₁ e₂)]
    exact sum

theorem sub_whole {u v : UnpackedFloat} (hu : Regular u) (hv : Regular v) {k : ℤ}
    (difference : value u - value v = k) (small : k.natAbs < 2 ^ 53) :
    Regular (UnpackedFloat.sub Format.binary64 u v) ∧
      value (UnpackedFloat.sub Format.binary64 u v) = k := by
  match u, v with
  | .zero .positive, .zero .positive => exact ⟨trivial, (sub_zero (0 : ℚ)).symm.trans difference⟩
  | .zero .positive, .finite s₂ _ _ _ =>
    refine ⟨hv, ?_⟩
    rw [← difference]
    cases s₂ <;> simp [UnpackedFloat.sub, value, Sign.apply]
  | .finite .., .zero .positive => exact ⟨hu, (sub_zero (value _)).symm.trans difference⟩
  | .finite s₁ m₁ e₁ _, .finite s₂ m₂ e₂ _ =>
    refine normalize_whole ?_ small
    rw [Int.cast_sub, sub_mul, apply_shiftLeft s₁ m₁ (min_le_left e₁ e₂),
      apply_shiftLeft s₂ m₂ (min_le_right e₁ e₂)]
    exact difference

theorem Stands.add {x y : Float} {j k : ℤ} (hx : Stands x j) (hy : Stands y k)
    (small : (j + k).natAbs < 2 ^ 53) : Stands (x + y) (j + k) := by
  have sum : value x.toModel.unpack + value y.toModel.unpack = (j + k : ℤ) := by
    rw [Int.cast_add]
    exact congrArg₂ _ hx.exact hy.exact
  obtain ⟨regular, exact⟩ := add_whole hx.regular hy.regular sum small
  have packed : (x + y).toModel.unpack = _ := unpack_pack_regular regular
  exact ⟨by rwa [packed], by rwa [exactValue, packed]⟩

theorem Stands.sub {x y : Float} {j k : ℤ} (hx : Stands x j) (hy : Stands y k)
    (small : (j - k).natAbs < 2 ^ 53) : Stands (x - y) (j - k) := by
  have difference : value x.toModel.unpack - value y.toModel.unpack = (j - k : ℤ) := by
    rw [Int.cast_sub]
    exact congrArg₂ _ hx.exact hy.exact
  obtain ⟨regular, exact⟩ := sub_whole hx.regular hy.regular difference small
  have packed : (x - y).toModel.unpack = _ := unpack_pack_regular regular
  exact ⟨by rwa [packed], by rwa [exactValue, packed]⟩

theorem stands_zero : Stands 0.0 0 := ⟨trivial, by simp [exactValue, value]; rfl⟩

/-! ### Whole numbers as they are written -/

theorem one_unpack : (Float.ofBits 0x3FF0000000000000).toModel.unpack =
    .finite .positive (2 ^ 52) (-52) (by positivity) := rfl

/-- A number times one is the number. -/
theorem mul_one_regular {u : UnpackedFloat} (regular : Regular u) :
    UnpackedFloat.mul Format.binary64 u (.finite .positive (2 ^ 52) (-52) (by positivity)) = u := by
  match u with
  | .zero .positive => rfl
  | .finite s n t _ =>
    have canonical : Canonical n t := regular
    have product : ((n <<< 52 : ℕ) : ℚ) * 2 ^ (t - (52 : ℕ)) = n * 2 ^ t := shiftLeft_value n 52 t
    rw [UnpackedFloat.mul, show s * Sign.positive = s by cases s <;> rfl, ← Nat.shiftLeft_eq]
    refine roundWithAccuracy_eq (describes_exact _) ?_ canonical ?_ s
    · rw [targetExponent_eq, totalExponent, log2_shiftLeft canonical.pos.ne']
      omega
    · rw [show t + -52 = t - (52 : ℕ) from rfl, product]
      exact inside_self n t

theorem toFloat_unpack {k : ℕ} (small : k < 2 ^ 53) :
    k.toUInt64.toFloat.toModel.unpack = UnpackedFloat.normalize Format.binary64 k 0 .positive := by
  have regular : Regular (UnpackedFloat.normalize Format.binary64 k 0 .positive) :=
    (normalize_whole (k := k) (by simp) (by simpa using small)).1
  have kept : k.toUInt64.toNat = k := Nat.mod_eq_of_lt (by omega)
  rw [UInt64.toFloat, Float.Model.ofUInt64, UnpackedFloat.ofUInt64, UnpackedFloat.ofNat, kept]
  exact unpack_pack_regular regular

theorem ofNat_unpack {k : ℕ} (small : k < 2 ^ 53) :
    (Float.ofNat k).toModel.unpack = UnpackedFloat.normalize Format.binary64 k 0 .positive := by
  have regular : Regular (UnpackedFloat.normalize Format.binary64 k 0 .positive) :=
    (normalize_whole (k := k) (by simp) (by simpa using small)).1
  have written : Float.ofNat k = k.toUInt64.toFloat * Float.ofBits 0x3FF0000000000000 :=
    dif_pos (⟨small, Nat.zero_le 22⟩ : k < 2 ^ 53 ∧ 0 ≤ 22)
  have product : (Float.ofNat k).toModel = Float.Model.pack (UnpackedFloat.mul Format.binary64
      k.toUInt64.toFloat.toModel.unpack (Float.ofBits 0x3FF0000000000000).toModel.unpack) :=
    congrArg Float.toModel written
  rw [product, one_unpack, toFloat_unpack small, mul_one_regular regular,
    unpack_pack_regular regular]

theorem stands_ofNat {k : ℕ} (small : k < 2 ^ 53) : Stands (Float.ofNat k) k := by
  obtain ⟨regular, exact⟩ :=
    normalize_whole (m := k) (e := 0) (k := k) (by simp) (by simpa using small)
  exact ⟨by rwa [ofNat_unpack small], by rwa [exactValue, ofNat_unpack small]⟩

/-! ### Numbers are known by their values -/

theorem value_positive {n : ℕ} {t : ℤ} (pos : 0 < n) :
    0 < value (.finite .positive n t pos) := by
  have : (0 : ℚ) < n := by exact_mod_cast pos
  simp only [value, Sign.apply, Int.cast_natCast]
  positivity

theorem value_negative {n : ℕ} {t : ℤ} (pos : 0 < n) :
    value (.finite .negative n t pos) = -value (.finite .positive n t pos) := by
  simp [value, Sign.apply]

theorem finite_of_value {n n' : ℕ} {t t' : ℤ} (canonical : Canonical n t)
    (canonical' : Canonical n' t') (same : (n : ℚ) * 2 ^ t = n' * 2 ^ t') (s : Sign) :
    UnpackedFloat.finite s n t canonical.pos = .finite s n' t' canonical'.pos := by
  rw [← round_eq canonical.pos.ne' canonical rfl s, round_eq canonical.pos.ne' canonical' same s]

theorem eq_of_value {u v : UnpackedFloat} (hu : Regular u) (hv : Regular v)
    (same : value u = value v) : u = v := by
  match u, v with
  | .zero .positive, .zero .positive => rfl
  | .zero .positive, .finite .positive _ _ pos => exact absurd same (value_positive pos).ne
  | .zero .positive, .finite .negative _ _ pos =>
    rw [value_negative] at same
    exact absurd same (neg_neg_of_pos (value_positive pos)).ne'
  | .finite .positive _ _ pos, .zero .positive => exact absurd same (value_positive pos).ne'
  | .finite .negative _ _ pos, .zero .positive =>
    rw [value_negative] at same
    exact absurd same (neg_neg_of_pos (value_positive pos)).ne
  | .finite .positive n t pos, .finite .negative n' t' pos' =>
    rw [value_negative] at same
    have : 0 < value (.finite .positive n' t' pos') := value_positive pos'
    linarith [value_positive (t := t) pos]
  | .finite .negative n t pos, .finite .positive n' t' pos' =>
    rw [value_negative] at same
    have : 0 < value (.finite .positive n' t' pos') := value_positive pos'
    linarith [value_positive (t := t) pos]
  | .finite .positive .., .finite .positive .. => exact finite_of_value hu hv same _
  | .finite .negative .., .finite .negative .. =>
    rw [value_negative, value_negative] at same
    exact finite_of_value hu hv (neg_injective same) _

theorem eq_of_unpack {x y : Float} (same : x.toModel.unpack = y.toModel.unpack) : x = y := by
  obtain ⟨⟨bits, valid⟩⟩ := x
  obtain ⟨⟨bits', valid'⟩⟩ := y
  have same : bits.toBitVec = bits'.toBitVec := (unpack_inj_of_valid valid valid').1 same
  obtain rfl : bits = bits' := UInt64.eq_of_toBitVec_eq same
  rfl

theorem Stands.unique {x y : Float} {k : ℤ} (hx : Stands x k) (hy : Stands y k) : x = y :=
  eq_of_unpack (eq_of_value hx.regular hy.regular (hx.exact.trans hy.exact.symm))

/-! ### Whole numbers and the tolerance -/

theorem tolerance_unpack : ∃ n pos, tolerance.toModel.unpack = .finite .positive n (-82) pos :=
  ⟨_, _, rfl⟩

theorem Regular.abs {u : UnpackedFloat} (regular : Regular u) : Regular u.abs := by
  match u with
  | .zero .positive => trivial
  | .finite .. => exact regular

/-- A whole number other than zero has few digits behind the point. -/
theorem exponent_of_whole {s : Sign} {n : ℕ} {t : ℤ} (canonical : Canonical n t) {k : ℤ}
    (nonzero : k ≠ 0) (exact : value (.finite s n t canonical.pos) = k) : -53 < t := by
  have size : (n : ℚ) * 2 ^ t = |(k : ℚ)| := by
    rw [← exact]
    cases s <;> simp [value, Sign.apply, abs_mul]
  have one : (1 : ℚ) ≤ |(k : ℚ)| := by exact_mod_cast Int.one_le_abs nonzero
  by_contra low
  have small : (2 : ℚ) ^ t ≤ 2 ^ (-53 : ℤ) := zpow_le_zpow_right₀ (by norm_num) (by omega)
  have short : (n : ℚ) < 2 ^ 53 := by exact_mod_cast canonical.lt
  have : (n : ℚ) * 2 ^ t < 2 ^ 53 * 2 ^ (-53 : ℤ) :=
    mul_lt_mul short small (by positivity) (by positivity)
  norm_num at this
  linarith

/-- Of the whole numbers, only zero is within the tolerance. -/
theorem Stands.changed_iff {x : Float} {k : ℤ} (hx : Stands x k) :
    x.abs > tolerance ↔ k ≠ 0 := by
  have size : x.abs.toModel.unpack = x.toModel.unpack.abs := unpack_pack_regular hx.regular.abs
  obtain ⟨m, mpos, threshold⟩ := tolerance_unpack
  show decide (UnpackedFloat.lt tolerance.toModel.unpack x.abs.toModel.unpack = true) = true ↔ k ≠ 0
  rw [size, threshold, decide_eq_true_iff]
  have regular := hx.regular
  have exact := hx.exact
  rw [exactValue] at exact
  generalize x.toModel.unpack = u at regular exact
  match u with
  | .zero .positive =>
    have : k = 0 := Int.cast_eq_zero.1 (show (k : ℚ) = 0 from exact.symm)
    simp [this, UnpackedFloat.abs, UnpackedFloat.lt, UnpackedFloat.compare]
  | .finite s n t pos =>
    have nonzero : k ≠ 0 := by
      rintro rfl
      cases s
      · rw [value_negative] at exact
        exact (neg_neg_of_pos (value_positive pos)).ne (exact.trans Int.cast_zero)
      · exact (value_positive pos).ne' (exact.trans Int.cast_zero)
    have above : -82 < t := by linarith [exponent_of_whole regular nonzero exact]
    simp [nonzero, UnpackedFloat.abs, UnpackedFloat.lt, UnpackedFloat.compare,
      Int.compare_eq_lt.2 above]

end CodeMetrics.Rounding
