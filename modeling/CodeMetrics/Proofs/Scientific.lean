import CodeMetrics.Proofs.Whole

/-! A decimal is read as the number in whose interval it lies. Products and quotients of numbers are
    rounded once, from what is known of the exact result, so it does not matter by which of its
    ways a decimal is turned into a number. -/

namespace CodeMetrics.Rounding

open Float.Model Float.Model.UnpackedFloat

/-! ### Products and quotients -/

section Operations

variable {m₁ m₂ n : ℕ} {e₁ e₂ t : ℤ} (pos₁ : 0 < m₁) (pos₂ : 0 < m₂) (canonical : Canonical n t)

theorem mul_inside (long : 2 ^ 52 ≤ m₁ * m₂)
    (inside : Inside n t ((m₁ * 2 ^ e₁) * (m₂ * 2 ^ e₂))) :
    UnpackedFloat.mul Format.binary64 (.finite .positive m₁ e₁ pos₁)
      (.finite .positive m₂ e₂ pos₂) = .finite .positive n t canonical.pos := by
  have bits : 52 ≤ (m₁ * m₂).log2 := (Nat.le_log2 (by positivity)).2 long
  rw [UnpackedFloat.mul]
  refine roundWithAccuracy_eq (describes_exact _) ?_ canonical ?_ .positive
  · rw [targetExponent_eq, totalExponent]
    omega
  · have product : ((m₁ * m₂ : ℕ) : ℚ) * 2 ^ (e₁ + e₂) = (m₁ * 2 ^ e₁) * (m₂ * 2 ^ e₂) := by
      rw [zpow_add₀ (by norm_num)]
      push_cast
      ring
    rwa [product]

/-- What is known of a quotient: its whole part, and how what is left compares with a half. -/
theorem describes_quotient (a : ℕ) {d : ℕ} (pos : 0 < d) :
    Describes (ExtendedMantissa.ofMantissaAndAccuracy (a / d) (accuracyOfFraction (a % d) d))
      ((a : ℚ) / d) := by
  have hd : (0 : ℚ) < d := by exact_mod_cast pos
  have fraction : (a : ℚ) / d - (a / d : ℕ) = (a % d : ℕ) / d := by
    have split : (a : ℚ) = d * (a / d : ℕ) + (a % d : ℕ) := by
      exact_mod_cast (Nat.div_add_mod a d).symm
    rw [eq_div_iff hd.ne', sub_mul, div_mul_cancel₀ _ hd.ne']
    linarith
  have below : ((a % d : ℕ) : ℚ) < d := by exact_mod_cast Nat.mod_lt a pos
  rw [accuracyOfFraction]
  split
  · next h => simpa [Describes, ExtendedMantissa.ofMantissaAndAccuracy, Tells, h] using fraction
  · next h =>
    have hr : (0 : ℚ) < (a % d : ℕ) := by exact_mod_cast Nat.pos_of_ne_zero h
    rcases lt_trichotomy (2 * (a % d)) d with half | half | half
    · rw [Nat.compare_eq_lt.2 half]
      have half : 2 * ((a % d : ℕ) : ℚ) < d := by exact_mod_cast half
      simp only [Describes, ExtendedMantissa.ofMantissaAndAccuracy, Tells, fraction]
      exact ⟨by positivity, by rw [div_lt_iff₀ hd]; linarith⟩
    · rw [Nat.compare_eq_eq.2 half]
      have half : 2 * ((a % d : ℕ) : ℚ) = d := by exact_mod_cast half
      simp only [Describes, ExtendedMantissa.ofMantissaAndAccuracy, Tells, fraction]
      rw [div_eq_iff hd.ne']
      linarith
    · rw [Nat.compare_eq_gt.2 half]
      have half : (d : ℚ) < 2 * (a % d : ℕ) := by exact_mod_cast half
      simp only [Describes, ExtendedMantissa.ofMantissaAndAccuracy, Tells, fraction]
      exact ⟨by rw [lt_div_iff₀ hd]; linarith, by rw [div_lt_one hd]; exact below⟩

/-- A quotient has at least the bits that its operands make up. -/
theorem log2_quotient {a d : ℕ} (ha : a ≠ 0) (hd : d ≠ 0) :
    (a.log2 : ℤ) - d.log2 ≤ (a / d).log2 + 1 := by
  by_cases small : a < d
  · have : a.log2 ≤ d.log2 := (Nat.le_log2 hd).2 ((Nat.log2_self_le ha).trans small.le)
    omega
  · have hq : a / d ≠ 0 := (Nat.div_pos (by omega) (by omega)).ne'
    have upper : a < 2 ^ (d.log2 + 1 + ((a / d).log2 + 1)) := by
      calc a < d * (a / d + 1) := Nat.lt_mul_div_succ a (by omega)
        _ ≤ 2 ^ (d.log2 + 1) * 2 ^ ((a / d).log2 + 1) :=
          Nat.mul_le_mul Nat.lt_log2_self.le Nat.lt_log2_self
        _ = _ := (pow_add 2 _ _).symm
    have := (Nat.log2_lt ha).2 upper
    omega

theorem div_inside (inside : Inside n t ((m₁ * 2 ^ e₁) / (m₂ * 2 ^ e₂))) :
    UnpackedFloat.div Format.binary64 (.finite .positive m₁ e₁ pos₁)
      (.finite .positive m₂ e₂ pos₂) = .finite .positive n t canonical.pos := by
  rw [UnpackedFloat.div, divCore]
  set target := min (e₁ - e₂)
    (Format.binary64.targetExponent (totalExponent m₁ e₁ - totalExponent m₂ e₂)) with target_eq
  set shift := (e₁ - e₂ - target).toNat with shift_eq
  have shifted : e₁ - e₂ = target + shift := by omega
  refine roundWithAccuracy_eq (describes_quotient _ pos₂) ?_ canonical ?_ .positive
  · have bits := log2_quotient (a := m₁ <<< shift) (by rw [Nat.shiftLeft_eq]; positivity) pos₂.ne'
    rw [log2_shiftLeft pos₁.ne'] at bits
    rw [targetExponent_eq] at target_eq ⊢
    simp only [totalExponent] at target_eq ⊢
    push_cast at bits
    omega
  · have quotient : ((m₁ <<< shift : ℕ) : ℚ) / m₂ * 2 ^ target
        = (m₁ * 2 ^ e₁) / (m₂ * 2 ^ e₂) := by
      rw [Nat.shiftLeft_eq, mul_div_mul_comm, ← zpow_sub₀ (by norm_num), shifted,
        zpow_add₀ (by norm_num), zpow_natCast]
      push_cast
      ring
    rwa [quotient]

end Operations

/-! ### The range of numbers -/

theorem Inside.ge {n : ℕ} {t : ℤ} {x : ℚ} (canonical : Canonical n t) (inside : Inside n t x) :
    (2 : ℚ) ^ (-1075 : ℤ) ≤ x := by
  have hn : (1 : ℚ) ≤ n := by exact_mod_cast canonical.pos
  have gap : (n : ℚ) - 1 / 2 ≤ n - if isNarrow n t then 1 / 4 else 1 / 2 := by
    split <;> linarith
  calc (2 : ℚ) ^ (-1075 : ℤ) = 1 / 2 * 2 ^ (-1074 : ℤ) := by
        rw [show (-1075 : ℤ) = -1 + -1074 by norm_num, zpow_add₀ (by norm_num)]; norm_num
    _ ≤ (n - if isNarrow n t then 1 / 4 else 1 / 2) * 2 ^ t :=
        mul_le_mul (by linarith) (zpow_le_zpow_right₀ (by norm_num) canonical.low) (by positivity)
          (by linarith)
    _ ≤ x := inside.lower

theorem Inside.lt {n : ℕ} {t : ℤ} {x : ℚ} (canonical : Canonical n t) (inside : Inside n t x) :
    x < (2 : ℚ) ^ (1024 : ℤ) :=
  (inside.lt_of_canonical canonical).trans_le
    (zpow_le_zpow_right₀ (by norm_num) (by linarith [canonical.high]))

theorem exponent_bounds {m : ℕ} {e : ℤ} (pos : 0 < m) {n : ℕ} {t : ℤ} (canonical : Canonical n t)
    (inside : Inside n t (m * 10 ^ e)) : e ≤ 1023 ∧ -(1077 + m.log2 : ℤ) ≤ e := by
  have hm : (1 : ℚ) ≤ m := by exact_mod_cast pos
  have less : ∀ {a b : ℤ}, (2 : ℚ) ^ a < 2 ^ b → a < b :=
    (zpow_lt_zpow_iff_right₀ (by norm_num : (1 : ℚ) < 2)).1
  constructor
  · by_contra high
    have : (2 : ℚ) ^ e < 2 ^ (1024 : ℤ) := by
      calc (2 : ℚ) ^ e ≤ 10 ^ e := zpow_le_zpow_left₀ (by omega) (by norm_num) (by norm_num)
        _ ≤ m * 10 ^ e := le_mul_of_one_le_left (by positivity) hm
        _ < 2 ^ (1024 : ℤ) := inside.lt canonical
    have := less this
    omega
  · by_contra low
    have ten : (10 : ℚ) ^ e ≤ 2 ^ e := by
      obtain ⟨k, rfl⟩ : ∃ k : ℕ, e = -k := ⟨e.natAbs, by omega⟩
      rw [zpow_neg, zpow_neg, zpow_natCast, zpow_natCast]
      exact inv_anti₀ (by positivity) (pow_le_pow_left₀ (by norm_num) (by norm_num) k)
    have bits : (m : ℚ) < 2 ^ ((m.log2 + 1 : ℕ) : ℤ) := by
      rw [zpow_natCast]; exact_mod_cast Nat.lt_log2_self
    have : (2 : ℚ) ^ (-1075 : ℤ) < 2 ^ ((m.log2 + 1 : ℕ) + e : ℤ) := by
      calc (2 : ℚ) ^ (-1075 : ℤ) ≤ m * 10 ^ e := inside.ge canonical
        _ < 2 ^ ((m.log2 + 1 : ℕ) : ℤ) * 2 ^ e := mul_lt_mul bits ten (by positivity) (by positivity)
        _ = _ := (zpow_add₀ (by norm_num) _ _).symm
    have := less this
    push_cast at this
    omega

/-! ### Reading a decimal -/

/-- Whether a number is a power of ten, with a mantissa of 53 bits. -/
def isPowerOfTen (k : ℕ) : UnpackedFloat → Bool
  | .finite .positive p e _ =>
    decide (2 ^ 52 ≤ p ∧ p * 2 ^ e.toNat = 10 ^ k * 2 ^ (-e).toNat)
  | _ => false

theorem isPowerOfTen_table : ∀ k : Fin 23,
    isPowerOfTen k (Float.exactlyRepresentablePowersOfTen[k.val]).toModel.unpack = true := by
  decide +kernel

theorem exists_of_isPowerOfTen {k : ℕ} {u : UnpackedFloat} (h : isPowerOfTen k u = true) :
    ∃ (p : ℕ) (e : ℤ) (pos : 0 < p), u = .finite .positive p e pos ∧ 2 ^ 52 ≤ p ∧
      (p : ℚ) * 2 ^ e = 10 ^ k := by
  match u with
  | .finite .positive p e pos =>
    obtain ⟨long, same⟩ := of_decide_eq_true h
    refine ⟨p, e, pos, rfl, long, ?_⟩
    have same : (p : ℚ) * 2 ^ e.toNat = 10 ^ k * 2 ^ (-e).toNat := by exact_mod_cast same
    have split : (2 : ℚ) ^ e = 2 ^ e.toNat / 2 ^ (-e).toNat := by
      rw [← zpow_natCast, ← zpow_natCast, ← zpow_sub₀ (by norm_num)]
      congr 1
      omega
    rw [split, ← mul_div_assoc, same, mul_div_assoc, div_self (by positivity), mul_one]

/-- A positive whole number is a mantissa and an exponent. -/
theorem exists_toFloat {m : ℕ} (pos : 0 < m) (short : m < 2 ^ 53) :
    ∃ (k : ℕ) (f : ℤ) (kpos : 0 < k), m.toUInt64.toFloat.toModel.unpack = .finite .positive k f kpos ∧
      (k : ℚ) * 2 ^ f = m := by
  obtain ⟨k, f, canonical, exact⟩ := exists_canonical pos short
  refine ⟨k, f, canonical.pos, ?_, exact⟩
  rw [toFloat_unpack short, UnpackedFloat.normalize,
    show compare (m : ℤ) 0 = .gt from Int.compare_eq_gt.2 (by exact_mod_cast pos)]
  exact round_eq (by simpa using pos.ne') canonical (by simpa using exact.symm) .positive

/-- A decimal with few digits is read by one product or quotient of exact numbers. -/
theorem ofScientific_short {m : ℕ} {e : ℤ} (pos : 0 < m) (short : m < 2 ^ 53) (near : e.natAbs ≤ 22)
    {n : ℕ} {t : ℤ} (canonical : Canonical n t) (inside : Inside n t (m * 10 ^ e)) :
    (Float.ofScientific m (e < 0) e.natAbs).toModel.unpack
      = .finite .positive n t canonical.pos := by
  obtain ⟨p, f, ppos, power, long, ten⟩ :=
    exists_of_isPowerOfTen (isPowerOfTen_table ⟨e.natAbs, by omega⟩)
  have ten : (p : ℚ) * 2 ^ f = 10 ^ e.natAbs := ten
  obtain ⟨k, g, kpos, whole, exact⟩ := exists_toFloat pos short
  rw [Float.ofScientific, dif_pos ⟨short, near⟩]
  by_cases neg : e < 0
  · have value : (m : ℚ) * 10 ^ e = k * 2 ^ g / (p * 2 ^ f) := by
      rw [exact, ten, div_eq_mul_inv, ← zpow_natCast, ← zpow_neg]
      congr 2
      omega
    rw [value] at inside
    have quotient := div_inside kpos ppos canonical inside
    rw [← power, ← whole] at quotient
    simp only [neg, decide_true, if_true]
    exact (congrArg (fun u => (Float.Model.pack u).unpack) quotient).trans
      (unpack_pack canonical .positive)
  · have value : (m : ℚ) * 10 ^ e = k * 2 ^ g * (p * 2 ^ f) := by
      rw [exact, ten, ← zpow_natCast]
      congr 2
      omega
    rw [value] at inside
    have product := mul_inside kpos ppos canonical
      (long.trans (Nat.le_mul_of_pos_left p kpos)) inside
    rw [← power, ← whole] at product
    simp only [neg, decide_false, Bool.false_eq_true, if_false]
    exact (congrArg (fun u => (Float.Model.pack u).unpack) product).trans
      (unpack_pack canonical .positive)

/-- A decimal with many digits is read from its exact value. -/
theorem ofScientific_long {m : ℕ} {e : ℤ} (pos : 0 < m) {n : ℕ} {t : ℤ}
    (canonical : Canonical n t) (inside : Inside n t (m * 10 ^ e)) :
    UnpackedFloat.ofScientific Format.binary64 m e = .finite .positive n t canonical.pos := by
  obtain ⟨high, low⟩ := exponent_bounds pos canonical inside
  have few : (2 : ℤ) ^ Format.binary64.exponentBits = 2048 := rfl
  rw [UnpackedFloat.ofScientific, dif_neg pos.ne', few, if_neg (by omega), if_neg (by omega)]
  split
  · next nonneg =>
    refine mul_inside _ _ canonical ?_ ?_
    · calc 2 ^ 52 ≤ m * 2 ^ 53 * 10 ^ e.toNat := by
            have : 0 < m * 10 ^ e.toNat := by positivity
            nlinarith
        _ = m <<< 53 * 10 ^ e.toNat := by rw [Nat.shiftLeft_eq]
    · have value : ((m <<< 53 : ℕ) : ℚ) * 2 ^ (-53 : ℤ) * (((10 ^ e.toNat : ℕ) : ℚ) * 2 ^ (0 : ℤ))
          = m * 10 ^ e := by
        have shifted := shiftLeft_value m 53 0
        rw [zero_sub, zpow_zero, mul_one] at shifted
        rw [show (-53 : ℤ) = -(53 : ℕ) from rfl, shifted, zpow_zero, mul_one, Nat.cast_pow,
          ← zpow_natCast]
        congr 2
        omega
      rw [← value] at inside
      exact inside
  · next neg =>
    refine div_inside _ _ canonical ?_
    have value : (m : ℚ) * 2 ^ (0 : ℤ) / (((10 ^ (-e).toNat : ℕ) : ℚ) * 2 ^ (0 : ℤ))
        = m * 10 ^ e := by
      rw [zpow_zero, mul_one, mul_one, Nat.cast_pow, ← zpow_natCast, div_eq_mul_inv, ← zpow_neg]
      congr 2
      omega
    rwa [value]

/-- A decimal in the interval of a number is read as the number. -/
theorem ofScientific_unpack {m : ℕ} {e : ℤ} (pos : 0 < m) {n : ℕ} {t : ℤ}
    (canonical : Canonical n t) (inside : Inside n t (m * 10 ^ e)) :
    (Float.ofScientific m (e < 0) e.natAbs).toModel.unpack
      = .finite .positive n t canonical.pos := by
  by_cases short : m < 2 ^ 53 ∧ e.natAbs ≤ 22
  · exact ofScientific_short pos short.1 short.2 canonical inside
  · have same : (if decide (e < 0) = true then Int.negOfNat e.natAbs else Int.ofNat e.natAbs) = e := by
      by_cases neg : e < 0
      · rw [if_pos (decide_eq_true neg), Int.negOfNat_eq, Int.ofNat_eq_natCast]
        omega
      · rw [if_neg (by simpa using neg), Int.ofNat_eq_natCast]
        omega
    rw [Float.ofScientific, dif_neg short]
    simp only [same]
    rw [Float.Model.ofScientific, ofScientific_long pos canonical inside]
    exact unpack_pack canonical .positive

end CodeMetrics.Rounding
