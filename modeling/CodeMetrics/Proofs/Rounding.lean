import Mathlib

/-! How a result is rounded to a number of 64 bits. A result is known by its whole part, by whether
    what is left is at least a half, and by whether there is more to it. Every shift keeps that, and
    it is enough to tell the nearest whole number. So a result that lies in the interval of a number
    is rounded to that number. -/

namespace CodeMetrics.Rounding

open Float.Model Float.Model.UnpackedFloat

/-! ### The nearest whole number -/

/-- Where a fraction lies: at least a half or less, and whether there is more than that. -/
def Tells (half more : Bool) (fraction : ℚ) : Prop :=
  match half, more with
  | false, false => fraction = 0
  | false, true => 0 < fraction ∧ fraction < 1 / 2
  | true, false => fraction = 1 / 2
  | true, true => 1 / 2 < fraction ∧ fraction < 1

/-- Half of a fraction is less than a half. -/
theorem Tells.even {half more : Bool} {fraction : ℚ} (h : Tells half more fraction) :
    Tells false (half || more) (fraction / 2) := by
  cases half <;> cases more <;> simp only [Tells, Bool.or_false, Bool.or_true] at h ⊢
  · linarith
  · exact ⟨by linarith, by linarith⟩
  · exact ⟨by linarith, by linarith⟩
  · exact ⟨by linarith, by linarith⟩

/-- Half of one and a fraction is at least a half. -/
theorem Tells.odd {half more : Bool} {fraction : ℚ} (h : Tells half more fraction) :
    Tells true (half || more) ((1 + fraction) / 2) := by
  cases half <;> cases more <;> simp only [Tells, Bool.or_false, Bool.or_true] at h ⊢
  · linarith
  · exact ⟨by linarith, by linarith⟩
  · exact ⟨by linarith, by linarith⟩
  · exact ⟨by linarith, by linarith⟩

/-- What an extended mantissa says of a value. -/
def Describes (em : ExtendedMantissa) (v : ℚ) : Prop :=
  Tells em.roundBit em.stickyBit (v - em.mantissa)

/-- The whole part of a value that is described. -/
theorem Describes.bounds {em : ExtendedMantissa} {v : ℚ} (h : Describes em v) :
    (em.mantissa : ℚ) ≤ v ∧ v < em.mantissa + 1 := by
  obtain ⟨m, half, more⟩ := em
  cases half <;> cases more <;> simp only [Describes, Tells] at h ⊢ <;>
    constructor <;> linarith

theorem Describes.shiftRightOne {em : ExtendedMantissa} {v : ℚ} (h : Describes em v) :
    Describes em.shiftRightOne (v / 2) := by
  have split : (em.mantissa : ℚ) = 2 * (em.mantissa / 2 : ℕ) + (em.mantissa % 2 : ℕ) := by
    exact_mod_cast (Nat.div_add_mod em.mantissa 2).symm
  rw [Describes, ExtendedMantissa.shiftRightOne]
  rcases Nat.mod_two_eq_zero_or_one em.mantissa with even | odd
  · have fraction : v / 2 - (em.mantissa / 2 : ℕ) = (v - em.mantissa) / 2 := by
      rw [split, even]; push_cast; ring
    simp only [even, fraction]
    exact Tells.even h
  · have fraction : v / 2 - (em.mantissa / 2 : ℕ) = (1 + (v - em.mantissa)) / 2 := by
      rw [split, odd]; push_cast; ring
    simp only [odd, fraction]
    exact Tells.odd h

/-- A shift to the right keeps what is known of a value. -/
theorem Describes.shiftRight {em : ExtendedMantissa} {v : ℚ} (h : Describes em v) (k : ℕ) :
    Describes (em >>> k) (v / 2 ^ k) := by
  change Describes (k.repeat ExtendedMantissa.shiftRightOne em) _
  induction k with
  | zero => simpa [Nat.repeat] using h
  | succ k ih =>
    rw [Nat.repeat, pow_succ, ← div_div]
    exact ih.shiftRightOne

/-- A whole number is the nearest to a value, an even one also where the value is half way. -/
structure Nearest (n : ℕ) (v : ℚ) : Prop where
  lower : (n : ℚ) - 1 / 2 ≤ v
  upper : v ≤ n + 1 / 2
  odd : n % 2 = 1 → (n : ℚ) - 1 / 2 < v ∧ v < n + 1 / 2

theorem Describes.roundedMantissa {em : ExtendedMantissa} {v : ℚ} (h : Describes em v) {n : ℕ}
    (nearest : Nearest n v) : em.roundedMantissa = n := by
  obtain ⟨m, half, more⟩ := em
  obtain ⟨lower, upper, odd⟩ := nearest
  have below : ∀ {a b : ℕ}, (a : ℚ) < b + 1 → a ≤ b := fun h => by
    exact Nat.lt_succ_iff.1 (by exact_mod_cast h)
  cases half <;> cases more <;>
    simp only [Describes, Tells] at h <;>
    simp only [ExtendedMantissa.roundedMantissa, ExtendedMantissa.accuracy,
      Accuracy.roundToNearestEven]
  · exact le_antisymm (below (by linarith)) (below (by linarith))
  · exact le_antisymm (below (by linarith)) (below (by linarith))
  · -- half way between `m` and `m + 1`, of which `n` is the even one
    have h₁ : m ≤ n := below (by linarith)
    have h₂ : n ≤ m + 1 := below (by push_cast; linarith)
    have even : n % 2 = 0 := by
      by_contra hn
      obtain ⟨h₃, h₄⟩ := odd (by omega)
      have h₅ : m < n := by exact_mod_cast (by linarith : (m : ℚ) < n)
      have h₆ : n < m + 1 := by exact_mod_cast (by linarith : (n : ℚ) < m + 1)
      omega
    omega
  · have h₁ : m + 1 ≤ n := below (by push_cast; linarith)
    have h₂ : n ≤ m + 1 := below (by push_cast; linarith)
    omega

/-! ### Numbers of 64 bits and their intervals -/

/-- Mantissa and exponent of a positive number of 64 bits. -/
structure Canonical (n : ℕ) (t : ℤ) : Prop where
  pos : 0 < n
  lt : n < 2 ^ 53
  low : -1074 ≤ t
  high : t ≤ 971
  /-- A mantissa has all its digits, except on the finest grid. -/
  normal : 2 ^ 52 ≤ n ∨ t = -1074

/-- The numbers below a power of two are closer to it than those above. -/
def isNarrow (n : ℕ) (t : ℤ) : Prop := n = 2 ^ 52 ∧ -1074 < t

instance (n : ℕ) (t : ℤ) : Decidable (isNarrow n t) := inferInstanceAs (Decidable (_ ∧ _))

/-- A value lies in the interval of what is rounded to a number. The interval ends half way to the
    next numbers; the ends belong to it where the mantissa is even. -/
structure Inside (n : ℕ) (t : ℤ) (x : ℚ) : Prop where
  lower : ((n : ℚ) - if isNarrow n t then 1 / 4 else 1 / 2) * 2 ^ t ≤ x
  upper : x ≤ ((n : ℚ) + 1 / 2) * 2 ^ t
  odd : n % 2 = 1 → ((n : ℚ) - 1 / 2) * 2 ^ t < x ∧ x < ((n : ℚ) + 1 / 2) * 2 ^ t

theorem Inside.le_of_normal {n : ℕ} {t : ℤ} {x : ℚ} (inside : Inside n t x) (normal : 2 ^ 52 ≤ n) :
    (2 : ℚ) ^ (t + 51) ≤ x := by
  have hn : (2 : ℚ) ^ 52 ≤ n := by exact_mod_cast normal
  have gap : (n : ℚ) - 1 / 2 ≤ n - if isNarrow n t then 1 / 4 else 1 / 2 := by
    split <;> linarith
  calc (2 : ℚ) ^ (t + 51) = 2 ^ 51 * 2 ^ t := by rw [add_comm, zpow_add₀ (by norm_num)]; norm_num
    _ ≤ ((n : ℚ) - if isNarrow n t then 1 / 4 else 1 / 2) * 2 ^ t := by gcongr; linarith
    _ ≤ x := inside.lower

theorem Inside.lt_of_canonical {n : ℕ} {t : ℤ} {x : ℚ} (inside : Inside n t x)
    (canonical : Canonical n t) : x < 2 ^ (t + 53) := by
  have hn : (n : ℚ) + 1 ≤ 2 ^ 53 := by exact_mod_cast canonical.lt
  calc x ≤ ((n : ℚ) + 1 / 2) * 2 ^ t := inside.upper
    _ < 2 ^ 53 * 2 ^ t := by gcongr; linarith
    _ = 2 ^ (t + 53) := by rw [add_comm, zpow_add₀ (by norm_num)]; norm_num

theorem Inside.nearest {n : ℕ} {t : ℤ} {x : ℚ} (inside : Inside n t x) : Nearest n (x / 2 ^ t) := by
  have hpos : (0 : ℚ) < 2 ^ t := by positivity
  have gap : (n : ℚ) - 1 / 2 ≤ n - if isNarrow n t then 1 / 4 else 1 / 2 := by
    split <;> linarith
  refine ⟨?_, (div_le_iff₀ hpos).2 inside.upper, fun h => ?_⟩
  · rw [le_div_iff₀ hpos]
    exact (mul_le_mul_of_nonneg_right gap hpos.le).trans inside.lower
  · obtain ⟨lower, upper⟩ := inside.odd h
    exact ⟨(lt_div_iff₀ hpos).2 lower, (div_lt_iff₀ hpos).2 upper⟩

/-- Below a power of two the grid is finer, and what is rounded up to the power is rounded to the
    double mantissa there. -/
theorem Inside.nearest_carry {n : ℕ} {t : ℤ} {x : ℚ} (inside : Inside n t x)
    (narrow : isNarrow n t) (below : x < n * 2 ^ t) : Nearest (2 ^ 53) (x / 2 ^ (t - 1)) := by
  have lower := inside.lower
  rw [if_pos narrow] at lower
  have half : (2 : ℚ) ^ t = 2 * 2 ^ (t - 1) := by
    rw [← zpow_one_add₀ (by norm_num)]
    congr 1
    ring
  have hpos : (0 : ℚ) < 2 ^ (t - 1) := by positivity
  rw [narrow.1, half] at lower below
  refine ⟨?_, ?_, fun h => absurd h (by norm_num)⟩
  · rw [le_div_iff₀ hpos]
    push_cast at lower ⊢
    linarith
  · rw [div_le_iff₀ hpos]
    push_cast at below ⊢
    linarith

/-! ### Rounding -/

theorem targetExponent_eq (total : ℤ) :
    Format.binary64.targetExponent total = max (total - 53) (-1074) := rfl

/-- The powers of two around a value. -/
theorem log2_bounds {m : ℕ} (h : m ≠ 0) (e : ℤ) {v : ℚ} (lower : (m : ℚ) ≤ v) (upper : v < m + 1) :
    (2 : ℚ) ^ (totalExponent m e - 1) ≤ v * 2 ^ e ∧ v * 2 ^ e < 2 ^ totalExponent m e := by
  have low : (2 : ℚ) ^ m.log2 ≤ m := by exact_mod_cast Nat.log2_self_le h
  have high : (m : ℚ) + 1 ≤ 2 ^ (m.log2 + 1) := by exact_mod_cast Nat.lt_log2_self
  have hpos : (0 : ℚ) < 2 ^ e := by positivity
  constructor
  · calc (2 : ℚ) ^ (totalExponent m e - 1) = 2 ^ m.log2 * 2 ^ e := by
          rw [totalExponent, ← zpow_natCast, ← zpow_add₀ (by norm_num)]; congr 1; ring
      _ ≤ v * 2 ^ e := by gcongr; exact low.trans lower
  · calc v * 2 ^ e < 2 ^ (m.log2 + 1) * 2 ^ e := by gcongr; exact upper.trans_le high
      _ = 2 ^ totalExponent m e := by
          rw [totalExponent, ← zpow_natCast, ← zpow_add₀ (by norm_num)]; push_cast; congr 1

/-- The grid that a value inside the interval of a number is rounded on: the one of the number, or
    the finer one below a power of two. -/
theorem targetExponent_inside {m : ℕ} {e : ℤ} {v : ℚ} (lower : (m : ℚ) ≤ v) (upper : v < m + 1)
    (fine : e ≤ Format.binary64.targetExponent (totalExponent m e)) {n : ℕ} {t : ℤ}
    (canonical : Canonical n t) (inside : Inside n t (v * 2 ^ e)) :
    Format.binary64.targetExponent (totalExponent m e) = t ∨
      Format.binary64.targetExponent (totalExponent m e) = t - 1 ∧ isNarrow n t ∧
        v * 2 ^ e < n * 2 ^ t := by
  have less : ∀ {a b : ℤ}, (2 : ℚ) ^ a < 2 ^ b → a < b :=
    (zpow_lt_zpow_iff_right₀ (by norm_num : (1 : ℚ) < 2)).1
  have top := inside.lt_of_canonical canonical
  rw [targetExponent_eq] at fine ⊢
  by_cases hm : m = 0
  · -- a value below one step: the grid is the finest there is
    subst hm
    have small : v * 2 ^ e < 2 ^ e := by
      exact mul_lt_of_lt_one_left (by positivity) (by simpa using upper)
    have total : totalExponent 0 e = 1 + e := by simp [totalExponent]
    rw [total] at fine ⊢
    left
    rcases canonical.normal with normal | rfl
    · have := less ((inside.le_of_normal normal).trans_lt small)
      have := canonical.low
      omega
    · omega
  · obtain ⟨low, high⟩ := log2_bounds hm e lower upper
    have hle : totalExponent m e - 1 < t + 53 := less (low.trans_lt top)
    rcases canonical.normal with normal | rfl
    · have hge : t + 51 < totalExponent m e := less ((inside.le_of_normal normal).trans_lt high)
      have := canonical.low
      by_cases same : totalExponent m e = t + 53 ∨ t = -1074
      · left; omega
      · have total : totalExponent m e = t + 52 := by omega
        have hn : (2 : ℚ) ^ 52 ≤ n := by exact_mod_cast normal
        have below : v * 2 ^ e < 2 ^ 52 * 2 ^ t := by
          calc v * 2 ^ e < 2 ^ totalExponent m e := high
            _ = 2 ^ 52 * 2 ^ t := by rw [total, add_comm, zpow_add₀ (by norm_num)]; norm_num
        have narrow : isNarrow n t := by
          by_contra wide
          have hlow := inside.lower
          rw [if_neg wide] at hlow
          have : n ≠ 2 ^ 52 := fun h => wide ⟨h, by omega⟩
          have hn' : (2 : ℚ) ^ 52 + 1 ≤ n := by exact_mod_cast (by omega : 2 ^ 52 + 1 ≤ n)
          have : (2 : ℚ) ^ 52 * 2 ^ t ≤ ((n : ℚ) - 1 / 2) * 2 ^ t := by gcongr; linarith
          linarith
        refine Or.inr ⟨by omega, narrow, below.trans_le ?_⟩
        gcongr
    · left; omega

/-- A mantissa that fits is not shifted. -/
theorem shiftToTargetExponent_fitting {n : ℕ} {t : ℤ} (fits : n < 2 ^ 53) (low : -1074 ≤ t) :
    shiftToTargetExponent Format.binary64 n t .exact = (⟨n, false, false⟩, t) := by
  have short : n.log2 ≤ 52 := by
    by_cases h : n = 0
    · simp [h]
    · exact Nat.lt_succ_iff.1 ((Nat.log2_lt h).2 fits)
  have none : (Format.binary64.targetExponent (totalExponent n t) - t).toNat = 0 := by
    rw [targetExponent_eq, totalExponent]
    omega
  rw [shiftToTargetExponent, shiftToExponent, none]
  simp [HShiftRight.hShiftRight, Nat.repeat, ExtendedMantissa.ofMantissaAndAccuracy]

/-- A mantissa that was rounded up to a power of two is shifted once. -/
theorem shiftToTargetExponent_carry {t : ℤ} (low : -1074 ≤ t) :
    shiftToTargetExponent Format.binary64 (2 ^ 53) t .exact = (⟨2 ^ 52, false, false⟩, t + 1) := by
  have once : (Format.binary64.targetExponent (totalExponent (2 ^ 53) t) - t).toNat = 1 := by
    rw [targetExponent_eq, totalExponent, Nat.log2_two_pow]
    omega
  rw [shiftToTargetExponent, shiftToExponent, once]
  rfl

/-- What lies in the interval of a number is rounded to the number. -/
theorem roundWithAccuracy_eq {m : ℕ} {e : ℤ} {accuracy : Accuracy} {v : ℚ}
    (describes : Describes (ExtendedMantissa.ofMantissaAndAccuracy m accuracy) v)
    (fine : e ≤ Format.binary64.targetExponent (totalExponent m e)) {n : ℕ} {t : ℤ}
    (canonical : Canonical n t) (inside : Inside n t (v * 2 ^ e)) (s : Sign) :
    roundWithAccuracy Format.binary64 s m e accuracy = .finite s n t canonical.pos := by
  have mantissa : (ExtendedMantissa.ofMantissaAndAccuracy m accuracy).mantissa = m := by
    cases accuracy with
    | exact => rfl
    | inexact o => cases o <;> rfl
  obtain ⟨lower, upper⟩ := describes.bounds
  rw [mantissa] at lower upper
  have grid := targetExponent_inside lower upper fine canonical inside
  rw [roundWithAccuracy, shiftToTargetExponent]
  generalize Format.binary64.targetExponent (totalExponent m e) = T at fine grid ⊢
  obtain ⟨k, rfl⟩ : ∃ k : ℕ, T = e + k := ⟨(T - e).toNat, by omega⟩
  have shift : (e + (k : ℤ) - e).toNat = k := by omega
  have onGrid : v / 2 ^ k = v * 2 ^ e / 2 ^ (e + (k : ℤ)) := by
    rw [zpow_add₀ (by norm_num), zpow_natCast]
    field_simp
  have shifted := describes.shiftRight k
  rw [onGrid] at shifted
  rw [shiftToExponent, shift]
  simp only
  rcases grid with same | ⟨finer, narrow, below⟩
  · rw [same] at shifted ⊢
    rw [shifted.roundedMantissa inside.nearest,
      shiftToTargetExponent_fitting canonical.lt canonical.low]
    simp [canonical.pos.ne']
  · rw [finer] at shifted ⊢
    rw [shifted.roundedMantissa (inside.nearest_carry narrow below),
      shiftToTargetExponent_carry (by have := narrow.2; omega)]
    obtain ⟨rfl, _⟩ := narrow
    simp

/-! ### Packing -/

theorem finite_congr {s : Sign} {m n : ℕ} {e t : ℤ} (hm : m = n) (he : e = t) (pos : 0 < m)
    (pos' : 0 < n) : UnpackedFloat.finite s m e pos = .finite s n t pos' := by
  subst hm he
  rfl

/-- A number by the three parts of its bits. -/
theorem unpack_parts {b : BitVec 64} {s : Sign} {e : BitVec 11} {m : BitVec 52}
    (hs : Sign.ofBitVec (@unpackSign Format.binary64 b) = s)
    (he : @unpackExponent Format.binary64 b = e) (hm : @unpackMantissa Format.binary64 b = m) :
    UnpackedFloat.unpack Format.binary64 b
      = if e = -1#11 then if m = 0#52 then .infinity s else .notANumber
        else if e = 0#11 then
          if h : m = 0#52 then .zero s
          else .finite s m.toNat (-1074) (Nat.pos_of_ne_zero fun h0 => h (BitVec.eq_of_toNat_eq h0))
        else .finite s (2 ^ 52 + m.toNat) (e.toNat - 1075) (by omega) := by
  have append : (1#1 ++ m).toNat = 2 ^ 52 + m.toNat := by
    rw [BitVec.toNat_append, ← Nat.shiftLeft_add_eq_or_of_lt m.isLt]
    rfl
  rw [UnpackedFloat.unpack]
  simp only [hs, he, hm]
  split
  · rfl
  · split
    · next h =>
      split
      · rfl
      · refine finite_congr rfl ?_ _ _
        rw [h]
        rfl
    · refine finite_congr append ?_ _ _
      rfl

/-- A number survives being packed into 64 bits. -/
theorem unpack_pack {n : ℕ} {t : ℤ} (canonical : Canonical n t) (s : Sign) :
    (Float.Model.pack (.finite s n t canonical.pos)).unpack = .finite s n t canonical.pos := by
  obtain ⟨pos, lt, low, high, normal⟩ := canonical
  have room : ¬ 2 ^ 11 ≤ (t + 1023 + 52).toNat + 1 := by omega
  change UnpackedFloat.unpack Format.binary64 (UnpackedFloat.pack Format.binary64 _) = _
  have packed : UnpackedFloat.pack Format.binary64 (.finite s n t pos)
      = packComponents Format.binary64 s
          (if n.log2 + 1 = 53 then BitVec.ofNat 11 (t + 1023 + 52).toNat else 0#11)
          (BitVec.ofNat 52 n) := by
    rw [UnpackedFloat.pack]
    refine (if_neg room).trans ?_
    split
    · next h =>
      have h : n.log2 + 1 = 53 := h
      rw [if_pos h]
      rfl
    · next h =>
      have h : ¬ n.log2 + 1 = 53 := h
      rw [if_neg h]
  rw [packed, unpack_parts (by rw [unpackSign_packComponents, Sign.ofBitVec_toBitVec])
    (unpackExponent_packComponents ..) (unpackMantissa_packComponents ..)]
  by_cases large : 2 ^ 52 ≤ n
  · have log : n.log2 + 1 = 53 := by
      have := (Nat.log2_eq_iff pos.ne').2 ⟨large, lt⟩
      omega
    have exponent : (BitVec.ofNat 11 (t + 1023 + 52).toNat).toNat = (t + 1075).toNat := by
      rw [BitVec.toNat_ofNat]
      omega
    have notAll : BitVec.ofNat 11 (t + 1023 + 52).toNat ≠ -1#11 := fun h => by
      have := congrArg BitVec.toNat h
      have all : (-1#11).toNat = 2047 := rfl
      omega
    have notZero : BitVec.ofNat 11 (t + 1023 + 52).toNat ≠ 0#11 := fun h => by
      have := congrArg BitVec.toNat h
      have zero : (0#11).toNat = 0 := rfl
      omega
    rw [if_pos log, if_neg notAll, if_neg notZero]
    refine finite_congr ?_ ?_ _ _
    · rw [BitVec.toNat_ofNat]
      omega
    · rw [exponent]
      omega
  · have log : ¬ n.log2 + 1 = 53 := by
      have := (Nat.log2_lt pos.ne').2 (Nat.not_le.1 large)
      omega
    have mantissa : (BitVec.ofNat 52 n).toNat = n := by
      rw [BitVec.toNat_ofNat]
      omega
    have notZero : BitVec.ofNat 52 n ≠ 0#52 := fun h => by
      have := congrArg BitVec.toNat h
      have zero : (0#52).toNat = 0 := rfl
      omega
    rw [if_neg log, if_neg (by decide), if_pos rfl, dif_neg notZero]
    exact finite_congr mantissa (by omega) _ _

end CodeMetrics.Rounding
