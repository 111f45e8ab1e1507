import CodeMetrics.Decimal.Shortest
import CodeMetrics.Proofs.Rounding

/-! The shortest decimal of a number lies in the interval of what is rounded to the number. A decimal
    is only taken from a grid where it is in the interval, and seventeen digits always suffice: the
    grid that they make is finer than the numbers are apart. -/

namespace CodeMetrics.Decimal

open Rounding

/-! ### Counting digits -/

theorem digitCount_zero : digitCount 0 = 0 := by rw [digitCount, if_pos rfl]

theorem digitCount_pos {n : ℕ} (h : n ≠ 0) : digitCount n = digitCount (n / 10) + 1 := by
  rw [digitCount, if_neg h]

theorem lt_pow_digitCount (n : ℕ) : n < 10 ^ digitCount n := by
  induction n using Nat.strong_induction_on with
  | _ n ih =>
    by_cases h : n = 0
    · subst h; norm_num
    · have := ih (n / 10) (by omega)
      rw [digitCount_pos h, pow_succ]
      omega

theorem pow_le_of_digitCount {n : ℕ} (h : n ≠ 0) : 10 ^ (digitCount n - 1) ≤ n := by
  induction n using Nat.strong_induction_on with
  | _ n ih =>
    rw [digitCount_pos h, Nat.add_sub_cancel]
    by_cases small : n / 10 = 0
    · rw [small, digitCount_zero]
      omega
    · have := ih (n / 10) (by omega) small
      rw [digitCount_pos small, Nat.add_sub_cancel] at this
      rw [digitCount_pos small, pow_succ]
      omega

/-! ### The interval -/

section Interval

variable {b : Binary} (canonical : Canonical b.mantissa b.exponent)

/-- A power as a quotient of whole numbers. -/
theorem pow_div_pow {base : ℕ} (h : base ≠ 0) (e : ℤ) :
    ((Nat.pow base e.toNat : ℕ) : ℚ) / (Nat.pow base (-e).toNat : ℕ) = base ^ e := by
  have nonzero : (base : ℚ) ≠ 0 := by exact_mod_cast h
  have power : ∀ k, ((Nat.pow base k : ℕ) : ℚ) = base ^ (k : ℤ) := fun k => by
    rw [zpow_natCast]
    exact_mod_cast rfl
  rw [power, power, ← zpow_sub₀ nonzero]
  congr 1
  omega

theorem den_pos (b : Binary) : (0 : ℚ) < b.interval.den := by
  have : 0 < b.interval.den := Nat.pow_pos (by norm_num)
  exact_mod_cast this

/-- A count of quarter steps over the denominator. -/
theorem quarters_div (b : Binary) (k : ℕ) :
    ((k * (Binary.scale (b.exponent - 2)).1 : ℕ) : ℚ) / b.interval.den
      = (k / 4 : ℚ) * 2 ^ b.exponent := by
  have quarter : (2 : ℚ) ^ (b.exponent - 2) = 2 ^ b.exponent / 4 := by
    rw [zpow_sub₀ (by norm_num)]; norm_num
  have scaled : ((Binary.scale (b.exponent - 2)).1 : ℚ) / b.interval.den = 2 ^ (b.exponent - 2) :=
    pow_div_pow two_ne_zero _
  rw [Nat.cast_mul, mul_div_assoc, scaled, quarter]
  ring

theorem value_div (b : Binary) :
    (b.interval.value : ℚ) / b.interval.den = b.mantissa * 2 ^ b.exponent := by
  refine (quarters_div b (4 * b.mantissa)).trans ?_
  push_cast
  ring

theorem high_div (b : Binary) :
    (b.interval.high : ℚ) / b.interval.den = (b.mantissa + 1 / 2) * 2 ^ b.exponent := by
  refine (quarters_div b (4 * b.mantissa + 2)).trans ?_
  push_cast
  ring

include canonical

theorem low_div : (b.interval.low : ℚ) / b.interval.den
    = (b.mantissa - if isNarrow b.mantissa b.exponent then 1 / 4 else 1 / 2)
      * 2 ^ b.exponent := by
  have pos := canonical.pos
  by_cases narrow : isNarrow b.mantissa b.exponent
  · have low : b.interval.low = (4 * b.mantissa - 1) * (Binary.scale (b.exponent - 2)).1 :=
      congrArg (fun k => (4 * b.mantissa - k) * (Binary.scale (b.exponent - 2)).1) (if_pos narrow)
    rw [low, quarters_div, if_pos narrow, Nat.cast_sub (by omega)]
    push_cast
    ring
  · have low : b.interval.low = (4 * b.mantissa - 2) * (Binary.scale (b.exponent - 2)).1 :=
      congrArg (fun k => (4 * b.mantissa - k) * (Binary.scale (b.exponent - 2)).1) (if_neg narrow)
    rw [low, quarters_div, if_neg narrow, Nat.cast_sub (by omega)]
    push_cast
    ring

theorem value_pos : 0 < b.interval.value := by
  have := canonical.pos
  exact Nat.mul_pos (by omega) (Nat.pow_pos (by norm_num))

/-- Whether a fraction is held, by its value. -/
theorem holds_iff {a m : ℕ} (pos : 0 < m) :
    b.interval.holds a m = true ↔
      if b.mantissa % 2 = 0 then
        (b.mantissa - if isNarrow b.mantissa b.exponent then 1 / 4 else 1 / 2) * 2 ^ b.exponent
            ≤ (a : ℚ) / m ∧ (a : ℚ) / m ≤ (b.mantissa + 1 / 2) * 2 ^ b.exponent
      else
        (b.mantissa - if isNarrow b.mantissa b.exponent then 1 / 4 else 1 / 2) * 2 ^ b.exponent
            < (a : ℚ) / m ∧ (a : ℚ) / m < (b.mantissa + 1 / 2) * 2 ^ b.exponent := by
  have hm : (0 : ℚ) < m := by exact_mod_cast pos
  have hd := den_pos b
  have closed : b.interval.closed = decide (b.mantissa % 2 = 0) := rfl
  rw [← low_div canonical, ← high_div b, Interval.holds, closed]
  simp only [div_le_div_iff₀ hd hm, div_le_div_iff₀ hm hd, div_lt_div_iff₀ hd hm,
    div_lt_div_iff₀ hm hd]
  by_cases even : b.mantissa % 2 = 0
  · simp only [even, decide_true, if_true, Bool.and_eq_true, decide_eq_true_eq]
    norm_cast
  · simp only [even, decide_false, if_false, Bool.false_eq_true, Bool.and_eq_true,
      decide_eq_true_eq]
    norm_cast

/-- What is held is inside. -/
theorem inside_of_holds {a m : ℕ} (pos : 0 < m) (h : b.interval.holds a m = true) :
    Inside b.mantissa b.exponent ((a : ℚ) / m) := by
  rw [holds_iff canonical pos] at h
  split at h
  · next even => exact ⟨h.1, h.2, fun odd => by omega⟩
  · next odd =>
    refine ⟨h.1.le, h.2.le, fun _ => ⟨?_, h.2⟩⟩
    have wide : ¬isNarrow b.mantissa b.exponent := by
      rintro ⟨narrow, -⟩
      rw [narrow] at odd
      norm_num at odd
    rw [if_neg wide] at h
    exact h.1

/-- What is well inside is held. -/
theorem holds_of_lt {a m : ℕ} (pos : 0 < m)
    (low : (b.mantissa - if isNarrow b.mantissa b.exponent then 1 / 4 else 1 / 2)
      * 2 ^ b.exponent < (a : ℚ) / m)
    (high : (a : ℚ) / m < (b.mantissa + 1 / 2) * 2 ^ b.exponent) :
    b.interval.holds a m = true := by
  rw [holds_iff canonical pos]
  split
  · exact ⟨low.le, high.le⟩
  · exact ⟨low, high⟩

/-- The powers of ten around a number. -/
theorem decade_bounds : (10 : ℚ) ^ (b.interval.decade - 1) ≤ b.mantissa * 2 ^ b.exponent ∧
    (b.mantissa * 2 ^ b.exponent : ℚ) < 10 ^ b.interval.decade := by
  have hd := den_pos b
  have hden : 0 < b.interval.den := by exact_mod_cast hd
  have hv := value_pos canonical
  rw [← value_div, Interval.decade, le_div_iff₀ hd, div_lt_iff₀ hd]
  split
  · next large =>
    set q := b.interval.value / b.interval.den with q_eq
    have hq : q ≠ 0 := (Nat.div_pos large hden).ne'
    have count : 1 ≤ digitCount q := by rw [digitCount_pos hq]; omega
    have low : 10 ^ (digitCount q - 1) * b.interval.den ≤ b.interval.value :=
      (Nat.mul_le_mul_right _ (pow_le_of_digitCount hq)).trans (Nat.div_mul_le_self _ _)
    have high : b.interval.value < 10 ^ digitCount q * b.interval.den :=
      (Nat.div_lt_iff_lt_mul hden).1 (lt_pow_digitCount q)
    constructor
    · rw [← Nat.cast_one, ← Nat.cast_sub count, zpow_natCast]
      exact_mod_cast low
    · rw [zpow_natCast]
      exact_mod_cast high
  · next small =>
    set q := (b.interval.den - 1) / b.interval.value with q_eq
    have hq : q ≠ 0 := (Nat.div_pos (by omega) hv).ne'
    have count : 1 ≤ digitCount q := by rw [digitCount_pos hq]; omega
    have high : 10 ^ (digitCount q - 1) * b.interval.value < b.interval.den := by
      have := (Nat.mul_le_mul_right b.interval.value (pow_le_of_digitCount hq)).trans
        (Nat.div_mul_le_self _ _)
      omega
    have low : b.interval.den ≤ b.interval.value * 10 ^ digitCount q := by
      have := (Nat.div_lt_iff_lt_mul hv).1 (lt_pow_digitCount q)
      rw [Nat.mul_comm]
      omega
    have hpos : (0 : ℚ) < 10 ^ digitCount q := by positivity
    constructor
    · rw [show 1 - (digitCount q : ℤ) - 1 = -digitCount q by ring, zpow_neg, zpow_natCast,
        inv_mul_le_iff₀ hpos, mul_comm]
      exact_mod_cast low
    · rw [show 1 - (digitCount q : ℤ) = -((digitCount q - 1 : ℕ) : ℤ) by omega, zpow_neg,
        zpow_natCast, lt_inv_mul_iff₀ (by positivity)]
      exact_mod_cast high

end Interval

/-! ### Grids -/

section Grid

variable {b : Binary} (canonical : Canonical b.mantissa b.exponent)

theorem roundDiv_eq (num den : ℕ) :
    roundDiv num den = num / den ∨ roundDiv num den = num / den + 1 := by
  rw [roundDiv]
  split
  · exact Or.inl rfl
  · split
    · exact Or.inr rfl
    · rcases Nat.mod_two_eq_zero_or_one (num / den) with h | h <;> simp [h]

/-- What is taken from a grid is held. -/
theorem holds_of_onGrid {i : Interval} {p : ℤ} {s : Scientific} (h : i.onGrid p = some s) :
    s.exponent = p ∧
      i.holds (s.coefficient * Nat.pow 10 p.toNat) (Nat.pow 10 (-p).toNat) = true := by
  rw [Interval.onGrid] at h
  simp only at h
  split at h
  · next lower upper =>
    cases h
    rcases roundDiv_eq (i.value * Nat.pow 10 (-p).toNat) (i.den * Nat.pow 10 p.toNat) with same | same
    · exact ⟨rfl, by rw [same]; exact lower⟩
    · exact ⟨rfl, by rw [same]; exact upper⟩
  · next lower _ => cases h; exact ⟨rfl, lower⟩
  · next _ upper => cases h; exact ⟨rfl, upper⟩
  · cases h

theorem ten_pos (k : ℕ) : 0 < Nat.pow 10 k := Nat.pow_pos (by norm_num)

theorem ten_div (c : ℕ) (p : ℤ) :
    ((c * Nat.pow 10 p.toNat : ℕ) : ℚ) / (Nat.pow 10 (-p).toNat : ℕ) = c * 10 ^ p := by
  rw [Nat.cast_mul, mul_div_assoc, pow_div_pow (by norm_num)]
  norm_num

/-- The neighbours of a number on a grid. -/
theorem neighbours (b : Binary) (p : ℤ) :
    let below := b.interval.value * Nat.pow 10 (-p).toNat / (b.interval.den * Nat.pow 10 p.toNat)
    (below : ℚ) * 10 ^ p ≤ b.mantissa * 2 ^ b.exponent ∧
      (b.mantissa * 2 ^ b.exponent : ℚ) < ((below + 1 : ℕ) : ℚ) * 10 ^ p := by
  intro below
  have hd : 0 < b.interval.den := by exact_mod_cast den_pos b
  have divisor : 0 < b.interval.den * Nat.pow 10 p.toNat := Nat.mul_pos hd (ten_pos _)
  have hdown : (0 : ℚ) < (Nat.pow 10 (-p).toNat : ℕ) := by exact_mod_cast ten_pos _
  have low : below * Nat.pow 10 p.toNat * b.interval.den
      ≤ b.interval.value * Nat.pow 10 (-p).toNat := by
    rw [Nat.mul_assoc, Nat.mul_comm (Nat.pow 10 p.toNat)]
    exact Nat.div_mul_le_self _ _
  have high : b.interval.value * Nat.pow 10 (-p).toNat
      < (below + 1) * Nat.pow 10 p.toNat * b.interval.den := by
    rw [Nat.mul_assoc, Nat.mul_comm (Nat.pow 10 p.toNat)]
    exact (Nat.div_lt_iff_lt_mul divisor).1 (Nat.lt_succ_self _)
  rw [← ten_div, ← ten_div, ← value_div, div_le_div_iff₀ hdown (den_pos b),
    div_lt_div_iff₀ (den_pos b) hdown]
  exact ⟨by exact_mod_cast low, by exact_mod_cast high⟩

include canonical

theorem inside_of_onGrid {p : ℤ} {s : Scientific} (h : b.interval.onGrid p = some s) :
    Inside b.mantissa b.exponent (s.coefficient * 10 ^ s.exponent) := by
  obtain ⟨rfl, held⟩ := holds_of_onGrid h
  have inside := inside_of_holds canonical (ten_pos _) held
  rwa [ten_div] at inside

/-- The grid of seventeen digits is finer than the numbers are apart. -/
theorem grid_lt : (10 : ℚ) ^ (b.interval.decade - 17) < 2 ^ b.exponent ∧
    (isNarrow b.mantissa b.exponent →
      (10 : ℚ) ^ (b.interval.decade - 17) < 1 / 2 * 2 ^ b.exponent) := by
  have step : (10 : ℚ) ^ 16 * 10 ^ (b.interval.decade - 17) ≤ b.mantissa * 2 ^ b.exponent := by
    refine le_trans (le_of_eq ?_) (decade_bounds canonical).1
    rw [← zpow_natCast, ← zpow_add₀ (by norm_num)]
    congr 1
    push_cast
    ring
  have hpos : (0 : ℚ) < 2 ^ b.exponent := by positivity
  constructor
  · have short : (b.mantissa : ℚ) < 2 ^ 53 := by exact_mod_cast canonical.lt
    have : (b.mantissa : ℚ) * 2 ^ b.exponent < 2 ^ 53 * 2 ^ b.exponent := by gcongr
    linarith
  · rintro ⟨least, -⟩
    rw [least] at step
    push_cast at step
    linarith

/-- Seventeen digits suffice. -/
theorem onGrid_seventeen : b.interval.onGrid (b.interval.decade - 17) ≠ none := by
  obtain ⟨fine, finer⟩ := grid_lt canonical
  obtain ⟨low, high⟩ := neighbours b (b.interval.decade - 17)
  have hpos : (0 : ℚ) < 2 ^ b.exponent := by positivity
  rw [Interval.onGrid]
  simp only
  set p := b.interval.decade - 17
  set below := b.interval.value * Nat.pow 10 (-p).toNat / (b.interval.den * Nat.pow 10 p.toNat)
  split
  · simp
  · simp
  · simp
  · next notBelow notAbove =>
    exfalso
    rcases le_or_gt (((below + 1 : ℕ) : ℚ) * 10 ^ p - b.mantissa * 2 ^ b.exponent) (10 ^ p / 2)
      with near | far
    · -- the upper neighbour is not further than half a step
      have held := holds_of_lt canonical (a := (below + 1) * Nat.pow 10 p.toNat) (ten_pos (-p).toNat)
      rw [ten_div] at held
      rw [held ?_ ?_] at notAbove
      · cases notAbove
      · refine lt_trans ?_ high
        gcongr
        split <;> linarith
      · linarith
    · have held := holds_of_lt canonical (a := below * Nat.pow 10 p.toNat) (ten_pos (-p).toNat)
      rw [ten_div] at held
      rw [held ?_ ?_] at notBelow
      · cases notBelow
      · push_cast at far
        split
        · next narrow => linarith [finer narrow]
        · linarith
      · linarith

end Grid

/-! ### The shortest decimal -/

/-- Zeros at the end do not count. -/
theorem stripped_value (s : Scientific) :
    (s.stripped.coefficient : ℚ) * 10 ^ s.stripped.exponent = s.coefficient * 10 ^ s.exponent := by
  fun_induction Scientific.stripped s with
  | case1 s => rfl
  | case2 s nonzero ten ih =>
    rw [ih]
    have split : (s.coefficient : ℚ) = (s.coefficient / 10 : ℕ) * 10 := by
      exact_mod_cast (Nat.div_mul_cancel (Nat.dvd_of_mod_eq_zero ten)).symm
    rw [split, zpow_add_one₀ (by norm_num)]
    push_cast
    ring
  | case3 s => rfl

/-- The shortest decimal of a number is rounded to the number. -/
theorem inside_shortest {b : Binary} (canonical : Canonical b.mantissa b.exponent) :
    Inside b.mantissa b.exponent ((shortest b).coefficient * 10 ^ (shortest b).exponent) := by
  rw [shortest, stripped_value]
  cases found : (List.range 17).findSome? fun n : ℕ =>
      b.interval.onGrid (b.interval.decade - (n + 1 : ℕ)) with
  | none =>
    exact absurd (List.findSome?_eq_none_iff.1 found 16 (by simp)) (onGrid_seventeen canonical)
  | some s =>
    obtain ⟨n, -, hs⟩ := List.exists_of_findSome?_eq_some found
    exact inside_of_onGrid canonical hs

end CodeMetrics.Decimal
