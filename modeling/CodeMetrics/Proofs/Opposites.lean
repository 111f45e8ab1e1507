import CodeMetrics.Proofs.Whole

/-! Differences of numbers, forth and back.

    Packing a number into 64 bits and reading it again treats both signs alike, be the number too
    large for the bits or not. So does rounding. The exact difference of two numbers is the opposite
    of their difference the other way round, and so is the rounded one, except that two equal numbers
    differ by positive zero both ways. -/

namespace CodeMetrics.Rounding

open Float.Model Float.Model.UnpackedFloat

/-! ### Packing -/

theorem unpack_packComponents (s : Sign) (e : BitVec 11) (m : BitVec 52) :
    UnpackedFloat.unpack Format.binary64 (packComponents Format.binary64 s e m)
      = if e = -1#11 then if m = 0#52 then .infinity s else .notANumber
        else if e = 0#11 then
          if h : m = 0#52 then .zero s
          else .finite s m.toNat (-1074) (Nat.pos_of_ne_zero fun h0 => h (BitVec.eq_of_toNat_eq h0))
        else .finite s (2 ^ 52 + m.toNat) (e.toNat - 1075)
          (Nat.add_pos_left (Nat.two_pow_pos 52) _) :=
  unpack_parts (by rw [unpackSign_packComponents, Sign.ofBitVec_toBitVec])
    (unpackExponent_packComponents ..) (unpackMantissa_packComponents ..)

/-- The bits of opposite signs are read as opposite numbers. -/
theorem unpack_packComponents_neg (s : Sign) (e : BitVec 11) (m : BitVec 52) :
    UnpackedFloat.unpack Format.binary64 (packComponents Format.binary64 (-s) e m)
      = (UnpackedFloat.unpack Format.binary64 (packComponents Format.binary64 s e m)).neg := by
  rw [unpack_packComponents, unpack_packComponents]
  split
  · split <;> rfl
  · split
    · split <;> rfl
    · rfl

/-- A number is packed into an exponent and a mantissa that do not depend on its sign. They are never
    those of something that is not a number. -/
theorem pack_finite (n : ℕ) (t : ℤ) (pos : 0 < n) :
    ∃ (e : BitVec 11) (m : BitVec 52), (e = -1#11 → m = 0#52) ∧ ∀ s : Sign,
      UnpackedFloat.pack Format.binary64 (.finite s n t pos)
        = packComponents Format.binary64 s e m := by
  by_cases large : 2 ^ 11 ≤ (t + 1023 + 52).toNat + 1
  · exact ⟨-1#11, 0#52, fun _ => rfl, fun s => if_pos large⟩
  by_cases normal : n.log2 + 1 = 53
  · refine ⟨BitVec.ofNat 11 (t + 1023 + 52).toNat, BitVec.ofNat 52 n, fun all => ?_, fun s =>
      (if_neg large).trans (if_pos normal)⟩
    have all := congrArg BitVec.toNat all
    have ones : (-1#11).toNat = 2047 := rfl
    rw [BitVec.toNat_ofNat, ones] at all
    omega
  · exact ⟨0#11, BitVec.ofNat 52 n, fun all => absurd all (by decide), fun s =>
      (if_neg large).trans (if_neg normal)⟩

/-- Opposite numbers are packed as opposite numbers. -/
theorem unpack_pack_neg (u : UnpackedFloat) :
    (Float.Model.pack u.neg).unpack = (Float.Model.pack u).unpack.neg := by
  change UnpackedFloat.unpack Format.binary64 (UnpackedFloat.pack Format.binary64 _)
    = (UnpackedFloat.unpack Format.binary64 (UnpackedFloat.pack Format.binary64 _)).neg
  cases u with
  | notANumber => rfl
  | infinity s => exact unpack_packComponents_neg s _ _
  | zero s => exact unpack_packComponents_neg s _ _
  | finite s n t pos =>
    obtain ⟨e, m, -, packed⟩ := pack_finite n t pos
    rw [UnpackedFloat.neg, packed, packed]
    exact unpack_packComponents_neg s e m

/-- A number is packed as a number. -/
theorem isNaN_unpack_pack {u : UnpackedFloat} (number : u.isNaN = false) :
    (Float.Model.pack u).unpack.isNaN = false := by
  change (UnpackedFloat.unpack Format.binary64 (UnpackedFloat.pack Format.binary64 _)).isNaN = false
  cases u with
  | notANumber => cases number
  | infinity s => cases s <;> rfl
  | zero s => cases s <;> rfl
  | finite s n t pos =>
    obtain ⟨e, m, infinite, packed⟩ := pack_finite n t pos
    rw [packed, unpack_packComponents]
    split
    · next all => rw [if_pos (infinite all)]; rfl
    · split
      · split <;> rfl
      · rfl

/-! ### Subtracting -/

/-- Rounding treats both signs alike. -/
theorem round_neg (s : Sign) (m : ℕ) (e : ℤ) :
    UnpackedFloat.round Format.binary64 (-s) m e
      = (UnpackedFloat.round Format.binary64 s m e).neg := by
  simp only [UnpackedFloat.round, roundWithAccuracy]
  split <;> rfl

theorem isNaN_round (s : Sign) (m : ℕ) (e : ℤ) :
    (UnpackedFloat.round Format.binary64 s m e).isNaN = false := by
  simp only [UnpackedFloat.round, roundWithAccuracy]
  split <;> rfl

theorem isNaN_normalize (k e : ℤ) (s : Sign) :
    (UnpackedFloat.normalize Format.binary64 k e s).isNaN = false := by
  rw [UnpackedFloat.normalize]
  split
  · exact isNaN_round _ _ _
  · rfl
  · exact isNaN_round _ _ _

theorem normalize_neg {k : ℤ} (nonzero : k ≠ 0) (e : ℤ) (s : Sign) :
    UnpackedFloat.normalize Format.binary64 (-k) e s
      = (UnpackedFloat.normalize Format.binary64 k e s).neg := by
  rcases lt_or_gt_of_ne nonzero with low | high
  · have below : compare k 0 = .lt := Int.compare_eq_lt.2 low
    have above : compare (-k) 0 = .gt := Int.compare_eq_gt.2 (by omega)
    rw [UnpackedFloat.normalize, UnpackedFloat.normalize, below, above]
    exact round_neg .negative _ _
  · have above : compare k 0 = .gt := Int.compare_eq_gt.2 high
    have below : compare (-k) 0 = .lt := Int.compare_eq_lt.2 (by omega)
    simp only [UnpackedFloat.normalize, below, above, neg_neg]
    exact round_neg .positive _ _

/-- Two numbers, and neither of them infinite, differ by a number. -/
theorem isNaN_sub {u v : UnpackedFloat} (hu : u.isFinite = true) (hv : v.isFinite = true) :
    (UnpackedFloat.sub Format.binary64 u v).isNaN = false := by
  cases u <;> cases v <;> first | contradiction | skip
  case zero.zero =>
    rw [UnpackedFloat.sub]
    split <;> rfl
  case zero.finite => rfl
  case finite.zero => rfl
  case finite.finite => exact isNaN_normalize _ _ _

/-- The difference the other way round is the opposite one, or none is a difference. -/
theorem sub_reverse {u v : UnpackedFloat} (hu : u.isFinite = true) (hv : v.isFinite = true) :
    UnpackedFloat.sub Format.binary64 v u = (UnpackedFloat.sub Format.binary64 u v).neg ∨
      UnpackedFloat.sub Format.binary64 u v = .zero .positive ∧
        UnpackedFloat.sub Format.binary64 v u = .zero .positive := by
  cases u <;> cases v <;> first | contradiction | skip
  case zero.zero s s' =>
    cases s <;> cases s'
    · exact Or.inr ⟨rfl, rfl⟩
    · exact Or.inl rfl
    · exact Or.inl rfl
    · exact Or.inr ⟨rfl, rfl⟩
  case zero.finite s s' n t pos => cases s' <;> exact Or.inl rfl
  case finite.zero s n t pos s' => exact Or.inl rfl
  case finite.finite s n t pos s' n' t' pos' =>
    -- the exact difference, at the smaller of the two exponents
    set e := min t t' with least
    set k := s.apply (n <<< (t - e).toNat : ℕ) - s'.apply (n' <<< (t' - e).toNat : ℕ) with exact
    have forth : UnpackedFloat.sub Format.binary64 (.finite s n t pos) (.finite s' n' t' pos')
        = UnpackedFloat.normalize Format.binary64 k e .positive := rfl
    have back : UnpackedFloat.sub Format.binary64 (.finite s' n' t' pos') (.finite s n t pos)
        = UnpackedFloat.normalize Format.binary64 (-k) e .positive := by
      rw [exact, neg_sub, least, min_comm]
      rfl
    rw [forth, back]
    by_cases none : k = 0
    · rw [none]
      exact Or.inr ⟨rfl, rfl⟩
    · exact Or.inl (normalize_neg none e _)

/-! ### Numbers -/

theorem ofModel_pack_unpack (x : Float) : Float.ofModel (Float.Model.pack x.toModel.unpack) = x := by
  obtain ⟨⟨bits, valid⟩⟩ := x
  have packed : UnpackedFloat.pack Format.binary64 (UnpackedFloat.unpack Format.binary64
      bits.toBitVec) = bits.toBitVec := pack_unpack_of_valid valid
  simp only [Float.Model.pack, Float.Model.unpack, packed]

theorem unpack_neg (x : Float) : (-x).toModel.unpack = x.toModel.unpack.neg := by
  have packed := congrArg (fun y => y.toModel.unpack.neg) (ofModel_pack_unpack x)
  exact (unpack_pack_neg _).trans packed

/-- Opposite numbers are equally large. -/
theorem abs_neg_eq (x : Float) : (-x).abs = x.abs := by
  have size : (-x).toModel.unpack.abs = x.toModel.unpack.abs := by
    rw [unpack_neg]
    cases x.toModel.unpack <;> rfl
  exact congrArg (fun u => Float.ofModel (Float.Model.pack u)) size

/-- What is beyond the tolerance is positive, or its opposite is. -/
theorem neg_pos_iff {x : Float} (number : x.isNaN = false) (large : ¬ x.abs ≤ tolerance) :
    -x > 0.0 ↔ ¬ x > 0.0 := by
  change decide (UnpackedFloat.lt (.zero .positive) (-x).toModel.unpack = true) = true
    ↔ ¬ decide (UnpackedFloat.lt (.zero .positive) x.toModel.unpack = true) = true
  have number : x.toModel.unpack.isNaN = false := number
  rw [unpack_neg]
  cases h : x.toModel.unpack with
  | notANumber =>
    rw [h] at number
    cases number
  | infinity s => cases s <;> decide
  | zero s =>
    have none : x.abs = 0.0 :=
      congrArg (fun u : UnpackedFloat => Float.ofModel (Float.Model.pack u.abs)) h
    rw [none] at large
    exact absurd (by decide) large
  | finite s n t pos =>
    rw [UnpackedFloat.neg]
    cases s <;> simp [UnpackedFloat.lt, UnpackedFloat.compare]

section Finite

variable {x y : Float} (hx : x.isFinite = true) (hy : y.isFinite = true)

include hx hy

theorem isNaN_sub_eq_false : (x - y).isNaN = false := isNaN_unpack_pack (isNaN_sub hx hy)

/-- The difference the other way round is the opposite one, or none is a difference. -/
theorem sub_eq_neg_sub : y - x = -(x - y) ∨ x - y = 0.0 ∧ y - x = 0.0 := by
  rcases sub_reverse hx hy with opposite | ⟨none, none'⟩
  · refine Or.inl (eq_of_unpack ?_)
    rw [unpack_neg]
    exact (congrArg (fun u => (Float.Model.pack u).unpack) opposite).trans (unpack_pack_neg _)
  · exact Or.inr ⟨congrArg (fun u => Float.ofModel (Float.Model.pack u)) none,
      congrArg (fun u => Float.ofModel (Float.Model.pack u)) none'⟩

/-- Both differences are equally large. -/
theorem abs_sub_eq : (y - x).abs = (x - y).abs := by
  rcases sub_eq_neg_sub hx hy with opposite | ⟨none, none'⟩
  · rw [opposite, abs_neg_eq]
  · rw [none, none']

end Finite

end CodeMetrics.Rounding
