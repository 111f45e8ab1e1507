import CodeMetrics.Json.Reader
import CodeMetrics.Json.Writer
import CodeMetrics.Proofs.Scientific
import CodeMetrics.Proofs.Shortest

/-! Reading a number gives back the number that was written, whole numbers digit by digit and finite
    ones by the interval that their shortest decimal lies in. -/

namespace CodeMetrics.Json

open Decimal

/-! ### Digits -/

/-- What can follow digits. -/
def Stops (rest : List Char) : Prop := ∀ c ∈ rest.head?, c.isDigit = false

theorem span_digits {ds rest : List Char} (isDigit : ∀ c ∈ ds, c.isDigit = true)
    (stops : Stops rest) : (ds ++ rest).span Char.isDigit = (ds, rest) := by
  have none : rest.takeWhile Char.isDigit = [] ∧ rest.dropWhile Char.isDigit = rest := by
    cases rest with
    | nil => exact ⟨rfl, rfl⟩
    | cons c rest => simp [stops c rfl]
  rw [List.span_eq_takeWhile_dropWhile, List.takeWhile_append_of_pos isDigit,
    List.dropWhile_append_of_pos isDigit, none.1, none.2, List.append_nil]

theorem readDigits_append {ds rest : List Char} (isDigit : ∀ c ∈ ds, c.isDigit = true)
    (nonempty : ds ≠ []) (stops : Stops rest) : readDigits (ds ++ rest) = some (ds, rest) := by
  rw [readDigits, span_digits isDigit stops]
  cases ds with
  | nil => exact absurd rfl nonempty
  | cons c ds => rfl

/-- Digits of a whole number: no zero in front of others. -/
structure IsWhole (ds : List Char) : Prop where
  isDigit : ∀ c ∈ ds, c.isDigit = true
  nonempty : ds ≠ []
  lead : ds = ['0'] ∨ ds.head? ≠ some '0'

theorem readWhole_append {ds rest : List Char} (whole : IsWhole ds) (stops : Stops rest) :
    readWhole (ds ++ rest) = some (ds, rest) := by
  rcases whole.lead with rfl | lead
  · have : rest.head?.any Char.isDigit = false := by
      cases rest with
      | nil => rfl
      | cons c rest => exact stops c rfl
    simp [readWhole, this]
  · have digits := readDigits_append whole.isDigit whole.nonempty stops
    cases ds with
    | nil => exact absurd rfl whole.nonempty
    | cons d ds =>
      rw [List.cons_append] at digits ⊢
      rw [readWhole]
      · exact digits
      · intro rest h
        obtain rfl : d = '0' := (List.cons.inj h).1
        exact lead rfl

theorem isDigit_of_mem_digits {n : ℕ} {c : Char} (h : c ∈ digits n) : c.isDigit = true :=
  Nat.isDigit_of_mem_toDigits (by norm_num) (by norm_num) h

theorem digits_ne_nil (n : ℕ) : digits n ≠ [] := Nat.toDigits_ne_nil

theorem ofDigitChars_digits (n : ℕ) : Nat.ofDigitChars 10 (digits n) 0 = n :=
  Nat.ofDigitChars_ten_toDigits

theorem head_digits {n : ℕ} (h : n ≠ 0) : (digits n).head? ≠ some '0' := by
  induction n using Nat.strong_induction_on with
  | _ n ih =>
    rw [digits, Nat.toDigits_eq_if (by norm_num)]
    split
    · next small =>
      have : 1 ≤ n := Nat.one_le_iff_ne_zero.2 h
      interval_cases n <;> decide
    · next large =>
      have front := ih (n / 10) (by omega) (by omega)
      rwa [List.head?_append_of_ne_nil _ Nat.toDigits_ne_nil]

theorem isWhole_digits (n : ℕ) : IsWhole (digits n) := by
  refine ⟨fun _ => isDigit_of_mem_digits, digits_ne_nil n, ?_⟩
  by_cases h : n = 0
  · subst h; exact Or.inl rfl
  · exact Or.inr (head_digits h)

/-! ### Literals -/

/-- The digits after the point, with the point, if there are any. -/
def fractionText : List Char → List Char
  | [] => []
  | d :: ds => '.' :: d :: ds

/-- The sign of a negative number. -/
def signText (minus : Bool) : List Char := if minus then ['-'] else []

/-- An exponent as it is written: nothing, or its mark, perhaps a sign, and digits. -/
inductive Power : List Char → Option ℤ → Prop
  | absent : Power [] none
  | written {mark : Char} {sign ds : List Char} (isMark : mark = 'e' ∨ mark = 'E')
      (isSign : sign = [] ∨ sign = ['+'] ∨ sign = ['-']) (isDigit : ∀ c ∈ ds, c.isDigit = true)
      (nonempty : ds ≠ []) :
      Power (mark :: (sign ++ ds)) (some (if sign = ['-'] then -(Nat.ofDigitChars 10 ds 0 : ℤ)
        else Nat.ofDigitChars 10 ds 0))

/-- The number that the parts of a literal stand for, if it is in range. -/
def numberOf (minus : Bool) (whole fraction : List Char) (power : Option ℤ) : Option Number :=
  if fraction.isEmpty ∧ power.isNone then wholeOf? minus (Nat.ofDigitChars 10 whole 0)
  else (realOf? minus (Nat.ofDigitChars 10 (whole ++ fraction) 0)
    (power.getD 0 - (fraction.length : ℤ))).map .real

/-- A number as it is written, with what it stands for. -/
inductive Literal : List Char → Option Number → Prop
  | parts (minus : Bool) {whole fraction exponent : List Char} {power : Option ℤ}
      (isWhole : IsWhole whole) (isDigit : ∀ c ∈ fraction, c.isDigit = true)
      (isPower : Power exponent power) :
      Literal (signText minus ++ (whole ++ (fractionText fraction ++ exponent)))
        (numberOf minus whole fraction power)

/-- What can follow a number: nothing that it would go on with. -/
def Follows (rest : List Char) : Prop :=
  ∀ c ∈ rest.head?, c.isDigit = false ∧ c ≠ '.' ∧ c ≠ 'e' ∧ c ≠ 'E'

theorem Follows.stops {rest : List Char} (h : Follows rest) : Stops rest := fun c hc => (h c hc).1

section Parts

variable {whole fraction exponent rest : List Char} {power : Option ℤ}

theorem readExponent_append (isPower : Power exponent power) (follows : Follows rest) :
    readExponent (exponent ++ rest) = some (power, rest) := by
  cases isPower with
  | absent =>
    cases rest with
    | nil => rfl
    | cons c rest =>
      obtain ⟨-, -, lower, upper⟩ := follows c rfl
      rw [List.nil_append, readExponent]
      · exact fun _ h => lower (List.cons.inj h).1
      · exact fun _ h => upper (List.cons.inj h).1
  | @written mark sign ds isMark isSign isDigit nonempty =>
    have read := readDigits_append isDigit nonempty follows.stops
    obtain ⟨d, ds, rfl⟩ := List.exists_cons_of_ne_nil nonempty
    have digit := isDigit d List.mem_cons_self
    have noSign : d ≠ '-' ∧ d ≠ '+' := by
      constructor <;> rintro rfl <;> cases digit
    rcases isMark with rfl | rfl <;> rcases isSign with rfl | rfl | rfl <;>
      simp_all [readExponent]

theorem Power.stops (isPower : Power exponent power) (follows : Follows rest) :
    Stops (exponent ++ rest) ∧ (exponent ++ rest).head? ≠ some '.' := by
  cases isPower with
  | absent =>
    refine ⟨follows.stops, fun h => ?_⟩
    exact (follows '.' h).2.1 rfl
  | written isMark =>
    rcases isMark with rfl | rfl
    all_goals exact ⟨by rintro c ⟨⟩; rfl, by simp⟩

theorem readFraction_append (isDigit : ∀ c ∈ fraction, c.isDigit = true)
    (stops : Stops rest) (point : rest.head? ≠ some '.') :
    readFraction (fractionText fraction ++ rest) = some (fraction, rest) := by
  cases fraction with
  | nil =>
    rw [fractionText, List.nil_append, readFraction]
    rintro rest rfl
    exact point rfl
  | cons d ds => exact readDigits_append isDigit (List.cons_ne_nil d ds) stops

theorem stops_fractionText (fraction : List Char) (stops : Stops rest) :
    Stops (fractionText fraction ++ rest) := by
  cases fraction with
  | nil => exact stops
  | cons d ds => rintro c ⟨⟩; rfl

end Parts

/-- A literal is read to its end. -/
theorem readNumber_literal {text rest : List Char} {n : Option Number} (literal : Literal text n)
    (follows : Follows rest) : readNumber (text ++ rest) = some (n, rest) := by
  obtain ⟨minus, isWhole, isDigit, isPower⟩ := literal
  rename_i whole fraction exponent power
  obtain ⟨stops, point⟩ := isPower.stops follows
  have hwhole := readWhole_append isWhole (stops_fractionText fraction stops)
  have hfraction := readFraction_append isDigit stops point
  have hpower := readExponent_append isPower follows
  simp only [List.append_assoc]
  cases minus with
  | true =>
    simp only [signText, if_true, List.cons_append, List.nil_append, readNumber, hwhole, hfraction,
      hpower, Option.bind_eq_bind, Option.bind_some, numberOf]
    split <;> rfl
  | false =>
    have digit : ∀ tail, whole ++ (fractionText fraction ++ (exponent ++ rest)) ≠ '-' :: tail := by
      intro tail h
      cases whole with
      | nil => exact isWhole.nonempty rfl
      | cons d ds =>
        obtain rfl : d = '-' := (List.cons.inj h).1
        cases isWhole.isDigit '-' List.mem_cons_self
    simp only [signText, Bool.false_eq_true, if_false, List.nil_append]
    rw [readNumber]
    · simp only [hwhole, hfraction, hpower, Option.bind_eq_bind, Option.bind_some, numberOf]
      split <;> rfl
    · exact digit

/-- What a literal starts with. -/
theorem Literal.start {text : List Char} {n : Option Number} (literal : Literal text n) :
    ∃ c tail, text = c :: tail ∧ (c = '-' ∨ c.isDigit) := by
  obtain ⟨minus, isWhole, -, -⟩ := literal
  rename_i whole fraction exponent power
  cases minus with
  | true => exact ⟨_, _, rfl, Or.inl rfl⟩
  | false =>
    cases whole with
    | nil => exact absurd rfl isWhole.nonempty
    | cons d ds => exact ⟨d, _, rfl, Or.inr (isWhole.isDigit d List.mem_cons_self)⟩

/-! ### Decimals as literals -/

/-- An exponent as it is written in a document, if there is one. -/
def powerText : Option ℤ → List Char
  | none => []
  | some p => 'e' :: (if p < 0 then '-' else '+') :: digits p.natAbs

theorem power_powerText (power : Option ℤ) : Power (powerText power) power := by
  cases power with
  | none => exact .absent
  | some p =>
    have written : ∀ sign, sign = [] ∨ sign = ['+'] ∨ sign = ['-'] →
        Power ('e' :: (sign ++ digits p.natAbs))
          (some (if sign = ['-'] then -(p.natAbs : ℤ) else p.natAbs)) := by
      intro sign isSign
      have := Power.written (Or.inl rfl) isSign (fun _ => isDigit_of_mem_digits)
        (digits_ne_nil p.natAbs)
      rwa [ofDigitChars_digits] at this
    by_cases neg : p < 0
    · have minus := written ['-'] (by simp)
      rw [if_pos rfl, show -(p.natAbs : ℤ) = p by omega] at minus
      rwa [powerText, if_pos neg]
    · have plus := written ['+'] (by simp)
      rw [if_neg (by decide), show (p.natAbs : ℤ) = p by omega] at plus
      rwa [powerText, if_neg neg]

/-- A text that spells a value, with a point or an exponent. -/
structure Spells (text whole fraction : List Char) (power : Option ℤ) (x : ℚ) : Prop where
  parts : text = whole ++ (fractionText fraction ++ powerText power)
  isWhole : IsWhole whole
  isDigit : ∀ c ∈ fraction, c.isDigit = true
  real : ¬(fraction.isEmpty ∧ power.isNone)
  value : (Nat.ofDigitChars 10 (whole ++ fraction) 0 : ℚ) * 10 ^ (power.getD 0 - (fraction.length : ℤ))
    = x

theorem fractionText_of_ne {fraction : List Char} (h : fraction ≠ []) :
    fractionText fraction = '.' :: fraction := by
  cases fraction with
  | nil => exact absurd rfl h
  | cons d ds => rfl

theorem isDigit_of_mem_zeros {k : ℕ} {c : Char} (h : c ∈ List.replicate k '0') :
    c.isDigit = true := by
  rw [(List.mem_replicate.1 h).2]
  rfl

section Layout

variable {c : ℕ} {p : ℤ}

/-- Below one: zeros behind the point, then the digits. -/
theorem spells_below (neg : p < 0) :
    Spells (positional (digits c) p) ['0'] (List.replicate (-p - 1).toNat '0' ++ digits c) none
      (c * 10 ^ (p + 1 - ((digits c).length : ℤ))) := by
  have nonempty : List.replicate (-p - 1).toNat '0' ++ digits c ≠ [] := by
    simp [digits_ne_nil]
  refine ⟨?_, isWhole_digits 0, ?_, ?_, ?_⟩
  · rw [positional, if_pos neg, fractionText_of_ne nonempty]
    simp [powerText]
  · intro c hc
    exact (List.mem_append.1 hc).elim isDigit_of_mem_zeros isDigit_of_mem_digits
  · simp [digits_ne_nil]
  · have zero : Nat.ofDigitChars 10 ['0'] 0 = 0 := rfl
    rw [Nat.ofDigitChars_append, Nat.ofDigitChars_append, zero, Nat.ofDigitChars_replicate_zero,
      Nat.mul_zero, ofDigitChars_digits]
    congr 2
    simp only [Option.getD_none, List.length_append, List.length_replicate]
    omega

theorem isWhole_front (nonzero : c ≠ 0) {w : ℕ} (pos : w ≠ 0) (zeros : ℕ) :
    IsWhole ((digits c).take w ++ List.replicate zeros '0') := by
  have front : (digits c).take w ≠ [] := by simp [digits_ne_nil, pos]
  refine ⟨?_, by simp [front], Or.inr ?_⟩
  · intro d hd
    exact (List.mem_append.1 hd).elim (fun h => isDigit_of_mem_digits (List.mem_of_mem_take h))
      isDigit_of_mem_zeros
  · rw [List.head?_append_of_ne_nil _ front, List.head?_take, if_neg pos]
    exact head_digits nonzero

theorem positional_above (ds : List Char) (nonneg : 0 ≤ p) :
    positional ds p = (ds.take (p.toNat + 1) ++ List.replicate (p.toNat + 1 - ds.length) '0')
      ++ (fractionText (if ds.length ≤ p.toNat + 1 then ['0'] else ds.drop (p.toNat + 1))
        ++ powerText none) := by
  rw [positional, if_neg (not_lt.2 nonneg)]
  by_cases short : ds.length ≤ p.toNat + 1
  · simp only [List.drop_eq_nil_of_le short, if_pos short]
    rfl
  · have nonempty : ds.drop (p.toNat + 1) ≠ [] := fun h => short (List.drop_eq_nil_iff.1 h)
    rw [if_neg short, fractionText_of_ne nonempty, powerText, List.append_nil]
    simp only

/-- From one on: the digits, filled up with zeros where they end before the point. -/
theorem spells_above (nonzero : c ≠ 0) (nonneg : 0 ≤ p) :
    ∃ whole fraction, Spells (positional (digits c) p) whole fraction none
      (c * 10 ^ (p + 1 - ((digits c).length : ℤ))) := by
  have text := positional_above (digits c) nonneg
  have front := isWhole_front nonzero (Nat.succ_ne_zero p.toNat)
    (p.toNat + 1 - (digits c).length)
  by_cases short : (digits c).length ≤ p.toNat + 1
  · rw [if_pos short] at text
    refine ⟨_, _, text, front, fun d hd => ?_, by simp, ?_⟩
    · rw [List.mem_singleton.1 hd]; rfl
    · have exponent : p + 1 - ((digits c).length : ℤ)
          = ((p.toNat + 1 - (digits c).length : ℕ) : ℤ) := by omega
      rw [List.take_of_length_le short, Nat.ofDigitChars_append, Nat.ofDigitChars_append,
        ofDigitChars_digits, Nat.ofDigitChars_replicate_zero, Nat.ofDigitChars_cons,
        Nat.ofDigitChars_nil, exponent, zpow_natCast]
      simp only [Option.getD_none, List.length_singleton, Nat.sub_self, Nat.add_zero]
      push_cast
      field_simp
  · rw [if_neg short] at text
    refine ⟨_, _, text, front, fun d hd => isDigit_of_mem_digits (List.mem_of_mem_drop hd),
      by simp; omega, ?_⟩
    have none : p.toNat + 1 - (digits c).length = 0 := by omega
    rw [none, List.replicate_zero, List.append_nil, List.take_append_drop, ofDigitChars_digits]
    congr 2
    rw [List.length_drop, Option.getD_none]
    omega

/-- With an exponent: the point after the first digit. -/
theorem spells_withExponent (nonzero : c ≠ 0) : ∃ whole fraction,
    Spells (withExponent (digits c) p) whole fraction (some p)
      (c * 10 ^ (p + 1 - ((digits c).length : ℤ))) := by
  have front := isWhole_front nonzero one_ne_zero 0
  have isDigit : ∀ d ∈ digits c, d.isDigit = true := fun _ => isDigit_of_mem_digits
  have value := ofDigitChars_digits c
  revert front isDigit value
  match digits c, digits_ne_nil c with
  | [d], _ =>
    intro front isDigit value
    refine ⟨[d], [], rfl, front, List.forall_mem_nil _, by simp, ?_⟩
    rw [List.append_nil, value]
    simp
  | d :: e :: ds, _ =>
    intro front isDigit value
    refine ⟨[d], e :: ds, rfl, front, fun f hf => isDigit f (List.mem_cons_of_mem _ hf), by simp, ?_⟩
    rw [List.singleton_append, value]
    congr 2
    simp only [Option.getD_some, List.length_cons]
    push_cast
    ring

end Layout

/-- The text of a decimal spells its value. -/
theorem spells_layout {s : Scientific} (nonzero : s.coefficient ≠ 0) : ∃ whole fraction power,
    Spells s.layout whole fraction power (s.coefficient * 10 ^ s.exponent) := by
  rw [Scientific.layout]
  set p := s.exponent + ((digits s.coefficient).length : ℤ) - 1 with p_eq
  have exponent : s.exponent = p + 1 - ((digits s.coefficient).length : ℤ) := by omega
  rw [exponent]
  split
  · rcases lt_or_ge p 0 with neg | nonneg
    · exact ⟨_, _, _, spells_below neg⟩
    · obtain ⟨whole, fraction, h⟩ := spells_above nonzero nonneg
      exact ⟨whole, fraction, none, h⟩
  · obtain ⟨whole, fraction, h⟩ := spells_withExponent (p := p) nonzero
    exact ⟨whole, fraction, some p, h⟩

/-! ### Numbers by their bits -/

open Rounding Float.Model Float.Model.UnpackedFloat

/-- The sign of a number that is negative or not. -/
def signOf (minus : Bool) : Sign := if minus then .negative else .positive

theorem exponent_bits (x : Float) :
    (@unpackExponent Format.binary64 x.toBits.toBitVec).toNat = exponentBits x := by
  rw [unpackExponent, BitVec.toNat_cast, BitVec.extractLsb_toNat, Nat.shiftRight_eq_div_pow]
  rfl

theorem fraction_bits (x : Float) :
    (@unpackMantissa Format.binary64 x.toBits.toBitVec).toNat = fractionBits x := by
  rw [unpackMantissa, BitVec.toNat_cast, BitVec.extractLsb_toNat, Nat.shiftRight_eq_div_pow,
    pow_zero, Nat.div_one]
  rfl

theorem sign_bit (x : Float) :
    Sign.ofBitVec (@unpackSign Format.binary64 x.toBits.toBitVec) = signOf (isSigned x) := by
  have bit : (@unpackSign Format.binary64 x.toBits.toBitVec).toNat = x.toBits.toNat / 2 ^ 63 % 2 := by
    rw [unpackSign, BitVec.toNat_cast, BitVec.extractLsb_toNat, Nat.shiftRight_eq_div_pow]
    rfl
  have lt : x.toBits.toNat < 2 ^ 64 := x.toBits.toNat_lt
  have pow : Nat.pow 2 63 = 2 ^ 63 := rfl
  rw [Sign.ofBitVec, signOf, isSigned, pow]
  by_cases signed : 2 ^ 63 ≤ x.toBits.toNat
  · have one : @unpackSign Format.binary64 x.toBits.toBitVec ≠ 0#1 := fun h => by
      rw [h, BitVec.toNat_zero] at bit
      omega
    rw [if_neg one, decide_eq_true signed]
    rfl
  · have zero : @unpackSign Format.binary64 x.toBits.toBitVec = 0#1 :=
      BitVec.eq_of_toNat_eq (by rw [bit, BitVec.toNat_zero]; omega)
    rw [if_pos zero, decide_eq_false signed]
    rfl

/-- A finite number is a zero, or its magnitude with its sign. -/
theorem unpack_magnitude {x : Float} (finite : x.isFinite) :
    ((magnitude x).mantissa = 0 ∧ x.toModel.unpack = .zero (signOf (isSigned x))) ∨
    ∃ canonical : Canonical (magnitude x).mantissa (magnitude x).exponent,
      x.toModel.unpack = .finite (signOf (isSigned x)) (magnitude x).mantissa
        (magnitude x).exponent canonical.pos := by
  have unpacked := unpack_parts (sign_bit x) rfl rfl
  have exponent := exponent_bits x
  have fraction := fraction_bits x
  change x.toModel.unpack.isFinite = true at finite
  change x.toModel.unpack = _ at unpacked
  set e := @unpackExponent Format.binary64 x.toBits.toBitVec
  set m := @unpackMantissa Format.binary64 x.toBits.toBitVec
  have exponent_lt : e.toNat < 2 ^ 11 := e.isLt
  have fraction_lt : m.toNat < 2 ^ 52 := m.isLt
  have notAll : e ≠ -1#11 := by
    intro all
    rw [unpacked, if_pos all] at finite
    split at finite <;> cases finite
  have notGreatest : e.toNat ≠ 2047 := fun h => notAll (BitVec.eq_of_toNat_eq h)
  rw [if_neg notAll] at unpacked
  rw [magnitude, ← exponent, ← fraction]
  by_cases least : e = 0#11
  · have zero : e.toNat = 0 := congrArg BitVec.toNat least
    rw [if_pos least] at unpacked
    simp only [if_pos zero]
    by_cases none : m = 0#52
    · rw [dif_pos none] at unpacked
      exact Or.inl ⟨congrArg BitVec.toNat none, unpacked⟩
    · rw [dif_neg none] at unpacked
      have pos : 0 < m.toNat := Nat.pos_of_ne_zero fun h => none (BitVec.eq_of_toNat_eq h)
      exact Or.inr ⟨⟨pos, by omega, by norm_num, by norm_num, Or.inr rfl⟩, unpacked⟩
  · have some : e.toNat ≠ 0 := fun h => least (BitVec.eq_of_toNat_eq h)
    have pow : Nat.pow 2 52 = 2 ^ 52 := rfl
    rw [if_neg least] at unpacked
    simp only [if_neg some, pow]
    exact Or.inr ⟨⟨by omega, by omega, by omega, by omega, Or.inl (by omega)⟩, unpacked⟩

/-! ### Reading a decimal -/

theorem two_pow_lt_ten_pow : (2 : ℚ) ^ (1075 : ℤ) < 10 ^ (400 : ℤ) := by
  calc (2 : ℚ) ^ (1075 : ℤ) < 2 ^ (3 * 400 : ℤ) := zpow_lt_zpow_right₀ (by norm_num) (by norm_num)
    _ = 8 ^ (400 : ℤ) := by rw [zpow_mul]; norm_num
    _ < 10 ^ (400 : ℤ) := zpow_lt_zpow_left₀ (by norm_num) (by norm_num) (by norm_num)

theorem realOf?_zero (minus : Bool) (e : ℤ) :
    ∃ y, realOf? minus 0 e = some y ∧ y.toModel.unpack = .zero (signOf minus) := by
  have read : realOf? minus 0 e = some (if minus then -0.0 else 0.0) := by
    simp only [realOf?, true_or, if_true]
    rfl
  refine ⟨_, read, ?_⟩
  cases minus <;> rfl

section Reading

variable {m : ℕ} {e : ℤ} {n : ℕ} {t : ℤ} (canonical : Canonical n t)

include canonical

theorem ne_zero_of_inside (inside : Inside n t (m * 10 ^ e)) : m ≠ 0 := by
  rintro rfl
  have pos : (0 : ℚ) < 2 ^ (-1075 : ℤ) := by positivity
  have := inside.ge canonical
  rw [Nat.cast_zero, zero_mul] at this
  linarith

/-- A value of the interval of a number is neither too small nor too large to be read. -/
theorem size_bounds (inside : Inside n t (m * 10 ^ e)) :
    ¬ e + (digitCount m : ℤ) < -400 ∧ ¬ 400 < e + (digitCount m : ℤ) := by
  have nonzero := ne_zero_of_inside canonical inside
  have count : 1 ≤ digitCount m := by rw [digitCount_pos nonzero]; omega
  constructor
  · intro small
    have below : (m : ℚ) * 10 ^ e < 10 ^ (-400 : ℤ) := by
      calc (m : ℚ) * 10 ^ e < 10 ^ digitCount m * 10 ^ e := by
            gcongr; exact_mod_cast lt_pow_digitCount m
        _ = 10 ^ (e + (digitCount m : ℤ)) := by
            rw [zpow_add₀ (by norm_num), zpow_natCast, mul_comm]
        _ ≤ 10 ^ (-400 : ℤ) := zpow_le_zpow_right₀ (by norm_num) small.le
    have above := inside.ge canonical
    have : (10 : ℚ) ^ (-400 : ℤ) < 2 ^ (-1075 : ℤ) := by
      rw [zpow_neg, zpow_neg]
      exact inv_strictAnti₀ (by positivity) two_pow_lt_ten_pow
    exact absurd (below.trans this) (not_lt.2 above)
  · intro large
    have above : (10 : ℚ) ^ (400 : ℤ) ≤ m * 10 ^ e := by
      calc (10 : ℚ) ^ (400 : ℤ) ≤ 10 ^ (e + ((digitCount m - 1 : ℕ) : ℤ)) :=
            zpow_le_zpow_right₀ (by norm_num) (by omega)
        _ = 10 ^ (digitCount m - 1) * 10 ^ e := by
            rw [zpow_add₀ (by norm_num), zpow_natCast, mul_comm]
        _ ≤ m * 10 ^ e := by gcongr; exact_mod_cast pow_le_of_digitCount nonzero
    have below := inside.lt canonical
    have : (2 : ℚ) ^ (1024 : ℤ) < 2 ^ (1075 : ℤ) :=
      zpow_lt_zpow_right₀ (by norm_num) (by norm_num)
    exact absurd (below.trans (this.trans two_pow_lt_ten_pow)) (not_lt.2 above)

/-- A decimal in the interval of a number is read as that number. -/
theorem realOf?_inside (inside : Inside n t (m * 10 ^ e)) (minus : Bool) :
    ∃ y, realOf? minus m e = some y ∧
      y.toModel.unpack = .finite (signOf minus) n t canonical.pos := by
  have nonzero := ne_zero_of_inside canonical inside
  obtain ⟨small, large⟩ := size_bounds canonical inside
  have read := ofScientific_unpack (Nat.pos_of_ne_zero nonzero) canonical inside
  set x := Float.ofScientific m (e < 0) e.natAbs
  have finite : x.isFinite := by
    change x.toModel.unpack.isFinite = true
    rw [read]
    rfl
  have eq : realOf? minus m e = some (if minus then -x else x) := by
    rw [realOf?]
    simp only [nonzero, false_or, if_neg small, if_neg large]
    exact if_pos finite
  refine ⟨_, eq, ?_⟩
  cases minus with
  | false => exact read
  | true =>
    change (Float.Model.pack x.toModel.unpack.neg).unpack = _
    rw [read]
    exact unpack_pack canonical _

end Reading

/-- The text of a finite number spells something that is read as the number. -/
theorem spells_text {x : Float} (finite : x.isFinite) : ∃ body whole fraction power v,
    text x = signText (isSigned x) ++ body ∧ Spells body whole fraction power v ∧
      realOf? (isSigned x) (Nat.ofDigitChars 10 (whole ++ fraction) 0)
        (power.getD 0 - (fraction.length : ℤ)) = some x := by
  rcases unpack_magnitude finite with ⟨zero, unpacked⟩ | ⟨canonical, unpacked⟩
  · have spells : Spells ['0', '.', '0'] (digits 0) ['0'] none 0 :=
      ⟨rfl, isWhole_digits 0, fun d hd => by rw [List.mem_singleton.1 hd]; rfl, by simp,
        zero_mul _⟩
    obtain ⟨y, read, same⟩ := realOf?_zero (isSigned x) (-1)
    obtain rfl : y = x := eq_of_unpack (same.trans unpacked.symm)
    exact ⟨_, _, _, _, _, by rw [text, if_pos zero]; rfl, spells, read⟩
  · have inside := inside_shortest canonical
    obtain ⟨whole, fraction, power, spells⟩ := spells_layout (ne_zero_of_inside canonical inside)
    rw [← spells.value] at inside
    obtain ⟨y, read, same⟩ := realOf?_inside canonical inside (isSigned x)
    obtain rfl : y = x := eq_of_unpack (same.trans unpacked.symm)
    exact ⟨_, _, _, _, _, by rw [text, if_neg canonical.pos.ne']; rfl, spells, read⟩

/-! ### Numbers of a document -/

/-- Numbers that can be read back: whole ones of 64 bits, and finite ones. -/
def Number.Plain : Number → Prop
  | .natural n => n < Nat.pow 2 64
  | .negative n => 0 < n ∧ n ≤ Nat.pow 2 63
  | .real x => x.isFinite

/-- The text of a number is a literal that stands for it. -/
theorem literal_render {n : Number} (plain : n.Plain) : Literal n.render (some n) := by
  have whole : ∀ minus k, Literal (signText minus ++ digits k) (wholeOf? minus k) := by
    intro minus k
    have literal := Literal.parts minus (isWhole_digits k) (List.forall_mem_nil _) .absent
    rwa [numberOf, if_pos ⟨rfl, rfl⟩, ofDigitChars_digits, fractionText, List.append_nil,
      List.append_nil] at literal
  cases n with
  | natural k =>
    have plain : k < Nat.pow 2 64 := plain
    have literal := whole false k
    rwa [wholeOf?, if_neg Bool.false_ne_true, if_pos plain] at literal
  | negative k =>
    have plain : 0 < k ∧ k ≤ Nat.pow 2 63 := plain
    have literal := whole true k
    rwa [wholeOf?, if_pos rfl, if_pos plain] at literal
  | real x =>
    have plain : x.isFinite := plain
    obtain ⟨body, whole, fraction, power, v, parts, spells, read⟩ := spells_text plain
    have literal := Literal.parts (isSigned x) spells.isWhole spells.isDigit (power_powerText power)
    rw [numberOf, if_neg spells.real, read] at literal
    rw [Number.render, if_pos plain, parts, spells.parts]
    exact literal

end CodeMetrics.Json
