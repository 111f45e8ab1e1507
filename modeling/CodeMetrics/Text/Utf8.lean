/-! Text as bytes. UTF-8 writes a scalar value in one to four bytes, always in the shortest form.
    `next` reads one character, `scan` reads as many as there are, and what `scan` leaves over is
    where a byte string stops being text. -/

namespace CodeMetrics.Utf8

/-- The bytes of a text. -/
def encode (s : String) : List UInt8 := s.toUTF8.data.toList

/-- Continuation bytes are those from 80 to BF. -/
def isTail (b : UInt8) : Bool := 0x80 ≤ b && b ≤ 0xBF

/-- The six payload bits of a continuation byte. -/
def tailBits (b : UInt8) : Nat := b.toNat - 0x80

/-- Lead and second byte of a three-byte form: no overlong form and no surrogate. -/
def leadsThree (a b : UInt8) : Bool :=
  (a == 0xE0 && 0xA0 ≤ b && b ≤ 0xBF) || (0xE1 ≤ a && a ≤ 0xEC && isTail b)
    || (a == 0xED && 0x80 ≤ b && b ≤ 0x9F) || (0xEE ≤ a && a ≤ 0xEF && isTail b)

/-- Lead and second byte of a four-byte form: no overlong form and nothing above 10FFFF. -/
def leadsFour (a b : UInt8) : Bool :=
  (a == 0xF0 && 0x90 ≤ b && b ≤ 0xBF) || (0xF1 ≤ a && a ≤ 0xF3 && isTail b)
    || (a == 0xF4 && 0x80 ≤ b && b ≤ 0x8F)

/-- The first character and the bytes after it; `none` where no complete character starts. -/
def next : List UInt8 → Option (Char × List UInt8)
  | [] => none
  | a :: r =>
    if a < 0x80 then some (Char.ofNat a.toNat, r) else
    match r with
    | [] => none
    | b :: r =>
      if 0xC2 ≤ a && a ≤ 0xDF && isTail b then
        some (Char.ofNat ((a.toNat - 0xC0) * 64 + tailBits b), r) else
      match r with
      | [] => none
      | c :: r =>
        if leadsThree a b && isTail c then
          some (Char.ofNat ((a.toNat - 0xE0) * 4096 + tailBits b * 64 + tailBits c), r) else
        match r with
        | [] => none
        | d :: r =>
          if leadsFour a b && isTail c && isTail d then
            some (Char.ofNat ((a.toNat - 0xF0) * 262144 + tailBits b * 4096 + tailBits c * 64
              + tailBits d), r)
          else none

/-- A character takes at least one byte. -/
theorem length_lt_of_next {bs r : List UInt8} {c : Char} (h : next bs = some (c, r)) :
    r.length < bs.length := by
  unfold next at h
  repeat' split at h
  all_goals
    simp only [reduceCtorEq, Option.some.injEq, Prod.mk.injEq] at h
  all_goals
    obtain ⟨_, rfl⟩ := h
    simp only [List.length_cons]
    omega

/-- The characters at the front of a byte string and the bytes left over. -/
def scan (bs : List UInt8) : List Char × List UInt8 :=
  match h : next bs with
  | none => ([], bs)
  | some (c, r) =>
    have := length_lt_of_next h
    let rest := scan r
    (c :: rest.1, rest.2)
termination_by bs.length

/-- The longest part at the front that is text. -/
def validFront (bs : List UInt8) : String := String.ofList (scan bs).1

/-- The number of bytes before the first one that is not text. -/
def validLength (bs : List UInt8) : Nat := bs.length - (scan bs).2.length

/-- The text of a byte string that is text throughout. -/
def decode? (bs : List UInt8) : Option String :=
  if (scan bs).2.isEmpty then some (validFront bs) else none

/-- The length of the broken character that bytes start with: what could be the front of a character
    belongs to it. -/
def brokenLength : List UInt8 → Nat
  | a :: b :: rest =>
    if leadsFour a b && rest.head?.any isTail then 3
    else if leadsThree a b || leadsFour a b then 2
    else 1
  | _ => 1

/-- The characters of a byte string, with a replacement character for every broken one. -/
def mended : Nat → List UInt8 → List Char
  | 0, _ => []
  | fuel + 1, bs =>
    match scan bs with
    | (chars, []) => chars
    | (chars, rest) => chars ++ '\ufffd' :: mended fuel (rest.drop (brokenLength rest))

/-- The text of a byte string, with a replacement character for every broken one. -/
def decodeLossy (bs : List UInt8) : String := String.ofList (mended (bs.length + 1) bs)

end CodeMetrics.Utf8
