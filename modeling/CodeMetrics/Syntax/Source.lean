import CodeMetrics.Text.Utf8

/-! Source as bytes. A byte order mark is taken off; what is left is UTF-8 without a zero byte, or it
    is no source at all. -/

namespace CodeMetrics

/-- How source was written down. -/
inductive Encoding where
  | utf8
  | utf8Marked
deriving DecidableEq, Repr

/-- The name of an encoding. -/
def Encoding.name : Encoding → String
  | .utf8 => "utf8"
  | .utf8Marked => "utf8-bom"

/-- Why bytes are no source. -/
inductive DecodeFault where
  /-- The bytes start with the mark of a wider encoding. -/
  | wide
  /-- A zero byte at an offset. -/
  | zeroByte (offset : Nat)
  /-- Bytes that are no character, from an offset on. -/
  | malformed (offset : Nat)
deriving DecidableEq, Repr

/-- A fault in words. -/
def DecodeFault.message : DecodeFault → String
  | .wide => "UTF-16/32 encoded source is not supported"
  | .zeroByte offset => s!"binary content (NUL byte at offset {offset})"
  | .malformed offset => s!"invalid UTF-8 at byte offset {offset}"

/-- The byte order mark of UTF-8. -/
def byteOrderMark : List UInt8 := [0xEF, 0xBB, 0xBF]

/-- Whether bytes start with the mark of a wider encoding. -/
def startsWide (bs : List UInt8) : Bool :=
  [0xFF, 0xFE].isPrefixOf bs || [0xFE, 0xFF].isPrefixOf bs

/-- Source without its mark, if it is free of zero bytes and of malformed ones. -/
def checkSource (body : List UInt8) : Except DecodeFault (List UInt8) :=
  match body.findIdx? (· == 0) with
  | some offset => .error (.zeroByte offset)
  | none =>
    if Utf8.validLength body = body.length then .ok body
    else .error (.malformed (Utf8.validLength body))

/-- The source in some bytes, and how it was written down. -/
def decodeSource (bs : List UInt8) : Except DecodeFault (List UInt8 × Encoding) :=
  if byteOrderMark.isPrefixOf bs then
    (checkSource (bs.drop byteOrderMark.length)).map (·, .utf8Marked)
  else if startsWide bs then .error .wide
  else (checkSource bs).map (·, .utf8)

end CodeMetrics
