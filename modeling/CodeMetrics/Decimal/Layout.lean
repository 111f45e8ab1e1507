import CodeMetrics.Decimal.Shortest

/-! How a number is written in a document. The fewest digits that read back are written
    positionally, with at least one digit after the point, from 0.00001 up to 10 ^ 16, and with a
    signed exponent outside that range. A number that is not finite has no text. -/

namespace CodeMetrics.Decimal

/-- Powers of ten of a leading digit that are written positionally. -/
def isPositional (power : Int) : Bool := -5 ≤ power && power < 16

/-- Digits with a point, at least one digit on each side of it. -/
def positional (ds : List Char) (power : Int) : List Char :=
  if power < 0 then '0' :: '.' :: List.replicate (-power - 1).toNat '0' ++ ds
  else
    let whole := power.toNat + 1
    let front := ds.take whole ++ List.replicate (whole - ds.length) '0'
    match ds.drop whole with
    | [] => front ++ ['.', '0']
    | back => front ++ '.' :: back

/-- Digits with the point after the first one, and a signed exponent. -/
def withExponent (ds : List Char) (power : Int) : List Char :=
  let front := match ds with
    | [] => []
    | [d] => [d]
    | d :: rest => d :: '.' :: rest
  front ++ 'e' :: (if power < 0 then '-' else '+') :: digits power.natAbs

/-- The text of a decimal. -/
def Scientific.layout (s : Scientific) : List Char :=
  let ds := digits s.coefficient
  let power := s.exponent + (ds.length : Int) - 1
  if isPositional power then positional ds power else withExponent ds power

/-- The text of a finite number. -/
def text (x : Float) : List Char :=
  let b := magnitude x
  (if isSigned x then ['-'] else [])
    ++ (if b.mantissa = 0 then ['0', '.', '0'] else (shortest b).layout)

end CodeMetrics.Decimal
