import CodeMetrics.Error
import CodeMetrics.Glob.Basic
import CodeMetrics.Text.Utf8

/-! Matching globs. A path is matched byte by byte. A token takes a place in the path to the places
    where it can end; a place is what is left of the path. -/

namespace CodeMetrics

namespace Glob

/-- The byte of a slash. -/
def slash : UInt8 := 0x2F

/-- What is left of some bytes after each of them, and all of them. -/
def placesAfter : List UInt8 → List (List UInt8)
  | [] => [[]]
  | b :: bs => (b :: bs) :: placesAfter bs

/-- What is left after each slash. -/
def placesAfterSlash : List UInt8 → List (List UInt8)
  | [] => []
  | b :: bs => if b == slash then bs :: placesAfterSlash bs else placesAfterSlash bs

/-- What is left after a slash at the front. -/
def placeAfterFrontSlash : List UInt8 → List (List UInt8)
  | [] => []
  | b :: bs => if b == slash then [bs] else []

/-- The ranges of bytes that a range of characters comes to. A single character gives its bytes; a
    range spans from the last byte of its first character to the first byte of its last one, and has
    the other bytes of both. -/
def byteRanges (range : Char × Char) : List (UInt8 × UInt8) :=
  let low := Utf8.encode (String.ofList [range.1])
  let high := Utf8.encode (String.ofList [range.2])
  if range.1 = range.2 then low.map fun b => (b, b)
  else
    low.dropLast.map (fun b => (b, b)) ++ (low.getLast?.toList.zip high.head?.toList)
      ++ high.tail.map fun b => (b, b)

/-- Whether a byte is in a class. -/
def inClass (negated : Bool) (ranges : List (Char × Char)) (b : UInt8) : Bool :=
  negated != (ranges.flatMap byteRanges).any fun (low, high) => low ≤ b && b ≤ high

/-- Each place once; places in one path are told apart by their length. -/
def distinct (places : List (List UInt8)) : List (List UInt8) :=
  places.foldr (fun p found => if found.any (·.length == p.length) then found else p :: found) []

/-- The longest place. -/
def longest? (places : List (List UInt8)) : Option (List UInt8) :=
  places.foldl (fun best p =>
    match best with
    | none => some p
    | some q => if q.length < p.length then some p else best) none

mutual

/-- Whether a token stands for nothing: a group without any token in it. -/
def Token.isVoid : Token → Bool
  | .alternatives branches => branchesVoid branches
  | _ => false

/-- Whether all tokens stand for nothing. -/
def tokensVoid : List Token → Bool
  | [] => true
  | t :: rest => t.isVoid && tokensVoid rest

/-- Whether all branches stand for nothing. -/
def branchesVoid : List (List Token) → Bool
  | [] => true
  | b :: rest => tokensVoid b && branchesVoid rest

end

mutual

/-- Where a token can end. -/
def Token.ends (places : List (List UInt8)) : Token → List (List UInt8)
  | .literal c =>
    let bytes := Utf8.encode (String.ofList [c])
    places.filterMap fun p => if bytes.isPrefixOf p then some (p.drop bytes.length) else none
  | .any => places.filterMap List.tail?
  | .star => (longest? places).elim [] placesAfter
  | .frontStars =>
    distinct (places.flatMap fun p => p :: placeAfterFrontSlash p ++ placesAfterSlash p)
  | .backStars =>
    (longest? (places.flatMap placeAfterFrontSlash)).elim [] placesAfter
  | .middleStars =>
    distinct (places.flatMap fun p =>
      (placeAfterFrontSlash p).flatMap fun q => q :: placesAfterSlash q)
  | .oneOf negated ranges =>
    places.filterMap fun
      | [] => none
      | b :: bs => if inClass negated ranges b then some bs else none
  | .alternatives branches =>
    if branchesVoid branches then places else distinct (endsOfAny places branches)

/-- Where tokens can end, one after another. -/
def endsOfAll (places : List (List UInt8)) : List Token → List (List UInt8)
  | [] => places
  | t :: rest => endsOfAll (t.ends places) rest

/-- Where one of some branches can end; a branch that stands for nothing does not count. -/
def endsOfAny (places : List (List UInt8)) : List (List Token) → List (List UInt8)
  | [] => []
  | b :: rest =>
    (if tokensVoid b then [] else endsOfAll places b) ++ endsOfAny places rest

end

/-- Whether tokens match a whole path. -/
def isMatch (tokens : List Token) (path : String) : Bool :=
  match tokens with
  | [.frontStars] => true
  | tokens => (endsOfAll [Utf8.encode path] tokens).any List.isEmpty

end Glob

/-- Some globs, any of which may match. -/
structure Globs where
  globs : List (List Glob.Token) := []

namespace Globs

/-- The globs of some patterns. -/
def parse : List String → Except Error Globs
  | [] => .ok {}
  | pattern :: rest =>
    match Glob.parse pattern with
    | .error fault => .error (.configuration (.badGlob pattern fault))
    | .ok tokens => (parse rest).map fun set => ⟨tokens :: set.globs⟩

/-- Whether one of the globs matches a path. -/
def isMatch (set : Globs) (path : String) : Bool := set.globs.any (Glob.isMatch · path)

/-- Whether there are no globs. -/
def isEmpty (set : Globs) : Bool := set.globs.isEmpty

end Globs

end CodeMetrics
