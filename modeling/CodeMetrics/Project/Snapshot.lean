import CodeMetrics.Json.Record
import CodeMetrics.Project.FileSystem
import CodeMetrics.Syntax.Json
import CodeMetrics.Text.Digits

/-! The files of a project as JSON: a list of files with their text or bytes and their trees, of
    links, and of directories. -/

namespace CodeMetrics

open Json (Value)

/-- The bytes of pairs of hexadecimal digits. -/
def hexBytes? : List Char → Option (List UInt8)
  | [] => some []
  | high :: low :: rest => do
    let byte := (← hexDigit? high) * 16 + (← hexDigit? low)
    some (UInt8.ofNat byte :: (← hexBytes? rest))
  | [_] => none

/-- The bytes of a value, given as text or else as hexadecimal digits. -/
def bytesOfJson? (v : Value) : Option (List UInt8) :=
  match v.get? "text", v.get? "hex" with
  | some (.text text), _ => some (Utf8.encode text)
  | _, some (.text digits) => hexBytes? digits.toList
  | _, _ => none

/-- An item and the path it stands at. -/
def Item.ofJson? (v : Value) : Option (RawPath × Item) := do
  let path ← (← v.get? "path").text?
  match v.get? "link", v.get? "dir" with
  | some (.text target), _ => some (path, .link target)
  | _, some (.bool true) => some (path, .directory)
  | _, _ =>
    some (path, .file ⟨← bytesOfJson? v, (v.get? "tree").bind Tree.ofJson?⟩)

/-- The files of a project, in a working directory of its own. -/
def FileSystem.ofJson? (v : Value) : Option FileSystem := do
  let items ← v.listOf? Item.ofJson?
  some (items.foldl (fun fs (path, item) => fs.layOut path item) .blank)

end CodeMetrics
