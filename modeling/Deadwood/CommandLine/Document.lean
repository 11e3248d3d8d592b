import Deadwood.Files.Path
import Deadwood.Json.Printer
import Deadwood.Json.Reader
import Deadwood.World

/-!
# Worlds as documents

The program keeps its world in one JSON document: the time, the number of snapshots attempted, and the entries
of the tree by path. The content of a file is a text, or the list of its bytes if they are no text; a directory
has no content.
-/

set_option autoImplicit false
namespace Deadwood

open Files

namespace Files.Entry

def toJson : Entry → JsonValue
  | .directory => .null
  | .file content =>
    match Text.decode content with
    | .ok text => .string (String.ofList text)
    | .error _ => .array (content.map fun byte => .nat byte.toNat)

def byteOfJson? : JsonValue → Option UInt8
  | .int value => if 0 ≤ value && value < 256 then some value.toNat.toUInt8 else none
  | _ => none

def ofJson? : JsonValue → Option Entry
  | .null => some .directory
  | .string text => some (.file (Text.encode text.toList))
  | .array bytes => (bytes.mapM byteOfJson?).map .file
  | _ => none

end Files.Entry

namespace World

def toDocument (world : World) : String :=
  (JsonValue.object
    [("now", .string world.now.toString),
     ("attempts", .nat world.attempts),
     ("entries", .object ((world.tree.below []).map fun (location, entry) => (location.toString, entry.toJson)))]).render

def treeOf? (entries : List (String × JsonValue)) : Option Tree :=
  entries.foldlM (fun tree (path, value) => do
    return tree.place (Path.ofString path).resolve (← Entry.ofJson? value)) {}

def ofDocument? (text : String) : Option World := do
  let document ← (JsonValue.ofText text.toList).toOption
  let .string now ← document.get? "now" | none
  let (moment, _) ← Moment.ofString? now
  let .object entries ← document.get? "entries" | none
  let attempts := match document.get? "attempts" with
    | some (.int count) => count.toNat
    | _ => 0
  return { tree := ← treeOf? entries, now := moment, attempts := attempts }

end World
end Deadwood
