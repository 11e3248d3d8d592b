import Deadwood.Files.Tree

/-!
# Symbolic links

A link stands at a location and holds the text of a path, which is followed from the directory that the link stands in. A path is
resolved name by name. A link that is met while it is being followed is not followed again: what is left of the path is then taken
without its names `..`, and it is for the system to say whether it leads anywhere.
-/

set_option autoImplicit false
namespace Deadwood.Files

/-- Where links stand, and the text of each. -/
structure Links where
  rows : List (Location × String) := []
  deriving Repr, DecidableEq, Inhabited

/-- What resolving names comes to: a location, or a link that is just being followed, with the names behind it. -/
inductive Trail where
  | reached (location : Location)
  | caught (link : Location) (rest : List String)
  deriving Repr, DecidableEq

/-- What the system finds: a location, nothing, or too many links. -/
inductive Sight where
  | found (location : Location)
  | lost
  | looped
  deriving Repr, DecidableEq

namespace Links

def put (links : Links) (location : Location) (text : String) : Links :=
  ⟨links.rows.filter (·.1 ≠ location) ++ [(location, text)]⟩

def take (links : Links) (location : Location) : Links :=
  ⟨links.rows.filter (·.1 ≠ location)⟩

def target (link : Location) (text : String) : Location × List String :=
  let path := Path.ofString text
  (if path.anchor.isEmpty then link.dropLast.reverse else [], path.names)

/-! ## Resolving -/

/-- Resolves names from a location, given innermost first; `enter` follows a link, given where it stands and its text. -/
def walk (links : Links) (enter : Location → String → Trail) (reversed : Location) : List String → Trail
  | [] => .reached reversed.reverse
  | name :: rest =>
    if name = ".." then links.walk enter reversed.tail rest
    else
      match links.rows.lookup (name :: reversed).reverse with
      | none => links.walk enter (name :: reversed) rest
      | some text =>
        match enter (name :: reversed).reverse text with
        | .reached location => links.walk enter location.reverse rest
        | .caught link later => .caught link (later ++ rest)

/-- Resolves names from a location while the links `entered` are being followed; the number bounds how many more can be entered. -/
def trail (links : Links) : Nat → List Location → Location → List String → Trail
  | 0, _, reversed, names => links.walk (fun link _ => .caught link []) reversed names
  | depth + 1, entered, reversed, names =>
    links.walk (fun link text =>
      if entered.contains link then .caught link []
      else links.trail depth (link :: entered) (target link text).1 (target link text).2) reversed names

/-! ## What the system finds -/

/-- Looks names up from a location, given innermost first; `enter` goes on with other names from another location. -/
def look (links : Links) (tree : Tree) (enter : Location → List String → Sight) (reversed : Location) : List String → Sight
  | [] => .found reversed.reverse
  | name :: rest =>
    if !tree.isDirectory reversed.reverse then .lost
    else if name = ".." then links.look tree enter reversed.tail rest
    else
      match links.rows.lookup (name :: reversed).reverse with
      | none => links.look tree enter (name :: reversed) rest
      | some text =>
        let (start, names) := target (name :: reversed).reverse text
        enter start (names ++ rest)

def sight (links : Links) (tree : Tree) : Nat → Location → List String → Sight
  | 0, reversed, names => links.look tree (fun _ _ => .looped) reversed names
  | more + 1, reversed, names => links.look tree (links.sight tree more) reversed names

def sightLimit : Nat := 40

/-- The location that a path is taken for, and the one that it leads to; nothing if the system does not get out of a loop. -/
def place? (links : Links) (tree : Tree) (path : Path) : Option (Location × Location) :=
  match links.trail links.rows.length [] [] path.names with
  | .reached location => some (location, location)
  | .caught link rest =>
    let left := follow link.reverse rest
    match links.sight tree sightLimit [] left with
    | .found location => some (left, location)
    | .lost => some (left, left)
    | .looped => none

/-- The link that the last name of a location stands for, if it does: the names before it are followed, and it is not. -/
def linkAt? (links : Links) (tree : Tree) (location : Location) : Option Location :=
  match location.getLast?, links.sight tree sightLimit [] location.dropLast with
  | some name, .found parent => (links.rows.lookup (parent ++ [name])).map fun _ => parent ++ [name]
  | _, _ => none

/-- The tree as it shows itself over links: where a link leads to a file, there is the file. -/
def shown (links : Links) (tree : Tree) : Tree :=
  ⟨tree.rows ++ links.rows.filterMap fun (link, _) =>
    match links.sight tree sightLimit [] link with
    | .found location => ((tree.entry? location).filter fun entry => entry ≠ .directory).map fun entry => (link, entry)
    | _ => none⟩

end Links
end Deadwood.Files
