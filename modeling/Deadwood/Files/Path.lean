import Deadwood.Text.CharClass

/-!
# Paths

A path is an anchor and a list of names. Repeated slashes, names `.` and a trailing slash carry no meaning
and are not kept; names `..` are kept until a path is resolved. A resolved path is a `Location`: the list of
names that leads from the root of the file tree to a file or directory.
-/

set_option autoImplicit false
namespace Deadwood.Files

abbrev Location := List String

/-- A path as it is written: relative paths have no anchor. Exactly two leading slashes are an anchor of
their own. -/
structure Path where
  anchor : String
  names : List String
  deriving Repr, DecidableEq, Inhabited

/-- The parts between slashes, empty parts and `.` left out; `current` is the reversed current part. -/
def splitNames (current : List Char) : List Char → List String
  | [] => keep current
  | c :: rest => if c == '/' then keep current ++ splitNames [] rest else splitNames (c :: current) rest
where
  keep (part : List Char) : List String :=
    if part.isEmpty || part == ['.'] then [] else [String.ofList part.reverse]

namespace Path

def ofString (text : String) : Path :=
  let chars := text.toList
  let slashes := (chars.takeWhile (· == '/')).length
  let anchor := if slashes = 0 then "" else if slashes = 2 then "//" else "/"
  ⟨anchor, splitNames [] chars⟩

def toString (path : Path) : String :=
  if path.anchor.isEmpty && path.names.isEmpty then "."
  else path.anchor ++ "/".intercalate path.names

/-- The second path seen from the first: an anchored path stands for itself. -/
def join (base path : Path) : Path :=
  if path.anchor.isEmpty then ⟨base.anchor, base.names ++ path.names⟩ else path

/-- The path without its last name; an anchor alone is its own parent. -/
def parent (path : Path) : Path :=
  ⟨path.anchor, path.names.dropLast⟩

def name (path : Path) : String :=
  path.names.getLastD ""

end Path

/-- The extension of a file name with its dot: none if the only dot is the first or the last character. -/
def extension (name : String) : String :=
  let afterDot := (name.toList.reverse.takeWhile (· != '.')).reverse
  let stemLength := name.length - afterDot.length - 1
  if afterDot.length = name.length || afterDot.isEmpty || stemLength = 0 then ""
  else String.ofList ('.' :: afterDot)

def extensionOf (path : String) : String :=
  Text.lower (extension (Path.ofString path).name)

/-- Follows names from a location, given innermost first: `..` leads to the parent, and the root is its own
parent. -/
def follow (reversed : Location) : List String → Location
  | [] => reversed.reverse
  | ".." :: rest => follow reversed.tail rest
  | name :: rest => follow (name :: reversed) rest

def Path.resolve (path : Path) : Location :=
  follow [] path.names

def Location.toString (location : Location) : String :=
  "/" ++ "/".intercalate location

def lastPart (path : String) : String :=
  String.ofList (path.toList.reverse.takeWhile (· != '/')).reverse

end Deadwood.Files
