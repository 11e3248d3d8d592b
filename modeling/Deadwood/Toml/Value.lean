/-!
# Values of configuration files

What a configuration file can hold, and why it cannot be read.
-/

set_option autoImplicit false
namespace Deadwood

/-- A value of a configuration file. Fractions, dates and times are told apart but not kept: no setting
holds one. -/
inductive TomlValue where
  | string (value : String)
  | integer (value : Int)
  | boolean (value : Bool)
  | fraction
  | date
  | time
  | array (items : List TomlValue)
  | table (entries : List (String × TomlValue))
  | inlineTable (entries : List (String × TomlValue))
  deriving Repr, Inhabited

/-- Why a file is no configuration file: it is malformed, a part is missing where one is needed, a value is
used as what it is not, an item is added to what is no array, or a code point is beyond 31 bits. -/
inductive TomlError where
  | malformed
  | missingPart
  | wrongType
  | notAnArray
  | codePointTooLarge
  deriving Repr, DecidableEq

namespace TomlValue

def entries? : TomlValue → Option (List (String × TomlValue))
  | table entries => some entries
  | inlineTable entries => some entries
  | _ => none

def sort : TomlValue → Nat
  | string _ => 0
  | integer _ => 1
  | boolean _ => 2
  | fraction => 3
  | date => 4
  | time => 5
  | array _ => 6
  | table _ => 7
  | inlineTable _ => 8

/-- A step into a value: to the entry of a key, or to the last item. -/
inductive Step where
  | key (name : String)
  | last
  deriving Repr, DecidableEq

def putEntry (name : String) (value : TomlValue) : List (String × TomlValue) → List (String × TomlValue)
  | [] => [(name, value)]
  | (other, old) :: rest =>
    if other = name then (name, value) :: rest else (other, old) :: putEntry name value rest

def at? : List Step → TomlValue → Option TomlValue
  | [], value => some value
  | .key name :: rest, value => (value.entries?.bind (·.lookup name)).bind (at? rest)
  | .last :: rest, .array items => items.getLast?.bind (at? rest)
  | .last :: _, _ => none

def change (f : TomlValue → TomlValue) : List Step → TomlValue → TomlValue
  | [], value => f value
  | .key name :: rest, .table entries =>
    match entries.lookup name with
    | some inner => .table (putEntry name (change f rest inner) entries)
    | none => .table entries
  | .key name :: rest, .inlineTable entries =>
    match entries.lookup name with
    | some inner => .inlineTable (putEntry name (change f rest inner) entries)
    | none => .inlineTable entries
  | .last :: rest, .array items =>
    match items.getLast? with
    | some inner => .array (items.dropLast ++ [change f rest inner])
    | none => .array items
  | _, value => value

def insert (name : String) (value : TomlValue) : TomlValue → TomlValue
  | table entries => table (putEntry name value entries)
  | inlineTable entries => inlineTable (putEntry name value entries)
  | other => other

/-- Makes sure that names lead through tables, making empty ones where they are missing. -/
def descend : List String → TomlValue → Except TomlError TomlValue
  | [], value => .ok value
  | name :: rest, value =>
    match value.entries? with
    | none => .error .wrongType
    | some entries => do
      let inner ← descend rest ((entries.lookup name).getD (table []))
      return insert name inner value

end TomlValue
end Deadwood
