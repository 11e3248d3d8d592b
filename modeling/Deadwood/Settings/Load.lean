import Deadwood.Files.Tree
import Deadwood.Settings.Keys
import Deadwood.Toml.Document

/-!
# Layered settings

Settings come from built-in values, a global file, and a file that is named or belongs to the tree, in this
order: later values replace earlier ones, additions are added to what stands before them.
-/

set_option autoImplicit false
namespace Deadwood

open Files

/-- Where the global file, snapshots and reports are, and what `~` stands for. -/
structure Places where
  base : Path
  userHome : Path
  deriving Repr

namespace Places

def globalFile (places : Places) : Path := places.base.join ⟨"", ["config.toml"]⟩

def backups (places : Places) : Path := places.base.join ⟨"", ["backups"]⟩

def reports (places : Places) : Path := places.base.join ⟨"", ["reports"]⟩

def expand (places : Places) (path : Path) : Path :=
  match path.anchor, path.names with
  | "", "~" :: rest => places.userHome.join ⟨"", rest⟩
  | _, _ => path

end Places

namespace Settings

def directory (places : Places) (setting : Option String) (otherwise : Path) : Path :=
  match setting with
  | some text => if text.isEmpty then otherwise else places.expand (Path.ofString text)
  | none => otherwise

def backupDirectory (places : Places) (settings : Settings) : Path :=
  directory places settings.backupDir places.backups

def reportDirectory (places : Places) (settings : Settings) : Path :=
  directory places settings.reportDir places.reports

end Settings

/-! ## Reading -/

/-- Why settings cannot be loaded. The last three come from inside of a file that is none. -/
inductive SettingsError where
  | notFound (path : String)
  | unreadable (path : String)
  | notATable (path name : String)
  | wrongValue (path name requirement : String)
  | notText (error : Text.DecodeError)
  | missingPart
  | wrongType
  | notAnArray
  | codePointTooLarge
  deriving Repr, DecidableEq

def SettingsError.message? : SettingsError → Option String
  | notFound path => some ("Configuration file not found: " ++ path)
  | unreadable path => some ("Could not read configuration file " ++ path)
  | notATable path name => some (path ++ ": top-level key '" ++ name ++ "' must be a table")
  | wrongValue path name requirement => some (path ++ ": '" ++ name ++ "' must be " ++ requirement)
  | _ => none

def SettingsError.ofToml (path : String) : TomlError → SettingsError
  | .malformed => unreadable path
  | .missingPart => missingPart
  | .wrongType => wrongType
  | .notAnArray => notAnArray
  | .codePointTooLarge => codePointTooLarge

namespace Settings

def applyEntry (path table : String) (settings : Settings) (entry : String × TomlValue) :
    Except SettingsError Settings :=
  let (key, value) := entry
  let result (setting : SettingKey) (changed : Option Settings) : Except SettingsError Settings :=
    match changed with
    | some settings => .ok settings
    | none => .error (.wrongValue path setting.name setting.requirement)
  match SettingKey.find? table key with
  | some setting => result setting (setting.replace? value settings)
  | none =>
    match SettingKey.addition? table key with
    | some setting => result setting (setting.extend? value settings)
    | none => .ok settings

def applyTables (path : String) (settings : Settings) (tables : List (String × TomlValue)) :
    Except SettingsError Settings :=
  tables.foldlM (fun settings (name, value) =>
    match value.entries? with
    | some entries => entries.foldlM (applyEntry path name) settings
    | none => .error (.notATable path name)) settings

def applyFile (tree : Tree) (settings : Settings) (path : Path)
    (reader : List Char → Except TomlError (List (String × TomlValue)) := Toml.readDocument) :
    Except SettingsError Settings := do
  let content ← match (tree.locate path).bind tree.read with
    | .ok content => .ok content
    | .error _ => .error (.unreadable path.toString)
  let text ← match readText content with
    | .ok text => .ok text
    | .error error => .error (.notText error)
  match reader text with
  | .ok tables => applyTables path.toString settings tables
  | .error error => .error (.ofToml path.toString error)

def projectFileName : String := "sweepgraph.toml"

def projectFile? (tree : Tree) (root : Path) : Option Path :=
  [root.join ⟨"", [projectFileName]⟩, root.parent.join ⟨"", [projectFileName]⟩].find? tree.isFileAt

/-- The effective settings: built-in values, the global file, then the named file or that of the tree. -/
def load (places : Places) (tree : Tree) (root file : Option Path)
    (reader : List Char → Except TomlError (List (String × TomlValue)) := Toml.readDocument) :
    Except SettingsError Settings := do
  let settings ←
    if tree.isFileAt places.globalFile then applyFile tree {} places.globalFile reader else pure {}
  match file <|> root.bind (projectFile? tree) with
  | none => return settings
  | some path =>
    if !tree.isFileAt path then throw (.notFound path.toString)
    applyFile tree settings path reader

end Settings
end Deadwood
