import Deadwood.Settings.Basic
import Deadwood.Toml.Writer

/-!
# Settings in files

Where each setting stands in a configuration file and how it gets there and back.
-/

set_option autoImplicit false
namespace Deadwood

/-- What a setting holds, with how it is read off settings and put into them. -/
inductive Slot where
  | texts (get : Settings → List String) (set : List String → Settings → Settings)
  | number (get : Settings → Int) (set : Int → Settings → Settings)
  | text (get : Settings → Option String) (set : String → Settings → Settings)

/-- A setting: its table and key in a file, its name in messages, and what it holds. -/
structure SettingKey where
  table : String
  key : String
  name : String
  slot : Slot

namespace SettingKey

def entryPoints : SettingKey :=
  ⟨"roots", "entry_points", "entry_points",
    .texts (·.entryPoints) fun value settings => { settings with entryPoints := value }⟩

def protectedPatterns : SettingKey :=
  ⟨"roots", "protected_patterns", "protected_patterns",
    .texts (·.protectedPatterns) fun value settings => { settings with protectedPatterns := value }⟩

def all : List SettingKey :=
  [entryPoints,
   protectedPatterns,
   ⟨"roots", "root_files", "root_files",
    .texts (·.rootFiles) fun value settings => { settings with rootFiles := value }⟩,
   ⟨"risk", "level", "risk_level",
    .text (some ·.riskLevel) fun value settings => { settings with riskLevel := value }⟩,
   ⟨"risk", "protected_substrings", "protected_substrings",
    .texts (·.protectedSubstrings) fun value settings => { settings with protectedSubstrings := value }⟩,
   ⟨"risk", "config_files", "config_files",
    .texts (·.configFiles) fun value settings => { settings with configFiles := value }⟩,
   ⟨"risk", "large_file_bytes", "large_file_bytes",
    .number (·.largeFileBytes) fun value settings => { settings with largeFileBytes := value }⟩,
   ⟨"extraction", "bridge_objects", "bridge_objects",
    .texts (·.bridgeObjects) fun value settings => { settings with bridgeObjects := value }⟩,
   ⟨"extraction", "bridge_modifiers", "bridge_modifiers",
    .texts (·.bridgeModifiers) fun value settings => { settings with bridgeModifiers := value }⟩,
   ⟨"extraction", "extra_builtins", "extra_builtins",
    .texts (·.extraBuiltins) fun value settings => { settings with extraBuiltins := value }⟩,
   ⟨"extraction", "skip_dirs", "skip_dirs",
    .texts (·.skipDirs) fun value settings => { settings with skipDirs := value }⟩,
   ⟨"backup", "dir", "backup_dir",
    .text (·.backupDir) fun value settings => { settings with backupDir := some value }⟩,
   ⟨"backup", "retention_days", "retention_days",
    .number (·.retentionDays) fun value settings => { settings with retentionDays := value }⟩,
   ⟨"backup", "required_files", "required_files",
    .texts (·.requiredFiles) fun value settings => { settings with requiredFiles := value }⟩,
   ⟨"backup", "required_symbols", "required_symbols",
    .texts (·.requiredSymbols) fun value settings => { settings with requiredSymbols := value }⟩,
   ⟨"validation", "command", "validation_command",
    .text (·.validationCommand) fun value settings => { settings with validationCommand := some value }⟩,
   ⟨"report", "dir", "report_dir",
    .text (·.reportDir) fun value settings => { settings with reportDir := some value }⟩]

def additions : List (String × String × SettingKey) :=
  [("roots", "extra_entry_points", entryPoints),
   ("roots", "extra_protected_patterns", protectedPatterns)]

def find? (table key : String) : Option SettingKey :=
  all.find? fun setting => setting.table = table && setting.key = key

def addition? (table key : String) : Option SettingKey :=
  (additions.find? fun (ofTable, ofKey, _) => ofTable = table && ofKey = key).map (·.2.2)

def requirement (setting : SettingKey) : String :=
  match setting.slot with
  | .texts _ _ => "a list of strings"
  | .number _ _ => "a non-negative integer"
  | .text _ _ => "a string"

def texts? (value : TomlValue) : Option (List String) :=
  match value with
  | .array items => items.mapM fun
    | .string text => some text
    | _ => none
  | _ => none

def replace? (setting : SettingKey) (value : TomlValue) (settings : Settings) : Option Settings :=
  match setting.slot with
  | .texts _ set => (texts? value).map (set · settings)
  | .number _ set =>
    match value with
    | .integer number => if number < 0 then none else some (set number settings)
    | _ => none
  | .text _ set =>
    match value with
    | .string text => some (set text settings)
    | _ => none

def extend? (setting : SettingKey) (value : TomlValue) (settings : Settings) : Option Settings :=
  match setting.slot with
  | .texts get set =>
    (texts? value).map fun texts =>
      set (get settings ++ texts.filter fun text => !(get settings).contains text) settings
  | _ => none

def value? (setting : SettingKey) (settings : Settings) : Option TomlValue :=
  match setting.slot with
  | .texts get _ => some (.array ((get settings).map .string))
  | .number get _ => some (.integer (get settings))
  | .text get _ => (get settings).map .string

end SettingKey

namespace Settings

def tables (settings : Settings) : List (String × List (String × TomlValue)) :=
  (SettingKey.all.map (·.table)).eraseDups.filterMap fun table =>
    let entries := (SettingKey.all.filter (·.table = table)).filterMap fun setting =>
      (setting.value? settings).map fun value => (setting.key, value)
    if entries.isEmpty then none else some (table, entries)

def toFile (settings : Settings) : Except TomlError String :=
  Toml.render settings.tables

end Settings
end Deadwood
