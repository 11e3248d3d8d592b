import Deadwood.CommandLine.Toolkit
import Deadwood.Deletion.Item
import Deadwood.Text.Split

/-!
# Commands

What the command line can be told to do. A command is read from its name and its arguments; the tree is asked
whether a root is a directory.
-/

set_option autoImplicit false
namespace Deadwood.CommandLine

open Files Text

/-- A tree with the settings file that is named for it. -/
structure Source where
  root : Path
  settingsFile : Option Path
  deriving Repr

/-- What a cleanup is told by the command line; an empty risk level is that of the settings. -/
structure CleanRequest where
  dryRun : Bool
  risk : String
  nonInteractive : Bool
  auto : Bool
  validation : Option String
  store : Option Path
  reports : Option Path
  deriving Repr

/-- How one item is deleted: under the snapshot of a name, in a store, and with or without a question. -/
structure ItemRequest where
  item : DeletionItem
  snapshotId : Option String
  store : Option Path
  confirmed : Bool
  deriving Repr

inductive Command where
  | analyze (source : Source) (asJson listUnresolved : Bool)
  | report (source : Source) (output : Option Path)
  | clean (source : Source) (request : CleanRequest)
  | deleteItem (source : Source) (request : ItemRequest)
  | validate (source : Source) (command : Option String)
  | showSettings (root settingsFile : Option Path)
  | graph (source : Source) (output : Option Path)
  | createSnapshot (root : Path) (store : Option Path) (purpose : String) (quiet : Bool)
  | listSnapshots (store : Option Path)
  | rollBack (id : String) (target store : Option Path) (confirmed : Bool)
  | prune (days : Option Int) (store : Option Path)
  deriving Repr

/-! ## Values -/

def digitLimit : Nat := 4300

/-- A whole number: digits of any script with an optional sign, and single underscores between them. -/
def wholeNumber? (text : String) : Option Int := do
  let (negative, digits) := match trim text.toList with
    | '-' :: rest => (true, rest)
    | '+' :: rest => (false, rest)
    | rest => (false, rest)
  let parts := splitOn '_' digits
  if parts.any List.isEmpty || digitLimit < parts.flatten.length then none
  let value ← parts.flatten.foldlM (fun (total : Nat) c => (decimalValue? c).map (total * 10 + ·)) 0
  return if negative then -(value : Int) else value

namespace Given

def path? (given : Given) (long : String) : Option Path :=
  (given.value? long).map Path.ofString

def settingsFile (given : Given) : Option Path :=
  given.path? "--config"

def store (given : Given) : Option Path :=
  given.path? "--backup-dir"

end Given

def root? (tree : Tree) (text : String) : Option Path :=
  let path := Path.ofString text
  if tree.isDirectoryAt path then some path else none

def source? (tree : Tree) (text : String) (given : Given) : Option Source :=
  (root? tree text).map fun root => ⟨root, given.settingsFile⟩

def itemRequest (item : DeletionItem) (given : Given) : ItemRequest :=
  { item := item
    snapshotId := given.value? "--snapshot"
    store := given.store
    confirmed := given.has "--yes" }

/-! ## Reading -/

/-- How a command is read: the options that it knows, and what it is of what is given. -/
structure CommandForm where
  name : String
  specs : List OptionSpec
  read? : Tree → Given → Option Command

def configOption : OptionSpec := .value "--config" (some 'c')
def storeOption : OptionSpec := .value "--backup-dir"
def outputOption : OptionSpec := .value "--output" (some 'o')
def yesOption : OptionSpec := .flag "--yes" (some 'y')
def snapshotOption : OptionSpec := .value "--snapshot"
def helpOption : OptionSpec := .flag "--help"

def treeForms : List CommandForm :=
  [{ name := "analyze"
     specs := [.flag "--json", configOption, .flag "--unresolved"]
     read? := fun tree given => match given.words with
      | [root] => (source? tree root given).map fun source =>
        .analyze source (given.has "--json") (given.has "--unresolved")
      | _ => none },
   { name := "report"
     specs := [outputOption, configOption]
     read? := fun tree given => match given.words with
      | [root] => (source? tree root given).map fun source => .report source (given.path? "--output")
      | _ => none },
   { name := "clean"
     specs := [.flag "--dry-run", .value "--risk-level" (some 'r'), .flag "--non-interactive", .flag "--auto",
       .value "--validate", storeOption, .value "--report-dir", configOption]
     read? := fun tree given => match given.words with
      | [root] => (source? tree root given).map fun source =>
        .clean source
          { dryRun := given.has "--dry-run"
            risk := (given.value? "--risk-level").getD ""
            nonInteractive := given.has "--non-interactive"
            auto := given.has "--auto"
            validation := given.value? "--validate"
            store := given.store
            reports := given.path? "--report-dir" }
      | _ => none },
   { name := "remove-symbol"
     specs := [snapshotOption, storeOption, yesOption, configOption]
     read? := fun tree given => match given.words with
      | [root, file, name] => (source? tree root given).map fun source =>
        .deleteItem source (itemRequest (.function file name) given)
      | _ => none },
   { name := "remove-file"
     specs := [snapshotOption, storeOption, yesOption, configOption]
     read? := fun tree given => match given.words with
      | [root, file] => (source? tree root given).map fun source =>
        .deleteItem source (itemRequest (.file file) given)
      | _ => none },
   { name := "validate"
     specs := [.value "--command", configOption]
     read? := fun tree given => match given.words with
      | [root] => (source? tree root given).map fun source => .validate source (given.value? "--command")
      | _ => none },
   { name := "show-config"
     specs := [configOption]
     read? := fun _ given => match given.words with
      | [] => some (.showSettings none given.settingsFile)
      | [root] => some (.showSettings (some (Path.ofString root)) given.settingsFile)
      | _ => none },
   { name := "graph"
     specs := [outputOption, configOption]
     read? := fun tree given => match given.words with
      | [root] => (source? tree root given).map fun source => .graph source (given.path? "--output")
      | _ => none }]

def snapshotForms : List CommandForm :=
  [{ name := "create"
     specs := [.value "--purpose" (some 'p'), storeOption, .flag "--quiet" (some 'q')]
     read? := fun tree given => match given.words with
      | [root] => (root? tree root).map fun root =>
        .createSnapshot root given.store ((given.value? "--purpose").getD "manual") (given.has "--quiet")
      | _ => none },
   { name := "list"
     specs := [storeOption]
     read? := fun _ given => if given.words.isEmpty then some (.listSnapshots given.store) else none },
   { name := "rollback"
     specs := [.value "--target" (some 't'), storeOption, yesOption]
     read? := fun _ given => match given.words with
      | [id] => some (.rollBack id (given.path? "--target") given.store (given.has "--yes"))
      | _ => none },
   { name := "prune"
     specs := [.value "--days" (some 'd'), storeOption]
     read? := fun _ given => do
      if !given.words.isEmpty then none
      match given.value? "--days" with
      | none => return .prune none given.store
      | some text =>
        let days ← wholeNumber? text
        if days < 0 then none
        return .prune (some days) given.store }]

def snapshotGroup : String := "backup"

/-- What a command is asked: to say how it is used, or to be carried out. -/
inductive Request where
  | help
  | perform (command : Command)
  deriving Repr

def requestOf? (toolkit : Toolkit) (forms : List CommandForm) (tree : Tree) : List String → Option Request
  | [] => none
  | name :: arguments => do
    let form ← forms.find? (·.name = name)
    let given ← toolkit.given? (helpOption :: form.specs) false arguments
    if given.has "--help" then return .help
    return .perform (← form.read? tree given)

/-- Reads a command; nothing if it is not used as it is meant to be. -/
def Request.ofWords? (toolkit : Toolkit) (tree : Tree) : List String → Option Request
  | [] => none
  | name :: arguments =>
    if name = snapshotGroup then do
      let given ← toolkit.given? [helpOption] true arguments
      if given.has "--help" then return .help
      requestOf? toolkit snapshotForms tree given.words
    else requestOf? toolkit treeForms tree (name :: arguments)

end Deadwood.CommandLine
