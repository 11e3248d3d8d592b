import Deadwood.Shell.Launcher
import Deadwood.Shell.Words
import Deadwood.Source.Bracket
import Deadwood.Source.Markup
import Deadwood.SourceTree

/-!
# Validation

A tree is validated by a look at the brackets of its scripts and pages, and by a command. Brackets are only
reported; whether the tree passes is for the command to say. A command that cannot be started fails.
-/

set_option autoImplicit false
namespace Deadwood

open Files Source Text

/-- Something found in a file: brackets of a kind that do not balance, or a fault in reading it. -/
inductive Finding where
  | unbalanced (file : String) (bracket : Bracket) (surplus : Int)
  | unreadable (file : String) (error : FileError)
  deriving Repr

namespace Finding

def file : Finding → String
  | unbalanced file _ _ => file
  | unreadable file _ => file

/-- What is said of a finding: how many more brackets open than close. -/
def text : Finding → String
  | unbalanced _ bracket surplus =>
    "unbalanced " ++ bracket.label ++ ": " ++ (if 0 < surplus then "+" else "") ++ toString surplus
  | unreadable _ error => error.message

end Finding

/-- Why a validation command comes to nothing: its words cannot be told apart, or starting it breaks off. -/
inductive CommandError where
  | words (error : Shell.WordsError)
  | start (error : Shell.StartError)
  deriving Repr, DecidableEq

/-- What came of a validation: the command, if there is one, its exit status if it ran, why it did not start,
and the findings. -/
structure Validation where
  command : Option String := none
  status : Option Int := none
  error : Option String := none
  findings : List Finding := []
  deriving Repr

namespace Validation

def passed (validation : Validation) : Bool :=
  validation.error.isNone && validation.status.all (· = 0)

def ranCommand (validation : Validation) : Bool :=
  validation.status.isSome

/-! ## Brackets -/

def findingsOfText (shown path : String) (text : List Char) : List Finding :=
  let code := mask .code (if isPagePath path then codeView text else text)
  (checkedBrackets.map fun bracket => (bracket, surplus bracket code)).filterMap fun (bracket, count) =>
    if count = 0 then none else some (.unbalanced shown bracket count)

def checkFile (tree : Tree) (path : Path) (shown : String) : List Finding :=
  let shown := if shown.isEmpty then path.name else shown
  match (tree.locate path).bind tree.read with
  | .ok content => findingsOfText shown path.name (readTextLeniently content)
  | .error fault => [.unreadable shown ⟨fault, path.toString⟩]

def checkedFiles (tree : Tree) (root : Location) : List String :=
  ((tree.below root).filterMap fun (location, entry) =>
    match entry with
    | .file _ =>
      let found := extensionOf (location.getLastD "")
      let isChecked := backendExtensions.contains found || frontendExtensions.contains found
      if isChecked && !location.any ({} : Settings).skipDirs.contains then some (relativePath location) else none
    | .directory => none).mergeSort (decide <| · ≤ ·)

def findingsOfTree (tree : Tree) (root : Path) (only : Option (List String)) : List Finding :=
  let files := match only with
    | some paths => sortedSet paths
    | none => match tree.locate root with
      | .ok location => checkedFiles tree location
      | .error _ => []
  files.flatMap fun file =>
    let path := root.join (Path.ofString file)
    if tree.isFileAt path then checkFile tree path file else []

/-! ## The command -/

def ofCommand (launcher : Shell.Launcher) (tree : Tree) (root : Path) (command : Option String) :
    Except CommandError Validation :=
  match command.filter (!·.isEmpty) with
  | none => .ok {}
  | some line =>
    match Shell.words line with
    | .error error => .error (.words error)
    | .ok words =>
      match launcher.outcome tree root words with
      | .exited status => .ok { command := some line, status := some status }
      | .notStarted message => .ok { command := some line, error := some message }
      | .raised error => .error (.start error)

def ofTree (launcher : Shell.Launcher) (tree : Tree) (root : Path) (command : Option String)
    (only : Option (List String) := none) : Except CommandError Validation := do
  let findings := findingsOfTree tree root only
  return { ← ofCommand launcher tree root command with findings := findings }

def linksAfter (validation : Validation) (launcher : Shell.Launcher) (root : Path) (links : Links) : Links :=
  match validation.status, validation.command.map Shell.words with
  | some _, some (.ok words) => launcher.links links root words
  | _, _ => links

end Validation
end Deadwood
