import Deadwood.Source.Mention
import Deadwood.SourceFile

/-!
# What is read off one source file

An extraction lists what a file defines and what it mentions. It depends on the file's text and kind and on
the reading settings alone.
-/

set_option autoImplicit false
namespace Deadwood.Source

open Deadwood.Text

structure Mention where
  name : String
  kind : MentionKind
  line : Nat
  enclosing : Option String
  deriving Repr, DecidableEq

/-- What one file defines and mentions. A failed extraction is empty. -/
structure Extraction where
  path : String
  definitions : List Definition := []
  mentions : List Mention := []
  includes : List String := []
  triggerNames : List String := []
  stringWords : List String := []
  failed : Bool := false
  deriving Repr, DecidableEq

/-- How files are read: the remote-call conventions, and names provided beyond the known ones. -/
structure Reading where
  bridge : Bridge
  extraProvided : List String
  deriving Repr

def defaultBridgeObjects : List String := ["google.script.run"]

def defaultBridgeModifiers : List String := ["withSuccessHandler", "withFailureHandler", "withUserObject"]

/-- Reading settings; an empty list of bridge objects or modifiers stands for the default one. -/
def Reading.ofLists (objects modifiers extraProvided : List String) : Reading :=
  { bridge :=
      { objects := if objects.isEmpty then defaultBridgeObjects else objects
        modifiers := if modifiers.isEmpty then defaultBridgeModifiers else modifiers }
    extraProvided := extraProvided }

def codeOf (kind : FileKind) (text : List Char) : List Char :=
  if kind == .frontend then codeView text else text

def extract (reading : Reading) (file : SourceFile) : Extraction :=
  if file.kind == .config then { path := file.path }
  else
    let code := codeOf file.kind file.text
    let masked := mask .code code
    let literal := mask .literal code
    let definitions := definitionsOf file.path code masked
    let mentioned :=
      callsOf masked (definitions.map (·.position))
        ++ bridgeMentions reading.bridge masked literal ++ evaluatedMentions literal
    let provided := builtinNames ++ reading.extraProvided
    { path := file.path
      definitions := definitions
      mentions := (mentioned.filter fun found => isProjectName provided found.name).map fun found =>
        ⟨found.name, found.kind, lineOf code found.position, enclosing? definitions found.position⟩
      includes := includesOf literal
      triggerNames := triggerNamesOf literal
      stringWords := stringWordsOf masked literal }

end Deadwood.Source
