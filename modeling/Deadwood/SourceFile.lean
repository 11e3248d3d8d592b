import Deadwood.Files.Path

/-!
# Source files

The units of analysis: backend modules, pages (frontend templates) and configuration files, told apart by
their extension. Anything else is not analysed.
-/

set_option autoImplicit false
namespace Deadwood

open Files

inductive FileKind where
  | backend
  | frontend
  | config
  deriving Repr, DecidableEq, Inhabited

namespace FileKind

def label : FileKind → String
  | backend => "backend-module"
  | frontend => "frontend-template"
  | config => "config"

def ofLabel? (text : String) : Option FileKind :=
  [backend, frontend, config].find? (·.label == text)

end FileKind

def backendExtensions : List String := [".gs", ".js"]
def frontendExtensions : List String := [".html", ".htm"]
def configExtensions : List String := [".json"]

def FileKind.ofPath? (path : String) : Option FileKind :=
  let found := extensionOf path
  if backendExtensions.contains found then some .backend
  else if frontendExtensions.contains found then some .frontend
  else if configExtensions.contains found then some .config
  else none

def isPagePath (path : String) : Bool :=
  frontendExtensions.contains (extensionOf path)

/-- A file of the analysed tree; `size` counts its bytes. -/
structure SourceFile where
  path : String
  kind : FileKind
  text : List Char
  size : Int
  deriving Repr, DecidableEq, Inhabited

def baseName (path : String) : String :=
  String.ofList ((lastPart path).toList.takeWhile (· != '.'))

end Deadwood
