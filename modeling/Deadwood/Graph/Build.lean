import Deadwood.Graph.Basic
import Deadwood.Source.Extraction

/-!
# Building the graph

Every definition of every file is entered before any mention is resolved, so the order of files does not
matter. A mention of a defined name becomes an edge from the definition around it, or from the file; one of
an undefined name is listed as unresolved, unless it is a member call. An include leads to every file whose
base name or path without extension it names, white space at the ends and case aside.
-/

set_option autoImplicit false
namespace Deadwood

open Source Text

/-- A mention or include that names nothing in the project. Includes have no line. -/
structure Unresolved where
  path : String
  name : String
  line : Nat
  kind : MentionKind
  deriving Repr, DecidableEq

structure Build where
  graph : Graph := {}
  unresolved : List Unresolved := []
  extractions : List Extraction := []
  failedFiles : List String := []
  deriving Repr

namespace Build

def triggerNames (build : Build) : List String :=
  sortedSet (build.extractions.flatMap (·.triggerNames))

def stringWords (build : Build) : List String :=
  sortedSet (build.extractions.flatMap (·.stringWords))

def includeKey (name : String) : String :=
  lower (String.ofList (trim name.toList))

/-- A path without its last dot and what follows, if it has a dot. -/
def stem? (path : String) : Option String :=
  match path.toList.reverse.dropWhile (· != '.') with
  | [] => none
  | _ :: reversed => some (String.ofList reversed.reverse)

def includeKeys (path : String) : List String :=
  includeKey (baseName path) :: ((stem? path).map includeKey).toList

def includeTargets (files : List SourceFile) (target : String) : List String :=
  (files.filter fun file => (includeKeys file.path).contains (includeKey target)).map (·.path)

def enterDefinition (path : String) (graph : Graph) (definition : Definition) : Graph :=
  let symbol := (graph.symbol? definition.name).getD ⟨definition.name, []⟩
  (graph.addSymbol { symbol with definitions := symbol.definitions ++ [definition] }).addEdge
    ⟨.file path, .symbol definition.name, .defines⟩

def enter (extractor : SourceFile → Extraction) (build : Build) (file : SourceFile) : Build :=
  let extraction := { extractor file with path := file.path }
  { build with
    graph := extraction.definitions.foldl (enterDefinition file.path) (build.graph.addFile file)
    extractions := Keyed.put Extraction.path extraction build.extractions
    failedFiles := if extraction.failed then build.failedFiles ++ [file.path] else build.failedFiles }

def resolveMention (path : String) (build : Build) (mention : Mention) : Build :=
  if (build.graph.symbol? mention.name).isSome then
    let src := match mention.enclosing with
      | some name => if name ≠ "" && (build.graph.symbol? name).isSome then Node.symbol name else .file path
      | none => .file path
    { build with graph := build.graph.addEdge ⟨src, .symbol mention.name, .references⟩ }
  else if mention.kind = .memberCall then build
  else { build with unresolved := build.unresolved ++ [⟨path, mention.name, mention.line, mention.kind⟩] }

def resolveInclude (files : List SourceFile) (path : String) (build : Build) (target : String) : Build :=
  match includeTargets files target with
  | [] => { build with unresolved := build.unresolved ++ [⟨path, target, 0, .inclusion⟩] }
  | found =>
    { build with graph := found.foldl (fun graph other =>
        graph.addEdge ⟨.file path, .file other, .includes⟩) build.graph }

def resolve (files : List SourceFile) (build : Build) (file : SourceFile) : Build :=
  match Keyed.find? Extraction.path file.path build.extractions with
  | some extraction =>
    extraction.includes.foldl (resolveInclude files file.path)
      (extraction.mentions.foldl (resolveMention file.path) build)
  | none => build

def ofExtractor (extractor : SourceFile → Extraction) (files : List SourceFile) : Build :=
  files.foldl (resolve files) (files.foldl (enter extractor) {})

end Build
end Deadwood
