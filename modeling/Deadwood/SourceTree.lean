import Deadwood.Analysis
import Deadwood.Files.Tree
import Deadwood.Risk

/-!
# Source files of a tree

The source files below a root, in order of the names that lead to them. Directories with a name that is to be
left out are left out with all they hold.
-/

set_option autoImplicit false
namespace Deadwood

open Files Source

def relativePath (location : Location) : String :=
  "/".intercalate location

def sourceFile? (skipDirs : List String) (row : Location × Entry) : Option SourceFile :=
  match row with
  | (location, .file content) =>
    if location.dropLast.any skipDirs.contains then none
    else (FileKind.ofPath? (location.getLastD "")).map fun kind =>
      { path := relativePath location
        kind := kind
        text := readTextLeniently content
        size := content.length }
  | (_, .directory) => none

def sourceFiles (tree : Tree) (root : Location) (skipDirs : List String) : List SourceFile :=
  (tree.below root).filterMap (sourceFile? skipDirs)

/-- Why source files cannot be analysed. -/
inductive TreeError where
  | pattern (error : PatternError)
  | graph (error : AnalysisError)
  deriving Repr

def analyzeFiles (settings : Settings) (files : List SourceFile) (charNames : Text.CharNames := Text.asciiNames) :
    Except TreeError Analysis := do
  let build := Build.ofExtractor (extract settings.reading) files
  let roots ← match Roots.ofSettings settings build.triggerNames charNames with
    | .ok roots => pure roots
    | .error error => throw (.pattern error)
  match Analysis.ofBuild build roots with
  | .ok analysis => return analysis
  | .error error => throw (.graph error)

def analyzeTree (settings : Settings) (tree : Tree) (root : Location) (charNames : Text.CharNames := Text.asciiNames) :
    Except TreeError Analysis :=
  analyzeFiles settings (sourceFiles tree root settings.skipDirs) charNames

end Deadwood
