import Deadwood.Removal
import Deadwood.Risk

/-!
# Deletion plans

A plan names files to delete whole and functions to cut out of the others. It holds everything unused whose
risk is within a threshold; a function of a file that goes as a whole is not listed.
-/

set_option autoImplicit false
namespace Deadwood

structure PlannedCut where
  path : String
  name : String
  deriving Repr, DecidableEq, Inhabited

/-- Files to delete and functions to cut. -/
structure Plan where
  files : List String := []
  functions : List PlannedCut := []
  deriving Repr, DecidableEq, Inhabited

namespace Plan

def isEmpty (plan : Plan) : Bool :=
  plan.files.isEmpty && plan.functions.isEmpty

def cutNotAfter (first second : PlannedCut) : Bool :=
  Text.notAfter [first.path, first.name] [second.path, second.name]

def ofAssessment (threshold : RiskLevel) (assessment : Assessment) : Plan :=
  let files := (assessment.files.filter (·.rating.level.within threshold)).map (·.file.path)
  let cuts := (assessment.symbols.filter (·.rating.level.within threshold)).flatMap fun rated =>
    (rated.symbol.definedIn.filter fun path => !files.contains path).map fun path =>
      (⟨path, rated.symbol.name⟩ : PlannedCut)
  { files := files, functions := cuts.mergeSort cutNotAfter }

/-- Cuts one function out of the text of the file at a path, if it is planned for that file and can be located. -/
def cutOne (path : String) (text : List Char) (planned : PlannedCut) : List Char :=
  if planned.path = path then
    match Removal.remove? (isPagePath planned.path) planned.name text with
    | some (shorter, _) => shorter
    | none => text
  else text

/-- Carries out a plan on texts: planned files are dropped, planned functions cut in order. -/
def carryOut (plan : Plan) (files : List SourceFile) : List SourceFile :=
  (files.filter fun file => !plan.files.contains file.path).map fun file =>
    let remaining := plan.functions.foldl (cutOne file.path) file.text
    { file with text := remaining, size := (String.ofList remaining).utf8ByteSize }

end Plan
end Deadwood
