import Deadwood.Analysis

/-!
# Risk

How risky it is to delete an unused file or symbol. The rules are tried in order and the first that applies
decides.
-/

set_option autoImplicit false
namespace Deadwood

open Files Text

inductive RiskLevel where
  | low
  | medium
  | high
  deriving Repr, DecidableEq, Inhabited

namespace RiskLevel

def all : List RiskLevel := [low, medium, high]

def label : RiskLevel → String
  | low => "low"
  | medium => "medium"
  | high => "high"

def rank : RiskLevel → Nat
  | low => 0
  | medium => 1
  | high => 2

def within (level threshold : RiskLevel) : Bool :=
  level.rank ≤ threshold.rank

def ofText? (text : String) : Option RiskLevel :=
  all.find? fun level => level.label == lower (String.ofList (trim text.toList))

def unknownMessage (text : String) : String :=
  "Unknown risk level '" ++ text ++ "'. Expected one of: low, medium, high"

end RiskLevel

structure Rating where
  level : RiskLevel
  rationale : String
  deriving Repr, DecidableEq, Inhabited

structure RiskPolicy where
  protectedSubstrings : List String
  configFiles : List String
  largeFileBytes : Int
  deriving Repr

def Settings.riskPolicy (settings : Settings) : RiskPolicy :=
  ⟨settings.protectedSubstrings, settings.configFiles, settings.largeFileBytes⟩

def contains (part text : List Char) : Bool :=
  part.isPrefixOf text ||
    match text with
    | [] => false
    | _ :: rest => contains part rest

namespace RiskPolicy

def rateFile (policy : RiskPolicy) (file : UnusedFile) : Rating :=
  if file.kind = .config || policy.configFiles.contains (lastPart file.path) then
    ⟨.high, "Configuration or manifest file"⟩
  else if file.kind = .frontend then
    ⟨.medium, "Frontend template; may be loaded by name at runtime"⟩
  else if policy.largeFileBytes < file.size then
    ⟨.medium, "Large module (" ++ toString file.size ++ " bytes > " ++ toString policy.largeFileBytes
      ++ "); review contents"⟩
  else ⟨.low, "No references found"⟩

def rateSymbol (policy : RiskPolicy) (symbol : UnusedSymbol) : Rating :=
  if 1 < symbol.definitions.length then
    ⟨.medium, "Defined " ++ toString symbol.definitions.length ++ " times ("
      ++ ", ".intercalate symbol.definedIn ++ "); ambiguous ownership"⟩
  else
    let name := (lower symbol.name).toList
    match policy.protectedSubstrings.find? fun fragment => contains (lower fragment).toList name with
    | some fragment => ⟨.medium, "Name contains protected fragment '" ++ fragment ++ "'"⟩
    | none =>
      if symbol.mentionedInStrings then
        ⟨.medium, "Name appears in a string literal; possible dynamic dispatch"⟩
      else if !symbol.fileKinds.isEmpty && symbol.fileKinds.all (·.2 = .frontend) then
        ⟨.medium, "Defined in a frontend template; may be bound from markup"⟩
      else ⟨.low, "No references found"⟩

end RiskPolicy

structure RatedFile where
  file : UnusedFile
  rating : Rating
  deriving Repr

structure RatedSymbol where
  symbol : UnusedSymbol
  rating : Rating
  deriving Repr

/-- The ratings of everything unused, in the order of the analysis. -/
structure Assessment where
  files : List RatedFile
  symbols : List RatedSymbol
  deriving Repr

namespace Assessment

def ofAnalysis (policy : RiskPolicy) (analysis : Analysis) : Assessment :=
  { files := analysis.unusedFiles.map fun file => ⟨file, policy.rateFile file⟩
    symbols := analysis.unusedSymbols.map fun symbol => ⟨symbol, policy.rateSymbol symbol⟩ }

def fileCount (assessment : Assessment) (level : RiskLevel) : Nat :=
  assessment.files.countP (·.rating.level = level)

def symbolCount (assessment : Assessment) (level : RiskLevel) : Nat :=
  assessment.symbols.countP (·.rating.level = level)

end Assessment
end Deadwood
