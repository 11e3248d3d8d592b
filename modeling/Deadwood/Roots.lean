import Deadwood.Files.Path
import Deadwood.Pattern.Matcher
import Deadwood.Pattern.Parser
import Deadwood.Settings.Basic

/-!
# Roots

The names and files that are live whatever the graph says: entry points, names that a pattern occurs in, and
files given by path or by name.
-/

set_option autoImplicit false
namespace Deadwood

open Files

structure Roots where
  names : List String := []
  patterns : List Pattern := []
  files : List String := []
  deriving Repr

namespace Roots

def ofTexts (names patterns files : List String) (charNames : Text.CharNames := Text.asciiNames) :
    Except PatternError Roots := do
  return { names := names, patterns := ← patterns.mapM (Pattern.ofNaming charNames), files := files }

def ofSettings (settings : Settings) (triggerNames : List String) (charNames : Text.CharNames := Text.asciiNames) :
    Except PatternError Roots :=
  ofTexts (settings.entryPoints ++ triggerNames) settings.protectedPatterns settings.rootFiles charNames

def matchesName (roots : Roots) (name : String) : Bool :=
  roots.names.contains name || roots.patterns.any (·.occursIn name)

def matchesFile (roots : Roots) (path : String) : Bool :=
  roots.files.contains path || roots.files.contains (lastPart path)

end Roots
end Deadwood
