import Deadwood.Files.Tree
import Deadwood.Moment

/-!
# The world

What commands work on: the file tree, the time, and how many snapshots have been attempted. The last is what
tells snapshots of one second apart.
-/

set_option autoImplicit false
namespace Deadwood

/-- The file tree, the time, and the number of snapshots attempted so far. -/
structure World where
  tree : Files.Tree
  now : Moment
  attempts : Nat := 0
  deriving Repr

end Deadwood
