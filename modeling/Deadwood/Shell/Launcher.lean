import Deadwood.Files.Links
import Deadwood.Files.Tree

/-!
# Launchers

What becomes of a command is not for the project to say: a launcher stands for whatever starts commands. It is given the words of
a command and the directory that it is to run in.
-/

set_option autoImplicit false
namespace Deadwood.Shell

open Files

/-- Why starting a command breaks off: it has no words, a word cannot be passed on, the way to it or to its directory leads
through a file, or whatever else the system says. -/
inductive StartError where
  | noWords
  | nullCharacter
  | throughFile
  | other (message : String)
  deriving Repr, DecidableEq

/-- What comes of a command: its exit status, or what is said of it if it or its directory is missing or not accessible. All else
that keeps it from being started is raised. -/
inductive Outcome where
  | exited (status : Int)
  | notStarted (message : String)
  | raised (error : StartError)
  deriving Repr, DecidableEq

/-- What starts commands, and the links that there are after a command. -/
structure Launcher where
  outcome : Tree → Path → List String → Outcome
  links : Links → Path → List String → Links := fun links _ _ => links

end Deadwood.Shell
