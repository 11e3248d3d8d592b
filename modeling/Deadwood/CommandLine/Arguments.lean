/-!
# Arguments

The arguments of a command are options and other words. An option has a long name and may have a short one; it is
a flag, or it takes a value that follows as the next argument or is attached: `--name=value`, `-nvalue`. Short
flags can stand together. After `--` there are no options.
-/

set_option autoImplicit false
namespace Deadwood.CommandLine

structure OptionSpec where
  long : String
  short : Option Char := none
  takesValue : Bool := false
  deriving Repr, DecidableEq

namespace OptionSpec

def flag (long : String) (short : Option Char := none) : OptionSpec :=
  { long := long, short := short }

def value (long : String) (short : Option Char := none) : OptionSpec :=
  { long := long, short := short, takesValue := true }

end OptionSpec

/-- What is given to a command: options by their long names, each with its value if it has one, and the other
words, all in order. -/
structure Given where
  options : List (String × Option String) := []
  words : List String := []
  deriving Repr, DecidableEq

namespace Given

def has (given : Given) (long : String) : Bool :=
  given.options.any (·.1 = long)

def value? (given : Given) (long : String) : Option String :=
  (given.options.reverse.lookup long).join

end Given

/-- What one argument says: options, and perhaps one whose value is the next argument. -/
structure Marked where
  options : List (String × Option String)
  waiting : Option String := none
  deriving Repr, DecidableEq

/-- A long option, if it is known and has a value only if it takes one. -/
def longOption? (specs : List OptionSpec) (name : String) (attached : Option String) : Option Marked := do
  let spec ← specs.find? (·.long = name)
  match spec.takesValue, attached with
  | true, some value => return ⟨[(spec.long, some value)], none⟩
  | true, none => return ⟨[], some spec.long⟩
  | false, none => return ⟨[(spec.long, none)], none⟩
  | false, some _ => none

def shortOptions? (specs : List OptionSpec) : List Char → Option Marked
  | [] => some ⟨[], none⟩
  | letter :: rest => do
    let spec ← specs.find? (·.short = some letter)
    if spec.takesValue then
      if rest.isEmpty then return ⟨[], some spec.long⟩
      else return ⟨[(spec.long, some (String.ofList rest))], none⟩
    else
      let later ← shortOptions? specs rest
      return ⟨(spec.long, none) :: later.options, later.waiting⟩

def marked? (specs : List OptionSpec) (argument : List Char) : Option Marked :=
  let name := argument.takeWhile (· != '=')
  let attached := match argument.drop name.length with
    | [] => none
    | _ :: value => some (String.ofList value)
  if specs.any (·.long = String.ofList name) then longOption? specs (String.ofList name) attached
  else
    match argument with
    | '-' :: '-' :: _ => none
    | _ => shortOptions? specs (argument.drop 1)

def isMarked : List Char → Bool
  | '-' :: _ :: _ => true
  | _ => false

def Given.after (options : List (String × Option String)) (given : Given) : Given :=
  { given with options := options ++ given.options }

def Given.afterWord (word : String) (given : Given) : Given :=
  { given with words := word :: given.words }

/-- Reads the arguments of a command; nothing if an option is unknown or lacks its value. Where words end the
options, all that follows the first word is a word. -/
def Given.ofArguments? (specs : List OptionSpec) (wordsEndOptions : Bool) : List String → Option Given
  | [] => some {}
  | argument :: rest =>
    if argument = "--" then some { words := rest }
    else if isMarked argument.toList then
      match marked? specs argument.toList with
      | none => none
      | some ⟨options, none⟩ => (ofArguments? specs wordsEndOptions rest).map (.after options)
      | some ⟨options, some long⟩ =>
        match rest with
        | [] => none
        | value :: rest =>
          (ofArguments? specs wordsEndOptions rest).map (.after (options ++ [(long, some value)]))
    else if wordsEndOptions then some { words := argument :: rest }
    else (ofArguments? specs wordsEndOptions rest).map (.afterWord argument)

end Deadwood.CommandLine
