import Deadwood.Shell.Launcher
import Deadwood.Shell.Words
import Deadwood.Text.Quoted
import Deadwood.Text.Split

/-!
# Commands

A launcher of a few commands: those that succeed or fail by themselves, tests of texts and files, short scripts of them, and two
that make and remove links. They leave the files of the tree as they are.
-/

set_option autoImplicit false
namespace Deadwood.Shell

open Files

def number? (word : String) : Option Int :=
  match Text.trim word.toList with
  | '-' :: digits => (String.ofList digits).toNat?.map fun value => -(value : Int)
  | '+' :: digits => (String.ofList digits).toNat?.map Int.ofNat
  | digits => (String.ofList digits).toNat?.map Int.ofNat

/-! ## Tests -/

def unaryTest? (tree : Tree) (directory : Path) (operator word : String) : Option Bool :=
  let path := directory.join (Path.ofString word)
  let isFile := !word.isEmpty && tree.isFileAt path
  let isDirectory := !word.isEmpty && tree.isDirectoryAt path
  let isNonempty :=
    match (tree.locate path).bind tree.read with
    | .ok content => !content.isEmpty
    | .error _ => isDirectory
  match operator with
  | "-n" => some (!word.isEmpty)
  | "-z" => some word.isEmpty
  | "-f" => some isFile
  | "-d" => some isDirectory
  | "-e" => some (isFile || isDirectory)
  | "-r" => some (isFile || isDirectory)
  | "-w" => some (isFile || isDirectory)
  | "-x" => some isDirectory
  | "-s" => some (!word.isEmpty && isNonempty)
  | "-h" => some false
  | "-L" => some false
  | _ => none

def binaryTest? (first operator second : String) : Option Bool :=
  let compare (test : Int → Int → Bool) : Option Bool := do
    return test (← number? first) (← number? second)
  match operator with
  | "=" => some (first = second)
  | "==" => some (first = second)
  | "!=" => some (first ≠ second)
  | "-eq" => compare (· == ·)
  | "-ne" => compare (· != ·)
  | "-lt" => compare (· < ·)
  | "-le" => compare (· ≤ ·)
  | "-gt" => compare (· > ·)
  | "-ge" => compare (· ≥ ·)
  | _ => none

def test? (tree : Tree) (directory : Path) : List String → Option Bool
  | [] => some false
  | [word] => some (!word.isEmpty)
  | ["!", word] => some word.isEmpty
  | [operator, word] => unaryTest? tree directory operator word
  | [first, operator, second] =>
    match binaryTest? first operator second with
    | some result => some result
    | none =>
      if operator = "-a" then some (!first.isEmpty && !second.isEmpty)
      else if operator = "-o" then some (!first.isEmpty || !second.isEmpty)
      else if first = "!" then (test? tree directory [operator, second]).map (!·)
      else if first = "(" && second = ")" then some (!operator.isEmpty)
      else none
  | ["!", a, b, c] => (test? tree directory [a, b, c]).map (!·)
  | ["(", a, b, ")"] => test? tree directory [a, b]
  | _ => none

def testStatus (tree : Tree) (directory : Path) (words : List String) : Int :=
  match test? tree directory words with
  | some true => 0
  | some false => 1
  | none => 2

/-! ## Single commands -/

def status? (tree : Tree) (directory : Path) (name : String) (arguments : List String) : Option Int :=
  let found (word : String) : Bool :=
    let path := directory.join (Path.ofString word)
    !word.isEmpty && (tree.isFileAt path || tree.isDirectoryAt path)
  let files := arguments.filter fun word => !word.startsWith "-"
  match name with
  | "true" => some 0
  | "false" => some 1
  | "echo" => some 0
  | "printf" => some 0
  | "pwd" => some 0
  | "test" => some (testStatus tree directory arguments)
  | "[" => some (if arguments.getLast? = some "]" then testStatus tree directory arguments.dropLast else 2)
  | "ls" => some (if files.all found then 0 else 2)
  | "cat" => some (if files.all fun word => tree.isFileAt (directory.join (Path.ofString word)) then 0 else 1)
  | "ln" => some (if files.getLast?.any found then 1 else 0)
  | "rm" => some (if files.any found then 1 else 0)
  | _ => none

/-! ## Scripts -/

/-- What joins a command to the one before it. -/
inductive Joiner where
  | always
  | ifSucceeded
  | ifFailed
  deriving Repr, DecidableEq

/-- The commands of a script with what joins them; `command` is the reversed current command and `quote` the
quote that it is in. -/
def commandsFrom (joiner : Joiner) (command : List Char) (quote : Option Char) :
    List Char → List (Joiner × List Char)
  | [] => [(joiner, command.reverse)]
  | '\\' :: c :: rest =>
    if quote == some '\'' then commandsFrom joiner ('\\' :: command) quote (c :: rest)
    else commandsFrom joiner (c :: '\\' :: command) quote rest
  | c :: rest =>
    match quote with
    | some mark => commandsFrom joiner (c :: command) (if c == mark then none else quote) rest
    | none =>
      if c == '\'' || c == '"' then commandsFrom joiner (c :: command) (some c) rest
      else if c == ';' || c == '\n' then (joiner, command.reverse) :: commandsFrom .always [] none rest
      else if c == '&' && rest.head? == some '&' then
        (joiner, command.reverse) :: commandsFrom .ifSucceeded [] none rest.tail
      else if c == '|' && rest.head? == some '|' then
        (joiner, command.reverse) :: commandsFrom .ifFailed [] none rest.tail
      else commandsFrom joiner (c :: command) none rest
termination_by text => text.length
decreasing_by all_goals simp_wf; try omega

def withoutRedirections : List String → List String
  | [] => []
  | word :: rest =>
    if word.startsWith "#" then []
    else if [">", ">>", "2>", "2>>", "&>"].contains word then withoutRedirections rest.tail
    else if word.startsWith ">" || word.startsWith "2>" || word.startsWith "&>" then withoutRedirections rest
    else word :: withoutRedirections rest
termination_by words => words.length
decreasing_by all_goals simp_wf; try omega

/-- The exit status of words in a script after a command with the given status, and whether the script ends
with them. -/
def runWords (tree : Tree) (directory : Path) (status : Int) : List String → Int × Bool
  | [] => (status, false)
  | "!" :: rest =>
    let (status, ends) := runWords tree directory status rest
    (if ends then status else if status = 0 then 1 else 0, ends)
  | "exit" :: [] => (status, true)
  | "exit" :: code :: _ =>
    match number? code with
    | some value => (value % 256, true)
    | none => (2, true)
  | ":" :: _ => (0, false)
  | name :: arguments => ((status? tree directory name arguments).getD 127, false)

def runCommands (tree : Tree) (directory : Path) (status : Int) : List (Joiner × List Char) → Int
  | [] => status
  | (joiner, command) :: rest =>
    let runs :=
      match joiner with
      | .always => true
      | .ifSucceeded => status = 0
      | .ifFailed => status ≠ 0
    if !runs then runCommands tree directory status rest
    else
      match words (String.ofList command) with
      | .error _ => 2
      | .ok found =>
        let (status, ends) := runWords tree directory status (withoutRedirections found)
        if ends then status else runCommands tree directory status rest

def runScript (tree : Tree) (directory : Path) (script : String) : Int :=
  runCommands tree directory 0 (commandsFrom .always [] none script.toList)

/-! ## Links -/

/-- The links that a command leaves, and where they stood: `ln -s` makes one and `rm` takes some away. -/
def linksAfter (links : Links) (directory : Path) : List String → Links
  | ["ln", "-s", text, name] => links.put (directory.join (Path.ofString name)).resolve text
  | "rm" :: names => names.foldl (fun links name => links.take (directory.join (Path.ofString name)).resolve) links
  | _ => links

/-! ## Running -/

def programStatus? (tree : Tree) (directory : Path) (name : String) (arguments : List String) : Option Int :=
  if name = "sh" || name = "bash" then
    match arguments with
    | "-c" :: script :: _ => some (runScript tree directory script)
    | [] => some 0
    | _ => some 127
  else status? tree directory name arguments

def commandDirectories : List String := ["/bin", "/usr/bin"]

def faulty (fault : Fault) (path : String) : Outcome :=
  if fault = .notDirectory then .raised .throughFile else .notStarted (FileError.message ⟨fault, path⟩)

/-- Runs a command in a directory. A name without slash is looked up, any other is a path, and files of the tree
are not to be run. -/
def run (tree : Tree) (directory : Path) (name : String) (arguments : List String) : Outcome :=
  if name.isEmpty then faulty .denied name
  else if name.contains '/' then
    let path := Path.ofString name
    if path.anchor = "/" && commandDirectories.contains path.parent.toString
        && (programStatus? tree directory path.name arguments).isSome then
      .exited ((programStatus? tree directory path.name arguments).getD 0)
    else
      match tree.locate (directory.join path) with
      | .error fault => faulty fault name
      | .ok location =>
        match tree.entry? location with
        | some _ => faulty .denied name
        | none => faulty (tree.absence location) name
  else
    match programStatus? tree directory name arguments with
    | some status => .exited status
    | none => faulty .missing name

def start (tree : Tree) (directory : Path) : List String → Outcome
  | [] => .raised .noWords
  | name :: arguments =>
    if (name :: arguments).any (·.contains '\x00') then .raised .nullCharacter
    else if tree.isDirectoryAt directory then run tree directory name arguments
    else
      let fault := match tree.locate directory with
        | .ok location => if tree.isFile location then Fault.notDirectory else tree.absence location
        | .error fault => fault
      if fault = .notDirectory then .raised .throughFile
      else .notStarted (fault.describe ++ ": PosixPath(" ++ Text.quoted directory.toString ++ ")")

def plain : Launcher where
  outcome := start
  links := linksAfter

end Deadwood.Shell
