import Mathlib
import Deadwood.Shell.Words

/-!
# Reading a shell text

A shell text is cut into commands and these into words: blanks end a word, and line feeds and the signs between commands end a
command, where they are not quoted. A backslash quotes the next character, single quotes keep everything, and double quotes keep
everything but the dollar sign and a backslash before what it can quote there. A number sign at the beginning of a word begins a
comment. What a variable or an inner command stands for is kept apart from characters, so that a dollar sign that is quoted is no
variable. Texts with anything else of the language are refused. A word that is quoted is read as the word it was.
-/

set_option autoImplicit false
namespace Deadwood.Shell

/-! ## The reader -/

/-- What a word consists of when its quotes are removed. A value or output outside of double quotes is cut into words again. -/
inductive Piece where
  | char (c : Char)
  | value (quoted : Bool) (name : String)
  | output (quoted : Bool)
  deriving Repr, DecidableEq

abbrev Word : Type := List Piece

abbrev WordList : Type := List Word

def Word.ofText (text : String) : Word :=
  text.toList.map .char

def Word.variable (name : String) : Word :=
  [.value true name]

inductive Mode where
  | plain
  | comment
  | single
  | double
  | escaped (quoted : Bool)
  | dollar (quoted : Bool)
  | name (quoted : Bool) (reversed : List Char)
  deriving Repr, DecidableEq

/-- What has been read: the pieces of the word that is begun, the words of its command and the commands before, each nearest
first. Around an inner command stand the words and pieces that it interrupts. -/
structure TextReader where
  mode : Mode := .plain
  word : Option Word := none
  command : WordList := []
  outer : List (Bool × Word × WordList) := []
  done : List WordList := []
  deriving Repr

namespace TextReader

def push (reader : TextReader) (piece : Piece) : TextReader :=
  { reader with word := some (piece :: reader.word.getD []) }

def beginWord (reader : TextReader) (mode : Mode) : TextReader :=
  { reader with mode := mode, word := some (reader.word.getD []) }

def endWord (reader : TextReader) : TextReader :=
  match reader.word with
  | none => reader
  | some pieces => { reader with word := none, command := pieces.reverse :: reader.command }

def endCommand (reader : TextReader) : TextReader :=
  match reader.endWord.command with
  | [] => reader.endWord
  | words => { reader.endWord with command := [], done := words.reverse :: reader.done }

def beginInner (reader : TextReader) (quoted : Bool) : TextReader :=
  { reader with
    mode := .plain
    word := none
    command := []
    outer := (quoted, reader.word.getD [], reader.command) :: reader.outer }

def endInner (reader : TextReader) : Option TextReader :=
  match reader.outer with
  | [] => none
  | (quoted, pieces, words) :: outer =>
    some { reader.endCommand with
      mode := if quoted then .double else .plain
      word := some (.output quoted :: pieces)
      command := words
      outer := outer }

def outside (reader : TextReader) (c : Char) : Option TextReader :=
  if c == ' ' || c == '\t' then some { reader.endWord with mode := .plain }
  else if c == '\n' || c == ';' || c == '&' || c == '|' then some { reader.endCommand with mode := .plain }
  else if c == '#' && reader.word.isNone then some { reader with mode := .comment }
  else if c == '\\' then some { reader with mode := .escaped false }
  else if c == '\'' then some (reader.beginWord .single)
  else if c == '"' then some (reader.beginWord .double)
  else if c == '$' then some { reader with mode := .dollar false }
  else if c == ')' then reader.endInner
  else if c == '(' || c == '<' || c == '>' || c == '`' then none
  else some { reader.push (.char c) with mode := .plain }

def inside (reader : TextReader) (c : Char) : Option TextReader :=
  if c == '"' then some { reader with mode := .plain }
  else if c == '\\' then some { reader with mode := .escaped true }
  else if c == '$' then some { reader with mode := .dollar true }
  else if c == '`' then none
  else some { reader.push (.char c) with mode := .double }

def within (reader : TextReader) (quoted : Bool) (c : Char) : Option TextReader :=
  if quoted then reader.inside c else reader.outside c

/-- A sign that makes something other than a variable's name or an inner command of a dollar sign. -/
def isOtherExpansion (quoted : Bool) (c : Char) : Bool :=
  c.isDigit || ['\x7b', '@', '*', '#', '?', '-', '$', '!'].contains c || !quoted && (c == '\'' || c == '"')

def step (reader : TextReader) (c : Char) : Option TextReader :=
  match reader.mode with
  | .plain => reader.outside c
  | .double => reader.inside c
  | .comment => if c == '\n' then reader.outside c else some reader
  | .single => if c == '\'' then some { reader with mode := .plain } else some (reader.push (.char c))
  | .escaped false =>
    if c == '\n' then some { reader with mode := .plain } else some { reader.push (.char c) with mode := .plain }
  | .escaped true =>
    if c == '\n' then some { reader with mode := .double }
    else if c == '$' || c == '`' || c == '"' || c == '\\' then some { reader.push (.char c) with mode := .double }
    else some { (reader.push (.char '\\')).push (.char c) with mode := .double }
  | .dollar quoted =>
    if c == '(' then some (reader.beginInner quoted)
    else if c.isAlpha || c == '_' then some { reader with mode := .name quoted [c] }
    else if isOtherExpansion quoted c then none
    else (reader.push (.char '$')).within quoted c
  | .name quoted reversed =>
    if c.isAlphanum || c == '_' then some { reader with mode := .name quoted (c :: reversed) }
    else (reader.push (.value quoted (String.ofList reversed.reverse))).within quoted c

def read (reader : TextReader) (text : List Char) : Option TextReader :=
  text.foldlM step reader

end TextReader

/-- The commands of a text, an inner command before the one that it stands in. The text ends as a line does. -/
def commands (text : String) : Option (List WordList) := do
  let reader ← ({} : TextReader).read (text.toList ++ ['\n'])
  if reader.mode = .plain ∧ reader.outer.isEmpty then some reader.done.reverse else none

/-! ## Quoted words -/

namespace TextReader

variable (reader : TextReader)

theorem read_append (first second : List Char) :
    reader.read (first ++ second) = (reader.read first).bind (·.read second) :=
  List.foldlM_append

theorem read_cons (c : Char) (rest : List Char) : reader.read (c :: rest) = (reader.step c).bind (·.read rest) :=
  List.foldlM_cons

theorem outside_of_isPlain {c : Char} (plain : isPlain c = true) :
    reader.outside c = some { reader.push (.char c) with mode := .plain } := by
  have other : ∀ special ∈ [' ', '\t', '\n', ';', '&', '|', '#', '\\', '\'', '"', '$', ')', '(', '<', '>', '`'],
      c ≠ special := by
    rintro special listed rfl
    have none : [' ', '\t', '\n', ';', '&', '|', '#', '\\', '\'', '"', '$', ')', '(', '<', '>', '`'].all (!isPlain ·) := by
      cbv
    have notPlain := List.all_eq_true.mp none c listed
    rw [plain] at notPlain
    cases notPlain
  simp only [List.forall_mem_cons] at other
  obtain ⟨blank, tab, feed, semicolon, ampersand, bar, sharp, slash, single, double, dollar, closing, opening, less, greater,
    backquote, _⟩ := other
  simp [outside, blank, tab, feed, semicolon, ampersand, bar, sharp, slash, single, double, dollar, closing, opening, less,
    greater, backquote]

theorem read_of_isPlain {chars : List Char} (plain : ∀ c ∈ chars, isPlain c = true) (pieces : Word) :
    ({ reader with mode := .plain, word := some pieces } : TextReader).read chars =
      some { reader with mode := .plain, word := some ((chars.map .char).reverse ++ pieces) } := by
  induction chars generalizing pieces with
  | nil => rfl
  | cons c rest inductionHypothesis =>
      have first := outside_of_isPlain { reader with mode := .plain, word := some pieces } (plain c List.mem_cons_self)
      have later := inductionHypothesis (fun other member => plain other (List.mem_cons_of_mem c member)) (.char c :: pieces)
      have step : ({ reader with mode := .plain, word := some pieces } : TextReader).step c = _ := first
      rw [read_cons, step, Option.bind_some]
      simpa [push] using later

theorem read_quoteChars (chars : List Char) (pieces : Word) :
    ({ reader with mode := .single, word := some pieces } : TextReader).read (quoteChars chars) =
      some { reader with mode := .single, word := some ((chars.map .char).reverse ++ pieces) } := by
  induction chars generalizing pieces with
  | nil => rfl
  | cons c rest inductionHypothesis =>
      have later := inductionHypothesis (.char c :: pieces)
      by_cases quote : c = '\''
      · subst quote
        have split : quoteChars ('\'' :: rest) = ['\'', '"', '\'', '"', '\''] ++ quoteChars rest := rfl
        have around : ({ reader with mode := .single, word := some pieces } : TextReader).read ['\'', '"', '\'', '"', '\''] =
            some { reader with mode := .single, word := some (.char '\'' :: pieces) } := rfl
        rw [split, read_append, around, Option.bind_some]
        simpa using later
      · have kept : quoteChars (c :: rest) = c :: quoteChars rest := by
          simp [quoteChars, quote]
        have step : ({ reader with mode := .single, word := some pieces } : TextReader).step c =
            some { reader with mode := .single, word := some (.char c :: pieces) } := by
          simp [TextReader.step, quote, push]
        rw [kept, read_cons, step, Option.bind_some]
        simpa using later

/-- A quoted word goes on with the word that is begun, whatever its characters are. -/
theorem read_quote (isPlain : reader.mode = .plain) (word : String) :
    reader.read (quote word).toList =
      some { reader with word := some ((Word.ofText word).reverse ++ reader.word.getD []) } := by
  obtain ⟨mode, begun, command, outer, done⟩ := reader
  obtain rfl : mode = .plain := isPlain
  unfold quote
  split
  · rename_i plain
    rw [Bool.and_eq_true, List.all_eq_true] at plain
    obtain ⟨some, allPlain⟩ := plain
    cases chars : word.toList with
    | nil => simp [String.toList_eq_nil_iff.mp chars] at some
    | cons c rest =>
        rw [chars] at allPlain
        obtain ⟨first, later⟩ := List.forall_mem_cons.mp allPlain
        have step : ({ mode := .plain, word := begun, command, outer, done } : TextReader).step c = _ :=
          outside_of_isPlain _ first
        rw [read_cons, step, Option.bind_some]
        have remaining := read_of_isPlain { mode := .plain, word := begun, command, outer, done } later
          (.char c :: begun.getD [])
        simpa [push, Word.ofText, chars] using remaining
  · rw [String.toList_ofList, List.cons_append, read_cons]
    have opens : ({ mode := .plain, word := begun, command, outer, done } : TextReader).step '\'' =
        some { mode := .single, word := some (begun.getD []), command, outer, done } := rfl
    rw [opens, Option.bind_some, read_append]
    have contents := read_quoteChars { command, outer, done } word.toList (begun.getD [])
    rw [contents, Option.bind_some]
    rfl

end TextReader

/-! ## Lines -/

def Adds (lines : List String) (added : List WordList) : Prop :=
  ∀ done, ({ done } : TextReader).read (lines.flatMap (·.toList ++ ['\n'])) = some { done := added.reverse ++ done }

namespace Adds

variable {lines later : List String} {added addedLater : List WordList}

theorem nil : Adds [] [] :=
  fun _ => rfl

theorem append (first : Adds lines added) (second : Adds later addedLater) : Adds (lines ++ later) (added ++ addedLater) := by
  intro done
  rw [List.flatMap_append, TextReader.read_append, first, Option.bind_some, second, List.reverse_append, List.append_assoc]

theorem cons {line : String} {here : List WordList} (first : Adds [line] here) (second : Adds later addedLater) :
    Adds (line :: later) (here ++ addedLater) :=
  first.append second

theorem map {Item : Type} {line : Item → String} {command : Item → WordList} {items : List Item}
    (each : ∀ item ∈ items, Adds [line item] [command item]) : Adds (items.map line) (items.map command) := by
  induction items with
  | nil => exact nil
  | cons item rest inductionHypothesis =>
      obtain ⟨first, others⟩ := List.forall_mem_cons.mp each
      exact first.cons (inductionHypothesis others)

theorem commands_intercalate (nonempty : lines ≠ []) (adds : Adds lines added) :
    commands ("\n".intercalate lines) = some added := by
  have text : ("\n".intercalate lines).toList ++ ['\n'] = lines.flatMap (·.toList ++ ['\n']) := by
    have lineFeed : "\n".toList = ['\n'] := rfl
    rw [String.toList_intercalate, lineFeed]
    clear adds
    induction lines with
    | nil => contradiction
    | cons line rest inductionHypothesis =>
        cases rest with
        | nil => simp
        | cons next rest =>
            rw [List.map_cons, List.map_cons, List.intercalate_cons_cons, ← List.map_cons, List.append_assoc,
              inductionHypothesis (List.cons_ne_nil _ _)]
            simp
  have reads := adds []
  rw [commands, text]
  simp [reads]

end Adds

end Deadwood.Shell
