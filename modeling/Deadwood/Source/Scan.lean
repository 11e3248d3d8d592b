import Deadwood.Text.CharClass

/-!
# Scanning at a cursor

A scan looks at a text from a cursor and lists every way it can succeed, the preferred way first: each is a
value with the cursor after it. Sequencing tries the later scan after every success of the earlier one, so
the first entry of the list is what matching with backtracking finds.
-/

set_option autoImplicit false
namespace Deadwood.Source

open Deadwood.Text

/-- A place in a text: its offset, the characters before it (nearest first) and those after it. -/
structure Cursor where
  pos : Nat
  before : List Char
  after : List Char
  deriving Repr, DecidableEq

def Cursor.start (text : List Char) : Cursor :=
  ⟨0, [], text⟩

def Cursor.at (text : List Char) (offset : Nat) : Cursor :=
  ⟨min offset text.length, (text.take offset).reverse, text.drop offset⟩

def Scan (α : Type) : Type :=
  Cursor → List (α × Cursor)

namespace Scan

variable {α β : Type}

instance : Monad Scan where
  pure value := fun cursor => [(value, cursor)]
  bind first next := fun cursor => (first cursor).flatMap fun found => next found.1 found.2

def either (first second : Scan α) : Scan α :=
  fun cursor => first cursor ++ second cursor

def optional (scan : Scan Unit) : Scan Unit :=
  either scan (pure ())

def here : Scan Nat :=
  fun cursor => [(cursor.pos, cursor)]

def one (accepts : Char → Bool) : Scan Char := fun cursor =>
  match cursor.after with
  | c :: rest => if accepts c then [(c, ⟨cursor.pos + 1, c :: cursor.before, rest⟩)] else []
  | [] => []

def chars : List Char → Scan Unit
  | [] => pure ()
  | c :: rest => do
    let _ ← one (· == c)
    chars rest

def word (text : String) : Scan Unit :=
  chars text.toList

def wordIgnoringCase (text : String) : Scan Unit :=
  text.toList.foldr (fun c next => do
    let _ ← one (sameIgnoringCase c)
    next) (pure ())

/-- The places reached by passing characters of a class, the furthest first; `shorter` are nearer places. -/
def runFrom (accepts : Char → Bool) (pos : Nat) (before : List Char) (shorter : List (Unit × Cursor)) :
    List Char → List (Unit × Cursor)
  | [] => ((), ⟨pos, before, []⟩) :: shorter
  | c :: rest =>
    if accepts c then runFrom accepts (pos + 1) (c :: before) (((), ⟨pos, before, c :: rest⟩) :: shorter) rest
    else ((), ⟨pos, before, c :: rest⟩) :: shorter

def many (accepts : Char → Bool) : Scan Unit :=
  fun cursor => runFrom accepts cursor.pos cursor.before [] cursor.after

def oneOrMore (accepts : Char → Bool) : Scan Unit := do
  let _ ← one accepts
  many accepts

def passed (scan : Scan Unit) : Scan String := fun cursor =>
  (scan cursor).map fun found =>
    (String.ofList (cursor.after.take (found.2.pos - cursor.pos)), found.2)

def check (holds : Option Char → Option Char → Bool) : Scan Unit := fun cursor =>
  if holds cursor.before.head? cursor.after.head? then [((), cursor)] else []

def wordEdge : Scan Unit :=
  check fun previous next => previous.any isWordChar != next.any isWordChar

def lineStart : Scan Unit :=
  check fun previous _ => previous.all (· == '\n')

def notAfter (excluded : Char → Bool) : Scan Unit :=
  check fun previous _ => !previous.any excluded

def first? (scan : Scan α) (cursor : Cursor) : Option (α × Cursor) :=
  (scan cursor).head?

end Scan

/-- A success of a scan in a text, with the offsets where it begins and ends. -/
structure Hit (α : Type) where
  start : Nat
  stop : Nat
  value : α
  deriving Repr

def Scan.search? {α : Type} (scan : Scan α) (pos : Nat) (before : List Char) : List Char → Option (Hit α)
  | [] => (scan.first? ⟨pos, before, []⟩).map fun found => ⟨pos, found.2.pos, found.1⟩
  | c :: rest =>
    match scan.first? ⟨pos, before, c :: rest⟩ with
    | some found => some ⟨pos, found.2.pos, found.1⟩
    | none => scan.search? (pos + 1) (c :: before) rest

/-- All places where the scan succeeds, from left to right without overlap: after a hit that passes
something the next one begins at its end or later. `busy` is how many characters of the last hit are left. -/
def Scan.hitsFrom {α : Type} (scan : Scan α) (busy : Nat) (pos : Nat) (before : List Char) :
    List Char → List (Hit α)
  | [] =>
    match busy, scan.first? ⟨pos, before, []⟩ with
    | 0, some found => [⟨pos, found.2.pos, found.1⟩]
    | _, _ => []
  | c :: rest =>
    match busy with
    | busy + 1 => scan.hitsFrom busy (pos + 1) (c :: before) rest
    | 0 =>
      match scan.first? ⟨pos, before, c :: rest⟩ with
      | some found =>
        ⟨pos, found.2.pos, found.1⟩ :: scan.hitsFrom (found.2.pos - pos - 1) (pos + 1) (c :: before) rest
      | none => scan.hitsFrom 0 (pos + 1) (c :: before) rest

def Scan.hits {α : Type} (scan : Scan α) (text : List Char) : List (Hit α) :=
  scan.hitsFrom 0 0 [] text

def Scan.firstHit? {α : Type} (scan : Scan α) (text : List Char) : Option (Hit α) :=
  scan.search? 0 [] text

end Deadwood.Source
