import Deadwood.Diff.Blocks
import Deadwood.Text.Lines

/-!
# Difference listings

A listing of what is different between two texts, line by line: lines that go are marked with `-`, lines that
come with `+`, and up to three lines around them are shown with a blank.
-/

set_option autoImplicit false
namespace Deadwood.Diff

open Text

/-- A stretch of two lists that is the same in both or not. -/
structure Change where
  same : Bool
  window : Window
  deriving Repr, DecidableEq

def changesFrom (first second : Nat) (firstStop secondStop : Nat) : List Block → List Change
  | [] => if first < firstStop || second < secondStop then [⟨false, ⟨first, firstStop, second, secondStop⟩⟩] else []
  | block :: rest =>
    let firstEnd := block.first + block.length
    let secondEnd := block.second + block.length
    (if first < block.first || second < block.second then
      [⟨false, ⟨first, block.first, second, block.second⟩⟩] else [])
    ++ ⟨true, ⟨block.first, firstEnd, block.second, secondEnd⟩⟩
      :: changesFrom firstEnd secondEnd firstStop secondStop rest

def contextLines : Nat := 3

def lastLines (window : Window) : Window :=
  { window with
    firstStart := max window.firstStart (window.firstStop - contextLines)
    secondStart := max window.secondStart (window.secondStop - contextLines) }

def firstLines (window : Window) : Window :=
  { window with
    firstStop := min window.firstStop (window.firstStart + contextLines)
    secondStop := min window.secondStop (window.secondStart + contextLines) }

def trimEnds (changes : List Change) : List Change :=
  let atStart := match changes with
    | change :: rest => (if change.same then { change with window := lastLines change.window } else change) :: rest
    | [] => []
  match atStart.reverse with
  | change :: before =>
    ((if change.same then { change with window := firstLines change.window } else change) :: before).reverse
  | [] => []

/-- Cuts into groups where much is the same; `group` is the reversed current group. -/
def groupsFrom (group : List Change) : List Change → List (List Change)
  | [] =>
    match group with
    | [] => []
    | [change] => if change.same then [] else [[change]]
    | _ => [group.reverse]
  | change :: rest =>
    if change.same && 2 * contextLines < change.window.firstStop - change.window.firstStart then
      ({ change with window := firstLines change.window } :: group).reverse
        :: groupsFrom [{ change with window := lastLines change.window }] rest
    else groupsFrom (change :: group) rest

/-- Where a stretch of lines stands: its first line and, unless it is one line, its length. -/
def rangeText (start stop : Nat) : String :=
  if stop - start = 1 then toString (start + 1)
  else if stop = start then toString start ++ ",0"
  else toString (start + 1) ++ "," ++ toString (stop - start)

def markedLines (mark : String) (lines : Array String) (start stop : Nat) : List String :=
  (List.range (stop - start)).map fun count => mark ++ lines.getD (start + count) ""

def groupLines (first second : Array String) (group : List Change) : List String :=
  let start := (group.head?.map (·.window)).getD ⟨0, 0, 0, 0⟩
  let stop := (group.getLast?.map (·.window)).getD ⟨0, 0, 0, 0⟩
  ("@@ -" ++ rangeText start.firstStart stop.firstStop ++ " +" ++ rangeText start.secondStart stop.secondStop
      ++ " @@\n")
    :: group.flatMap fun change =>
      let window := change.window
      if change.same then markedLines " " first window.firstStart window.firstStop
      else markedLines "-" first window.firstStart window.firstStop
        ++ markedLines "+" second window.secondStart window.secondStop

/-- The listing of what is different between an old and a new text of a path, empty if nothing is. -/
def listing (path : String) (old new : List Char) : String :=
  let first := ((splitLines old).map String.ofList).toArray
  let second := ((splitLines new).map String.ofList).toArray
  let changes := changesFrom 0 0 first.size second.size (blocks first second)
  match groupsFrom [] (trimEnds changes) with
  | [] => ""
  | groups =>
    "--- a/" ++ path ++ "\n+++ b/" ++ path ++ "\n" ++ String.join (groups.flatMap (groupLines first second))

end Deadwood.Diff
