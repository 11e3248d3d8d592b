import Std.Data.HashMap

/-!
# Matching blocks

What two lists of lines have in common: the longest run of equal lines, then the longest to the left and to the
right of it, and so on. Of equally long runs the one that begins first in the first list, then in the second,
is taken. In a long second list, lines that come very often do not begin a run, but may lengthen one.
-/

set_option autoImplicit false
namespace Deadwood.Diff

/-- A run of equal lines: where it begins in both lists, and its length. -/
structure Block where
  first : Nat
  second : Nat
  length : Nat
  deriving Repr, DecidableEq, Inhabited

/-- A stretch of both lists. -/
structure Window where
  firstStart : Nat
  firstStop : Nat
  secondStart : Nat
  secondStop : Nat
  deriving Repr, DecidableEq

def longListLength : Nat := 200

/-- Where each line stands, in increasing order; in a long list without the lines that come more than once in a
hundred. -/
def positions (lines : Array String) : Std.HashMap String (List Nat) :=
  let found := (List.range lines.size).foldr (fun index (table : Std.HashMap String (List Nat)) =>
    let line := lines.getD index ""
    table.insert line (index :: table.getD line [])) {}
  if lines.size < longListLength then found
  else found.filter fun _ indices => indices.length ≤ lines.size / 100 + 1

/-- The best run so far and, for each position of the second list, how long the run is that ends there in the
line before. -/
structure Search where
  best : Block
  ending : Std.HashMap Nat Nat

def Search.step (window : Window) (index : Nat) (places : List Nat) (search : Search) : Search :=
  let within := places.filter fun place => window.secondStart ≤ place && place < window.secondStop
  within.foldl (fun next place =>
    let length := (if place = 0 then 0 else search.ending.getD (place - 1) 0) + 1
    { best :=
        if next.best.length < length then ⟨index + 1 - length, place + 1 - length, length⟩ else next.best
      ending := next.ending.insert place length }) { search with ending := {} }

def widen (first second : Array String) (window : Window) (block : Block) : Block :=
  let same (i j : Nat) : Bool := first.getD i "" == second.getD j ""
  let before := ((List.range (min (block.first - window.firstStart) (block.second - window.secondStart))).takeWhile
    fun count => same (block.first - 1 - count) (block.second - 1 - count)).length
  let firstStop := block.first + block.length
  let secondStop := block.second + block.length
  let after := ((List.range (min (window.firstStop - firstStop) (window.secondStop - secondStop))).takeWhile
    fun count => same (firstStop + count) (secondStop + count)).length
  ⟨block.first - before, block.second - before, before + block.length + after⟩

def longest (first second : Array String) (places : Std.HashMap String (List Nat)) (window : Window) : Block :=
  let search := (List.range (window.firstStop - window.firstStart)).foldl (fun (search : Search) count =>
    let index := window.firstStart + count
    search.step window index (places.getD (first.getD index "") []))
    ⟨⟨window.firstStart, window.secondStart, 0⟩, {}⟩
  widen first second window search.best

/-- The runs of a window from left to right, at most so deep inside one another. -/
def blocksWithin (first second : Array String) (places : Std.HashMap String (List Nat)) :
    Nat → Window → List Block
  | 0, _ => []
  | limit + 1, window =>
    let block := longest first second places window
    if block.length = 0 then []
    else
      let left : Window := ⟨window.firstStart, block.first, window.secondStart, block.second⟩
      let right : Window :=
        ⟨block.first + block.length, window.firstStop, block.second + block.length, window.secondStop⟩
      let inside (side : Window) : List Block :=
        if side.firstStart < side.firstStop && side.secondStart < side.secondStop then
          blocksWithin first second places limit side
        else []
      inside left ++ block :: inside right

def joinTouching : List Block → List Block
  | [] => []
  | block :: rest =>
    match joinTouching rest with
    | [] => [block]
    | next :: others =>
      if block.first + block.length = next.first && block.second + block.length = next.second then
        ⟨block.first, block.second, block.length + next.length⟩ :: others
      else block :: next :: others

def blocks (first second : Array String) : List Block :=
  joinTouching (blocksWithin first second (positions second) (first.size + 1) ⟨0, first.size, 0, second.size⟩)

end Deadwood.Diff
