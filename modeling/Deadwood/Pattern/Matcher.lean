import Deadwood.Pattern.Syntax

/-!
# Matching a pattern

A match tries the ways of a pattern in order of preference and goes back where what follows fails. It runs
over the syntax tree with the rest of the work as a continuation; only repetitions loop, and a round beyond
the least count that passes no character is the last, so the length of the text bounds the rounds.
-/

set_option autoImplicit false
namespace Deadwood
namespace Pattern

open Text

/-- A place in the matched text, and what each group has passed so far (the latest entry first). -/
structure Place where
  before : List Char
  after : List Char
  groups : List (Nat × List Char)
  deriving Repr

abbrev Continuation := Place → Option Place

def Anchor.holds (asked : Anchor) (place : Place) : Bool :=
  let edge (ascii : Bool) :=
    place.before.head?.any (Category.word.contains ascii) != place.after.head?.any (Category.word.contains ascii)
  match asked with
  | .textStart => place.before.isEmpty
  | .textEnd => place.after.isEmpty
  | .lineStart => place.before.isEmpty || place.before.head? == some '\n'
  | .lineEnd => place.after.isEmpty || place.after.head? == some '\n'
  | .lastLineEnd => place.after.isEmpty || place.after == ['\n']
  | .wordEdge ascii => edge ascii
  | .noWordEdge ascii => !(place.before.isEmpty && place.after.isEmpty) && !edge ascii

def passChars (same : Char → Char → Bool) (place : Place) : List Char → Option Place
  | [] => some place
  | c :: rest =>
    match place.after with
    | next :: after =>
      if same c next then passChars same { place with before := next :: place.before, after := after } rest
      else none
    | [] => none

def stepBack (place : Place) : Nat → Option Place
  | 0 => some place
  | width + 1 =>
    match place.before with
    | c :: before => stepBack { place with before := before, after := c :: place.after } width
    | [] => none

def times (body : Place → Continuation → Option Place) (place : Place) (next : Continuation) :
    Nat → Option Place
  | 0 => next place
  | count + 1 => body place fun reached => times body reached next count

/-- Runs a body as often as it likes within `rounds` and the bound, the most rounds first. A round that passes
nothing is the last. -/
def greedyRounds (body : Place → Continuation → Option Place) (next : Continuation) :
    Nat → Option Nat → Place → Option Place
  | 0, bound, place =>
    if bound == some 0 then next place else body place next <|> next place
  | rounds + 1, bound, place =>
    if bound == some 0 then next place
    else
      (body place fun reached =>
        if reached.after.length < place.after.length then
          greedyRounds body next rounds (bound.map (· - 1)) reached
        else next reached)
      <|> next place

def lazyRounds (body : Place → Continuation → Option Place) (next : Continuation) :
    Nat → Option Nat → Place → Option Place
  | 0, bound, place => next place <|> if bound == some 0 then none else body place next
  | rounds + 1, bound, place =>
    next place <|>
      (if bound == some 0 then none
      else body place fun reached =>
        if reached.after.length < place.after.length then
          lazyRounds body next rounds (bound.map (· - 1)) reached
        else next reached)

/-- The place a match ends at, if the pattern and then the continuation succeed. -/
def run : Pattern → Place → Continuation → Option Place
  | .empty, place, next => next place
  | .one set, place, next =>
    match place.after with
    | c :: after =>
      if set.contains c then next { place with before := c :: place.before, after := after } else none
    | [] => none
  | .anchor asked, place, next => if Anchor.holds asked place then next place else none
  | .sequence first second, place, next => run first place fun reached => run second reached next
  | .either first second, place, next => run first place next <|> run second place next
  | .repeated body least most greed, place, next =>
    let extra := most.map (· - least)
    match greed with
    | .greedy =>
      times (run body) place (fun reached => greedyRounds (run body) next reached.after.length extra reached)
        least
    | .lazy =>
      times (run body) place (fun reached => lazyRounds (run body) next reached.after.length extra reached)
        least
    | .possessive =>
      (times (run body) place
        (fun reached => greedyRounds (run body) some reached.after.length extra reached) least).bind next
  | .group number body, place, next =>
    run body place fun reached =>
      let length := reached.before.length - place.before.length
      next { reached with groups := (number, (reached.before.take length).reverse) :: reached.groups }
  | .sameAs number ignoreCase ascii, place, next =>
    match place.groups.lookup number with
    | none => none
    | some passed =>
      let set : CharSet := ⟨false, [], ignoreCase, ascii⟩
      (passChars set.same place passed).bind next
  | .ahead negated body, place, next =>
    match run body place some with
    | some reached => if negated then none else next { place with groups := reached.groups }
    | none => if negated then next place else none
  | .behind negated width body, place, next =>
    match (stepBack place width).bind fun back => run body back some with
    | some reached => if negated then none else next { place with groups := reached.groups }
    | none => if negated then next place else none
  | .atomic body, place, next => (run body place some).bind next
  | .ifGroup number present absent, place, next =>
    if (place.groups.lookup number).isSome then run present place next else run absent place next

def matchesFrom (pattern : Pattern) (before : List Char) : List Char → Bool
  | [] => (run pattern ⟨before, [], []⟩ some).isSome
  | c :: rest =>
    (run pattern ⟨before, c :: rest, []⟩ some).isSome || matchesFrom pattern (c :: before) rest

def occursIn (pattern : Pattern) (text : String) : Bool :=
  matchesFrom pattern [] text.toList

end Pattern
end Deadwood
