import Deadwood.Pattern.Syntax
import Deadwood.Text.CharNames

/-!
# Reading a pattern

Patterns are written in the usual notation: sets, categories, anchors, greedy, lazy and possessive
repetitions, numbered and named groups, references to them, look-around, atomic groups, conditionals on a
group, and switches for the whole pattern or one group. Look-behind needs a pattern of one width. The names by which
characters can be called are given to the reader.

Every step of the reader passes a character, so the text's length bounds its depth.
-/

set_option autoImplicit false
namespace Deadwood
namespace Pattern

open Text

/-- The fewest and the most characters a pattern can pass. -/
structure Width where
  least : Nat
  most : Option Nat
  deriving Repr, DecidableEq

/-- What the reader knows at a place of the pattern text. -/
structure Reader where
  rest : List Char
  charNames : CharNames
  flags : PatternFlags := {}
  groupCount : Nat := 1
  names : List (String × Nat) := []
  openGroups : List Nat := []
  widths : List (Nat × Width) := []
  behindFrom : Option Nat := none
  conditions : List Nat := []
  switched : List Char := []

abbrev Read (α : Type) := StateT Reader (Except PatternError) α

/-! ## Characters -/

def peek? : Read (Option Char) := do
  return (← get).rest.head?

def skip (count : Nat) : Read Unit :=
  modify fun reader => { reader with rest := reader.rest.drop count }

def accept (expected : String) : Read Bool := do
  if expected.toList.isPrefixOf (← get).rest then
    skip expected.length
    return true
  else return false

/-- The text after the first occurrence of a character that no backslash stands before. -/
def passTokens (stop : Char) : List Char → Read (Option (List Char))
  | [] => return none
  | ['\\'] => throw .badEscape
  | '\\' :: _ :: rest => passTokens stop rest
  | c :: rest => if c == stop then return some rest else passTokens stop rest

def passWhile (limit : Nat) (accepts : Char → Bool) : Read (List Char) := do
  let passed := ((← get).rest.take limit).takeWhile accepts
  skip passed.length
  return passed

def isOctal (c : Char) : Bool := '0' ≤ c && c ≤ '7'

def isHex (c : Char) : Bool := c.isDigit || ('a' ≤ c.toLower && c.toLower ≤ 'f')

def digitValue (c : Char) : Nat :=
  if c.isDigit then c.toNat - '0'.toNat else c.toLower.toNat - 'a'.toNat + 10

def numberOf (base : Nat) (digits : List Char) : Nat :=
  digits.foldl (fun value digit => value * base + digitValue digit) 0

def hexChar (count : Nat) : Read Char := do
  let digits ← passWhile count isHex
  if digits.length ≠ count || 0x10ffff < numberOf 16 digits then throw .badEscape
  return Char.ofNat (numberOf 16 digits)

def octalChar (digits : List Char) : Read Char := do
  if 255 < numberOf 8 digits then throw .badEscape
  return Char.ofNat (numberOf 8 digits)

def namedChar : Read Char := do
  if !(← accept "\x7b") then throw .badEscape
  let name ← passWhile (← get).rest.length (· != '\x7d')
  if !(← accept "\x7d") then throw .badEscape
  match (← get).charNames (String.ofList name) with
  | some c => return c
  | none => throw .badEscape

def controlEscape? : Char → Option Char
  | 'a' => some (Char.ofNat 7)
  | 'f' => some (Char.ofNat 12)
  | 'n' => some '\n'
  | 'r' => some '\r'
  | 't' => some '\t'
  | 'v' => some (Char.ofNat 11)
  | '\\' => some '\\'
  | _ => none

def categoryEscape? : Char → Option (Category × Bool)
  | 'd' => some (.decimal, false)
  | 'D' => some (.decimal, true)
  | 's' => some (.space, false)
  | 'S' => some (.space, true)
  | 'w' => some (.word, false)
  | 'W' => some (.word, true)
  | _ => none

def escapedChar (letter : Char) : Read Char := do
  match controlEscape? letter with
  | some c => return c
  | none =>
    if letter == 'x' then hexChar 2
    else if letter == 'u' then hexChar 4
    else if letter == 'U' then hexChar 8
    else if letter == 'N' then namedChar
    else if letter.isAlpha then throw .badEscape
    else return letter

/-! ## Sets -/

def oneOf (flags : PatternFlags) (negated : Bool) (items : List SetItem) : Pattern :=
  .one ⟨negated, items, flags.ignoreCase, flags.ascii⟩

def setEntry (c : Char) : Read SetItem := do
  if c ≠ '\\' then return .char c
  match ← peek? with
  | none => throw .badEscape
  | some letter =>
    skip 1
    match categoryEscape? letter with
    | some (category, negated) => return .category category negated
    | none =>
      if letter == 'b' then return .char (Char.ofNat 8)
      else if isOctal letter then
        return .char (← octalChar (letter :: (← passWhile 2 isOctal)))
      else if letter.isDigit then throw .badEscape
      else return .char (← escapedChar letter)

/-- The entries of a set up to its closing bracket, which is an entry if it comes first. -/
def setEntries (fuel : Nat) (first : Bool) (entries : List SetItem) : Read (List SetItem) := do
  match fuel with
  | 0 => throw .unterminatedSet
  | fuel + 1 =>
    match ← peek? with
    | none => throw .unterminatedSet
    | some c =>
      skip 1
      if c == ']' && !first then return entries.reverse
      let entry ← setEntry c
      if ← accept "-" then
        match ← peek? with
        | none => throw .unterminatedSet
        | some ']' =>
          skip 1
          return (.char '-' :: entry :: entries).reverse
        | some high =>
          skip 1
          match entry, ← setEntry high with
          | .char low, .char high =>
            if high < low then throw .badRange
            setEntries fuel false (.range low high :: entries)
          | _, _ => throw .badRange
      else setEntries fuel false (entry :: entries)

/-! ## Groups -/

/-- The group can be referred to here: it is closed, and not of the look-behind around this place. -/
def checkReference (number : Nat) : Read Unit := do
  let reader ← get
  if reader.openGroups.contains number then throw .openGroup
  checkBehind number
where
  checkBehind (number : Nat) : Read Unit := do
    let reader ← get
    match reader.behindFrom with
    | some first =>
      if reader.openGroups.contains number || first ≤ number then throw .openGroup
    | none => pure ()

def reference (flags : PatternFlags) (number : Nat) : Read Pattern := do
  if (← get).groupCount ≤ number then throw .unknownGroup
  checkReference number
  return .sameAs number flags.ignoreCase flags.ascii

def escape (flags : PatternFlags) : Read Pattern := do
  match ← peek? with
  | none => throw .badEscape
  | some letter =>
    skip 1
    match categoryEscape? letter with
    | some (category, negated) => return oneOf flags false [.category category negated]
    | none =>
      if letter == 'A' then return .anchor .textStart
      else if letter == 'Z' then return .anchor .textEnd
      else if letter == 'b' then return .anchor (.wordEdge flags.ascii)
      else if letter == 'B' then return .anchor (.noWordEdge flags.ascii)
      else if letter == '0' then
        return oneOf flags false [.char (← octalChar (letter :: (← passWhile 2 isOctal)))]
      else if letter.isDigit then
        let more ← passWhile 1 (·.isDigit)
        let digits := letter :: more
        if digits.all isOctal && digits.length = 2 then
          match ← passWhile 1 isOctal with
          | [third] => return oneOf flags false [.char (← octalChar (digits ++ [third]))]
          | _ => reference flags (numberOf 10 digits)
        else reference flags (numberOf 10 digits)
      else return oneOf flags false [.char (← escapedChar letter)]

def nameUpTo (stop : Char) : Read String := do
  let name ← passWhile (← get).rest.length (· != stop)
  if name.isEmpty || !(← accept stop.toString) then throw .badGroupName
  return String.ofList name

def isGroupName (name : String) : Bool :=
  match name.toList with
  | [] => false
  | c :: rest => isWordChar c && !isDecimal c && rest.all isWordChar

def openGroup (name : Option String) : Read Nat := do
  let reader ← get
  let number := reader.groupCount
  match name with
  | some name =>
    if (reader.names.lookup name).isSome then throw .badGroupName
    set { reader with groupCount := number + 1, openGroups := number :: reader.openGroups,
                      names := (name, number) :: reader.names }
  | none => set { reader with groupCount := number + 1, openGroups := number :: reader.openGroups }
  return number

/-! ## Widths -/

def Width.add (first second : Width) : Width :=
  ⟨first.least + second.least, first.most.bind fun a => second.most.map (a + ·)⟩

def Width.join (first second : Width) : Width :=
  ⟨min first.least second.least, first.most.bind fun a => second.most.map (max a ·)⟩

/-- How many characters a pattern can pass; a reference passes what its group can. -/
def width (groups : List (Nat × Width)) : Pattern → Width
  | .empty | .anchor _ | .ahead _ _ | .behind _ _ _ => ⟨0, some 0⟩
  | .one _ => ⟨1, some 1⟩
  | .sequence first second => (width groups first).add (width groups second)
  | .either first second => (width groups first).join (width groups second)
  | .repeated body least most _ =>
    let inner := width groups body
    ⟨inner.least * least,
      match inner.most, most with
      | some 0, _ => some 0
      | some a, some b => some (a * b)
      | _, some 0 => some 0
      | _, _ => none⟩
  | .group _ body | .atomic body => width groups body
  | .sameAs number _ _ => (groups.lookup number).getD ⟨0, none⟩
  | .ifGroup _ present absent => (width groups present).join (width groups absent)

def closeGroup (number : Nat) (body : Pattern) : Read Unit :=
  modify fun reader =>
    { reader with openGroups := reader.openGroups.erase number
                  widths := (number, width reader.widths body) :: reader.widths }

/-! ## Switches -/

def switch (value : Bool) (flags : PatternFlags) : Char → Option PatternFlags
  | 'i' => some { flags with ignoreCase := value }
  | 'm' => some { flags with multiline := value }
  | 's' => some { flags with dotAll := value }
  | 'x' => some { flags with verbose := value }
  | 'a' => if value then some { flags with ascii := true } else none
  | 'u' => if value then some { flags with ascii := false } else none
  | _ => none

def switchAll (value : Bool) (flags : PatternFlags) (letters : List Char) : Read PatternFlags :=
  letters.foldlM (fun flags letter =>
    match switch value flags letter with
    | some flags => pure flags
    | none => throw .badFlags) flags

/-- The switches of a group, and whether they hold for the group alone rather than the whole pattern. What is switched on for the
whole pattern is noted. -/
def readSwitches (flags : PatternFlags) : Read (PatternFlags × Bool) := do
  let letter := fun (c : Char) => c != ')' && c != ':' && c != '-'
  let length := (← get).rest.length
  let on ← passWhile length letter
  if on.contains 'a' && on.contains 'u' then throw .badFlags
  let flags ← switchAll true flags on
  if ← accept ")" then
    if on.isEmpty then throw .badFlags
    modify fun reader => { reader with switched := on ++ reader.switched }
    return (flags, false)
  else if ← accept ":" then
    if on.isEmpty then throw .badFlags
    return (flags, true)
  else if ← accept "-" then
    let off ← passWhile length letter
    if off.isEmpty || off.any on.contains then throw .badFlags
    let flags ← switchAll false flags off
    if ← accept ":" then return (flags, true) else throw .badFlags
  else throw .badFlags

/-! ## Repetitions -/

def largestBound : Nat := 4294967295

/-- The bounds and greed of a repetition that comes next; braces that hold no bounds are characters. -/
def bounds? : Read (Option (Nat × Option Nat)) := do
  match (← get).rest with
  | '*' :: _ =>
    skip 1
    return some (0, none)
  | '+' :: _ =>
    skip 1
    return some (1, none)
  | '?' :: _ =>
    skip 1
    return some (0, some 1)
  | '{' :: rest =>
    let low := rest.takeWhile Char.isDigit
    let (high, tail) : List Char × List Char :=
      match rest.dropWhile Char.isDigit with
      | ',' :: tail => (tail.takeWhile Char.isDigit, tail.dropWhile Char.isDigit)
      | tail => (low, tail)
    match tail with
    | '}' :: afterBounds =>
      if rest.head? == some '}' then return none
      let least := numberOf 10 low
      if largestBound ≤ least || largestBound ≤ numberOf 10 high then throw PatternError.boundTooLarge
      let most := if high.isEmpty then none else some (numberOf 10 high)
      if most.any (· < least) then throw PatternError.crossedBounds
      modify fun reader => { reader with rest := afterBounds }
      return some (least, most)
    | _ => return none
  | _ => return none

def isRepeated : Pattern → Bool
  | .repeated .. => true
  | _ => false

def isAnchor : Pattern → Bool
  | .anchor _ => true
  | _ => false

/-- An item of a sequence; a group without number may be repeated even if it holds a repetition. -/
structure Item where
  pattern : Pattern
  grouped : Bool := false
  deriving Repr

def sequenceOf (items : List Item) : Pattern :=
  match items.reverse with
  | [] => .empty
  | last :: earlier => earlier.foldl (fun tail item => .sequence item.pattern tail) last.pattern

def readGreed : Read Greed := do
  if ← accept "?" then return .lazy
  if ← accept "+" then return .possessive
  return .greedy

def repeatLatest (least : Nat) (most : Option Nat) (items : List Item) : Read (List Item) := do
  match items with
  | [] => throw .nothingToRepeat
  | latest :: earlier =>
    if isAnchor latest.pattern && !latest.grouped then throw .nothingToRepeat
    if isRepeated latest.pattern && !latest.grouped then throw .multipleRepeat
    let greed ← readGreed
    return { pattern := .repeated latest.pattern least most greed } :: earlier

/-! ## The grammar -/

mutual

def readBranches (fuel : Nat) (flags : PatternFlags) (nested : Bool) : Read Pattern := do
  match fuel with
  | 0 => throw .unterminatedGroup
  | fuel + 1 =>
    let first ← readItems fuel flags (!nested) []
    readMoreBranches fuel flags nested first

/-- The branches after a first one. Outside of groups, switches for the whole pattern hold in them. -/
def readMoreBranches (fuel : Nat) (flags : PatternFlags) (nested : Bool) (first : Pattern) :
    Read Pattern := do
  match fuel with
  | 0 => throw .unterminatedGroup
  | fuel + 1 =>
    if ← accept "|" then
      let reader ← get
      let current := if nested then flags else reader.flags
      let second ← readItems fuel current false []
      return .either first (← readMoreBranches fuel current nested second)
    else return first

/-- The items of one branch; `items` are those already read, the latest first. `maySwitch` says that switches
for the whole pattern may stand here. -/
def readItems (fuel : Nat) (flags : PatternFlags) (maySwitch : Bool) (items : List Item) : Read Pattern := do
  match fuel with
  | 0 => throw .unterminatedGroup
  | fuel + 1 =>
    match (← get).rest with
    | [] => return sequenceOf items.reverse
    | '|' :: _ => return sequenceOf items.reverse
    | ')' :: _ => return sequenceOf items.reverse
    | c :: rest =>
      if flags.verbose && (c == ' ' || (9 ≤ c.toNat && c.toNat ≤ 13)) then
        skip 1
        readItems fuel flags maySwitch items
      else if flags.verbose && c == '#' then
        match ← passTokens '\n' rest with
        | some tail =>
          modify fun reader => { reader with rest := tail }
          readItems fuel flags maySwitch items
        | none =>
          modify fun reader => { reader with rest := [] }
          return sequenceOf items.reverse
      else
        match ← bounds? with
        | some (least, most) => readItems fuel flags maySwitch (← repeatLatest least most items)
        | none =>
          skip 1
          let push (pattern : Pattern) (grouped : Bool := false) : Read Pattern :=
            readItems fuel flags maySwitch ({ pattern := pattern, grouped := grouped } :: items)
          match c with
          | '.' => push (if flags.dotAll then oneOf flags true [] else oneOf flags true [.char '\n'])
          | '^' => push (.anchor (if flags.multiline then .lineStart else .textStart))
          | '$' => push (.anchor (if flags.multiline then .lineEnd else .lastLineEnd))
          | '\\' => push (← escape flags)
          | '[' =>
            let negated ← accept "^"
            push (oneOf flags negated (← setEntries (← get).rest.length true []))
          | '(' =>
            if ← accept "?" then readExtension fuel flags maySwitch items
            else
              let number ← openGroup none
              let body ← readBranches fuel flags true
              if !(← accept ")") then throw .unterminatedGroup
              closeGroup number body
              push (.group number body)
          | c => push (oneOf flags false [.char c])

/-- A group that begins with a question mark, which is already passed, and the items after it. -/
def readExtension (fuel : Nat) (flags : PatternFlags) (maySwitch : Bool) (items : List Item) :
    Read Pattern := do
  match fuel with
  | 0 => throw .unterminatedGroup
  | fuel + 1 =>
    let push (pattern : Pattern) (grouped : Bool := false) : Read Pattern :=
      readItems fuel flags maySwitch ({ pattern := pattern, grouped := grouped } :: items)
    let closing : Read Unit := do
      if !(← accept ")") then throw .unterminatedGroup
    if ← accept "P" then
      if ← accept "<" then
        let name ← nameUpTo '>'
        if !isGroupName name then throw .badGroupName
        let number ← openGroup (some name)
        let body ← readBranches fuel flags true
        closing
        closeGroup number body
        push (.group number body)
      else if ← accept "=" then
        let name ← nameUpTo ')'
        if !isGroupName name then throw .badGroupName
        match (← get).names.lookup name with
        | some number => push (← reference flags number)
        | none => throw .unknownGroup
      else throw .unknownExtension
    else if ← accept ":" then
      let body ← readBranches fuel flags true
      closing
      push body true
    else if ← accept "#" then
      match ← passTokens ')' (← get).rest with
      | some tail =>
        modify fun reader => { reader with rest := tail }
        readItems fuel flags maySwitch items
      | none => throw .unterminatedComment
    else if ← accept "=" then
      let body ← readBranches fuel flags true
      closing
      push (.ahead false body)
    else if ← accept "!" then
      let body ← readBranches fuel flags true
      closing
      push (.ahead true body)
    else if ← accept "<" then
      let negated ← accept "!"
      if !negated then
        if !(← accept "=") then throw .unknownExtension
      let around := (← get).behindFrom
      modify fun reader => { reader with behindFrom := some (around.getD reader.groupCount) }
      let body ← readBranches fuel flags true
      modify fun reader => { reader with behindFrom := around }
      closing
      let passed := width (← get).widths body
      if passed.most ≠ some passed.least then throw .variableWidthBehind
      push (.behind negated passed.least body)
    else if ← accept "(" then
      let name ← nameUpTo ')'
      let number ←
        if isGroupName name then
          match (← get).names.lookup name with
          | some number => pure number
          | none => throw .unknownGroup
        else if name.toList.all (·.isDigit) && numberOf 10 name.toList ≠ 0 then
          pure (numberOf 10 name.toList)
        else throw .badGroupName
      modify fun reader => { reader with conditions := number :: reader.conditions }
      checkReference.checkBehind number
      let present ← readItems fuel flags false []
      let absent ← do
        if ← accept "|" then
          let second ← readItems fuel flags false []
          if (← peek?) == some '|' then throw .tooManyBranches
          pure second
        else pure .empty
      closing
      push (.ifGroup number present absent)
    else if ← accept ">" then
      let body ← readBranches fuel flags true
      closing
      push (.atomic body)
    else
      match ← peek? with
      | none => throw .unknownExtension
      | some c =>
        if c != '-' && (switch true flags c).isNone then throw .unknownExtension
        let (inner, forGroup) ← readSwitches flags
        if forGroup then
          let body ← readBranches fuel inner true
          closing
          push body true
        else
          if !maySwitch || !items.isEmpty then throw .lateFlags
          modify fun reader => { reader with flags := inner }
          readItems fuel inner maySwitch items

end

def readWhole (charNames : CharNames) (text : List Char) (flags : PatternFlags) :
    Except PatternError (Pattern × PatternFlags) := do
  let (pattern, reader) ← (readBranches (4 * text.length + 4) flags false).run
    { rest := text, charNames := charNames, flags := flags }
  if reader.switched.contains 'a' && reader.switched.contains 'u' then throw .contraryFlags
  if !reader.rest.isEmpty then throw .unbalancedParenthesis
  if reader.conditions.any (reader.groupCount ≤ ·) then throw .unknownGroup
  return (pattern, reader.flags)

def ofNaming (charNames : CharNames) (text : String) : Except PatternError Pattern :=
  (readWhole charNames text.toList {}).map (·.1)

def ofString (text : String) : Except PatternError Pattern :=
  ofNaming asciiNames text

end Pattern
end Deadwood
