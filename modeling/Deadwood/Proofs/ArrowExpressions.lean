import Deadwood.Proofs.BindingIntroducers

/-!
# Arrows with an expression for a body

The expression of an arrow goes up to its semicolon, but the scan for its end also stops before a line feed that stands outside
of all brackets. So a binding of a name to such an arrow is taken up whole just if its expression has no such line feed.
-/

set_option autoImplicit false
namespace Deadwood

open Source Text Scan

namespace Source

/-! ## Expressions -/

/-- How many brackets are open after a character; none if it closes a bracket where none is open. -/
def depthNext? (depth : Nat) (c : Char) : Option Nat :=
  if c == '(' || c == '[' || c == '\x7b' then some (depth + 1)
  else if c == ')' || c == ']' || c == '\x7d' then
    match depth with
    | 0 => none
    | depth + 1 => some depth
  else some depth

/-- How many brackets are open after a text, if none is closed where none is open. -/
def depthAfter? (depth : Nat) : List Char → Option Nat
  | [] => some depth
  | c :: rest => (depthNext? depth c).bind fun next => depthAfter? next rest

/-- The characters of a text before which and after which no bracket is open. -/
def outermost (depth : Nat) : List Char → List Char
  | [] => []
  | c :: rest =>
    match depthNext? depth c with
    | none => []
    | some next => if depth = 0 ∧ next = 0 then c :: outermost next rest else outermost next rest

theorem outermost_cons {depth next : Nat} {c : Char} (goesOn : depthNext? depth c = some next) (rest : List Char) :
    outermost depth (c :: rest) =
      if depth = 0 ∧ next = 0 then c :: outermost next rest else outermost next rest := by
  rw [outermost, goesOn]

theorem depthAfter?_cons {depth next : Nat} {c : Char} (goesOn : depthNext? depth c = some next) (rest : List Char) :
    depthAfter? depth (c :: rest) = depthAfter? next rest := by
  rw [depthAfter?, goesOn, Option.bind_some]

/-- The scan for the end goes on over a character that is no separator and no line feed outside of all brackets. -/
theorem expressionEnd_cons {depth next : Nat} {c : Char} (goesOn : depthNext? depth c = some next)
    (ends : depth = 0 ∧ next = 0 → c ≠ ';' ∧ c ≠ ',' ∧ c ≠ '\n') (pos : Nat) (rest : List Char) :
    expressionEnd depth pos (c :: rest) = expressionEnd next (pos + 1) rest := by
  unfold depthNext? at goesOn
  conv_lhs => unfold expressionEnd
  split at goesOn
  case isTrue opens =>
    obtain rfl := Option.some.inj goesOn
    rw [if_pos opens]
  case isFalse noOpening =>
    rw [if_neg noOpening]
    split at goesOn
    case isTrue closes =>
      rw [if_pos closes]
      cases depth with
      | zero => cases goesOn
      | succ depth =>
          obtain rfl := Option.some.inj goesOn
          rfl
    case isFalse noClosing =>
      obtain rfl := Option.some.inj goesOn
      rw [if_neg noClosing]
      by_cases outside : depth = 0
      · have goes := ends ⟨outside, outside⟩
        simp [goes]
      · simp [outside]

theorem expressionEnd_append {depth later : Nat} {text : List Char}
    (ends : ∀ c ∈ outermost depth text, c ≠ ';' ∧ c ≠ ',' ∧ c ≠ '\n') (nested : depthAfter? depth text = some later)
    (pos : Nat) (rest : List Char) :
    expressionEnd depth pos (text ++ rest) = expressionEnd later (pos + text.length) rest := by
  induction text generalizing depth pos with
  | nil =>
      obtain rfl := Option.some.inj nested
      rfl
  | cons c text inductionHypothesis =>
      obtain ⟨next, goesOn, nestedRest⟩ := Option.bind_eq_some_iff.mp nested
      rw [outermost_cons goesOn] at ends
      have later : pos + (c :: text).length = pos + 1 + text.length := by
        rw [List.length_cons]
        omega
      rw [List.cons_append, later]
      split at ends
      case isTrue outside =>
        rw [expressionEnd_cons goesOn fun _ => ends c List.mem_cons_self]
        exact inductionHypothesis (fun d member => ends d (List.mem_cons_of_mem c member)) nestedRest _
      case isFalse inside =>
        rw [expressionEnd_cons goesOn fun outside => absurd outside inside]
        exact inductionHypothesis ends nestedRest _

/-- Where the first line feed of a text stands that is outside of all brackets. -/
structure BreaksAt (depth : Nat) (text front back : List Char) : Prop where
  split : text = front ++ '\n' :: back
  nested : depthAfter? depth front = some 0
  first : '\n' ∉ outermost depth front

theorem BreaksAt.subset {depth : Nat} {text front back : List Char} (breaks : BreaksAt depth text front back) :
    outermost depth front ⊆ outermost depth text := by
  obtain ⟨rfl, nested, -⟩ := breaks
  induction front generalizing depth with
  | nil => exact List.nil_subset _
  | cons c front inductionHypothesis =>
      obtain ⟨next, goesOn, nestedRest⟩ := Option.bind_eq_some_iff.mp nested
      rw [List.cons_append, outermost_cons goesOn, outermost_cons goesOn]
      split
      · exact List.cons_subset_cons c (inductionHypothesis nestedRest)
      · exact inductionHypothesis nestedRest

theorem exists_breaksAt {depth later : Nat} {text : List Char} (nested : depthAfter? depth text = some later)
    (stands : '\n' ∈ outermost depth text) : ∃ front back, BreaksAt depth text front back := by
  induction text generalizing depth with
  | nil => cases stands
  | cons c text inductionHypothesis =>
      obtain ⟨next, goesOn, nestedRest⟩ := Option.bind_eq_some_iff.mp nested
      by_cases here : depth = 0 ∧ c = '\n'
      · obtain ⟨rfl, rfl⟩ := here
        exact ⟨[], text, rfl, rfl, List.not_mem_nil⟩
      · rw [outermost_cons goesOn] at stands
        have further : '\n' ∈ outermost next text := by
          split at stands
          case isTrue outside =>
            rcases List.mem_cons.mp stands with same | further
            · exact absurd ⟨outside.1, same.symm⟩ here
            · exact further
          case isFalse => exact stands
        obtain ⟨front, back, breaks⟩ := inductionHypothesis nestedRest further
        refine ⟨c :: front, back, by rw [breaks.split, List.cons_append], ?_, ?_⟩
        · rw [depthAfter?_cons goesOn, breaks.nested]
        · rw [outermost_cons goesOn]
          split
          case isTrue outside =>
            intro member
            rcases List.mem_cons.mp member with same | member
            · exact here ⟨outside.1, same.symm⟩
            · exact breaks.first member
          case isFalse => exact breaks.first

/-- The scan for the end of an expression stops behind its semicolon, or before the first line feed outside of all brackets. -/
theorem expressionEnd_eq {text : List Char} (nested : depthAfter? 0 text = some 0)
    (closed : ∀ c ∈ outermost 0 text, c ≠ ';' ∧ c ≠ ',') (pos : Nat) (rest : List Char) :
    ('\n' ∉ outermost 0 text → expressionEnd 0 pos (text ++ ';' :: rest) = pos + text.length + 1) ∧
      ∀ front back, BreaksAt 0 text front back → expressionEnd 0 pos (text ++ ';' :: rest) = pos + front.length := by
  refine ⟨fun unbroken => ?_, fun front back breaks => ?_⟩
  · rw [expressionEnd_append (fun c member => ?_) nested]
    · rfl
    · obtain ⟨noSemicolon, noComma⟩ := closed c member
      exact ⟨noSemicolon, noComma, fun same => unbroken (same ▸ member)⟩
  · have whole : text ++ ';' :: rest = front ++ '\n' :: (back ++ ';' :: rest) := by
      rw [breaks.split, List.append_assoc, List.cons_append]
    rw [whole, expressionEnd_append (fun c member => ?_) breaks.nested]
    · rfl
    · obtain ⟨noSemicolon, noComma⟩ := closed c (breaks.subset member)
      exact ⟨noSemicolon, noComma, fun same => breaks.first (same ▸ member)⟩

/-! ## From a name to an expression -/

/-- What stands before an arrow's parameters and has no round or square bracket is passed over. -/
theorem bodyFrom_parameters {parameters : List Char} (noBracket : ∀ c ∈ parameters, c ≠ '(' ∧ c ≠ '[' ∧ c ≠ ')' ∧ c ≠ ']')
    (pos : Nat) (rest : List Char) :
    bodyFrom 1 pos (parameters ++ rest) = bodyFrom 1 (pos + parameters.length) rest := by
  induction parameters generalizing pos with
  | nil => rfl
  | cons c parameters inductionHypothesis =>
      obtain ⟨noRound, noSquare, noRoundEnd, noSquareEnd⟩ := noBracket c List.mem_cons_self
      have later := inductionHypothesis (fun d member => noBracket d (List.mem_cons_of_mem c member)) (pos + 1)
      rw [List.cons_append, bodyFrom, List.length_cons]
      simp [noRound, noSquare, noRoundEnd, noSquareEnd, later]
      congr 1
      omega

/-- The body that follows the name in a binding of an arrow is what follows the arrow. -/
theorem bodyFrom_binding {parameters : List Char} (noBracket : ∀ c ∈ parameters, c ≠ '(' ∧ c ≠ '[' ∧ c ≠ ')' ∧ c ≠ ']')
    (pos : Nat) (rest : List Char) :
    bodyFrom 0 pos (" = (".toList ++ (parameters ++ (") =>".toList ++ rest))) =
      arrowBody (pos + parameters.length + 8) rest := by
  have passed := bodyFrom_parameters noBracket (pos + 4) (") =>".toList ++ rest)
  simp [bodyFrom] at passed ⊢
  exact passed.trans (congrArg (arrowBody · rest) (by omega))

theorem arrowBody_expression {c : Char} (visible : isBlank c = false) (noBlock : c ≠ '\x7b') (pos : Nat) (rest : List Char) :
    arrowBody pos (' ' :: c :: rest) = ⟨none, some (expressionEnd 0 (pos + 1) (c :: rest))⟩ := by
  have blank : isBlank ' ' = true := rfl
  have skipped : (' ' :: c :: rest).dropWhile isBlank = c :: rest := by simp [blank, visible]
  have passed : (' ' :: c :: rest).takeWhile isBlank = [' '] := by simp [blank, visible]
  unfold arrowBody
  rw [skipped, passed]
  split
  case h_1 same => exact absurd (List.cons.inj same).1 noBlock
  case h_2 => rfl

/-! ## Plain text -/

/-- Plain text is shown as it is, and what follows is shown as if it began the text. -/
theorem maskFrom_append_of_plain {text : List Char} (plain : ∀ c ∈ text, c ≠ '/' ∧ c ≠ '\'' ∧ c ≠ '"' ∧ c ≠ '`')
    (view : View) (written rest : List Char) :
    maskFrom view .code [] written (text ++ rest) =
      text ++ maskFrom view .code [] (text.reverse ++ written) rest := by
  induction text generalizing written with
  | nil => rfl
  | cons c text inductionHypothesis =>
      obtain ⟨noSlash, noSingle, noDouble, noTemplate⟩ := plain c List.mem_cons_self
      have later := inductionHypothesis (fun other member => plain other (List.mem_cons_of_mem c member)) (c :: written)
      simp [maskFrom, noSlash, noSingle, noDouble, noTemplate, later]

theorem ne_of_class {accepts : Char → Bool} {c d : Char} (accepted : accepts c = true) (rejected : accepts d = false) :
    c ≠ d := by
  rintro rfl
  rw [accepted] at rejected
  cases rejected

def isParameterPart (c : Char) : Bool :=
  isIdentifierPart c || c == ',' || isSpace c

end Source

namespace Removal

/-! ## Bindings -/

/-- A binding of a name to an arrow with an expression for a body: `const name = (parameters) => expression;`. The expression's
brackets pair up, no literal, comment or pattern can begin in it, and no separator stands outside of its brackets. -/
structure ArrowBinding where
  name : String
  parameters : List Char
  expression : List Char
  identifier : IsIdentifier name.toList
  listed : ∀ c ∈ parameters, isParameterPart c = true
  begins : ∃ c rest, expression = c :: rest ∧ isBlank c = false ∧ c ≠ '\x7b'
  nested : depthAfter? 0 expression = some 0
  plain : ∀ c ∈ expression, c ≠ '/' ∧ c ≠ '\'' ∧ c ≠ '"' ∧ c ≠ '`'
  closed : ∀ c ∈ outermost 0 expression, c ≠ ';' ∧ c ≠ ','

namespace ArrowBinding

variable (binding : ArrowBinding) (rest : List Char)

def text : List Char :=
  bindingText binding.name.toList binding.parameters (' ' :: (binding.expression ++ ';' :: rest))

def opening : Nat :=
  6 + binding.name.toList.length + binding.parameters.length + 8 + 1

def semicolon : Nat :=
  binding.opening + binding.expression.length

theorem text_eq_append : binding.text rest = binding.text [] ++ rest := by
  simp [text, bindingText_eq]

theorem drop_opening : (binding.text rest).drop binding.opening = binding.expression ++ ';' :: rest := by
  have front : binding.text rest = ("const ".toList ++ (binding.name.toList ++ (" = (".toList ++
      (binding.parameters ++ ") => ".toList)))) ++ (binding.expression ++ ';' :: rest) := by
    simp [text, bindingText_eq]
  have length : binding.opening = ("const ".toList ++ (binding.name.toList ++ (" = (".toList ++
      (binding.parameters ++ ") => ".toList)))).length := by
    simp [opening]
    omega
  rw [front, length, List.drop_left]

theorem plain_text : ∀ c ∈ binding.text [], c ≠ '/' ∧ c ≠ '\'' ∧ c ≠ '"' ∧ c ≠ '`' := by
  have name : ∀ c ∈ binding.name.toList, c ≠ '/' ∧ c ≠ '\'' ∧ c ≠ '"' ∧ c ≠ '`' := by
    intro c member
    have part := binding.identifier.isIdentifierPart c member
    exact ⟨ne_of_class part (by decide), ne_of_class part (by decide), ne_of_class part (by decide),
      ne_of_class part (by decide)⟩
  have parameters : ∀ c ∈ binding.parameters, c ≠ '/' ∧ c ≠ '\'' ∧ c ≠ '"' ∧ c ≠ '`' := by
    intro c member
    have part := binding.listed c member
    exact ⟨ne_of_class part (by decide), ne_of_class part (by decide), ne_of_class part (by decide),
      ne_of_class part (by decide)⟩
  intro c member
  simp only [text, bindingText_eq, List.mem_append, List.mem_cons, List.not_mem_nil, or_false] at member
  rcases member with here | here | here | here | here | here | here | here
  · simp at here
    rcases here with rfl | rfl | rfl | rfl | rfl | rfl <;> decide
  · exact name c here
  · simp at here
    rcases here with rfl | rfl | rfl | rfl <;> decide
  · exact parameters c here
  · simp at here
    rcases here with rfl | rfl | rfl | rfl <;> decide
  · rw [here]
    decide
  · exact binding.plain c here
  · rw [here]
    decide

/-- The masked view of a text that begins with the binding begins with it, too. -/
theorem exists_searchView : ∃ later, searchView false (binding.text rest) = binding.text later := by
  refine ⟨maskFrom .code .code [] ((binding.text []).reverse ++ []) rest, ?_⟩
  rw [text_eq_append, searchView]
  exact (maskFrom_append_of_plain binding.plain_text .code [] rest).trans (binding.text_eq_append _).symm

theorem bodyAfter_text : (bodyAfter (binding.text rest) (6 + binding.name.toList.length)).stop =
    some (expressionEnd 0 binding.opening (binding.expression ++ ';' :: rest)) := by
  have noBracket : ∀ c ∈ binding.parameters, c ≠ '(' ∧ c ≠ '[' ∧ c ≠ ')' ∧ c ≠ ']' := by
    intro c member
    have part := binding.listed c member
    exact ⟨ne_of_class part (by decide), ne_of_class part (by decide), ne_of_class part (by decide),
      ne_of_class part (by decide)⟩
  have behindName : (binding.text rest).drop (6 + binding.name.toList.length) =
      " = (".toList ++ (binding.parameters ++ (") =>".toList ++ (' ' :: (binding.expression ++ ';' :: rest)))) := by
    have front : binding.text rest = ("const ".toList ++ binding.name.toList) ++
        (" = (".toList ++ (binding.parameters ++ (") =>".toList ++ (' ' :: (binding.expression ++ ';' :: rest))))) := by
      simp [text, bindingText_eq]
    have length : 6 + binding.name.toList.length = ("const ".toList ++ binding.name.toList).length := by
      simp
      omega
    rw [front, length, List.drop_left]
  obtain ⟨c, others, same, visible, noBlock⟩ := binding.begins
  rw [bodyAfter, behindName, bodyFrom_binding noBracket, same, List.cons_append, arrowBody_expression visible noBlock]
  rfl

theorem overTerminator_of_lineFeed {text rest : List Char} {stop : Nat} (stands : text.drop stop = '\n' :: rest) :
    overTerminator text stop = stop + 1 := by
  have inline : isInlineBlank '\n' = false := rfl
  have lengths := congrArg List.length stands
  rw [List.length_drop, List.length_cons] at lengths
  unfold overTerminator
  rw [stands]
  simp [inline]
  omega

/-- A binding at the beginning of a text is located, from its beginning on. The span covers the semicolon just if no line feed of
the expression stands outside of its brackets. Else it ends behind the first one that does. -/
theorem covers_semicolon_iff :
    ∃ span, locate? false binding.name (binding.text rest) = some span ∧ span.start = 0 ∧
      (binding.semicolon < span.stop ↔ '\n' ∉ outermost 0 binding.expression) ∧
      ∀ front back, BreaksAt 0 binding.expression front back → span.stop = binding.opening + front.length + 1 := by
  obtain ⟨later, view⟩ := binding.exists_searchView rest
  have noRound : ∀ c ∈ binding.parameters, c ≠ '(' ∧ c ≠ ')' := fun c member =>
    ⟨ne_of_class (binding.listed c member) (by decide), ne_of_class (binding.listed c member) (by decide)⟩
  obtain ⟨hit, first, start, value⟩ := exists_firstIntroducer?_binding binding.identifier noRound
    (' ' :: (binding.expression ++ ';' :: later))
  have firstInText : firstIntroducer? (binding.text later) binding.name = some hit := first
  have ends := binding.bodyAfter_text later
  obtain ⟨unbroken, broken⟩ := expressionEnd_eq binding.nested binding.closed binding.opening later
  generalize expressionEnd 0 binding.opening (binding.expression ++ ';' :: later) = stop at ends unbroken broken
  have stands := binding.drop_opening rest
  have lengths := congrArg List.length stands
  rw [List.length_drop, List.length_append, List.length_cons] at lengths
  have atBreak : ∀ front back, BreaksAt 0 binding.expression front back →
      overTerminator (binding.text rest) stop = binding.opening + front.length + 1 := by
    intro front back breaks
    rw [broken front back breaks]
    have lineFeed : (binding.text rest).drop (binding.opening + front.length) = '\n' :: (back ++ ';' :: rest) := by
      rw [← List.drop_drop, stands, breaks.split, List.append_assoc, List.drop_left, List.cons_append]
    exact overTerminator_of_lineFeed lineFeed
  have located : ∃ startLine endLine, locate? false binding.name (binding.text rest) = some
      ⟨binding.name, overDocComment (binding.text rest) (binding.text later) (toLineStart (binding.text rest) 0),
        overTerminator (binding.text rest) stop, startLine, endLine⟩ := by
    unfold locate?
    rw [view]
    dsimp only
    rw [firstInText, Option.bind_some, value, ends, Option.map_some, start]
    exact ⟨_, _, rfl⟩
  obtain ⟨startLine, endLine, located⟩ := located
  refine ⟨_, located, ?_, ?_, atBreak⟩
  · have line := toLineStart_le (binding.text rest) 0
    have comment := overDocComment_le (binding.text rest) (binding.text later) (toLineStart (binding.text rest) 0)
    exact Nat.le_zero.mp (Nat.le_trans comment line)
  · unfold semicolon
    dsimp only
    constructor
    · intro covers breaks
      obtain ⟨front, back, first⟩ := exists_breaksAt binding.nested breaks
      have short := congrArg List.length first.split
      rw [List.length_append, List.length_cons] at short
      rw [atBreak front back first] at covers
      omega
    · intro noBreak
      have inside : stop ≤ (binding.text rest).length := by
        rw [unbroken noBreak]
        omega
      have bounds := (overTerminator_bounds inside).1
      rw [unbroken noBreak] at bounds ⊢
      omega

def continuedCall : ArrowBinding where
  name := "tell"
  parameters := "a".toList
  expression := "a\n  .trim()".toList
  identifier := ⟨'t', "ell".toList, rfl, by decide, List.all_eq_true.mp (by decide)⟩
  listed := List.all_eq_true.mp (by decide)
  begins := ⟨'a', "\n  .trim()".toList, rfl, by decide, by decide⟩
  nested := by decide
  plain := by simp
  closed := by
    have shown : outermost 0 "a\n  .trim()".toList = "a\n  .trim".toList := by decide
    rw [shown]
    simp

/-- The span of the continued call ends with its first line, and the rest of the call stays. -/
theorem continuedCall_is_torn :
    locate? false continuedCall.name (continuedCall.text "\n".toList) = some ⟨"tell", 0, 22, 1, 1⟩ ∧
      continuedCall.semicolon = 31 ∧
      remove? false continuedCall.name (continuedCall.text "\n".toList) =
        some ("  .trim();\n".toList, ⟨"tell", 0, 22, 1, 1⟩) := by
  refine ⟨?_, ?_, ?_⟩ <;> decide +kernel

end ArrowBinding
end Removal
end Deadwood
