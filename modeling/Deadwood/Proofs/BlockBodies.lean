import Deadwood.Proofs.ChainCalls
import Deadwood.Proofs.UnendedBodies

/-!
# Bodies in braces

A definition goes on from its name to the brace of its block with a signature, and perhaps with an arrow and white space behind it.
What stands inside of round and square brackets is passed, whatever it is, so defaults, patterns and arrows of parameters do not
matter. The block goes on up to the brace that closes it, whatever blocks it holds, or has no end if no brace does. Behind an arrow
only blanks and line ends are passed: where other white space stands there, the block is missed and an expression is found.
-/

set_option autoImplicit false
namespace Deadwood.Source

open Deadwood.Text

/-! ## Texts that close what they open -/

/-- By what `depth` counts, no part that the text begins with closes more than it opens, and in the end all is closed. -/
structure ClosesAll (depth : List Char → Int) (text : List Char) : Prop where
  inside : ∀ count, 0 ≤ depth (text.take count)
  closed : depth text = 0

theorem closesAll_iff {depth : List Char → Int} {text : List Char} :
    ClosesAll depth text ↔ (∀ count ≤ text.length, 0 ≤ depth (text.take count)) ∧ depth text = 0 := by
  constructor
  · exact fun closes => ⟨fun count _ => closes.inside count, closes.closed⟩
  · rintro ⟨inside, closed⟩
    refine ⟨fun count => ?_, closed⟩
    rcases Nat.le_total count text.length with within | beyond
    · exact inside count within
    · rw [List.take_of_length_le beyond, closed]

instance (depth : List Char → Int) (text : List Char) : Decidable (ClosesAll depth text) :=
  decidable_of_iff _ closesAll_iff.symm

section

variable {bracket : Bracket}

theorem surplus_cons (c : Char) (text : List Char) :
    surplus bracket (c :: text) = surplus bracket [c] + surplus bracket text := by
  simp only [surplus, List.count_cons, List.count_nil]
  omega

theorem surplus_append (first second : List Char) :
    surplus bracket (first ++ second) = surplus bracket first + surplus bracket second := by
  simp only [surplus, List.count_append]
  omega

theorem surplus_other {c : Char} (noOpening : c ≠ bracket.opening) (noClosing : c ≠ bracket.closing) :
    surplus bracket [c] = 0 := by
  simp [surplus, noOpening, noClosing]

variable (apart : bracket.closing ≠ bracket.opening)

include apart

theorem surplus_opening : surplus bracket [bracket.opening] = 1 := by
  simp [surplus, apart.symm]

theorem surplus_closing : surplus bracket [bracket.closing] = -1 := by
  simp [surplus, apart]

/-- A text that leaves a bracket open all along is passed. -/
theorem closeAfter?_append {depth later : Nat} {inner : List Char}
    (staysOpen : ∀ count, 0 < depth + surplus bracket (inner.take count)) (reached : depth + surplus bracket inner = later)
    (rest : List Char) :
    closeAfter? bracket depth (inner ++ rest) = (closeAfter? bracket later rest).map (· + inner.length) := by
  induction inner generalizing depth with
  | nil =>
      obtain rfl : depth = later := by simpa [surplus] using reached
      simp
  | cons c inner inductionHypothesis =>
      have onward {next : Nat} (same : (next : Int) = depth + surplus bracket [c]) :
          (closeAfter? bracket next (inner ++ rest)).map (· + 1) =
            (closeAfter? bracket later rest).map (· + (c :: inner).length) := by
        rw [inductionHypothesis, Option.map_map]
        · rfl
        · intro count
          have here := staysOpen (count + 1)
          rw [List.take_succ_cons, surplus_cons] at here
          omega
        · rw [surplus_cons] at reached
          omega
      have first := staysOpen 1
      rw [List.take_succ_cons, List.take_zero] at first
      rw [List.cons_append]
      by_cases opens : c = bracket.opening
      · subst opens
        rw [surplus_opening apart] at onward
        rw [closeAfter?_opening]
        exact onward (by omega)
      · by_cases closes : c = bracket.closing
        · subst closes
          rw [surplus_closing apart] at first onward
          obtain ⟨depth, rfl⟩ : ∃ shallower, depth = shallower + 2 := ⟨depth - 2, by omega⟩
          rw [closeAfter?_closing apart]
          exact onward (by omega)
        · rw [surplus_other opens closes] at onward
          rw [closeAfter?_other opens closes]
          exact onward (by omega)

theorem closesAll_of_balanced {text : List Char} (balanced : Balanced bracket text) : ClosesAll (surplus bracket) text := by
  induction balanced with
  | nil => exact ⟨fun count => by simp [surplus], by simp [surplus]⟩
  | @other c rest noOpening noClosing _ inductionHypothesis =>
      have nothing := surplus_other noOpening noClosing
      constructor
      · intro count
        cases count with
        | zero => simp [surplus]
        | succ count =>
            have later := inductionHypothesis.inside count
            rw [List.take_succ_cons, surplus_cons]
            omega
      · rw [surplus_cons, nothing, inductionHypothesis.closed]
        rfl
  | @nested inner rest _ _ innerHypothesis restHypothesis =>
      have opened := surplus_opening apart
      have closed := surplus_closing apart
      have behind (count : Nat) : -1 ≤ surplus bracket ((bracket.closing :: rest).take count) := by
        cases count with
        | zero => simp [surplus]
        | succ count =>
            have later := restHypothesis.inside count
            rw [List.take_succ_cons, surplus_cons]
            omega
      constructor
      · intro count
        cases count with
        | zero => simp [surplus]
        | succ count =>
            have before := innerHypothesis.inside count
            have after := behind (count - inner.length)
            rw [List.take_succ_cons, surplus_cons, List.take_append, surplus_append]
            omega
      · have before := innerHypothesis.closed
        have after := restHypothesis.closed
        rw [surplus_cons, surplus_append, surplus_cons bracket.closing]
        omega

/-- Brackets are closed behind what they open just if counting them never falls below zero and ends there. -/
theorem balanced_iff_closesAll {text : List Char} : Balanced bracket text ↔ ClosesAll (surplus bracket) text := by
  refine ⟨closesAll_of_balanced apart, fun closes => ?_⟩
  have staysOpen (count : Nat) : 0 < ((1 : Nat) : Int) + surplus bracket (text.take count) := by
    have inside := closes.inside count
    omega
  have reached : ((1 : Nat) : Int) + surplus bracket text = (1 : Nat) := by
    rw [closes.closed, Int.add_zero]
  rw [balanced_iff_closeAfter? apart, closeAfter?_append apart staysOpen reached, closeAfter?_last apart, Option.map_some,
    Nat.add_comm]

end

/-! ## Blocks -/

def blockAt (opening : Nat) (after : List Char) : Body :=
  ⟨some opening, (closeAfter? .curly 1 after).map (· + (opening + 1))⟩

theorem stop_blockAt_eq_some_iff {opening stop : Nat} {after : List Char} : (blockAt opening after).stop = some stop ↔
    ∃ inner rest, after = inner ++ '\x7d' :: rest ∧ ClosesAll (surplus .curly) inner ∧ stop = opening + 1 + inner.length + 1 := by
  have apart : Bracket.curly.closing ≠ Bracket.curly.opening := by decide
  simp only [blockAt, Option.map_eq_some_iff, closeAfter?_eq_some_iff apart, balanced_iff_closesAll apart]
  constructor
  · rintro ⟨_, ⟨inner, rest, whole, closes, rfl⟩, rfl⟩
    exact ⟨inner, rest, whole, closes, by omega⟩
  · rintro ⟨inner, rest, whole, closes, rfl⟩
    exact ⟨_, ⟨inner, rest, whole, closes, rfl⟩, by omega⟩

theorem stop_blockAt_eq_none_iff {opening : Nat} {after : List Char} :
    (blockAt opening after).stop = none ↔ ∀ count, 0 ≤ surplus .curly (after.take count) := by
  rw [blockAt, Option.map_eq_none_iff, closeAfter?_curly_eq_none_iff]
  refine forall_congr' fun count => ?_
  simp only [surplus, Bracket.curly]
  omega

/-! ## From a name to its block -/

/-- What stands between the name of a definition and its block or arrow. Outside of brackets no brace, arrow or semicolon begins;
the two kinds of brackets are counted together. -/
structure IsSignature (text : List Char) : Prop where
  brackets : ClosesAll openBrackets text
  noBody : NoBody 0 text
  noClosing : ∀ count < text.length, text[count]? = some '\x7d' → openBrackets (text.take count) ≠ 0

instance (text : List Char) : Decidable (OpensBody text) :=
  inferInstanceAs (Decidable (_ ∨ _ ∨ _))

def decidableNoBody : (depth : Int) → (text : List Char) → Decidable (NoBody depth text)
  | depth, [] => .isTrue (noBody_nil depth)
  | depth, c :: text =>
    have := decidableNoBody (depth + openBrackets [c]) text
    decidable_of_iff _ noBody_cons.symm

instance (depth : Int) (text : List Char) : Decidable (NoBody depth text) :=
  decidableNoBody depth text

instance (text : List Char) : Decidable (IsSignature text) :=
  decidable_of_iff (ClosesAll openBrackets text ∧ NoBody 0 text ∧
      ∀ count < text.length, text[count]? = some '\x7d' → openBrackets (text.take count) ≠ 0)
    ⟨fun ⟨brackets, noBody, noClosing⟩ => ⟨brackets, noBody, noClosing⟩,
      fun ⟨brackets, noBody, noClosing⟩ => ⟨brackets, noBody, noClosing⟩⟩

/-- What leads from a name to the brace of its block, with so much of white space behind an arrow. -/
inductive LeadsToBlock (isWhite : Char → Bool) : List Char → Prop
  | bare {signature : List Char} (isSignature : IsSignature signature) : LeadsToBlock isWhite signature
  | arrow {signature space : List Char} (isSignature : IsSignature signature) (white : ∀ c ∈ space, isWhite c = true) :
      LeadsToBlock isWhite (signature ++ '=' :: '>' :: space)

theorem opensBody_of_append {front after : List Char} (nonempty : front ≠ []) (noArrow : after.head? ≠ some '>')
    (opens : OpensBody (front ++ after)) : OpensBody front := by
  cases front with
  | nil => exact absurd rfl nonempty
  | cons c front =>
      rw [List.cons_append, opensBody_cons] at opens
      rw [opensBody_cons]
      rcases opens with brace | ⟨equals, greater⟩ | semicolon
      · exact .inl brace
      · cases front with
        | nil => exact absurd greater noArrow
        | cons d front => exact .inr (.inl ⟨equals, greater⟩)
      · exact .inr (.inr semicolon)

/-- Where no body opens, the search goes on behind a text with the brackets that it leaves open. No arrow begins with its end. -/
theorem bodyFrom_append {depth : Int} {front after : List Char} (noBody : NoBody depth front) (noArrow : after.head? ≠ some '>')
    (pos : Nat) : bodyFrom depth pos (front ++ after) = bodyFrom (depth + openBrackets front) (pos + front.length) after := by
  induction front generalizing depth pos with
  | nil => simp [openBrackets, surplus]
  | cons c front inductionHypothesis =>
      obtain ⟨notHere, later⟩ := noBody_cons.mp noBody
      have notOpened : depth = 0 → ¬ OpensBody (c :: (front ++ after)) := fun outside opens =>
        notHere outside (opensBody_of_append (List.cons_ne_nil c front) noArrow opens)
      rw [List.cons_append, bodyFrom_cons_of_not notOpened, inductionHypothesis later, openBrackets_cons c front, Int.add_assoc,
        List.length_cons, Nat.add_assoc, Nat.add_comm 1]

theorem IsSignature.bodyFrom_append {signature after : List Char} (isSignature : IsSignature signature)
    (noArrow : after.head? ≠ some '>') (pos : Nat) :
    bodyFrom 0 pos (signature ++ after) = bodyFrom 0 (pos + signature.length) after := by
  rw [Source.bodyFrom_append isSignature.noBody noArrow, isSignature.brackets.closed, Int.add_zero]

theorem bodyFrom_arrow (pos : Nat) (rest : List Char) : bodyFrom 0 pos ('=' :: '>' :: rest) = arrowBody (pos + 2) rest := rfl

section

variable {space : List Char} (pos : Nat) (after : List Char)

theorem arrowBody_blanks (blank : ∀ c ∈ space, isBlank c = true) :
    arrowBody pos (space ++ '\x7b' :: after) = blockAt (pos + space.length) after := by
  have taken : (space ++ '\x7b' :: after).takeWhile isBlank = space := by
    rw [List.takeWhile_append_of_pos blank, List.takeWhile_cons_of_neg (by decide), List.append_nil]
  have left : (space ++ '\x7b' :: after).dropWhile isBlank = '\x7b' :: after := by
    rw [List.dropWhile_append_of_pos blank, List.dropWhile_cons_of_neg (by decide)]
  simp only [arrowBody, taken, left]
  rfl

/-- Other white space is taken for the beginning of an expression. -/
theorem arrowBody_otherSpace (white : ∀ c ∈ space, isSpace c = true) (other : ¬ ∀ c ∈ space, isBlank c = true) :
    ∃ stop, arrowBody pos (space ++ '\x7b' :: after) = ⟨none, some stop⟩ := by
  have stands : ∃ c rest, (space ++ '\x7b' :: after).dropWhile isBlank = c :: rest ∧ isSpace c = true := by
    induction space with
    | nil => exact absurd (fun _ member => absurd member List.not_mem_nil) other
    | cons c space inductionHypothesis =>
        obtain ⟨here, later⟩ := List.forall_mem_cons.mp white
        by_cases blank : isBlank c = true
        · have left := inductionHypothesis later fun all => other (List.forall_mem_cons.mpr ⟨blank, all⟩)
          rwa [List.cons_append, List.dropWhile_cons_of_pos blank]
        · exact ⟨c, _, List.dropWhile_cons_of_neg blank, here⟩
  obtain ⟨c, rest, left, isWhite⟩ := stands
  have noBrace : c ≠ '\x7b' := by
    rintro rfl
    cases isWhite
  refine ⟨expressionEnd 0 (pos + ((space ++ '\x7b' :: after).takeWhile isBlank).length) (c :: rest), ?_⟩
  unfold arrowBody
  dsimp only
  rw [left]
  split
  case h_1 same => exact absurd (List.cons.inj same).1 noBrace
  case h_2 => rfl

end

namespace LeadsToBlock

variable {head : List Char} (before after : List Char)

theorem bodyAfter_eq (leads : LeadsToBlock isBlank head) :
    bodyAfter (before ++ head ++ '\x7b' :: after) before.length = blockAt (before.length + head.length) after := by
  rw [bodyAfter, List.append_assoc, List.drop_left]
  cases leads with
  | bare isSignature => exact isSignature.bodyFrom_append (by simp) _
  | @arrow signature space isSignature blank =>
      rw [List.append_assoc, isSignature.bodyFrom_append (by simp), List.cons_append, List.cons_append, bodyFrom_arrow,
        arrowBody_blanks _ _ blank]
      congr 1
      simp only [List.length_append, List.length_cons]
      omega

theorem bodyAfter_otherSpace (leads : LeadsToBlock isSpace head) (other : ¬ LeadsToBlock isBlank head) :
    ∃ stop, bodyAfter (before ++ head ++ '\x7b' :: after) before.length = ⟨none, some stop⟩ := by
  rw [bodyAfter, List.append_assoc, List.drop_left]
  cases leads with
  | bare isSignature => exact absurd (.bare isSignature) other
  | @arrow signature space isSignature white =>
      rw [List.append_assoc, isSignature.bodyFrom_append (by simp), List.cons_append, List.cons_append, bodyFrom_arrow]
      exact arrowBody_otherSpace _ _ white fun blank => other (.arrow isSignature blank)

end LeadsToBlock

/-- The block of a definition is found just if no white space other than blanks and line ends stands behind an arrow. It then ends
behind the brace that closes it, and has no end just if none does. Else an expression that ends is found in its place. -/
theorem block_found_iff {head : List Char} (leads : LeadsToBlock isSpace head) (before after : List Char) :
    let opening := before.length + head.length
    let body := bodyAfter (before ++ head ++ '\x7b' :: after) before.length
    (body.opening = some opening ↔ LeadsToBlock isBlank head) ∧
      (LeadsToBlock isBlank head →
        (∀ stop, body.stop = some stop ↔ ∃ inner rest, after = inner ++ '\x7d' :: rest ∧ ClosesAll (surplus .curly) inner ∧
          stop = opening + 1 + inner.length + 1) ∧
        (body.stop = none ↔ ∀ count, 0 ≤ surplus .curly (after.take count))) ∧
      (¬ LeadsToBlock isBlank head → body.opening = none ∧ ∃ stop, body.stop = some stop) := by
  intro opening body
  by_cases passed : LeadsToBlock isBlank head
  · have found : body = blockAt opening after := passed.bodyAfter_eq before after
    rw [found]
    exact ⟨iff_of_true rfl passed, fun _ => ⟨fun _ => stop_blockAt_eq_some_iff, stop_blockAt_eq_none_iff⟩,
      fun other => absurd passed other⟩
  · obtain ⟨stop, found⟩ : ∃ stop, body = ⟨none, some stop⟩ := leads.bodyAfter_otherSpace before after passed
    rw [found]
    exact ⟨iff_of_false (by simp) passed, fun blank => absurd blank passed, fun _ => ⟨rfl, stop, rfl⟩⟩

def destructuredSignature : List Char := " = (\x7ba, b\x7d, done = () => \x7ba();\x7d) ".toList

def destructuredHead : List Char := destructuredSignature ++ '=' :: '>' :: ['\n', ' ', ' ']

def branchingBody : List Char := " if (a) \x7b done(); \x7d ".toList

theorem destructured_block_found : LeadsToBlock isSpace destructuredHead ∧
    let body := bodyAfter ("const tell".toList ++ destructuredHead ++ '\x7b' :: (branchingBody ++ '\x7d' :: ";\n".toList)) 10
    body.opening = some (10 + destructuredHead.length) ∧
      body.stop = some (10 + destructuredHead.length + 1 + branchingBody.length + 1) := by
  have signature : IsSignature destructuredSignature := by decide +kernel
  have spaces : ∀ c ∈ ['\n', ' ', ' '], isSpace c = true := by simp [isSpace]
  have blanks : ∀ c ∈ ['\n', ' ', ' '], isBlank c = true := by simp [isBlank]
  have white : LeadsToBlock isSpace destructuredHead := .arrow signature spaces
  have blank : LeadsToBlock isBlank destructuredHead := .arrow signature blanks
  have closes : ClosesAll (surplus .curly) branchingBody := by decide +kernel
  obtain ⟨found, ends, _⟩ := block_found_iff white "const tell".toList (branchingBody ++ '\x7d' :: ";\n".toList)
  exact ⟨white, found.mpr blank, ((ends blank).1 _).mpr ⟨branchingBody, ";\n".toList, rfl, closes, rfl⟩⟩

/-- A space that does not break lines hides the block behind an arrow. -/
theorem block_behind_noBreakSpace_missed : ¬ ∀ text before head inner rest : List Char,
    mask .code text = before ++ head ++ '\x7b' :: inner ++ '\x7d' :: rest → LeadsToBlock isSpace head →
      ClosesAll (surplus .curly) inner → bodyAfter (mask .code text) before.length =
        ⟨some (before.length + head.length), some (before.length + head.length + 1 + inner.length + 1)⟩ := by
  intro claimed
  have signature : IsSignature " = () ".toList := by decide
  have white : ∀ c ∈ ['\u00a0'], isSpace c = true := by simp [isSpace]
  have leads : LeadsToBlock isSpace " = () =>\u00a0".toList := .arrow signature white
  have found := claimed "const tell = () =>\u00a0\x7b a(); \x7d;\n".toList "const tell".toList " = () =>\u00a0".toList
    " a(); ".toList ";\n".toList (by decide +kernel) leads (by decide)
  have missed : bodyAfter (mask .code "const tell = () =>\u00a0\x7b a(); \x7d;\n".toList) 10 = ⟨none, some 28⟩ := by
    decide +kernel
  rw [show "const tell".toList.length = 10 from rfl, missed] at found
  cases found

end Deadwood.Source
