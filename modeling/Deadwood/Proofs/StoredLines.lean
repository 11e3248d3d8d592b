import Deadwood.Proofs.TextBytes

/-!
# Lines as they are stored

A stored text ends its lines with a line feed, with a carriage return, or with both; a text that is read has line feeds only.
So the places of the lines move, and the text that is read is shorter by a byte for each line that ends with both.
-/

set_option autoImplicit false
namespace Deadwood.Text

variable {stored first second : List Char}

/-! ## Line ends that are read -/

/-- How many lines end with a carriage return and a line feed. -/
def countPairs : List Char → Nat
  | [] => 0
  | '\r' :: '\n' :: rest => countPairs rest + 1
  | _ :: rest => countPairs rest

theorem encode_cons (c : Char) (rest : List Char) : encode (c :: rest) = String.utf8EncodeChar c ++ encode rest :=
  List.flatMap_cons

/-- Reading loses a byte for each carriage return with a line feed, and no other. -/
theorem length_encode_unifyLineEnds (stored : List Char) :
    (encode (unifyLineEnds stored)).length + countPairs stored = (encode stored).length := by
  have feed : (String.utf8EncodeChar '\n').length = 1 := by decide
  have carriage : (String.utf8EncodeChar '\r').length = 1 := by decide
  fun_induction unifyLineEnds stored with
  | case1 => rfl
  | case2 rest ih =>
      rw [encode_cons, encode_cons, encode_cons, countPairs]
      simp only [List.length_append, feed, carriage]
      omega
  | case3 rest alone ih =>
      rw [encode_cons, encode_cons, countPairs]
      · simp only [List.length_append, feed, carriage]
        omega
      · exact fun more _ same => alone more same
  | case4 c rest alone notReturn ih =>
      rw [encode_cons, encode_cons, countPairs]
      · simp only [List.length_append]
        omega
      · exact fun more isReturn _ => notReturn isReturn

theorem unifyLineEnds_cons {c : Char} (notReturn : c ≠ '\r') (rest : List Char) :
    unifyLineEnds (c :: rest) = c :: unifyLineEnds rest := by
  rw [unifyLineEnds]
  · exact fun _ isReturn _ => notReturn isReturn
  · exact fun isReturn => notReturn isReturn

theorem unifyLineEnds_return {rest : List Char} (alone : rest.head? ≠ some '\n') :
    unifyLineEnds ('\r' :: rest) = '\n' :: unifyLineEnds rest := by
  rw [unifyLineEnds]
  exact fun more same => alone (by rw [same]; rfl)

/-- A text is read part by part, unless the parts come from between a carriage return and its line feed. -/
theorem unifyLineEnds_append (apart : first.getLast? = some '\r' → second.head? ≠ some '\n') :
    unifyLineEnds (first ++ second) = unifyLineEnds first ++ unifyLineEnds second := by
  fun_induction unifyLineEnds first with
  | case1 => rfl
  | case2 rest ih =>
      rw [List.cons_append, List.cons_append, unifyLineEnds, ih, List.cons_append]
      intro last
      exact apart (by rw [List.getLast?_cons, List.getLast?_cons, last]; rfl)
  | case3 rest alone ih =>
      cases rest with
      | nil => exact unifyLineEnds_return (apart rfl)
      | cons c rest =>
          have notFeed : (c :: rest ++ second).head? ≠ some '\n' := by
            intro same
            exact alone rest (by rw [Option.some.inj same])
          rw [List.cons_append, unifyLineEnds_return notFeed, ih, List.cons_append]
          intro last
          exact apart (by rw [List.getLast?_cons, last]; rfl)
  | case4 c rest alone notReturn ih =>
      rw [List.cons_append, unifyLineEnds_cons fun same => notReturn same, ih, List.cons_append]
      intro last
      exact apart (by rw [List.getLast?_cons, last]; rfl)

/-- The end of a text that is read is the end of the stored text. -/
theorem getLast?_unifyLineEnds (stored : List Char) :
    (unifyLineEnds stored).getLast? = stored.getLast?.map fun c => if c = '\r' then '\n' else c := by
  fun_induction unifyLineEnds stored with
  | case1 => rfl
  | case2 rest ih =>
      rw [List.getLast?_cons, List.getLast?_cons, List.getLast?_cons, ih]
      cases rest.getLast? <;> rfl
  | case3 rest _ ih =>
      rw [List.getLast?_cons, List.getLast?_cons, ih]
      cases rest.getLast? <;> rfl
  | case4 c rest _ notReturn ih =>
      rw [List.getLast?_cons, List.getLast?_cons, ih]
      cases rest.getLast? with
      | none => exact congrArg some (if_neg fun same => notReturn same).symm
      | some last => rfl

theorem readText_encode_unify (stored : List Char) : Files.readText (encode stored) = .ok (unifyLineEnds stored) := by
  rw [Files.readText, decode_encode]
  rfl

/-! ## Stored lines -/

/-- How a line ends: with a line feed, with a carriage return, with both, or not, where the text ends. -/
inductive LineEnd where
  | feed
  | carriage
  | pair
  | missing
  deriving Repr, DecidableEq

namespace LineEnd

def chars : LineEnd → List Char
  | feed => ['\n']
  | carriage => ['\r']
  | pair => ['\r', '\n']
  | missing => []

def read : LineEnd → List Char
  | missing => []
  | _ => ['\n']

theorem unifyLineEnds_chars (ending : LineEnd) : unifyLineEnds ending.chars = ending.read := by
  cases ending <;> rfl

end LineEnd

def WholeLines (text : List Char) : Prop :=
  text = [] ∨ text.getLast? = some '\n'

theorem WholeLines.drop {text : List Char} (whole : WholeLines text) (count : Nat) : WholeLines (text.drop count) := by
  rcases whole with none | last
  · exact Or.inl (by rw [none, List.drop_nil])
  · by_cases inside : count < text.length
    · exact Or.inr (by rw [List.getLast?_drop, if_neg (by omega), last])
    · exact Or.inl (List.drop_eq_nil_of_le (by omega))

theorem WholeLines.append {first second : List Char} (whole : WholeLines second) (some : second ≠ []) :
    WholeLines (first ++ second) := by
  refine Or.inr ?_
  rw [List.getLast?_append, whole.resolve_left some]
  rfl

/-- A line of a stored text, with what stands above and below it. -/
structure StoredLine (stored : List Char) where
  above : List Char
  body : List Char
  ending : LineEnd
  below : List Char
  whole : stored = above ++ (body ++ (ending.chars ++ below))
  begins : above = [] ∨ above.getLast? = some '\n' ∨
    above.getLast? = some '\r' ∧ (body ++ (ending.chars ++ below)).head? ≠ some '\n'
  oneLine : '\n' ∉ body ∧ '\r' ∉ body
  ends : (ending = .carriage → below.head? ≠ some '\n') ∧ (ending = .missing → below = [] ∧ body ≠ [])

namespace StoredLine

/-- Where the line begins in the text that is read. -/
def start (line : StoredLine stored) : Nat :=
  (unifyLineEnds line.above).length

/-- Where the line ends in the text that is read, line end included. -/
def stop (line : StoredLine stored) : Nat :=
  line.start + line.body.length + line.ending.read.length

theorem unifyLineEnds_body (line : StoredLine stored) : unifyLineEnds line.body = line.body :=
  unifyLineEnds_eq_self line.body line.oneLine.2

/-- A line is read with its line end, between what is above and below it. -/
theorem unifyLineEnds_eq (line : StoredLine stored) :
    unifyLineEnds stored =
      unifyLineEnds line.above ++ (line.body ++ (line.ending.read ++ unifyLineEnds line.below)) := by
  have endsApart : line.ending.chars.getLast? = some '\r' → line.below.head? ≠ some '\n' := by
    intro last
    cases ending : line.ending with
    | carriage => exact line.ends.1 ending
    | feed | pair | missing =>
        rw [ending] at last
        cases last
  have bodyApart : line.body.getLast? = some '\r' → (line.ending.chars ++ line.below).head? ≠ some '\n' :=
    fun last => absurd (List.mem_of_getLast? last) line.oneLine.2
  have aboveApart : line.above.getLast? = some '\r' →
      (line.body ++ (line.ending.chars ++ line.below)).head? ≠ some '\n' := by
    intro last
    rcases line.begins with none | feed | ⟨_, notFeed⟩
    · rw [none] at last
      cases last
    · rw [feed] at last
      cases last
    · exact notFeed
  calc unifyLineEnds stored
      = unifyLineEnds (line.above ++ (line.body ++ (line.ending.chars ++ line.below))) := by rw [← line.whole]
    _ = _ := by
      rw [unifyLineEnds_append aboveApart, unifyLineEnds_append bodyApart, unifyLineEnds_append endsApart,
        line.unifyLineEnds_body, LineEnd.unifyLineEnds_chars]

theorem wholeLines_above (line : StoredLine stored) : WholeLines (unifyLineEnds line.above) := by
  rw [WholeLines, getLast?_unifyLineEnds]
  rcases line.begins with none | feed | ⟨carriage, _⟩
  · exact Or.inl (by rw [none]; rfl)
  · exact Or.inr (by rw [feed]; rfl)
  · exact Or.inr (by rw [carriage]; rfl)

end StoredLine
end Deadwood.Text
