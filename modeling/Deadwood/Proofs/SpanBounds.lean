import Deadwood.Proofs.MaskShape
import Deadwood.Proofs.Sightings

/-!
# The bounds of a span

The span of a located function lies in its text: it begins at the introducer or earlier and ends at the end of the body or
later.
-/

set_option autoImplicit false
namespace Deadwood

open Source Text Scan

namespace Source

/-! ## Bodies -/

theorem closeAfter?_le {bracket : Bracket} {depth count : Nat} {text : List Char}
    (closed : closeAfter? bracket depth text = some count) : count ≤ text.length := by
  induction text generalizing depth count with
  | nil => cases closed
  | cons c rest ih =>
      have later : ∀ {depth : Nat}, (closeAfter? bracket depth rest).map (· + 1) = some count →
          count ≤ (c :: rest).length := by
        intro depth found
        obtain ⟨before, foundBefore, rfl⟩ := Option.map_eq_some_iff.mp found
        exact Nat.succ_le_succ (ih foundBefore)
      unfold closeAfter? at closed
      split at closed
      · exact later closed
      · split at closed
        · split at closed
          · exact later closed
          · obtain rfl := Option.some.inj closed
            exact Nat.succ_le_succ (Nat.zero_le _)
          · exact later closed
        · exact later closed

theorem expressionEnd_bounds (depth pos : Nat) (text : List Char) :
    pos ≤ expressionEnd depth pos text ∧ expressionEnd depth pos text ≤ pos + text.length := by
  induction text generalizing depth pos with
  | nil => exact ⟨Nat.le_refl _, Nat.le_refl _⟩
  | cons c rest ih =>
      have later : ∀ depth, pos ≤ expressionEnd depth (pos + 1) rest ∧
          expressionEnd depth (pos + 1) rest ≤ pos + (c :: rest).length := by
        intro depth
        have bounds := ih depth (pos + 1)
        rw [List.length_cons]
        omega
      unfold expressionEnd
      split
      · exact later _
      · split
        · split
          · exact ⟨Nat.le_refl _, Nat.le_add_right _ _⟩
          · exact later _
        · split
          · rw [List.length_cons]
            omega
          · split
            · exact ⟨Nat.le_refl _, Nat.le_add_right _ _⟩
            · exact later _

theorem arrowBody_bounds {pos stop : Nat} {text : List Char} (ends : (arrowBody pos text).stop = some stop) :
    pos ≤ stop ∧ stop ≤ pos + text.length := by
  have lengths : text.length = (text.takeWhile isBlank).length + (text.dropWhile isBlank).length := by
    rw [← List.length_append, List.takeWhile_append_dropWhile]
  unfold arrowBody at ends
  dsimp only at ends
  split at ends
  · rename_i rest same
    obtain ⟨count, closed, rfl⟩ := Option.map_eq_some_iff.mp ends
    have inside := closeAfter?_le closed
    rw [same, List.length_cons] at lengths
    omega
  · have bounds := expressionEnd_bounds 0 (pos + (text.takeWhile isBlank).length) (text.dropWhile isBlank)
    obtain rfl := Option.some.inj ends
    omega

theorem bodyFrom_bounds {depth : Int} {pos stop : Nat} {text : List Char}
    (ends : (bodyFrom depth pos text).stop = some stop) : pos ≤ stop ∧ stop ≤ pos + text.length := by
  induction text generalizing depth pos with
  | nil => cases ends
  | cons c rest ih =>
      have later : ∀ {depth : Int}, (bodyFrom depth (pos + 1) rest).stop = some stop →
          pos ≤ stop ∧ stop ≤ pos + (c :: rest).length := by
        intro depth found
        have bounds := ih found
        rw [List.length_cons]
        omega
      unfold bodyFrom at ends
      split at ends
      · exact later ends
      · split at ends
        · exact later ends
        · split at ends
          · rename_i isArrow
            have some : 0 < rest.length := by
              cases rest with
              | nil => simp at isArrow
              | cons _ _ => exact Nat.succ_pos _
            have bounds := arrowBody_bounds ends
            rw [List.length_tail] at bounds
            rw [List.length_cons]
            omega
          · split at ends
            · obtain ⟨count, closed, rfl⟩ := Option.map_eq_some_iff.mp ends
              have inside := closeAfter?_le closed
              rw [List.length_cons]
              omega
            · split at ends
              · obtain rfl := Option.some.inj ends
                rw [List.length_cons]
                omega
              · exact later ends

/-! ## Hits -/

theorem exists_of_search? {α : Type} {scan : Scan α} {pos : Nat} {before text : List Char} {hit : Hit α}
    (found : scan.search? pos before text = some hit) :
    ∃ count ≤ text.length, hit.start = pos + count ∧ ∃ success,
      success ∈ scan ((⟨pos, before, text⟩ : Cursor).advance count) ∧ hit.value = success.1 := by
  induction text generalizing pos before with
  | nil =>
      obtain ⟨success, first, rfl⟩ := Option.map_eq_some_iff.mp found
      refine ⟨0, Nat.le_refl _, rfl, success, ?_, rfl⟩
      rw [Cursor.advance_zero]
      exact List.mem_of_head? first
  | cons c rest ih =>
      unfold Scan.search? at found
      split at found
      · rename_i success first
        obtain rfl := Option.some.inj found
        refine ⟨0, Nat.zero_le _, rfl, success, ?_, rfl⟩
        rw [Cursor.advance_zero]
        exact List.mem_of_head? first
      · obtain ⟨count, inside, start, success, member, value⟩ := ih found
        refine ⟨count + 1, by simpa using inside, by omega, success, ?_, value⟩
        have same : (⟨pos, before, c :: rest⟩ : Cursor).advance (count + 1) =
            (⟨pos + 1, c :: before, rest⟩ : Cursor).advance count := by
          simp [Cursor.advance, Nat.add_comm, Nat.add_left_comm]
        rwa [same]

namespace Anatomy

/-- A name is found after the beginning of its introducer and inside the text. -/
theorem value_bounds_of_firstHit? {anatomy : Anatomy} (regular : anatomy.Regular) {name : Scan Unit}
    (nameAdvances : Advances name) {text : List Char} {hit : Hit Stretch}
    (found : (anatomy.introducer name).firstHit? text = some hit) :
    hit.start ≤ hit.value.stop ∧ hit.value.stop ≤ text.length := by
  obtain ⟨count, inside, start, success, member, value⟩ := exists_of_search? found
  rw [introducer_apply] at member
  split at member
  · obtain ⟨lead, length, trail, _, reach, rfl, _⟩ := exists_of_mem_named regular nameAdvances member
    rw [Cursor.after_advance, List.length_drop] at reach
    rw [value]
    simp only [Cursor.pos_advance] at reach ⊢
    omega
  · cases member

end Anatomy
end Source

namespace Removal

/-! ## Spans -/

def nearer (masked : List Char) (best : Option (Hit Stretch)) (introducer : DefinitionKind × Scan Stretch) :
    Option (Hit Stretch) :=
  match introducer.2.firstHit? masked, best with
  | some hit, some earlier => if hit.value.start < earlier.value.start then some hit else best
  | some hit, none => some hit
  | none, _ => best

theorem firstIntroducer?_eq (masked : List Char) (name : String) :
    firstIntroducer? masked name = (introducers (Scan.chars name.toList)).foldl (nearer masked) none := rfl

theorem nearer_eq_some {masked : List Char} {best : Option (Hit Stretch)} {introducer : DefinitionKind × Scan Stretch}
    {hit : Hit Stretch} (chosen : nearer masked best introducer = some hit) :
    best = some hit ∨ introducer.2.firstHit? masked = some hit := by
  unfold nearer at chosen
  split at chosen
  case h_1 first earlier found =>
    split at chosen
    case isTrue => exact Or.inr (found.trans chosen)
    case isFalse => exact Or.inl chosen
  case h_2 first found => exact Or.inr (found.trans chosen)
  case h_3 => exact Or.inl chosen

theorem foldl_nearer_eq_some {masked : List Char} {best : Option (Hit Stretch)} {hit : Hit Stretch}
    {listed : List (DefinitionKind × Scan Stretch)} (chosen : listed.foldl (nearer masked) best = some hit) :
    best = some hit ∨ ∃ introducer ∈ listed, introducer.2.firstHit? masked = some hit := by
  induction listed generalizing best with
  | nil => exact Or.inl chosen
  | cons introducer rest ih =>
      rcases ih chosen with near | ⟨other, later, found⟩
      · rcases nearer_eq_some near with before | found
        · exact Or.inl before
        · exact Or.inr ⟨introducer, List.mem_cons_self, found⟩
      · exact Or.inr ⟨other, List.mem_cons_of_mem introducer later, found⟩

theorem firstIntroducer?_bounds {masked : List Char} {name : String} {hit : Hit Stretch}
    (found : firstIntroducer? masked name = some hit) :
    hit.start ≤ hit.value.stop ∧ hit.value.stop ≤ masked.length := by
  rw [firstIntroducer?_eq] at found
  rcases foldl_nearer_eq_some found with none | ⟨introducer, member, first⟩
  · cases none
  · rw [Anatomy.introducers_eq] at member
    obtain ⟨⟨kind, anatomy⟩, listed, rfl⟩ := List.mem_map.mp member
    exact Anatomy.value_bounds_of_firstHit? (Anatomy.regular_of_mem_all listed) (advances_chars _) first

theorem toLineStart_le (text : List Char) (offset : Nat) : toLineStart text offset ≤ offset := by
  unfold toLineStart
  dsimp only
  split
  · exact Nat.sub_le _ _
  · exact Nat.le_refl _

theorem lastIndexOf?_le {pattern text : List Char} {index : Nat} (found : lastIndexOf? pattern text = some index) :
    index ≤ text.length := by
  induction text generalizing index with
  | nil => cases found
  | cons c rest ih =>
      unfold lastIndexOf? at found
      split at found
      · rename_i before same
        obtain rfl := Option.some.inj found
        exact Nat.succ_le_succ (ih same)
      · split at found
        · obtain rfl := Option.some.inj found
          exact Nat.zero_le _
        · cases found

theorem overDocComment_le (text masked : List Char) (start : Nat) : overDocComment text masked start ≤ start := by
  unfold overDocComment
  dsimp only
  split
  · exact Nat.le_refl _
  · split
    · exact Nat.le_refl _
    · split
      · exact Nat.le_refl _
      · rename_i opener found
        have bound := lastIndexOf?_le found
        have above : ((text.take start).reverse.dropWhile isBlank).length ≤ start := by
          refine Nat.le_trans (List.dropWhile_suffix _).length_le ?_
          rw [List.length_reverse, List.length_take]
          exact Nat.min_le_left _ _
        rw [List.length_take] at bound
        have earlier : opener ≤ start := by omega
        split
        · exact Nat.le_refl _
        · split
          · exact Nat.le_refl _
          · exact Nat.le_trans (toLineStart_le text opener) earlier

theorem isSpace_of_isInlineBlank_or_return {c : Char} (passes : (isInlineBlank c || c == '\r') = true) :
    isSpace c = true := by
  simp only [isInlineBlank, Bool.or_eq_true, beq_iff_eq] at passes
  rcases passes with (rfl | rfl) | rfl <;> decide

/-- The offset after the rest of a line if that is empty, else the one that is kept. -/
def overLineEnd (text : List Char) (kept : Nat) (tail : List Char) : Nat :=
  match tail.dropWhile fun c => isInlineBlank c || c == '\r' with
  | '\n' :: rest => text.length - rest.length
  | [] => text.length
  | _ => kept

theorem overLineEnd_eq_or (text : List Char) (kept : Nat) (tail : List Char) :
    overLineEnd text kept tail = kept ∨ ∃ line rest, tail = line ++ rest ∧ (∀ c ∈ line, isSpace c = true) ∧
      overLineEnd text kept tail = text.length - rest.length := by
  have line := List.takeWhile_append_dropWhile (p := fun c => isInlineBlank c || c == '\r') (l := tail)
  have blank : ∀ c ∈ tail.takeWhile fun c => isInlineBlank c || c == '\r', isSpace c = true := fun c member =>
    isSpace_of_isInlineBlank_or_return (List.mem_takeWhile_imp (p := fun c => isInlineBlank c || c == '\r') member)
  unfold overLineEnd
  split
  case h_1 rest after =>
    rw [after, List.append_cons] at line
    refine Or.inr ⟨_, rest, line.symm, fun c member => ?_, rfl⟩
    rcases List.mem_append.mp member with before | ends
    · exact blank c before
    · rw [List.mem_singleton.mp ends]
      decide
  case h_2 after =>
    rw [after] at line
    exact Or.inr ⟨_, [], line.symm, blank, rfl⟩
  case h_3 => exact Or.inl rfl

/-- One offset is another, or it is where the text goes on after blanks and separators that follow the other. -/
def GoesOn (text : List Char) (stop reached : Nat) : Prop :=
  reached = stop ∨ ∃ passed rest, text.drop stop = passed ++ rest ∧
    (∀ c ∈ passed, isSpace c = true ∨ c = ';' ∨ c = ',') ∧ reached = text.length - rest.length

theorem goesOn_overLineEnd {text passed tail : List Char} {stop kept : Nat} (whole : text.drop stop = passed ++ tail)
    (quiet : ∀ c ∈ passed, isSpace c = true ∨ c = ';' ∨ c = ',') (keeps : kept = stop ∨ kept = text.length - tail.length) :
    GoesOn text stop (overLineEnd text kept tail) := by
  rcases overLineEnd_eq_or text kept tail with isKept | ⟨line, rest, parts, quietLine, reaches⟩
  · rcases keeps with rfl | atTail
    · exact Or.inl isKept
    · exact Or.inr ⟨passed, tail, whole, quiet, isKept.trans atTail⟩
  · refine Or.inr ⟨passed ++ line, rest, by rw [whole, parts, List.append_assoc], fun c member => ?_, reaches⟩
    rcases List.mem_append.mp member with before | inLine
    · exact quiet c before
    · exact Or.inl (quietLine c inLine)

theorem goesOn_overTerminator (text : List Char) (stop : Nat) : GoesOn text stop (overTerminator text stop) := by
  have blanks := List.takeWhile_append_dropWhile (p := isInlineBlank) (l := text.drop stop)
  have blank : ∀ c ∈ (text.drop stop).takeWhile isInlineBlank, isSpace c = true ∨ c = ';' ∨ c = ',' := fun c member =>
    Or.inl (isSpace_of_isInlineBlank_or_return (by rw [List.mem_takeWhile_imp member, Bool.true_or]))
  cases shape : (text.drop stop).dropWhile isInlineBlank with
  | nil =>
      have same : overTerminator text stop = overLineEnd text stop [] := by
        rw [overTerminator, shape]
        rfl
      rw [shape] at blanks
      exact same ▸ goesOn_overLineEnd blanks.symm blank (Or.inl rfl)
  | cons c rest =>
      rw [shape] at blanks
      by_cases separates : (c == ';' || c == ',') = true
      · have same : overTerminator text stop = overLineEnd text (text.length - rest.length) rest := by
          simp only [overTerminator, shape, separates, if_true]
          rfl
        have whole : text.drop stop = ((text.drop stop).takeWhile isInlineBlank ++ [c]) ++ rest := by
          rw [← List.append_cons, blanks]
        have quiet : ∀ d ∈ (text.drop stop).takeWhile isInlineBlank ++ [c], isSpace d = true ∨ d = ';' ∨ d = ',' := by
          intro d member
          rcases List.mem_append.mp member with before | here
          · exact blank d before
          · obtain rfl := List.mem_singleton.mp here
            exact Or.inr (by simpa using separates)
        exact same ▸ goesOn_overLineEnd whole quiet (Or.inr rfl)
      · have same : overTerminator text stop = overLineEnd text stop (c :: rest) := by
          simp only [overTerminator, shape, separates]
          rfl
        exact same ▸ goesOn_overLineEnd blanks.symm blank (Or.inl rfl)

theorem overTerminator_bounds {text : List Char} {stop : Nat} (inside : stop ≤ text.length) :
    stop ≤ overTerminator text stop ∧ overTerminator text stop ≤ text.length := by
  rcases goesOn_overTerminator text stop with same | ⟨passed, rest, parts, _, reaches⟩
  · rw [same]
    exact ⟨Nat.le_refl stop, inside⟩
  · have lengths := congrArg List.length parts
    rw [List.length_drop, List.length_append] at lengths
    rw [reaches]
    omega

theorem locate?_bounds {name : String} {text : List Char} {span : FunctionSpan}
    (located : locate? false name text = some span) : span.start ≤ span.stop ∧ span.stop ≤ text.length := by
  unfold locate? at located
  obtain ⟨hit, first, rest⟩ := Option.bind_eq_some_iff.mp located
  obtain ⟨bodyEnd, ends, rfl⟩ := Option.map_eq_some_iff.mp rest
  obtain ⟨nameAfter, nameInside⟩ := firstIntroducer?_bounds first
  have sameLength : (searchView false text).length = text.length := (shows_mask .code text).length_eq
  obtain ⟨bodyAfterName, bodyInside⟩ := bodyFrom_bounds ends
  rw [List.length_drop] at bodyInside
  obtain ⟨stopAfter, stopInside⟩ := @overTerminator_bounds text bodyEnd (by omega)
  refine ⟨?_, stopInside⟩
  have start := overDocComment_le text (searchView false text) (toLineStart text hit.start)
  have lineStart := toLineStart_le text hit.start
  dsimp only
  omega

end Removal
end Deadwood
