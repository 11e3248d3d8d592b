import Mathlib.Data.List.Chain
import Deadwood.Json.Printer
import Deadwood.Json.Reader

/-!
# Quoted texts read back

A text in quotes is read up to its closing quote as it was written, whatever characters it holds. A text of code points is, too,
unless it has both halves of a pair of units next to each other, which are read as one character.
-/

set_option autoImplicit false
namespace Deadwood.JsonValue

theorem hexValue?_hexDigit : ∀ value < 16, hexValue? (hexDigit value) = some value := by
  decide

theorem escapeUnit_append (unit : Nat) (rest : List Char) :
    escapeUnit unit ++ rest = '\\' :: 'u' :: (escapeUnit unit).drop 2 ++ rest :=
  rfl

theorem unit?_escapeUnit {unit : Nat} (small : unit < 65536) (rest : List Char) :
    unit? ((escapeUnit unit).drop 2 ++ rest) = some unit := by
  have digits : ∀ place, hexValue? (hexDigit (unit / place % 16)) = some (unit / place % 16) :=
    fun place => hexValue?_hexDigit _ (Nat.mod_lt _ (by decide))
  have last : hexValue? (hexDigit (unit % 16)) = some (unit % 16) := hexValue?_hexDigit _ (Nat.mod_lt _ (by decide))
  simp only [escapeUnit, List.drop_succ_cons, List.drop_zero, List.cons_append, List.nil_append, unit?, digits, last,
    bind, Option.bind, pure]
  congr 1
  omega

theorem readText_skip (read : List Nat) (passed rest : List Char) :
    readText read passed.length (passed ++ rest) = readText read 0 rest := by
  induction passed with
  | nil => rfl
  | cons c passed ih =>
      rw [List.length_cons, List.cons_append, readText]
      exact ih

theorem readText_escapeUnit {unit : Nat} (small : unit < 65536) {rest : List Char}
    (alone : 0xd800 ≤ unit ∧ unit < 0xdc00 → lowUnit? rest = none) (read : List Nat) :
    readText read 0 (escapeUnit unit ++ rest) = readText (unit :: read) 0 rest := by
  have found := unit?_escapeUnit small rest
  have fourth : ((escapeUnit unit).drop 2 ++ rest).drop 4 = rest := rfl
  have single : (if 0xd800 ≤ unit ∧ unit < 0xdc00 then lowUnit? rest else none) = none := by
    split
    · exact alone ‹_›
    · rfl
  have skipped := readText_skip (unit :: read) ('u' :: (escapeUnit unit).drop 2) rest
  have five : ('u' :: (escapeUnit unit).drop 2).length = 5 := rfl
  rw [escapeUnit_append, ← skipped, five]
  simp only [List.cons_append]
  generalize (escapeUnit unit).drop 2 ++ rest = digits at found fourth
  simp [readText, found, fourth, single]

theorem readText_pair {high low : Nat} (isHigh : 0xd800 ≤ high ∧ high < 0xdc00) (isLow : 0xdc00 ≤ low ∧ low < 0xe000)
    (read : List Nat) (rest : List Char) :
    readText read 0 (escapeUnit high ++ (escapeUnit low ++ rest)) =
      readText ((0x10000 + (high - 0xd800) * 1024 + (low - 0xdc00)) :: read) 0 rest := by
  have second : lowUnit? (escapeUnit low ++ rest) = some low := by
    rw [escapeUnit_append, List.cons_append, List.cons_append, lowUnit?, unit?_escapeUnit (by omega)]
    simp [isLow]
  have found := unit?_escapeUnit (show high < 65536 by omega) (escapeUnit low ++ rest)
  have fourth : ((escapeUnit high).drop 2 ++ (escapeUnit low ++ rest)).drop 4 = escapeUnit low ++ rest := rfl
  have skipped := readText_skip ((0x10000 + (high - 0xd800) * 1024 + (low - 0xdc00)) :: read)
    ('u' :: (escapeUnit high).drop 2 ++ escapeUnit low) rest
  have eleven : ('u' :: (escapeUnit high).drop 2 ++ escapeUnit low).length = 11 := rfl
  rw [escapeUnit_append, ← skipped, eleven]
  simp only [List.cons_append, List.append_assoc]
  generalize (escapeUnit high).drop 2 ++ (escapeUnit low ++ rest) = digits at found fourth
  simp [readText, found, fourth, second, isHigh]

theorem eq_ofNat_of_toNat {c : Char} {code : Nat} (same : (c.toNat == code) = true) : c = Char.ofNat code := by
  rw [← beq_iff_eq.mp same, Char.ofNat_toNat]

theorem readText_escapeChar (c : Char) (read : List Nat) (rest : List Char) :
    readText read 0 (escapeChar c ++ rest) = readText (c.toNat :: read) 0 rest := by
  unfold escapeChar
  split
  case isTrue same => obtain rfl := beq_iff_eq.mp same; rfl
  split
  case isTrue same => obtain rfl := beq_iff_eq.mp same; rfl
  split
  case isTrue same => obtain rfl := beq_iff_eq.mp same; rfl
  split
  case isTrue same => obtain rfl := beq_iff_eq.mp same; rfl
  split
  case isTrue same => obtain rfl := beq_iff_eq.mp same; rfl
  split
  case isTrue same => obtain rfl := eq_ofNat_of_toNat same; rfl
  split
  case isTrue same => obtain rfl := eq_ofNat_of_toNat same; rfl
  split
  case isTrue noQuote noBackslash _ _ _ _ _ shown =>
    rw [Bool.and_eq_true, decide_eq_true_eq] at shown
    have noControl : ¬c.toNat < 32 := Nat.not_lt.mpr shown.1
    simp [readText, noQuote, noControl, noBackslash]
  have valid : c.toNat < 0xd800 ∨ (0xdfff < c.toNat ∧ c.toNat < 0x110000) := c.valid
  split
  case isTrue small => exact readText_escapeUnit small (fun high => by omega) read
  case isFalse great =>
    have code : 0x10000 + (0xd800 + (c.toNat - 0x10000) / 1024 - 0xd800) * 1024 +
        (0xdc00 + (c.toNat - 0x10000) % 1024 - 0xdc00) = c.toNat := by omega
    rw [List.append_assoc, readText_pair (by omega) (by omega), code]

/-- Code points that are read as they are written: no first half of a pair stands before a second. -/
structure Spelled (points : List Nat) : Prop where
  small : ∀ point ∈ points, point < 0x110000
  apart : points.IsChain fun first second =>
    ¬((0xd800 ≤ first ∧ first < 0xdc00) ∧ 0xdc00 ≤ second ∧ second < 0xe000)

theorem not_half_of_isValidChar {point : Nat} (valid : point.isValidChar) : ¬(0xd800 ≤ point ∧ point < 0xe000) := by
  unfold Nat.isValidChar at valid
  omega

theorem toNat_ofNat_of_isValidChar {point : Nat} (valid : point.isValidChar) : (Char.ofNat point).toNat = point := by
  rw [Char.ofNat, dif_pos valid]
  rfl

theorem isValidChar_toNat (c : Char) : c.toNat.isValidChar :=
  c.valid

theorem spelled_points (text : String) : Spelled (points text) where
  small point member := by
    obtain ⟨c, _, rfl⟩ := List.mem_map.mp member
    have valid : c.toNat < 0xd800 ∨ (0xdfff < c.toNat ∧ c.toNat < 0x110000) := c.valid
    omega
  apart := by
    unfold points
    induction text.toList with
    | nil => exact .nil
    | cons c rest ih =>
        rw [List.map_cons, List.isChain_cons]
        refine ⟨fun next _ pair => not_half_of_isValidChar (isValidChar_toNat c) ⟨pair.1.1, ?_⟩, ih⟩
        omega

/-- No second half of a pair is read off what does not begin with one. -/
theorem lowUnit?_escapePoint {point : Nat} (small : point < 0x110000) (noLow : ¬(0xdc00 ≤ point ∧ point < 0xe000))
    (rest : List Char) : lowUnit? (escapePoint point ++ rest) = none := by
  have ofUnit : ∀ {unit : Nat}, unit < 65536 → ¬(0xdc00 ≤ unit ∧ unit < 0xe000) → ∀ more : List Char,
      lowUnit? (escapeUnit unit ++ more) = none := by
    intro unit isUnit noLow more
    rw [escapeUnit_append, List.cons_append, List.cons_append, lowUnit?, unit?_escapeUnit isUnit]
    simpa using noLow
  unfold escapePoint
  split
  case isFalse noChar =>
    refine ofUnit ?_ noLow rest
    unfold Nat.isValidChar at noChar
    omega
  case isTrue valid =>
    have code := toNat_ofNat_of_isValidChar valid
    generalize Char.ofNat point = c at code
    unfold escapeChar
    iterate 7
      split
      case isTrue => rfl
    split
    case isTrue noBackslash _ _ _ _ _ _ =>
      have differs : c ≠ '\\' := by simpa using noBackslash
      simp [lowUnit?, differs]
    split
    case isTrue small => exact ofUnit small (code ▸ noLow) rest
    case isFalse =>
      rw [List.append_assoc]
      exact ofUnit (by omega) (by omega) _

theorem readText_escapePoint {point : Nat} (small : point < 0x110000) {rest : List Char}
    (alone : 0xd800 ≤ point ∧ point < 0xdc00 → lowUnit? rest = none) (read : List Nat) :
    readText read 0 (escapePoint point ++ rest) = readText (point :: read) 0 rest := by
  unfold escapePoint
  split
  case isTrue valid => rw [readText_escapeChar, toNat_ofNat_of_isValidChar valid]
  case isFalse noChar =>
    refine readText_escapeUnit ?_ alone read
    unfold Nat.isValidChar at noChar
    omega

theorem readText_quotedPoints {points : List Nat} (spelled : Spelled points) (rest : List Char) :
    readText [] 0 (points.flatMap escapePoint ++ '"' :: rest) = some (points, rest) := by
  have general : ∀ (points read : List Nat), Spelled points →
      readText read 0 (points.flatMap escapePoint ++ '"' :: rest) = some (read.reverse ++ points, rest) := by
    intro points
    induction points with
    | nil => intro read _; simp [readText]
    | cons point more ih =>
        intro read spelled
        obtain ⟨small, smaller⟩ := List.forall_mem_cons.mp spelled.small
        obtain ⟨single, apart⟩ := List.isChain_cons.mp spelled.apart
        have alone : 0xd800 ≤ point ∧ point < 0xdc00 → lowUnit? (more.flatMap escapePoint ++ '"' :: rest) = none := by
          intro high
          cases more with
          | nil => rfl
          | cons next others =>
              rw [List.flatMap_cons, List.append_assoc]
              exact lowUnit?_escapePoint (smaller next List.mem_cons_self) (fun low => single next rfl ⟨high, low⟩) _
        rw [List.flatMap_cons, List.append_assoc, readText_escapePoint small alone, ih (point :: read) ⟨smaller, apart⟩,
          List.reverse_cons, List.append_assoc, List.singleton_append]
  exact general points [] spelled

theorem quotedPoints_points (text : String) : quotedPoints (points text) = quoted text := by
  have each : ∀ c : Char, escapePoint c.toNat = escapeChar c := by
    intro c
    rw [escapePoint, if_pos (isValidChar_toNat c), Char.ofNat_toNat]
  rw [quotedPoints, quoted, points, List.flatMap_map]
  simp only [each]

theorem textOf?_points (text : String) : textOf? (points text) = some text := by
  have each : ∀ chars : List Char, (chars.map Char.toNat).mapM
      (fun point : Nat => if point.isValidChar then some (Char.ofNat point) else none) = some chars := by
    intro chars
    induction chars with
    | nil => rfl
    | cons c rest ih =>
        rw [List.map_cons, List.mapM_cons, if_pos (isValidChar_toNat c), ih, Char.ofNat_toNat]
        rfl
  rw [textOf?, points, each, Option.map_some, String.ofList_toList]

theorem ofPoints_points (text : String) : ofPoints (points text) = string text := by
  rw [ofPoints, textOf?_points]

end Deadwood.JsonValue
