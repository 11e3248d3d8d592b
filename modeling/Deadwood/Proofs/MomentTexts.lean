import Mathlib.Data.List.TakeWhile
import Deadwood.Moment
import Deadwood.Proofs.WrittenValues

/-!
# Moments and their texts

A moment of the calendar is read back from its text as it was. No text that is written names an offset from universal time,
so that any two of them can be compared.
-/

set_option autoImplicit false
namespace Deadwood
namespace Moment

/-! ## Numbers of a fixed width -/

theorem number?_of_digits {digits : List Char} (someDigit : digits ≠ [])
    (areDigits : ∀ c ∈ digits, c.isDigit = true) : number? digits = some (JsonValue.digitsValue digits) := by
  have allDigits : digits.all Char.isDigit = true := List.all_eq_true.mpr areDigits
  rw [number?, List.isEmpty_eq_false_iff.mpr someDigit, allDigits]
  rfl

/-- Zeros before a number leave it as it is. -/
theorem digitsValue_replicate_zero (count : Nat) (digits : List Char) :
    JsonValue.digitsValue (List.replicate count '0' ++ digits) = JsonValue.digitsValue digits := by
  induction count with
  | zero => rfl
  | succ count inductionHypothesis =>
      rw [List.replicate_succ, List.cons_append, ← inductionHypothesis]
      rfl

variable {width value : Nat}

theorem toList_padded (width value : Nat) : (padded width value).toList =
    List.replicate (width - (Nat.toDigits 10 value).length) '0' ++ Nat.toDigits 10 value := by
  have digits : (ToString.toString value).toList = Nat.toDigits 10 value := by
    rw [Nat.toString_eq_repr, Nat.toList_repr]
  rw [padded, String.toList_ofList, digits]

theorem length_padded (positive : 0 < width) (small : value < 10 ^ width) : (padded width value).toList.length = width := by
  have short := (Nat.length_toDigits_le_iff (b := 10) (by decide) positive).mpr small
  rw [toList_padded, List.length_append, List.length_replicate]
  omega

theorem isDigit_of_mem_padded {c : Char} (member : c ∈ (padded width value).toList) : c.isDigit = true := by
  rw [toList_padded, List.mem_append] at member
  rcases member with zero | digit
  · rw [List.eq_of_mem_replicate zero]
    rfl
  · exact Nat.isDigit_of_mem_toDigits (by decide) (by decide) digit

theorem number?_padded (positive : 0 < width) (small : value < 10 ^ width) :
    number? (padded width value).toList = some value := by
  have someDigit : (padded width value).toList ≠ [] := by
    intro none
    have length := length_padded positive small
    rw [none, List.length_nil] at length
    omega
  rw [number?_of_digits someDigit fun c => isDigit_of_mem_padded, toList_padded, digitsValue_replicate_zero,
    JsonValue.digitsValue_toDigits]

theorem digits?_padded (positive : 0 < width) (small : value < 10 ^ width) (rest : List Char) :
    digits? width ((padded width value).toList ++ rest) = some (value, rest) := by
  have length := length_padded positive small
  have long : ¬ ((padded width value).toList ++ rest).length < width := by
    rw [List.length_append]
    omega
  rw [digits?, if_neg long, List.take_left' length, List.drop_left' length, number?_padded positive small]
  rfl

/-! ## Dates -/

variable {moment : Moment}

/-- The fields of a moment of the calendar have no more digits than are written for them. -/
structure Fits (moment : Moment) : Prop where
  year : moment.year < 10 ^ 4
  month : moment.month < 10 ^ 2
  day : moment.day < 10 ^ 2
  hour : moment.hour < 10 ^ 2
  minute : moment.minute < 10 ^ 2
  second : moment.second < 10 ^ 2
  microsecond : moment.microsecond < 10 ^ 6

theorem daysInMonth_le (year month : Nat) : daysInMonth year month ≤ 31 := by
  unfold daysInMonth
  split
  · split <;> decide
  · split <;> decide

theorem fits_of_isValid (valid : moment.isValid = true) : moment.Fits := by
  unfold isValid at valid
  simp only [Bool.and_eq_true, decide_eq_true_eq] at valid
  have days := daysInMonth_le moment.year moment.month
  obtain ⟨⟨⟨⟨⟨⟨⟨⟨⟨_, year⟩, _⟩, month⟩, _⟩, day⟩, hour⟩, minute⟩, second⟩, microsecond⟩ := valid
  constructor <;> omega

def dayText (moment : Moment) : List Char :=
  (padded 4 moment.year).toList ++ '-' :: ((padded 2 moment.month).toList ++ '-' :: (padded 2 moment.day).toList)

def timeText (moment : Moment) : List Char :=
  (padded 2 moment.hour).toList ++ ':' :: ((padded 2 moment.minute).toList ++ ':' :: ((padded 2 moment.second).toList ++
    if moment.microsecond = 0 then [] else '.' :: (padded 6 moment.microsecond).toList))

theorem toList_toString (moment : Moment) : moment.toString.toList = moment.dayText ++ 'T' :: moment.timeText := by
  unfold Moment.toString toSeconds dayText timeText
  split
  · simp [String.toList_append]
  · simp [String.toList_append]

theorem exists_month_digits (fits : moment.Fits) :
    ∃ first more, (padded 2 moment.month).toList = first :: more ∧ first ≠ 'W' := by
  obtain ⟨first, more, digits⟩ : ∃ first more, (padded 2 moment.month).toList = first :: more :=
    List.exists_cons_of_length_pos (by rw [length_padded (by decide) fits.month]; decide)
  refine ⟨first, more, digits, fun same => ?_⟩
  have digit : first.isDigit = true := isDigit_of_mem_padded (digits ▸ List.mem_cons_self)
  rw [same] at digit
  cases digit

theorem readDate?_dayText (fits : moment.Fits) :
    readDate? moment.dayText = some (moment.year, moment.month, moment.day) := by
  have year := digits?_padded (by decide) fits.year
    ('-' :: ((padded 2 moment.month).toList ++ '-' :: (padded 2 moment.day).toList))
  have month := digits?_padded (by decide) fits.month ('-' :: (padded 2 moment.day).toList)
  have day := digits?_padded (by decide) fits.day []
  rw [List.append_nil] at day
  obtain ⟨first, more, digits, noWeek⟩ := exists_month_digits fits
  rw [digits, List.cons_append] at year month
  simp [readDate?, dayText, digits, year, noWeek, month, day]

theorem length_dayText (fits : moment.Fits) : moment.dayText.length = 10 := by
  have year := length_padded (by decide) fits.year
  have month := length_padded (by decide) fits.month
  have day := length_padded (by decide) fits.day
  simp only [dayText, List.length_append, List.length_cons]
  omega

/-! ## Times of day -/

theorem readFraction?_padded (small : value < 10 ^ 6) : readFraction? (padded 6 value).toList = some value := by
  have length := length_padded (by decide) small
  have someDigit : (padded 6 value).toList.isEmpty = false := by
    rw [List.isEmpty_eq_false_iff]
    intro none
    rw [none] at length
    cases length
  have areDigits : (padded 6 value).toList.all Char.isDigit = true :=
    List.all_eq_true.mpr fun c => isDigit_of_mem_padded
  rw [readFraction?, someDigit, areDigits]
  simp [List.take_of_length_le, length, number?_padded (by decide) small]

theorem readTime?_timeText (fits : moment.Fits) :
    readTime? moment.timeText = some (moment.hour, moment.minute, moment.second, moment.microsecond) := by
  have hour := fun rest => digits?_padded (by decide) fits.hour rest
  have minute := fun rest => digits?_padded (by decide) fits.minute rest
  have second := fun rest => digits?_padded (by decide) fits.second rest
  unfold timeText
  by_cases whole : moment.microsecond = 0
  · have last := second []
    rw [List.append_nil] at last
    simp [readTime?, hour, minute, last, whole]
  · simp [readTime?, hour, minute, second, whole, readFraction?_padded fits.microsecond]

/-- Neither a mark of an offset nor the letter for universal time is written. -/
theorem isMark_of_mem_timeText {c : Char} (member : c ∈ moment.timeText) : (c == '-' || c == '+' || c == 'Z') = false := by
  have digit : ∀ {width value : Nat}, c ∈ (padded width value).toList → (c == '-' || c == '+' || c == 'Z') = false := by
    intro width value written
    have isDigit : c.isDigit = true := isDigit_of_mem_padded written
    simp only [Bool.or_eq_false_iff, beq_eq_false_iff_ne]
    refine ⟨⟨?_, ?_⟩, ?_⟩ <;> rintro rfl <;> cases isDigit
  unfold timeText at member
  simp only [List.mem_append, List.mem_cons] at member
  rcases member with written | rfl | written | rfl | written | written
  · exact digit written
  · rfl
  · exact digit written
  · rfl
  · exact digit written
  · split at written
    · cases written
    · rcases List.mem_cons.mp written with rfl | written
      · rfl
      · exact digit written

theorem readTimeAndOffset?_timeText (fits : moment.Fits) : readTimeAndOffset? moment.timeText =
    some ((moment.hour, moment.minute, moment.second, moment.microsecond), false) := by
  have unmarked : ∀ c ∈ moment.timeText, (!(c == '-' || c == '+' || c == 'Z')) = true := by
    intro c member
    rw [isMark_of_mem_timeText member]
    rfl
  have taken := List.takeWhile_eq_self_iff.mpr unmarked
  have dropped := List.dropWhile_eq_nil_iff.mpr unmarked
  rw [readTimeAndOffset?]
  simp only [taken, dropped, readTime?_timeText fits]
  rfl

/-! ## Moments -/

/-- The text of a date and a time begins with a date of ten characters. -/
theorem dateLength_toString (fits : moment.Fits) (rest : List Char) : dateLength (moment.dayText ++ 'T' :: rest) = 10 := by
  have length := length_dayText fits
  have year := length_padded (by decide) fits.year
  have long : (moment.dayText ++ 'T' :: rest).length ≠ 7 := by
    rw [List.length_append, length]
    omega
  have dash : (moment.dayText ++ 'T' :: rest)[4]? = some '-' := by
    rw [dayText, List.append_assoc, List.getElem?_append_right (by omega), year]
    rfl
  obtain ⟨first, more, digits, noWeek⟩ := exists_month_digits fits
  have month : (moment.dayText ++ 'T' :: rest)[5]? = some first := by
    rw [dayText, List.append_assoc, List.getElem?_append_right (by omega), year, digits]
    rfl
  rw [dateLength, if_neg long, dash, month]
  simp [noWeek]

/-- A moment of the calendar is read back as it was, and without an offset. -/
theorem ofString?_toString (valid : moment.isValid = true) : ofString? moment.toString = some (moment, false) := by
  have fits := fits_of_isValid valid
  have length := length_dayText fits
  have begins := dateLength_toString fits moment.timeText
  have someTime : 0 < moment.timeText.length := by
    rw [timeText, List.length_append, length_padded (by decide) fits.hour]
    omega
  unfold ofString?
  simp only [toList_toString, begins, List.length_append, List.length_cons, length]
  have date : (moment.dayText ++ 'T' :: moment.timeText).take 10 = moment.dayText := List.take_left' length
  have time : (moment.dayText ++ 'T' :: moment.timeText).drop (10 + 1) = moment.timeText := by
    rw [← List.drop_drop, List.drop_left' length]
    rfl
  simp only [date, time, readDate?_dayText fits, readTimeAndOffset?_timeText fits, bind, Option.bind]
  rw [if_neg (by omega), if_neg (by omega), if_neg (by omega)]
  simp [valid]

end Moment
end Deadwood
