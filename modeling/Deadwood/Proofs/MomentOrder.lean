import Mathlib.Data.String.Basic
import Mathlib.Tactic.IntervalCases
import Deadwood.Proofs.MomentTexts

/-!
# The order of moments

One moment of the calendar is before another if it is so at the first of their fields that differs, the year first. Counted in
microseconds and written as texts, moments come in this order.
-/

set_option autoImplicit false
namespace Deadwood
namespace Moment

/-! ## The calendar -/

section Calendar

variable {year year' month month' day day' : Nat}

def leapDay (year : Nat) : Nat :=
  if isLeapYear year then 1 else 0

theorem daysBeforeMonth_succ (year : Nat) (positive : 1 ≤ month) :
    daysBeforeMonth year (month + 1) = daysBeforeMonth year month + daysInMonth year month := by
  obtain ⟨before, rfl⟩ : ∃ before, month = before + 1 := ⟨month - 1, by omega⟩
  rw [daysBeforeMonth, daysBeforeMonth, Nat.add_sub_cancel, Nat.add_sub_cancel, List.range_succ, List.foldl_concat]

theorem daysBeforeMonth_of_year (year : Nat) : daysBeforeMonth year 13 = 365 + leapDay year := by
  cases leap : isLeapYear year <;> simp [daysBeforeMonth, daysInMonth, leapDay, leap, List.range_succ]

theorem daysBeforeMonth_mono (year : Nat) (positive : 1 ≤ month) (before : month ≤ month') :
    daysBeforeMonth year month ≤ daysBeforeMonth year month' := by
  induction month', before using Nat.le_induction with
  | base => exact Nat.le_refl _
  | succ later reached ih =>
      rw [daysBeforeMonth_succ year (by omega)]
      omega

theorem daysBeforeYear_succ (positive : 1 ≤ year) : daysBeforeYear (year + 1) = daysBeforeYear year + 365 + leapDay year := by
  obtain ⟨past, rfl⟩ : ∃ past, year = past + 1 := ⟨year - 1, by omega⟩
  have quarter : (past + 1) / 4 = past / 4 + if (past + 1) % 4 = 0 then 1 else 0 := by split <;> omega
  have century : (past + 1) / 100 = past / 100 + if (past + 1) % 100 = 0 then 1 else 0 := by split <;> omega
  have era : (past + 1) / 400 = past / 400 + if (past + 1) % 400 = 0 then 1 else 0 := by split <;> omega
  have inCentury : (past + 1) % 100 = 0 → (past + 1) % 4 = 0 := by omega
  have inEra : (past + 1) % 400 = 0 → (past + 1) % 100 = 0 := by omega
  have fewer : past / 100 ≤ past / 4 := Nat.div_le_div_left (by omega) (by omega)
  simp only [daysBeforeYear, leapDay, isLeapYear, Nat.add_sub_cancel, quarter, century, era, Bool.and_eq_true,
    Bool.or_eq_true, decide_eq_true_eq]
  clear quarter century era
  generalize past / 4 = quarters at fewer ⊢
  generalize past / 100 = centuries at fewer ⊢
  generalize past / 400 = eras
  by_cases isQuarter : (past + 1) % 4 = 0
  · by_cases isCentury : (past + 1) % 100 = 0
    · by_cases isEra : (past + 1) % 400 = 0
      · simp only [isQuarter, isCentury, isEra, if_true, true_and, or_true]
        omega
      · simp only [isQuarter, isCentury, isEra, if_true, if_false, true_and, ne_eq, not_true, or_false]
        omega
    · have noEra : ¬ (past + 1) % 400 = 0 := fun isEra => isCentury (inEra isEra)
      simp only [isQuarter, isCentury, noEra, if_true, if_false, true_and, ne_eq, not_false_eq_true, true_or]
      omega
  · have noCentury : ¬ (past + 1) % 100 = 0 := fun isCentury => isQuarter (inCentury isCentury)
    have noEra : ¬ (past + 1) % 400 = 0 := fun isEra => noCentury (inEra isEra)
    simp only [isQuarter, noCentury, noEra, if_false, false_and]
    omega

theorem daysBeforeYear_mono (positive : 1 ≤ year) (before : year ≤ year') : daysBeforeYear year ≤ daysBeforeYear year' := by
  induction year', before using Nat.le_induction with
  | base => exact Nat.le_refl _
  | succ later reached ih =>
      rw [daysBeforeYear_succ (by omega)]
      omega

/-- A day of a month comes before the next month. -/
theorem dayOfYear_le (positive : 1 ≤ month) (isDay : day ≤ daysInMonth year month) :
    daysBeforeMonth year month + day ≤ daysBeforeMonth year (month + 1) := by
  rw [daysBeforeMonth_succ year positive]
  omega

/-- A day of a year comes before the next year. -/
theorem dayNumber_le (someYear : 1 ≤ year) (someMonth : 1 ≤ month) (isMonth : month ≤ 12)
    (isDay : day ≤ daysInMonth year month) : dayNumber year month day ≤ daysBeforeYear (year + 1) := by
  have inMonth := dayOfYear_le someMonth isDay
  have inYear := daysBeforeMonth_mono year (by omega : 1 ≤ month + 1) (by omega : month + 1 ≤ 13)
  rw [daysBeforeMonth_of_year] at inYear
  rw [daysBeforeYear_succ someYear, dayNumber]
  omega

end Calendar

/-! ## Counting -/

variable {first second : Moment}

def fields (moment : Moment) : List Nat :=
  [moment.year, moment.month, moment.day, moment.hour, moment.minute, moment.second, moment.microsecond]

theorem eq_of_fields_eq (same : first.fields = second.fields) : first = second := by
  obtain ⟨_, _, _, _, _, _, _⟩ := first
  obtain ⟨_, _, _, _, _, _, _⟩ := second
  simpa [fields] using same

structure Valid (moment : Moment) : Prop where
  someYear : 1 ≤ moment.year
  year : moment.year ≤ 9999
  someMonth : 1 ≤ moment.month
  month : moment.month ≤ 12
  someDay : 1 ≤ moment.day
  day : moment.day ≤ daysInMonth moment.year moment.month
  hour : moment.hour < 24
  minute : moment.minute < 60
  second : moment.second < 60
  microsecond : moment.microsecond < 1000000

theorem valid_of_isValid {moment : Moment} (valid : moment.isValid = true) : moment.Valid := by
  unfold isValid at valid
  simp only [Bool.and_eq_true, decide_eq_true_eq] at valid
  obtain ⟨⟨⟨⟨⟨⟨⟨⟨⟨someYear, year⟩, someMonth⟩, month⟩, someDay⟩, day⟩, hour⟩, minute⟩, second⟩, microsecond⟩ := valid
  exact ⟨someYear, year, someMonth, month, someDay, day, hour, minute, second, microsecond⟩

def timeOfDay (moment : Moment) : Nat :=
  ((moment.hour * 60 + moment.minute) * 60 + moment.second) * 1000000 + moment.microsecond

theorem Valid.timeOfDay_lt {moment : Moment} (valid : moment.Valid) : moment.timeOfDay < microsecondsPerDay := by
  have hour := valid.hour
  have minute := valid.minute
  have second := valid.second
  have microsecond := valid.microsecond
  unfold timeOfDay microsecondsPerDay
  omega

def dayCount (moment : Moment) : Nat :=
  dayNumber moment.year moment.month moment.day

theorem toMicroseconds_eq (moment : Moment) :
    moment.toMicroseconds = (moment.dayCount - 1) * microsecondsPerDay + moment.timeOfDay := by
  unfold toMicroseconds timeOfDay dayCount
  omega

theorem Valid.dayCount_pos {moment : Moment} (valid : moment.Valid) : 1 ≤ moment.dayCount := by
  have someDay := valid.someDay
  unfold dayCount dayNumber
  omega

theorem toMicroseconds_lt_of_dayCount (valid : first.Valid) (before : first.dayCount < second.dayCount) :
    first.toMicroseconds < second.toMicroseconds := by
  have inDay := valid.timeOfDay_lt
  have someDay := valid.dayCount_pos
  rw [toMicroseconds_eq, toMicroseconds_eq]
  have days : (first.dayCount - 1 + 1) * microsecondsPerDay ≤ (second.dayCount - 1) * microsecondsPerDay :=
    Nat.mul_le_mul_right _ (by omega)
  rw [Nat.add_mul, Nat.one_mul] at days
  omega

theorem toMicroseconds_lt_of_timeOfDay (same : first.dayCount = second.dayCount)
    (before : first.timeOfDay < second.timeOfDay) : first.toMicroseconds < second.toMicroseconds := by
  rw [toMicroseconds_eq, toMicroseconds_eq, same]
  omega

theorem dayCount_lt_of_year (valid : first.Valid) (valid' : second.Valid) (before : first.year < second.year) :
    first.dayCount < second.dayCount := by
  have inYear := dayNumber_le valid.someYear valid.someMonth valid.month valid.day
  have years := daysBeforeYear_mono (by omega : 1 ≤ first.year + 1) before
  have someDay := valid'.someDay
  unfold dayCount
  rw [dayNumber.eq_def second.year]
  omega

theorem dayCount_lt_of_month (valid : first.Valid) (valid' : second.Valid) (same : first.year = second.year)
    (before : first.month < second.month) : first.dayCount < second.dayCount := by
  have inMonth := dayOfYear_le valid.someMonth valid.day
  have months := daysBeforeMonth_mono first.year (by omega : 1 ≤ first.month + 1) before
  have someDay := valid'.someDay
  unfold dayCount dayNumber
  rw [← same]
  omega

theorem toMicroseconds_lt_of_fields_lt (valid : first.Valid) (valid' : second.Valid) (before : first.fields < second.fields) :
    first.toMicroseconds < second.toMicroseconds := by
  simp only [fields, List.cons_lt_cons_iff, List.not_lt_nil, and_false, or_false] at before
  have minute := valid.minute
  have second' := valid.second
  have microsecond := valid.microsecond
  rcases before with year | ⟨year, month | ⟨month, day | ⟨day, rest⟩⟩⟩
  · exact toMicroseconds_lt_of_dayCount valid (dayCount_lt_of_year valid valid' year)
  · exact toMicroseconds_lt_of_dayCount valid (dayCount_lt_of_month valid valid' year month)
  · refine toMicroseconds_lt_of_dayCount valid ?_
    unfold dayCount dayNumber
    rw [year, month]
    omega
  · have sameDay : first.dayCount = second.dayCount := by
      unfold dayCount
      rw [year, month, day]
    refine toMicroseconds_lt_of_timeOfDay sameDay ?_
    unfold timeOfDay
    omega

/-! ## The end of the calendar -/

def last : Moment :=
  ⟨9999, 12, 31, 23, 59, 59, 999999⟩

theorem toMicroseconds_le_last {moment : Moment} (valid : moment.isValid = true) :
    moment.toMicroseconds ≤ last.toMicroseconds := by
  have fits := valid_of_isValid valid
  have inDay := fits.timeOfDay_lt
  have number := dayNumber_le fits.someYear fits.someMonth fits.month fits.day
  have years := daysBeforeYear_mono (by omega : 1 ≤ moment.year + 1) (Nat.add_le_add_right fits.year 1)
  have lastDay : daysBeforeYear (9999 + 1) = 3652059 := by decide
  have lastMoment : last.toMicroseconds = 3652058 * microsecondsPerDay + (microsecondsPerDay - 1) := by decide
  rw [lastMoment, toMicroseconds_eq]
  unfold dayCount microsecondsPerDay at *
  omega

/-! ## Writing -/

section Writing

variable {width value value' : Nat} {digits digits' rest rest' : List Char}

theorem digitsValue_cons (c : Char) (digits : List Char) :
    JsonValue.digitsValue (c :: digits) = (c.toNat - 48) * 10 ^ digits.length + JsonValue.digitsValue digits := by
  have general : ∀ start, digits.foldl (fun value digit => value * 10 + (digit.toNat - 48)) start =
      start * 10 ^ digits.length + JsonValue.digitsValue digits := by
    induction digits with
    | nil => simp [JsonValue.digitsValue]
    | cons next more ih =>
        intro start
        rw [JsonValue.digitsValue, List.foldl_cons, List.foldl_cons, ih, ih, List.length_cons, Nat.pow_succ]
        ring
  rw [JsonValue.digitsValue, List.foldl_cons, general]
  simp

theorem digitsValue_lt (areDigits : ∀ c ∈ digits, c.isDigit = true) : JsonValue.digitsValue digits < 10 ^ digits.length := by
  induction digits with
  | nil => decide
  | cons c more ih =>
      have tail := ih fun other member => areDigits other (List.mem_cons_of_mem c member)
      have digit := areDigits c List.mem_cons_self
      have small : c.toNat - 48 ≤ 9 := by
        have bounds : c.toNat ≤ 57 := by
          simp only [Char.isDigit, Bool.and_eq_true, decide_eq_true_eq] at digit
          exact UInt32.le_iff_toNat_le.mp digit.2
        omega
      rw [digitsValue_cons, List.length_cons, Nat.pow_succ]
      nlinarith

/-- Of two numbers with as many digits the smaller one is the smaller text, whatever follows. -/
theorem append_lt_of_digitsValue_lt (areDigits : ∀ c ∈ digits, c.isDigit = true)
    (areDigits' : ∀ c ∈ digits', c.isDigit = true) (sameLength : digits.length = digits'.length)
    (less : JsonValue.digitsValue digits < JsonValue.digitsValue digits') : digits ++ rest < digits' ++ rest' := by
  induction digits generalizing digits' with
  | nil =>
      obtain rfl := List.length_eq_zero_iff.mp sameLength.symm
      exact absurd less (Nat.lt_irrefl _)
  | cons c more ih =>
      cases digits' with
      | nil => cases sameLength
      | cons c' more' =>
          have lengths : more.length = more'.length := Nat.succ.inj sameLength
          have digit := areDigits c List.mem_cons_self
          have digit' := areDigits' c' List.mem_cons_self
          rw [digitsValue_cons, digitsValue_cons, lengths] at less
          rw [List.cons_append, List.cons_append, List.cons_lt_cons_iff]
          rcases lt_trichotomy c c' with before | rfl | after
          · exact Or.inl before
          · refine Or.inr ⟨rfl, ih (fun other member => areDigits other (List.mem_cons_of_mem c member))
              (fun other member => areDigits' other (List.mem_cons_of_mem c member)) lengths (by omega)⟩
          · have bound := digitsValue_lt fun other member => areDigits' other (List.mem_cons_of_mem c' member)
            have apart : c'.toNat - 48 + 1 ≤ c.toNat - 48 := by
              have codes : c'.toNat < c.toNat := after
              have low : 48 ≤ c'.toNat := by
                simp only [Char.isDigit, Bool.and_eq_true, decide_eq_true_eq] at digit'
                exact UInt32.le_iff_toNat_le.mp digit'.1
              omega
            have scaled := Nat.mul_le_mul_right (10 ^ more'.length) apart
            rw [Nat.add_mul, Nat.one_mul] at scaled
            omega

theorem padded_append_lt (positive : 0 < width) (small' : value' < 10 ^ width) (less : value < value') :
    (padded width value).toList ++ rest < (padded width value').toList ++ rest' := by
  have small : value < 10 ^ width := less.trans small'
  have valueOf : ∀ {value : Nat}, JsonValue.digitsValue (padded width value).toList = value := by
    intro value
    rw [toList_padded, digitsValue_replicate_zero, JsonValue.digitsValue_toDigits]
  refine append_lt_of_digitsValue_lt (fun c => isDigit_of_mem_padded) (fun c => isDigit_of_mem_padded) ?_ ?_
  · rw [length_padded positive small, length_padded positive small']
  · rw [valueOf, valueOf]
    exact less

theorem part_lt {mark : Char} (less : rest < rest') :
    (padded width value).toList ++ mark :: rest < (padded width value).toList ++ mark :: rest' :=
  List.append_left_lt (List.cons_lt_cons_self.mpr less)

end Writing

theorem toString_lt_of_fields_lt (fits' : second.Fits) (before : first.fields < second.fields) :
    first.toString < second.toString := by
  simp only [fields, List.cons_lt_cons_iff, List.not_lt_nil, and_false, or_false] at before
  rw [String.lt_iff_toList_lt, toList_toString, toList_toString, dayText, dayText, timeText, timeText]
  simp only [List.append_assoc, List.cons_append]
  rcases before with year | ⟨year, before⟩
  · exact padded_append_lt (by decide) fits'.year year
  rw [year]
  refine part_lt ?_
  rcases before with month | ⟨month, before⟩
  · exact padded_append_lt (by decide) fits'.month month
  rw [month]
  refine part_lt ?_
  rcases before with day | ⟨day, before⟩
  · exact padded_append_lt (by decide) fits'.day day
  rw [day]
  refine part_lt ?_
  rcases before with hour | ⟨hour, before⟩
  · exact padded_append_lt (by decide) fits'.hour hour
  rw [hour]
  refine part_lt ?_
  rcases before with minute | ⟨minute, before⟩
  · exact padded_append_lt (by decide) fits'.minute minute
  rw [minute]
  refine part_lt ?_
  rcases before with second | ⟨sameSecond, microsecond⟩
  · exact padded_append_lt (by decide) fits'.second second
  have fraction' : ¬ second.microsecond = 0 := by omega
  rw [sameSecond, if_neg fraction']
  refine List.append_left_lt ?_
  split
  · exact List.nil_lt_cons _ _
  · have fraction := @padded_append_lt 6 _ _ [] [] (by decide) fits'.microsecond microsecond
    rw [List.append_nil, List.append_nil] at fraction
    exact List.cons_lt_cons_self.mpr fraction

theorem toMicroseconds_le_of_toString_le (valid : first.isValid = true) (valid' : second.isValid = true)
    (notAfter : first.toString ≤ second.toString) : first.toMicroseconds ≤ second.toMicroseconds := by
  rcases lt_trichotomy first.fields second.fields with before | same | after
  · exact Nat.le_of_lt (toMicroseconds_lt_of_fields_lt (valid_of_isValid valid) (valid_of_isValid valid') before)
  · rw [eq_of_fields_eq same]
  · exact absurd (toString_lt_of_fields_lt (fits_of_isValid valid) after) (not_lt_of_ge notAfter)

end Moment
end Deadwood
