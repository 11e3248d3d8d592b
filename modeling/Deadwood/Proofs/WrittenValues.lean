import Mathlib.Data.List.Nodup
import Mathlib.Data.Nat.Digits.Defs
import Deadwood.Proofs.QuotedTexts
import Deadwood.Proofs.TextBytes

/-!
# Written values read back

A value that is written is read back as it was, from its text and from the bytes of its text, unless it has a number with more
digits than may be read, or an object with one key twice. Decimal numbers are taken in the form in which their text is read.
-/

set_option autoImplicit false
namespace Deadwood

/-! ## Plain text -/

namespace Text

def isSimple (c : Char) : Bool :=
  c.toNat < 128 && c != '\r'

end Text

namespace JsonValue

/-! ## Numbers -/

theorem leadingDigits_append {digits rest : List Char} (areDigits : ∀ c ∈ digits, c.isDigit = true)
    (stops : ∀ c ∈ rest.head?, c.isDigit = false) : leadingDigits (digits ++ rest) = digits := by
  rw [leadingDigits, List.takeWhile_append_of_pos areDigits]
  cases rest with
  | nil => rw [List.takeWhile_nil, List.append_nil]
  | cons c rest => rw [List.takeWhile_cons_of_neg (by simp [stops c rfl]), List.append_nil]

theorem digitsValue_toDigits (value : Nat) : digitsValue (Nat.toDigits 10 value) = value := by
  have same : ∀ digits, digitsValue digits = Nat.ofDigitChars 10 digits 0 := by
    intro digits
    simp [digitsValue, Nat.ofDigitChars, Nat.mul_comm]
  rw [same, Nat.ofDigitChars_toDigits (by decide) (by decide)]

/-- No number but zero begins with a zero. -/
theorem head?_toDigits {value : Nat} (positive : 0 < value) : (Nat.toDigits 10 value).head? ≠ some '0' := by
  induction value using Nat.strongRecOn with
  | _ value ih =>
      by_cases small : value < 10
      · rw [Nat.toDigits_of_lt_base small]
        have digits : ∀ digit < 10, 0 < digit → [digit.digitChar].head? ≠ some '0' := by decide
        exact digits value small positive
      · rw [Nat.toDigits_of_base_le (by decide) (Nat.not_lt.mp small)]
        have before := ih (value / 10) (by omega) (by omega)
        cases digits : Nat.toDigits 10 (value / 10) with
        | nil => exact absurd digits Nat.toDigits_ne_nil
        | cons digit rest =>
            rw [digits] at before
            exact before

theorem exists_toDigits (value : Nat) :
    ∃ digit more, Nat.toDigits 10 value = digit :: more ∧ ∀ c : Char, c.isDigit = false → digit ≠ c := by
  cases digits : Nat.toDigits 10 value with
  | nil => exact absurd digits Nat.toDigits_ne_nil
  | cons digit more =>
      refine ⟨digit, more, rfl, ?_⟩
      rintro c noDigit rfl
      have isDigit : digit.isDigit = true := Nat.isDigit_of_mem_toDigits (b := 10) (n := value) (by decide) (by decide)
        (by rw [digits]; exact List.mem_cons_self)
      cases noDigit.symm.trans isDigit

def EndsNumber (rest : List Char) : Prop :=
  ∀ c ∈ rest.head?, c.isDigit = false ∧ c ≠ '.' ∧ c ≠ 'e' ∧ c ≠ 'E'

theorem fraction_of_ends {rest : List Char} (ends : EndsNumber rest) : fraction rest = ([], rest) := by
  cases rest with
  | nil => rfl
  | cons c rest =>
      have noPoint := (ends c rfl).2.1
      simp [fraction, noPoint]

theorem exponent_of_ends {rest : List Char} (ends : EndsNumber rest) : exponent rest = (none, rest) := by
  cases rest with
  | nil => rfl
  | cons c rest =>
      obtain ⟨_, _, noSmall, noGreat⟩ := ends c rfl
      simp [exponent, noSmall, noGreat]

theorem readNumber_toDigits (value : Nat) {rest : List Char} (ends : EndsNumber rest) :
    readNumber (Nat.toDigits 10 value ++ rest) =
        (if value < 10 ^ digitLimit then some (int value, rest) else none) ∧
      readNumber ('-' :: (Nat.toDigits 10 value ++ rest)) =
        (if value < 10 ^ digitLimit then some (int (-value), rest) else none) := by
  have areDigits : ∀ c ∈ Nat.toDigits 10 value, c.isDigit = true :=
    fun c => Nat.isDigit_of_mem_toDigits (by decide) (by decide)
  have run := leadingDigits_append areDigits fun c member => (ends c member).1
  have whole : (if (Nat.toDigits 10 value).head? == some '0' then (Nat.toDigits 10 value).take 1
      else Nat.toDigits 10 value) = Nat.toDigits 10 value := by
    by_cases zero : value = 0
    · subst zero
      rfl
    · rw [if_neg]
      rw [beq_iff_eq]
      exact head?_toDigits (Nat.pos_of_ne_zero zero)
  have length : digitLimit < (Nat.toDigits 10 value).length ↔ ¬ value < 10 ^ digitLimit := by
    rw [← Nat.length_toDigits_le_iff (by decide) (show 0 < digitLimit by decide), Nat.not_le]
  have someDigit : (Nat.toDigits 10 value).isEmpty = false := by
    rw [List.isEmpty_eq_false_iff]
    exact Nat.toDigits_ne_nil
  have noSign : ∀ after, Nat.toDigits 10 value ++ rest ≠ '-' :: after := by
    intro after same
    obtain ⟨digit, more, digits, differs⟩ := exists_toDigits value
    rw [digits, List.cons_append, List.cons.injEq] at same
    exact differs '-' rfl same.1
  constructor
  · unfold readNumber
    split
    rename_i sign unsigned signed
    split at signed
    case h_1 after same => exact absurd same (noSign after)
    case h_2 =>
      obtain ⟨rfl, rfl⟩ := Prod.mk.inj signed
      simp only [run, whole, someDigit, List.drop_left, fraction_of_ends ends, exponent_of_ends ends, digitsValue_toDigits,
        length]
      by_cases short : value < 10 ^ digitLimit <;> simp [short]
  · unfold readNumber
    simp only [run, whole, someDigit, List.drop_left, fraction_of_ends ends, exponent_of_ends ends, digitsValue_toDigits,
      length]
    by_cases short : value < 10 ^ digitLimit <;> simp [short]

theorem toList_toString (value : Int) : (toString value).toList =
    if value < 0 then '-' :: Nat.toDigits 10 value.natAbs else Nat.toDigits 10 value.natAbs := by
  cases value with
  | ofNat value => simp [toString, Int.repr, Nat.toList_repr]
  | negSucc value => simp [toString, Int.repr, Nat.toList_repr, Int.negSucc_lt_zero]

theorem readNumber_int (value : Int) {rest : List Char} (ends : EndsNumber rest) :
    readNumber ((toString value).toList ++ rest) =
      if value.natAbs < 10 ^ digitLimit then some (int value, rest) else none := by
  obtain ⟨plain, negated⟩ := readNumber_toDigits value.natAbs ends
  rw [toList_toString]
  split
  case isTrue negative =>
    have same : -(value.natAbs : Int) = value := by omega
    rw [List.cons_append, negated, same]
  case isFalse positive =>
    have same : (value.natAbs : Int) = value := by omega
    rw [plain, same]

theorem head_of_readNumber {text rest : List Char} {value : JsonValue} (read : readNumber text = some (value, rest)) :
    ∃ digit more, digit.isDigit = true ∧ (text = digit :: more ∨ text = '-' :: digit :: more) := by
  have first : ∀ {unsigned : List Char}, leadingDigits unsigned ≠ [] →
      ∃ digit more, digit.isDigit = true ∧ unsigned = digit :: more := by
    intro unsigned some
    cases unsigned with
    | nil => exact absurd rfl some
    | cons digit more =>
        rw [leadingDigits, List.takeWhile_cons] at some
        split at some
        case isTrue isDigit => exact ⟨digit, more, isDigit, rfl⟩
        case isFalse => exact absurd rfl some
  unfold readNumber at read
  split at read
  rename_i sign unsigned signed
  have run : leadingDigits unsigned ≠ [] := by
    intro none
    simp [none] at read
  obtain ⟨digit, more, isDigit, rfl⟩ := first run
  refine ⟨digit, more, isDigit, ?_⟩
  split at signed
  · exact Or.inr (by rw [(Prod.mk.inj signed).2])
  · exact Or.inl (Prod.mk.inj signed).2

/-! ## Values -/

inductive ReadsBack : JsonValue → Prop
  | null : ReadsBack null
  | bool (value : Bool) : ReadsBack (bool value)
  | int {value : Int} (short : value.natAbs < 10 ^ digitLimit) : ReadsBack (int value)
  | string (value : String) : ReadsBack (string value)
  | array {items : List JsonValue} (read : ∀ item ∈ items, ReadsBack item) : ReadsBack (array items)
  | object {entries : List (String × JsonValue)} (once : (entries.map Prod.fst).Nodup)
      (read : ∀ entry ∈ entries, ReadsBack entry.2) : ReadsBack (object entries)

/-- A decimal number in the form in which its text is read. Other forms have the same text: there are many for one number. -/
def IsSettled (mantissa exponent : Int) : Prop :=
  ∀ rest, EndsNumber rest →
    readNumber ((decimalText mantissa exponent).toList ++ rest) = some (decimal mantissa exponent, rest)

/-- The values that are written as they would be read if numbers could have any length. -/
inductive Writable : JsonValue → Prop
  | null : Writable null
  | bool (value : Bool) : Writable (bool value)
  | int (value : Int) : Writable (int value)
  | decimal {mantissa exponent : Int} (settled : IsSettled mantissa exponent) : Writable (decimal mantissa exponent)
  | special {name : String} (known : name ∈ ["NaN", "Infinity", "-Infinity", "-0.0"]) : Writable (special name)
  | string (value : String) : Writable (string value)
  | wide {points : List Nat} (spelled : Spelled points) (noText : textOf? points = none) : Writable (wide points)
  | array {items : List JsonValue} (each : ∀ item ∈ items, Writable item) : Writable (array items)
  | object {entries : List (String × JsonValue)} (once : (entries.map Prod.fst).Nodup)
      (each : ∀ entry ∈ entries, Writable entry.2) : Writable (object entries)
  | wideObject {entries : List (List Nat × JsonValue)} (once : (entries.map Prod.fst).Nodup)
      (spelled : ∀ entry ∈ entries, Spelled entry.1) (noText : ∃ entry ∈ entries, textOf? entry.1 = none)
      (each : ∀ entry ∈ entries, Writable entry.2) : Writable (wideObject entries)

theorem ReadsBack.writable {value : JsonValue} (readsBack : ReadsBack value) : Writable value := by
  induction readsBack with
  | null => exact .null
  | bool value => exact .bool value
  | int short => exact .int _
  | string value => exact .string value
  | array read ih => exact .array ih
  | object once read ih => exact .object once ih

theorem isShort_int_iff {value : Int} : (int value).isShort = true ↔ value.natAbs < 10 ^ digitLimit := by
  rw [isShort, decide_eq_true_eq, Nat.pow_eq]

theorem isShort_array_iff {items : List JsonValue} :
    (array items).isShort = true ↔ ∀ item ∈ items, item.isShort = true := by
  rw [isShort]
  induction items with
  | nil => simp [areShort]
  | cons item rest ih => rw [areShort, Bool.and_eq_true, ih, List.forall_mem_cons]

theorem isShort_object_iff {entries : List (String × JsonValue)} :
    (object entries).isShort = true ↔ ∀ entry ∈ entries, entry.2.isShort = true := by
  rw [isShort]
  induction entries with
  | nil => simp [haveShort]
  | cons entry rest ih => rw [haveShort, Bool.and_eq_true, ih, List.forall_mem_cons]

theorem isShort_wideObject_iff {entries : List (List Nat × JsonValue)} :
    (wideObject entries).isShort = true ↔ ∀ entry ∈ entries, entry.2.isShort = true := by
  rw [isShort]
  induction entries with
  | nil => simp [haveShortWide]
  | cons entry rest ih => rw [haveShortWide, Bool.and_eq_true, ih, List.forall_mem_cons]

theorem depth_array_le_iff {items : List JsonValue} {nesting : Nat} :
    (array items).depth ≤ nesting + 1 ↔ ∀ item ∈ items, item.depth ≤ nesting := by
  rw [depth, Nat.add_le_add_iff_right]
  induction items with
  | nil => simp [depthOfItems]
  | cons item rest ih => rw [depthOfItems, Nat.max_le, ih, List.forall_mem_cons]

theorem depth_object_le_iff {entries : List (String × JsonValue)} {nesting : Nat} :
    (object entries).depth ≤ nesting + 1 ↔ ∀ entry ∈ entries, entry.2.depth ≤ nesting := by
  rw [depth, Nat.add_le_add_iff_right]
  induction entries with
  | nil => simp [depthOfEntries]
  | cons entry rest ih => rw [depthOfEntries, Nat.max_le, ih, List.forall_mem_cons]

theorem depth_wideObject_le_iff {entries : List (List Nat × JsonValue)} {nesting : Nat} :
    (wideObject entries).depth ≤ nesting + 1 ↔ ∀ entry ∈ entries, entry.2.depth ≤ nesting := by
  rw [depth, Nat.add_le_add_iff_right]
  induction entries with
  | nil => simp [depthOfWide]
  | cons entry rest ih => rw [depthOfWide, Nat.max_le, ih, List.forall_mem_cons]

theorem ReadsBack.isShort {value : JsonValue} (readsBack : ReadsBack value) : value.isShort = true := by
  induction readsBack with
  | int short => exact isShort_int_iff.mpr short
  | array read ih => exact isShort_array_iff.mpr ih
  | object once read ih => exact isShort_object_iff.mpr ih
  | _ => rfl

def NoGap (text : List Char) : Prop :=
  ∀ c ∈ text.head?, isGap c = false

theorem skipGap_of_noGap {text : List Char} (noGap : NoGap text) : skipGap text = text := by
  cases text with
  | nil => rfl
  | cons c rest => rw [skipGap, List.dropWhile_cons_of_neg (by simp [noGap c rfl])]

theorem skipGap_newLine (level : Nat) {text : List Char} (noGap : NoGap text) :
    skipGap ((newLine level).toList ++ text) = text := by
  have gaps : ∀ c ∈ (newLine level).toList, isGap c = true := by
    intro c member
    rw [newLine, String.toList_ofList, List.mem_cons, List.mem_replicate] at member
    rcases member with rfl | ⟨_, rfl⟩ <;> rfl
  rw [skipGap, List.dropWhile_append_of_pos gaps]
  exact skipGap_of_noGap noGap

/-- A written value begins with what is no white space and ends no array. -/
theorem head_renderAt {value : JsonValue} (writable : Writable value) (level : Nat) :
    ∃ c rest, (renderAt level value).toList = c :: rest ∧ isGap c = false ∧ c ≠ ']' := by
  have ofText : ∀ {text : String} (c : Char) (rest : List Char), renderAt level value = text → text.toList = c :: rest →
      isGap c = false → c ≠ ']' → ∃ c rest, (renderAt level value).toList = c :: rest ∧ isGap c = false ∧ c ≠ ']' := by
    rintro text c rest rfl begins noGap noEnd
    exact ⟨c, rest, begins, noGap, noEnd⟩
  cases writable with
  | null => exact ofText 'n' _ (by rw [renderAt]) rfl rfl (by decide)
  | bool value =>
      cases value with
      | true => exact ofText 't' _ (by rw [renderAt, if_pos rfl]) rfl rfl (by decide)
      | false => exact ofText 'f' _ (by rw [renderAt, if_neg Bool.false_ne_true]) rfl rfl (by decide)
  | int value =>
      rw [renderAt, toList_toString]
      split
      case isTrue => exact ⟨'-', _, rfl, rfl, by decide⟩
      case isFalse =>
        obtain ⟨digit, more, digits, differs⟩ := exists_toDigits value.natAbs
        refine ⟨digit, more, digits, ?_, differs ']' rfl⟩
        simp [isGap, differs]
  | decimal settled =>
      obtain ⟨digit, more, isDigit, begins⟩ := head_of_readNumber (settled [] (by rintro c ⟨⟩))
      have differs : ∀ c : Char, c.isDigit = false → digit ≠ c := by
        rintro c noDigit rfl
        cases noDigit.symm.trans isDigit
      rw [List.append_nil] at begins
      rcases begins with plain | negated
      · refine ofText digit more (by rw [renderAt]) plain ?_ (differs ']' rfl)
        simp [isGap, differs]
      · exact ofText '-' _ (by rw [renderAt]) negated rfl (by decide)
  | special known =>
      simp only [List.mem_cons, List.not_mem_nil, or_false] at known
      rcases known with rfl | rfl | rfl | rfl
      · exact ofText 'N' _ (by rw [renderAt]) rfl rfl (by decide)
      · exact ofText 'I' _ (by rw [renderAt]) rfl rfl (by decide)
      · exact ofText '-' _ (by rw [renderAt]) rfl rfl (by decide)
      · exact ofText '-' _ (by rw [renderAt]) rfl rfl (by decide)
  | string value => exact ofText '"' _ (by rw [renderAt]; rfl) String.toList_ofList rfl (by decide)
  | wide => exact ofText '"' _ (by rw [renderAt]; rfl) String.toList_ofList rfl (by decide)
  | @array items =>
      cases items with
      | nil => exact ofText '[' _ (by rw [renderAt]) rfl rfl (by decide)
      | cons item rest =>
          simp only [renderAt, String.toList_append]
          exact ⟨'[', _, rfl, rfl, by decide⟩
  | @object entries =>
      cases entries with
      | nil => exact ofText '\x7b' _ (by rw [renderAt]) rfl rfl (by decide)
      | cons entry rest =>
          simp only [renderAt, String.toList_append]
          exact ⟨'\x7b', _, rfl, rfl, by decide⟩
  | @wideObject entries =>
      cases entries with
      | nil => exact ofText '\x7b' _ (by rw [renderAt]) rfl rfl (by decide)
      | cons entry rest =>
          simp only [renderAt, String.toList_append]
          exact ⟨'\x7b', _, rfl, rfl, by decide⟩

theorem noGap_renderAt {value : JsonValue} (writable : Writable value) (level : Nat) (rest : List Char) :
    NoGap ((renderAt level value).toList ++ rest) := by
  obtain ⟨first, more, begins, noGap, _⟩ := head_renderAt writable level
  rw [begins]
  rintro c ⟨⟩
  exact noGap

theorem fresh_of_nodup {κ : Type} {first : κ × JsonValue} {before more : List (κ × JsonValue)}
    (once : ((before ++ first :: more).map Prod.fst).Nodup) : first.1 ∉ before.map Prod.fst := by
  intro listed
  rw [List.map_append, List.map_cons, List.nodup_append] at once
  exact once.2.2 first.1 listed first.1 List.mem_cons_self rfl

theorem putEntry_of_not_mem {κ : Type} [DecidableEq κ] {key : κ} (value : JsonValue) {entries : List (κ × JsonValue)}
    (fresh : key ∉ entries.map Prod.fst) : putEntry key value entries = entries ++ [(key, value)] := by
  induction entries with
  | nil => rfl
  | cons entry rest ih =>
      rw [List.map_cons, List.mem_cons, not_or] at fresh
      rw [putEntry, if_neg (Ne.symm fresh.1), ih fresh.2, List.cons_append]

/-- Wherever a value is written that is not nested too deep, it is read back if no number is too long for that, and is malformed
otherwise. -/
def IsReadBack (value : JsonValue) : Prop :=
  ∀ (level limit nesting : Nat) (rest : List Char), EndsNumber rest → 2 * (renderAt level value).toList.length ≤ limit →
    value.depth ≤ nesting → readValue limit nesting ((renderAt level value).toList ++ rest) =
      if value.isShort = true then .ok (value, rest) else .error .malformed

theorem endsNumber_newLine (level : Nat) (rest : List Char) : EndsNumber ((newLine level).toList ++ rest) := by
  intro c member
  rw [newLine, String.toList_ofList, List.cons_append, List.head?_cons, Option.mem_some_iff] at member
  subst member
  decide

theorem readItems_render {level outer nesting : Nat} {more : List JsonValue} {first : JsonValue} {limit : Nat}
    (before : List JsonValue) (rest : List Char) (all : ∀ item ∈ first :: more, Writable item ∧ IsReadBack item)
    (shallow : ∀ item ∈ first :: more, item.depth ≤ nesting)
    (enough : 2 * ((renderAt level first).toList.length + (renderItems level more).toList.length) + 1 ≤ limit) :
    readItems limit nesting before ((renderAt level first).toList ++ ((renderItems level more).toList ++
      ((newLine outer).toList ++ ']' :: rest))) =
        if ∀ item ∈ first :: more, item.isShort = true then .ok (array (before.reverse ++ first :: more), rest)
        else .error .malformed := by
  induction more generalizing first before limit with
  | nil =>
      obtain ⟨limit, rfl⟩ := Nat.exists_eq_add_of_le' (Nat.le_trans (Nat.le_add_left 1 _) enough)
      have read := (all first List.mem_cons_self).2 level limit nesting ((newLine outer).toList ++ ']' :: rest)
        (endsNumber_newLine outer _) (by omega) (shallow first List.mem_cons_self)
      have gap := skipGap_newLine outer (show NoGap (']' :: rest) by rintro c ⟨⟩; rfl)
      rw [renderItems, String.toList_empty, List.nil_append, readItems, read]
      by_cases short : first.isShort = true
      · simp [short, gap, bind, Except.bind]
      · simp [short, bind, Except.bind]
  | cons item more ih =>
      obtain ⟨limit, rfl⟩ := Nat.exists_eq_add_of_le' (Nat.le_trans (Nat.le_add_left 1 _) enough)
      have itemListed : item ∈ first :: item :: more := List.mem_cons_of_mem first List.mem_cons_self
      simp only [renderItems, String.toList_append, List.length_append, List.append_assoc] at enough ⊢
      have comma : ",".toList = [','] := rfl
      rw [comma, List.length_singleton] at enough
      rw [comma, List.singleton_append]
      have read := (all first List.mem_cons_self).2 level limit nesting (',' :: ((newLine level).toList ++
        ((renderAt level item).toList ++ ((renderItems level more).toList ++ ((newLine outer).toList ++ ']' :: rest)))))
        (by rintro c ⟨⟩; decide) (by omega) (shallow first List.mem_cons_self)
      have gap : ∀ text, skipGap (',' :: text) = ',' :: text := fun text => skipGap_of_noGap (by rintro c ⟨⟩; rfl)
      have read' := @ih item limit (first :: before) (fun other member => all other (List.mem_cons_of_mem first member))
        (fun other member => shallow other (List.mem_cons_of_mem first member)) (by omega)
      rw [readItems, read]
      by_cases short : first.isShort = true
      · simp only [bind, Except.bind, if_pos short, gap]
        rw [skipGap_newLine level (noGap_renderAt (all item itemListed).1 level _), read', List.reverse_cons,
          List.append_assoc, List.singleton_append]
        simp only [List.forall_mem_cons, short, true_and]
      · simp [short, bind, Except.bind]

theorem toList_quotedPoints_append (key : List Nat) (rest : List Char) :
    (quotedPoints key).toList ++ rest = '"' :: (key.flatMap escapePoint ++ '"' :: rest) := by
  rw [quotedPoints, String.toList_ofList, List.cons_append, List.cons_append, List.append_assoc, List.singleton_append]

theorem noGap_quotedPoints (key : List Nat) (rest : List Char) : NoGap ((quotedPoints key).toList ++ rest) := by
  rw [toList_quotedPoints_append]
  rintro c ⟨⟩
  rfl

theorem readEntries_entry {level limit nesting : Nat} {first : List Nat × JsonValue} {before : List (List Nat × JsonValue)}
    (fresh : first.1 ∉ before.map Prod.fst) (spelled : Spelled first.1) (writable : Writable first.2)
    (isReadBack : IsReadBack first.2) (shallow : first.2.depth ≤ nesting)
    (enough : 2 * (renderAt level first.2).toList.length ≤ limit) {after : List Char} (ends : EndsNumber after) :
    readEntries (limit + 1) nesting before
        ((quotedPoints first.1).toList ++ (": ".toList ++ ((renderAt level first.2).toList ++ after))) =
      if first.2.isShort = true then
        match skipGap after with
        | ',' :: rest => readEntries limit nesting (before ++ [first]) (skipGap rest)
        | '\x7d' :: rest => .ok (ofEntries (before ++ [first]), rest)
        | _ => .error .malformed
      else .error .malformed := by
  have colon : ": ".toList = [':', ' '] := rfl
  have colonGap : ∀ text, skipGap (':' :: text) = ':' :: text := fun text => skipGap_of_noGap (by rintro c ⟨⟩; rfl)
  have spaceGap : ∀ text, NoGap text → skipGap (' ' :: text) = text := fun text noGap => by
    rw [skipGap, List.dropWhile_cons_of_pos rfl]
    exact skipGap_of_noGap noGap
  have read := isReadBack level limit nesting after ends enough shallow
  rw [toList_quotedPoints_append, colon, readEntries, readText_quotedPoints spelled]
  simp only [bind, Except.bind, List.cons_append, List.nil_append, colonGap]
  rw [spaceGap _ (noGap_renderAt writable level _), read, ← putEntry_of_not_mem first.2 fresh]
  cases first.2.isShort <;> rfl

theorem readEntries_render {level outer nesting : Nat} {more : List (List Nat × JsonValue)} {first : List Nat × JsonValue}
    {limit : Nat} (before : List (List Nat × JsonValue)) (rest : List Char)
    (once : ((before ++ first :: more).map Prod.fst).Nodup) (spelled : ∀ entry ∈ first :: more, Spelled entry.1)
    (all : ∀ entry ∈ first :: more, Writable entry.2 ∧ IsReadBack entry.2)
    (shallow : ∀ entry ∈ first :: more, entry.2.depth ≤ nesting)
    (enough : 2 * ((renderAt level first.2).toList.length + (renderWideEntries level more).toList.length) + 1 ≤ limit) :
    readEntries limit nesting before ((quotedPoints first.1).toList ++ (": ".toList ++ ((renderAt level first.2).toList ++
      ((renderWideEntries level more).toList ++ ((newLine outer).toList ++ '\x7d' :: rest))))) =
        if ∀ entry ∈ first :: more, entry.2.isShort = true then .ok (ofEntries (before ++ first :: more), rest)
        else .error .malformed := by
  induction more generalizing first before limit with
  | nil =>
      obtain ⟨limit, rfl⟩ := Nat.exists_eq_add_of_le' (Nat.le_trans (Nat.le_add_left 1 _) enough)
      obtain ⟨writable, isReadBack⟩ := all first List.mem_cons_self
      have gap := skipGap_newLine outer (show NoGap ('\x7d' :: rest) by rintro c ⟨⟩; rfl)
      rw [renderWideEntries, String.toList_empty, List.nil_append,
        readEntries_entry (fresh_of_nodup once) (spelled first List.mem_cons_self) writable isReadBack
          (shallow first List.mem_cons_self) (by omega) (endsNumber_newLine outer _), gap]
      simp
  | cons entry more ih =>
      obtain ⟨limit, rfl⟩ := Nat.exists_eq_add_of_le' (Nat.le_trans (Nat.le_add_left 1 _) enough)
      obtain ⟨writable, isReadBack⟩ := all first List.mem_cons_self
      obtain ⟨key, value⟩ := entry
      have comma : ",".toList = [','] := rfl
      simp only [renderWideEntries, String.toList_append, List.length_append, comma, List.length_singleton] at enough
      simp only [renderWideEntries, String.toList_append, List.append_assoc, comma, List.cons_append, List.nil_append]
      have gap : ∀ text, skipGap (',' :: text) = ',' :: text := fun text => skipGap_of_noGap (by rintro c ⟨⟩; rfl)
      rw [readEntries_entry (fresh_of_nodup once) (spelled first List.mem_cons_self) writable isReadBack
        (shallow first List.mem_cons_self) (by omega) (by rintro c ⟨⟩; decide), gap]
      have rendered := @ih (key, value) limit (before ++ [first]) (by rwa [List.append_assoc, List.singleton_append])
        (fun other member => spelled other (List.mem_cons_of_mem first member))
        (fun other member => all other (List.mem_cons_of_mem first member))
        (fun other member => shallow other (List.mem_cons_of_mem first member)) (by dsimp only; omega)
      rw [List.append_assoc, List.singleton_append] at rendered
      by_cases short : first.2.isShort = true
      · rw [if_pos short]
        change readEntries limit nesting (before ++ [first])
          (skipGap ((newLine level).toList ++ ((quotedPoints key).toList ++ _))) = _
        rw [skipGap_newLine level (noGap_quotedPoints key _), rendered]
        refine if_congr ⟨fun each => List.forall_mem_cons.mpr ⟨short, each⟩, fun each => ?_⟩ rfl rfl
        exact (List.forall_mem_cons.mp each).2
      · rw [if_neg short, if_neg fun each => short (each first List.mem_cons_self)]

theorem readPlain_of_no_word {text : List Char} (noWord : ∀ entry ∈ words, ¬ entry.1.toList <+: text) :
    readPlain text = readNumber text := by
  rw [readPlain, List.find?_eq_none.mpr]
  intro entry listed
  rw [List.isPrefixOf_iff_prefix]
  exact noWord entry listed

theorem not_prefix_of_begins {text : List Char} {digit : Char} {more : List Char} (isDigit : digit.isDigit = true)
    (begins : text = digit :: more ∨ text = '-' :: digit :: more) :
    ∀ entry ∈ words, ¬ entry.1.toList <+: text := by
  have differs : ∀ c : Char, c.isDigit = false → c ≠ digit := by
    rintro c noDigit rfl
    cases noDigit.symm.trans isDigit
  rcases begins with rfl | rfl <;> simp [words, differs]

theorem readPlain_int (value : Int) {rest : List Char} (ends : EndsNumber rest) :
    readPlain ((toString value).toList ++ rest) =
      if value.natAbs < 10 ^ digitLimit then some (int value, rest) else none := by
  have isRead := readNumber_int value ends
  refine (readPlain_of_no_word ?_).trans isRead
  rw [toList_toString]
  obtain ⟨digit, more, digits, differs⟩ := exists_toDigits value.natAbs
  have differs : ∀ c : Char, c.isDigit = false → c ≠ digit := fun c noDigit => (differs c noDigit).symm
  rw [digits]
  split <;> simp [words, differs]

theorem readValue_plain {c : Char} (noText : c ≠ '"') (noArray : c ≠ '[') (noObject : c ≠ '\x7b') (limit nesting : Nat)
    (rest : List Char) : readValue (limit + 1) nesting (c :: rest) =
      match readPlain (c :: rest) with
      | some found => .ok found
      | none => .error .malformed := by
  cases plain : readPlain (c :: rest) <;> simp [readValue, noText, noArray, noObject, plain]

theorem readValue_array {text more : List Char} {c : Char} (opened : skipGap text = c :: more) (noEnd : c ≠ ']')
    (limit nesting : Nat) :
    readValue (limit + 1) (nesting + 1) ('[' :: text) = readItems limit nesting [] (c :: more) := by
  simp [readValue, opened, noEnd]

theorem readValue_object {text more : List Char} {c : Char} (opened : skipGap text = c :: more) (noEnd : c ≠ '\x7d')
    (limit nesting : Nat) :
    readValue (limit + 1) (nesting + 1) ('\x7b' :: text) = readEntries limit nesting [] (c :: more) := by
  simp [readValue, opened, noEnd]

theorem exists_nesting {value : JsonValue} {nesting : Nat} (shallow : value.depth ≤ nesting) (some : 0 < value.depth) :
    ∃ less, nesting = less + 1 :=
  Nat.exists_eq_add_of_le' (Nat.le_trans some shallow)

theorem readValue_entries {level limit nesting : Nat} {more : List (List Nat × JsonValue)} {first : List Nat × JsonValue}
    (rest : List Char) (once : ((first :: more).map Prod.fst).Nodup) (spelled : ∀ entry ∈ first :: more, Spelled entry.1)
    (all : ∀ entry ∈ first :: more, Writable entry.2 ∧ IsReadBack entry.2)
    (shallow : (wideObject (first :: more)).depth ≤ nesting)
    (enough : 2 * (renderAt level (wideObject (first :: more))).toList.length ≤ limit) :
    readValue limit nesting ((renderAt level (wideObject (first :: more))).toList ++ rest) =
      if ∀ entry ∈ first :: more, entry.2.isShort = true then .ok (ofEntries (first :: more), rest)
      else .error .malformed := by
  obtain ⟨key, value⟩ := first
  obtain ⟨nesting, rfl⟩ := exists_nesting shallow (by rw [depth]; omega)
  have opening : "\x7b".toList = ['\x7b'] := rfl
  have closing : "\x7d".toList = ['\x7d'] := rfl
  simp only [renderAt, String.toList_append, List.length_append, opening, closing, List.length_singleton] at enough
  simp only [renderAt, String.toList_append, List.append_assoc, opening, closing, List.cons_append, List.nil_append]
  obtain ⟨limit, rfl⟩ := Nat.exists_eq_add_of_le' (Nat.le_trans (by omega : 1 ≤ _) enough)
  have rendered := @readEntries_render (level + 1) level nesting more (key, value) limit [] rest once spelled all
    (depth_wideObject_le_iff.mp shallow) (by dsimp only; omega)
  have opened := skipGap_newLine (level + 1) (noGap_quotedPoints key (": ".toList ++ ((renderAt (level + 1) value).toList ++
    ((renderWideEntries (level + 1) more).toList ++ ((newLine level).toList ++ '\x7d' :: rest)))))
  rw [toList_quotedPoints_append] at rendered opened
  rw [toList_quotedPoints_append, readValue_object opened (by decide)]
  exact rendered

/-! ### Keys that are texts -/

def widened (entry : String × JsonValue) : List Nat × JsonValue :=
  (points entry.1, entry.2)

theorem renderEntries_eq (level : Nat) (entries : List (String × JsonValue)) :
    renderEntries level entries = renderWideEntries level (entries.map widened) := by
  induction entries with
  | nil => rw [renderEntries, List.map_nil, renderWideEntries]
  | cons entry rest ih =>
      obtain ⟨key, value⟩ := entry
      rw [renderEntries, List.map_cons, widened, renderWideEntries, ih, quotedPoints_points]

theorem renderAt_object (level : Nat) (entries : List (String × JsonValue)) :
    renderAt level (object entries) = renderAt level (wideObject (entries.map widened)) := by
  cases entries with
  | nil => rw [List.map_nil, renderAt, renderAt]
  | cons entry rest =>
      obtain ⟨key, value⟩ := entry
      simp only [List.map_cons, widened, renderAt, renderEntries_eq, quotedPoints_points]

theorem ofEntries_widened (entries : List (String × JsonValue)) : ofEntries (entries.map widened) = object entries := by
  have each : (entries.map widened).mapM (fun entry => (textOf? entry.1).map (·, entry.2)) = some entries := by
    induction entries with
    | nil => rfl
    | cons entry rest ih =>
        rw [List.map_cons, List.mapM_cons, ih, widened, textOf?_points]
        rfl
  rw [ofEntries, each]

theorem points_injective : Function.Injective points := by
  intro first second same
  rw [← Option.some_inj, ← textOf?_points first, ← textOf?_points second, same]

theorem ofEntries_of_noText {entries : List (List Nat × JsonValue)} (noText : ∃ entry ∈ entries, textOf? entry.1 = none) :
    ofEntries entries = wideObject entries := by
  have none : entries.mapM (fun entry => (textOf? entry.1).map (·, entry.2)) = none := by
    obtain ⟨entry, listed, isNone⟩ := noText
    induction entries with
    | nil => cases listed
    | cons first rest ih =>
        rw [List.mapM_cons]
        rcases List.mem_cons.mp listed with rfl | later
        · rw [isNone]
          rfl
        · rw [ih later]
          cases (textOf? first.1).map (·, first.2) <;> rfl
  rw [ofEntries, none]

/-- A value that is written as a word or a number is read back if that is. -/
theorem isReadBack_of_readPlain {value : JsonValue} {text : String} {c : Char} {more : List Char}
    (shown : ∀ level, renderAt level value = text) (begins : text.toList = c :: more) (noText : c ≠ '"') (noArray : c ≠ '[')
    (noObject : c ≠ '\x7b') (read : ∀ rest, EndsNumber rest →
      readPlain (text.toList ++ rest) = if value.isShort = true then some (value, rest) else none) : IsReadBack value := by
  intro level limit nesting rest ends enough _
  have isRead := read rest ends
  rw [shown] at enough ⊢
  rw [begins] at enough isRead ⊢
  obtain ⟨limit, rfl⟩ := Nat.exists_eq_add_of_le' (Nat.le_trans (by rw [List.length_cons]; omega : 1 ≤ _) enough)
  rw [List.cons_append] at isRead ⊢
  rw [readValue_plain noText noArray noObject, isRead]
  by_cases short : value.isShort = true
  · rw [if_pos short, if_pos short]
  · rw [if_neg short, if_neg short]

theorem isReadBack_int (value : Int) : IsReadBack (int value) := by
  have shown : ∀ level, renderAt level (int value) = toString value := fun level => by rw [renderAt]
  have read : ∀ rest, EndsNumber rest → readPlain ((toString value).toList ++ rest) =
      if (int value).isShort = true then some (int value, rest) else none :=
    fun rest ends => (readPlain_int value ends).trans (if_congr isShort_int_iff.symm rfl rfl)
  obtain ⟨digit, more, digits, differs⟩ := exists_toDigits value.natAbs
  by_cases negative : value < 0
  · have begins : (toString value).toList = '-' :: digit :: more := by rw [toList_toString, if_pos negative, digits]
    exact isReadBack_of_readPlain shown begins (by decide) (by decide) (by decide) read
  · have begins : (toString value).toList = digit :: more := by rw [toList_toString, if_neg negative, digits]
    exact isReadBack_of_readPlain shown begins (differs _ rfl) (differs _ rfl) (differs _ rfl) read

theorem isReadBack_decimal {mantissa exponent : Int} (settled : IsSettled mantissa exponent) :
    IsReadBack (decimal mantissa exponent) := by
  have shown : ∀ level, renderAt level (decimal mantissa exponent) = decimalText mantissa exponent :=
    fun level => by rw [renderAt]
  have begins : ∀ rest, EndsNumber rest → ∃ digit more, digit.isDigit = true ∧
      ((decimalText mantissa exponent).toList ++ rest = digit :: more ∨
        (decimalText mantissa exponent).toList ++ rest = '-' :: digit :: more) :=
    fun rest ends => head_of_readNumber (settled rest ends)
  have read : ∀ rest, EndsNumber rest → readPlain ((decimalText mantissa exponent).toList ++ rest) =
      if (decimal mantissa exponent).isShort = true then some (decimal mantissa exponent, rest) else none := by
    intro rest ends
    obtain ⟨digit, more, isDigit, begins⟩ := begins rest ends
    rw [readPlain_of_no_word (not_prefix_of_begins isDigit begins), settled rest ends]
    rfl
  obtain ⟨digit, more, isDigit, plain | negated⟩ := begins [] (by rintro c ⟨⟩)
  · rw [List.append_nil] at plain
    have differs : ∀ c : Char, c.isDigit = false → digit ≠ c := by
      rintro c noDigit rfl
      cases noDigit.symm.trans isDigit
    exact isReadBack_of_readPlain shown plain (differs _ rfl) (differs _ rfl) (differs _ rfl) read
  · rw [List.append_nil] at negated
    exact isReadBack_of_readPlain shown negated (by decide) (by decide) (by decide) read

theorem readPlain_negativeZero {rest : List Char} (ends : EndsNumber rest) :
    readPlain ("-0.0".toList ++ rest) = some (special "-0.0", rest) := by
  have isDigit : ∀ c ∈ ['0'], c.isDigit = true := List.forall_mem_singleton.mpr rfl
  have places : leadingDigits ('0' :: rest) = ['0'] := leadingDigits_append isDigit fun c member => (ends c member).1
  have number : readNumber ('-' :: '0' :: '.' :: '0' :: rest) = some (special "-0.0", rest) := by
    have whole : leadingDigits ('0' :: '.' :: '0' :: rest) = ['0'] := rfl
    have fractioned : fraction ('.' :: '0' :: rest) = (['0'], rest) := by simp [fraction, places]
    simp only [readNumber, whole, List.head?_cons, beq_self_eq_true, if_true, List.take_succ_cons, List.take_zero,
      List.isEmpty_cons, Bool.false_eq_true, if_false, List.length_singleton, List.drop_succ_cons, List.drop_zero, fractioned,
      exponent_of_ends ends, Bool.false_and]
    rfl
  exact (readPlain_of_no_word (by simp [words])).trans number

theorem isReadBack_special {name : String} (known : name ∈ ["NaN", "Infinity", "-Infinity", "-0.0"]) :
    IsReadBack (special name) := by
  have shown : ∀ level, renderAt level (special name) = name := fun level => by rw [renderAt]
  simp only [List.mem_cons, List.not_mem_nil, or_false] at known
  rcases known with rfl | rfl | rfl | rfl
  · exact isReadBack_of_readPlain shown rfl (by decide) (by decide) (by decide) fun rest _ => rfl
  · exact isReadBack_of_readPlain shown rfl (by decide) (by decide) (by decide) fun rest _ => rfl
  · exact isReadBack_of_readPlain shown rfl (by decide) (by decide) (by decide) fun rest _ => rfl
  · exact isReadBack_of_readPlain shown rfl (by decide) (by decide) (by decide) fun rest ends => readPlain_negativeZero ends

/-- A text in quotes is read back as the text that its code points are. -/
theorem readValue_quotedPoints {points : List Nat} (spelled : Spelled points) {limit : Nat} (nesting : Nat)
    (enough : 2 * (quotedPoints points).toList.length ≤ limit) (rest : List Char) :
    readValue limit nesting ((quotedPoints points).toList ++ rest) = .ok (ofPoints points, rest) := by
  obtain ⟨limit, rfl⟩ := Nat.exists_eq_add_of_le' (Nat.le_trans (by simp [quotedPoints]; omega : 1 ≤ _) enough)
  rw [toList_quotedPoints_append, readValue, readText_quotedPoints spelled]

theorem isReadBack_array {items : List JsonValue} (each : ∀ item ∈ items, Writable item)
    (read : ∀ item ∈ items, IsReadBack item) : IsReadBack (array items) := by
  intro level limit nesting rest ends enough shallow
  obtain ⟨nesting, rfl⟩ := exists_nesting shallow (by rw [depth]; omega)
  cases items with
  | nil =>
      rw [renderAt] at enough ⊢
      obtain ⟨limit, rfl⟩ := Nat.exists_eq_add_of_le' (Nat.le_trans (by decide : 1 ≤ 2 * "[]".toList.length) enough)
      rw [if_pos (show (array []).isShort = true from rfl)]
      rfl
  | cons first more =>
      have opening : "[".toList = ['['] := rfl
      have closing : "]".toList = [']'] := rfl
      simp only [renderAt, String.toList_append, List.length_append, opening, closing, List.length_singleton] at enough
      simp only [renderAt, String.toList_append, List.append_assoc, opening, closing, List.cons_append, List.nil_append]
      obtain ⟨limit, rfl⟩ := Nat.exists_eq_add_of_le' (Nat.le_trans (by omega : 1 ≤ _) enough)
      have writableFirst := each first List.mem_cons_self
      obtain ⟨c, text, begins, _, noEnd⟩ := head_renderAt writableFirst (level + 1)
      have rendered := @readItems_render (level + 1) level nesting more first limit [] rest
        (fun item member => ⟨each item member, read item member⟩) (depth_array_le_iff.mp shallow) (by omega)
      have opened := skipGap_newLine (level + 1) (noGap_renderAt writableFirst (level + 1)
        ((renderItems (level + 1) more).toList ++ ((newLine level).toList ++ ']' :: rest)))
      rw [begins, List.cons_append] at rendered opened
      rw [begins, List.cons_append, readValue_array opened noEnd]
      exact rendered.trans (if_congr isShort_array_iff.symm rfl rfl)

theorem readValue_empty (level : Nat) {limit nesting : Nat} (rest : List Char)
    (enough : 2 * (renderAt level (object [])).toList.length ≤ limit) :
    readValue limit (nesting + 1) ((renderAt level (object [])).toList ++ rest) = .ok (object [], rest) := by
  rw [renderAt] at enough ⊢
  obtain ⟨limit, rfl⟩ := Nat.exists_eq_add_of_le' (Nat.le_trans (by decide : 1 ≤ 2 * "\x7b\x7d".toList.length) enough)
  rfl

theorem isReadBack_object {entries : List (String × JsonValue)} (once : (entries.map Prod.fst).Nodup)
    (each : ∀ entry ∈ entries, Writable entry.2) (read : ∀ entry ∈ entries, IsReadBack entry.2) :
    IsReadBack (object entries) := by
  intro level limit nesting rest ends enough shallow
  obtain ⟨nesting, rfl⟩ := exists_nesting shallow (by rw [depth]; omega)
  cases entries with
  | nil => exact readValue_empty level rest enough
  | cons first more =>
      have keys : ((first :: more).map widened).map Prod.fst = ((first :: more).map Prod.fst).map points := by
        rw [List.map_map, List.map_map]
        rfl
      have less : (wideObject ((first :: more).map widened)).depth ≤ nesting + 1 :=
        depth_wideObject_le_iff.mpr (List.forall_mem_map.mpr (depth_object_le_iff.mp shallow))
      have spelled : ∀ entry ∈ (first :: more).map widened, Spelled entry.1 :=
        List.forall_mem_map.mpr fun entry _ => spelled_points entry.1
      have all : ∀ entry ∈ (first :: more).map widened, Writable entry.2 ∧ IsReadBack entry.2 :=
        List.forall_mem_map.mpr fun entry member => ⟨each entry member, read entry member⟩
      have wideOnce : (((first :: more).map widened).map Prod.fst).Nodup := keys ▸ List.Nodup.map points_injective once
      rw [renderAt_object] at enough ⊢
      have isRead := readValue_entries rest wideOnce spelled all less enough
      rw [← List.map_cons, ofEntries_widened] at isRead
      exact isRead.trans (if_congr (List.forall_mem_map.trans isShort_object_iff.symm) rfl rfl)

theorem isReadBack_wideObject {entries : List (List Nat × JsonValue)} (once : (entries.map Prod.fst).Nodup)
    (spelled : ∀ entry ∈ entries, Spelled entry.1) (noText : ∃ entry ∈ entries, textOf? entry.1 = none)
    (each : ∀ entry ∈ entries, Writable entry.2) (read : ∀ entry ∈ entries, IsReadBack entry.2) :
    IsReadBack (wideObject entries) := by
  intro level limit nesting rest ends enough shallow
  have whole := ofEntries_of_noText noText
  obtain ⟨entry, listed, _⟩ := noText
  obtain ⟨first, more, rfl⟩ := List.exists_cons_of_ne_nil (List.ne_nil_of_mem listed)
  rw [readValue_entries rest once spelled (fun entry member => ⟨each entry member, read entry member⟩) shallow enough, whole]
  exact if_congr isShort_wideObject_iff.symm rfl rfl

/-- Every value that can be written is read back wherever it is written, unless a number is too long. -/
theorem isReadBack_of_writable {value : JsonValue} (writable : Writable value) : IsReadBack value := by
  induction writable with
  | null =>
      exact isReadBack_of_readPlain (fun level => by rw [renderAt]) (show "null".toList = 'n' :: _ from rfl) (by decide)
        (by decide) (by decide) fun rest _ => rfl
  | bool value =>
      cases value with
      | true =>
          exact isReadBack_of_readPlain (fun level => by rw [renderAt, if_pos rfl]) (show "true".toList = 't' :: _ from rfl)
            (by decide) (by decide) (by decide) fun rest _ => rfl
      | false =>
          exact isReadBack_of_readPlain (fun level => by rw [renderAt, if_neg Bool.false_ne_true])
            (show "false".toList = 'f' :: _ from rfl) (by decide) (by decide) (by decide) fun rest _ => rfl
  | int value => exact isReadBack_int value
  | decimal settled => exact isReadBack_decimal settled
  | special known => exact isReadBack_special known
  | string value =>
      intro level limit nesting rest ends enough _
      rw [renderAt, ← quotedPoints_points] at enough ⊢
      rw [readValue_quotedPoints (spelled_points value) nesting enough rest, ofPoints_points,
        if_pos (show (string value).isShort = true from rfl)]
  | @wide points spelled noText =>
      intro level limit nesting rest ends enough _
      rw [renderAt] at enough ⊢
      rw [readValue_quotedPoints spelled nesting enough rest, ofPoints, noText,
        if_pos (show (wide points).isShort = true from rfl)]
  | array each read => exact isReadBack_array each read
  | object once each read => exact isReadBack_object once each read
  | wideObject once spelled noText each read => exact isReadBack_wideObject once spelled noText each read

/-- The text of a written value is read as the value, unless a number is too long. -/
theorem ofText_render_eq {value : JsonValue} (writable : Writable value) {nesting : Nat} (shallow : value.depth ≤ nesting) :
    ofText value.render.toList nesting = if value.isShort = true then .ok value else .error .malformed := by
  have noGap := noGap_renderAt writable 0 []
  have read := isReadBack_of_writable writable 0 (2 * (renderAt 0 value).toList.length + 2) nesting [] (by rintro c ⟨⟩)
    (Nat.le_add_right _ 2) shallow
  rw [List.append_nil] at noGap read
  rw [render, ofText, skipGap_of_noGap noGap, read]
  by_cases short : value.isShort = true
  · rw [if_pos short, if_pos short]
    rfl
  · rw [if_neg short, if_neg short]

theorem ofText_render {value : JsonValue} (readsBack : ReadsBack value) {nesting : Nat} (shallow : value.depth ≤ nesting) :
    ofText value.render.toList nesting = .ok value :=
  (ofText_render_eq readsBack.writable shallow).trans (if_pos readsBack.isShort)

/-! ## From bytes -/

theorem isSimple_escapeUnit (unit : Nat) : ∀ c ∈ escapeUnit unit, Text.isSimple c = true := by
  have digit : ∀ value < 16, Text.isSimple (hexDigit value) = true := by decide
  have digits : ∀ place, Text.isSimple (hexDigit (place % 16)) = true := fun place => digit _ (Nat.mod_lt _ (by decide))
  have escape : Text.isSimple '\\' = true ∧ Text.isSimple 'u' = true := by decide
  simp [escapeUnit, digits, escape]

theorem isSimple_escapeChar (c : Char) : ∀ written ∈ escapeChar c, Text.isSimple written = true := by
  unfold escapeChar
  iterate 7
    split
    case isTrue => exact List.all_eq_true.mp rfl
  split
  case isTrue noReturn _ _ _ shown =>
    intro written same
    rw [List.mem_singleton.mp same, Text.isSimple]
    simp only [Bool.and_eq_true, decide_eq_true_eq] at shown
    simp only [Bool.and_eq_true, decide_eq_true_eq, bne_iff_ne]
    exact ⟨by omega, by simpa using noReturn⟩
  split
  case isTrue => exact isSimple_escapeUnit _
  case isFalse =>
    intro written member
    rcases List.mem_append.mp member with first | second
    · exact isSimple_escapeUnit _ written first
    · exact isSimple_escapeUnit _ written second

theorem isSimple_quotedPoints (points : List Nat) : ∀ c ∈ (quotedPoints points).toList, Text.isSimple c = true := by
  intro c member
  rw [quotedPoints, String.toList_ofList, List.cons_append, List.mem_cons, List.mem_append, List.mem_flatMap,
    List.mem_singleton] at member
  rcases member with rfl | ⟨of, _, written⟩ | rfl
  · rfl
  · unfold escapePoint at written
    split at written
    · exact isSimple_escapeChar _ c written
    · exact isSimple_escapeUnit of c written
  · rfl

theorem isSimple_quoted (text : String) : ∀ c ∈ (quoted text).toList, Text.isSimple c = true := by
  rw [← quotedPoints_points]
  exact isSimple_quotedPoints _

theorem isSimple_newLine (level : Nat) : ∀ c ∈ (newLine level).toList, Text.isSimple c = true := by
  intro c member
  rw [newLine, String.toList_ofList, List.mem_cons, List.mem_replicate] at member
  rcases member with rfl | ⟨_, rfl⟩ <;> rfl

theorem isSimple_toDigits (value : Nat) : ∀ c ∈ Nat.toDigits 10 value, Text.isSimple c = true := by
  intro c member
  have isDigit := Nat.isDigit_of_mem_toDigits (by decide) (by decide) member
  have noReturn : c ≠ '\r' := by
    rintro rfl
    cases isDigit
  rw [Char.isDigit, Bool.and_eq_true, decide_eq_true_eq, decide_eq_true_eq] at isDigit
  have atMost : c.toNat ≤ 57 := UInt32.le_iff_toNat_le.mp isDigit.2
  rw [Text.isSimple, Bool.and_eq_true, decide_eq_true_eq, bne_iff_ne]
  exact ⟨by omega, noReturn⟩

theorem isSimple_toString (value : Int) : ∀ c ∈ (toString value).toList, Text.isSimple c = true := by
  rw [toList_toString]
  split
  · exact List.forall_mem_cons.mpr ⟨rfl, isSimple_toDigits _⟩
  · exact isSimple_toDigits _

theorem isSimple_decimalText (mantissa exponent : Int) :
    ∀ c ∈ (decimalText mantissa exponent).toList, Text.isSimple c = true := by
  have shown : ∀ value : Nat, ∀ c ∈ (toString value).toList, Text.isSimple c = true := by
    intro value
    rw [show toString value = value.repr from rfl, Nat.toList_repr]
    exact isSimple_toDigits value
  have zeros : ∀ count, ∀ c ∈ List.replicate count '0', Text.isSimple c = true := by
    intro count c member
    rw [(List.mem_replicate.mp member).2]
    rfl
  have sign : ∀ c ∈ (if mantissa < 0 then "-" else "").toList, Text.isSimple c = true := by
    split <;> exact List.all_eq_true.mp rfl
  have power : ∀ negative : Prop, ∀ _ : Decidable negative, ∀ c ∈ (if negative then "e-" else "e+").toList,
      Text.isSimple c = true := by
    intro negative _
    split <;> exact List.all_eq_true.mp rfl
  have mark : ∀ c ∈ ".".toList, Text.isSimple c = true := List.all_eq_true.mp rfl
  unfold decimalText
  dsimp only
  have digits := shown (dropZeros (toString mantissa.natAbs).length mantissa.natAbs exponent).1
  generalize dropZeros (toString mantissa.natAbs).length mantissa.natAbs exponent = settled at digits ⊢
  split
  · rw [String.toList_append, List.forall_mem_append]
    exact ⟨sign, List.all_eq_true.mp rfl⟩
  split
  · split
    · simp only [String.toList_append, String.toList_ofList, List.forall_mem_append]
      exact ⟨⟨sign, List.all_eq_true.mp rfl⟩, zeros _, digits⟩
    · have padded : ∀ c ∈ (toString settled.1).toList ++ List.replicate
          (((toString settled.1).toList.length + settled.2).toNat - (toString settled.1).toList.length) '0',
          Text.isSimple c = true := List.forall_mem_append.mpr ⟨digits, zeros _⟩
      simp only [String.toList_append, String.toList_ofList, List.forall_mem_append]
      refine ⟨⟨⟨sign, fun c member => padded c (List.mem_of_mem_take member)⟩, mark⟩, ?_⟩
      split
      · exact List.all_eq_true.mp rfl
      · rw [String.toList_ofList]
        exact fun c member => padded c (List.mem_of_mem_drop member)
  · have first : ∀ c ∈ (toString settled.1).toList.take 1, Text.isSimple c = true :=
      fun c member => digits c (List.mem_of_mem_take member)
    have others : ∀ c ∈ (toString settled.1).toList.drop 1, Text.isSimple c = true :=
      fun c member => digits c (List.mem_of_mem_drop member)
    simp only [String.toList_append, String.toList_ofList, List.forall_mem_append]
    refine ⟨⟨⟨⟨⟨sign, first⟩, ?_⟩, power _ _⟩, ?_⟩, shown _⟩
    · split
      · exact List.all_eq_true.mp rfl
      · rw [String.toList_append, List.forall_mem_append]
        refine ⟨mark, ?_⟩
        rw [String.toList_ofList]
        exact others
    · split <;> exact List.all_eq_true.mp rfl

/-- What is written of an object is in ASCII if its values are. -/
theorem isSimple_entries {entries : List (List Nat × JsonValue)}
    (each : ∀ entry ∈ entries, ∀ level, ∀ c ∈ (renderAt level entry.2).toList, Text.isSimple c = true) (level : Nat) :
    ∀ c ∈ (renderAt level (wideObject entries)).toList, Text.isSimple c = true := by
  have marks : (∀ c ∈ ",".toList, Text.isSimple c = true) ∧ (∀ c ∈ ": ".toList, Text.isSimple c = true) ∧
      (∀ c ∈ "\x7b".toList, Text.isSimple c = true) ∧ ∀ c ∈ "\x7d".toList, Text.isSimple c = true :=
    ⟨List.all_eq_true.mp rfl, List.all_eq_true.mp rfl, List.all_eq_true.mp rfl, List.all_eq_true.mp rfl⟩
  obtain ⟨comma, colon, openObject, closeObject⟩ := marks
  cases entries with
  | nil =>
      rw [renderAt]
      exact List.all_eq_true.mp rfl
  | cons first more =>
      obtain ⟨simple, later⟩ := List.forall_mem_cons.mp each
      have rest : ∀ c ∈ (renderWideEntries (level + 1) more).toList, Text.isSimple c = true := by
        clear each
        induction more with
        | nil =>
            rw [renderWideEntries]
            exact List.all_eq_true.mp rfl
        | cons entry more restInduction =>
            obtain ⟨simple, each⟩ := List.forall_mem_cons.mp later
            simp only [renderWideEntries, String.toList_append, List.forall_mem_append]
            exact ⟨⟨⟨⟨⟨comma, isSimple_newLine _⟩, isSimple_quotedPoints _⟩, colon⟩, simple _⟩, restInduction each⟩
      simp only [renderAt, String.toList_append, List.forall_mem_append]
      exact ⟨⟨⟨⟨⟨⟨⟨openObject, isSimple_newLine _⟩, isSimple_quotedPoints _⟩, colon⟩, simple _⟩, rest⟩, isSimple_newLine _⟩,
        closeObject⟩

theorem isSimple_renderItems {items : List JsonValue}
    (each : ∀ item ∈ items, ∀ level, ∀ c ∈ (renderAt level item).toList, Text.isSimple c = true) (level : Nat) :
    ∀ c ∈ (renderItems level items).toList, Text.isSimple c = true := by
  have comma : ∀ c ∈ ",".toList, Text.isSimple c = true := List.all_eq_true.mp rfl
  induction items with
  | nil =>
      rw [renderItems]
      exact List.all_eq_true.mp rfl
  | cons item more ih =>
      obtain ⟨simple, each⟩ := List.forall_mem_cons.mp each
      simp only [renderItems, String.toList_append, List.forall_mem_append]
      exact ⟨⟨⟨comma, isSimple_newLine _⟩, simple _⟩, ih each⟩

theorem isSimple_renderAt {value : JsonValue} (writable : Writable value) :
    ∀ level, ∀ c ∈ (renderAt level value).toList, Text.isSimple c = true := by
  have openArray : ∀ c ∈ "[".toList, Text.isSimple c = true := List.all_eq_true.mp rfl
  have closeArray : ∀ c ∈ "]".toList, Text.isSimple c = true := List.all_eq_true.mp rfl
  induction writable with
  | null =>
      intro level
      rw [renderAt]
      exact List.all_eq_true.mp rfl
  | bool value =>
      intro level
      rw [renderAt]
      cases value with
      | true => exact List.all_eq_true.mp rfl
      | false => exact List.all_eq_true.mp rfl
  | int value =>
      intro level
      rw [renderAt]
      exact isSimple_toString value
  | decimal =>
      intro level
      rw [renderAt]
      exact isSimple_decimalText _ _
  | special known =>
      intro level
      rw [renderAt]
      simp only [List.mem_cons, List.not_mem_nil, or_false] at known
      rcases known with rfl | rfl | rfl | rfl <;> exact List.all_eq_true.mp rfl
  | string value =>
      intro level
      rw [renderAt]
      exact isSimple_quoted value
  | wide =>
      intro level
      rw [renderAt]
      exact isSimple_quotedPoints _
  | @array items read ih =>
      intro level
      cases items with
      | nil =>
          rw [renderAt]
          exact List.all_eq_true.mp rfl
      | cons first more =>
          obtain ⟨simple, each⟩ := List.forall_mem_cons.mp ih
          simp only [renderAt, String.toList_append, List.forall_mem_append]
          exact ⟨⟨⟨⟨⟨openArray, isSimple_newLine _⟩, simple _⟩, isSimple_renderItems each _⟩, isSimple_newLine _⟩, closeArray⟩
  | @object entries once read ih =>
      intro level
      rw [renderAt_object]
      refine isSimple_entries (fun entry listed => ?_) level
      obtain ⟨named, isNamed, rfl⟩ := List.mem_map.mp listed
      exact ih named isNamed
  | @wideObject entries once spelled noText read ih => exact isSimple_entries ih

theorem readText_render {value : JsonValue} (writable : Writable value) :
    Files.readText (Text.encode value.render.toList) = .ok value.render.toList :=
  Text.readText_encode fun member => absurd (isSimple_renderAt writable 0 _ member) (by decide)

end JsonValue
end Deadwood
