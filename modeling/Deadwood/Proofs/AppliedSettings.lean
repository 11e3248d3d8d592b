import Mathlib.Data.List.Nodup
import Deadwood.Proofs.Partition
import Deadwood.Settings.Load

/-!
# What a file makes of settings

A file is taken up entry by entry. An entry changes one setting at most, which it replaces or adds to, so what a file makes of
settings is found by following each of them alone through the entries.
-/

set_option autoImplicit false
namespace Deadwood

inductive Slot.Fills : Slot → TomlValue → (Settings → Settings) → Prop
  | texts (get : Settings → List String) (set : List String → Settings → Settings) (texts : List String) :
      Fills (.texts get set) (.array (texts.map .string)) (set texts)
  | number (get : Settings → Int) (set : Int → Settings → Settings) {number : Int} (natural : 0 ≤ number) :
      Fills (.number get set) (.integer number) (set number)
  | text (get : Settings → Option String) (set : String → Settings → Settings) (text : String) :
      Fills (.text get set) (.string text) (set text)

abbrev PlacedValue := (String × String) × TomlValue

def Settings.applyPlaced (path : String) (settings : Settings) (entry : PlacedValue) : Except SettingsError Settings :=
  applyEntry path entry.1.1 settings (entry.1.2, entry.2)

namespace SettingKey

variable {setting other : SettingKey} {value : TomlValue} {settings result : Settings} {change : Settings → Settings}

/-! ## One setting -/

theorem eq_of_name (listed : setting ∈ all) (otherListed : other ∈ all) (same : other.name = setting.name) : other = setting :=
  List.inj_on_of_nodup_map (by decide : (all.map SettingKey.name).Nodup) otherListed listed same

theorem value?_of_fills (listed : setting ∈ all) (fills : setting.slot.Fills value change) (settings : Settings) :
    setting.value? (change settings) = some value := by
  have each : ∀ setting ∈ all, ∀ value change, setting.slot.Fills value change →
      setting.value? (change settings) = some value := by
    simp only [all, List.forall_mem_cons, List.not_mem_nil, false_imp_iff, implies_true, and_true]
    and_intros <;> rintro _ _ ⟨⟩ <;> rfl
  exact each setting listed value change fills

/-- A setting keeps its value when another one is filled. -/
theorem value?_of_fills_other (listed : setting ∈ all) (otherListed : other ∈ all) (differs : other.name ≠ setting.name)
    (fills : other.slot.Fills value change) (settings : Settings) :
    setting.value? (change settings) = setting.value? settings := by
  have each : ∀ other ∈ all, ∀ setting ∈ all, other.name ≠ setting.name → ∀ value change, other.slot.Fills value change →
      setting.value? (change settings) = setting.value? settings := by
    simp only [all, List.forall_mem_cons, List.not_mem_nil, false_imp_iff, implies_true, and_true]
    and_intros <;> intro differs <;> first | exact absurd rfl differs | (rintro _ _ ⟨⟩; rfl)
  exact each other otherListed setting listed differs value change fills

/-- Settings are the same if all their values are. -/
theorem eq_of_value? {before after : Settings} (same : ∀ setting ∈ all, setting.value? before = setting.value? after) :
    before = after := by
  obtain ⟨⟩ := before
  obtain ⟨⟩ := after
  have optional : ∀ {first second : Option String}, first.map TomlValue.string = second.map .string ↔ first = second :=
    (Option.map_injective fun _ _ => TomlValue.string.inj).eq_iff
  have required : ∀ {first second : List String}, first.map TomlValue.string = second.map .string ↔ first = second :=
    List.map_inj_right fun _ _ => TomlValue.string.inj
  simp only [all, value?, entryPoints, protectedPatterns, List.forall_mem_cons, optional, required, Option.some.injEq,
    TomlValue.array.injEq, TomlValue.integer.injEq, TomlValue.string.injEq, Option.map_some] at same
  simp only [same]

/-! ## Replacing and adding -/

def Takes (setting : SettingKey) (value : TomlValue) : Prop :=
  ∃ change, setting.slot.Fills value change

theorem texts?_eq_some_iff {texts : List String} : texts? value = some texts ↔ value = .array (texts.map .string) := by
  cases value with
  | array items =>
      rw [texts?, TomlValue.array.injEq]
      induction items generalizing texts with
      | nil => cases texts <;> simp
      | cons item rest ih =>
          cases texts <;> cases item <;> simp [Option.bind_eq_some_iff, ih, and_comm]
  | _ => simp [texts?]

theorem replace?_eq_some_iff :
    setting.replace? value settings = some result ↔ ∃ change, setting.slot.Fills value change ∧ change settings = result := by
  unfold replace?
  constructor
  · cases setting.slot with
    | texts get set =>
        intro replaced
        obtain ⟨texts, isTexts, rfl⟩ := Option.map_eq_some_iff.mp replaced
        exact ⟨set texts, texts?_eq_some_iff.mp isTexts ▸ .texts get set texts, rfl⟩
    | number get set =>
        cases value with
        | integer number =>
            intro replaced
            obtain ⟨natural, isResult⟩ := Option.ite_none_left_eq_some.mp replaced
            exact ⟨set number, .number get set (Int.not_lt.mp natural), Option.some.inj isResult⟩
        | _ =>
            intro replaced
            cases replaced
    | text get set =>
        cases value with
        | string text =>
            intro replaced
            exact ⟨set text, .text get set text, Option.some.inj replaced⟩
        | _ =>
            intro replaced
            cases replaced
  · rintro ⟨change, fills, rfl⟩
    generalize setting.slot = slot at fills
    cases fills with
    | texts get set texts => exact Option.map_eq_some_iff.mpr ⟨texts, texts?_eq_some_iff.mpr rfl, rfl⟩
    | number get set natural => exact if_neg (Int.not_lt.mpr natural)
    | text => rfl

/-- A list with the texts of another value that it does not hold yet. -/
def added (held : Option TomlValue) (value : TomlValue) : Option TomlValue := do
  let texts ← held.bind texts?
  let more ← texts? value
  return .array ((texts ++ more.filter fun text => !texts.contains text).map .string)

theorem fills_of_extend? (extended : setting.extend? value settings = some result) :
    setting.Takes value ∧ ∃ union change, added (setting.value? settings) value = some union ∧ setting.slot.Fills union change ∧
      change settings = result := by
  unfold extend? at extended
  unfold Takes value?
  cases slot : setting.slot with
  | texts get set =>
      rw [slot] at extended
      obtain ⟨more, isTexts, rfl⟩ := Option.map_eq_some_iff.mp extended
      obtain rfl := texts?_eq_some_iff.mp isTexts
      refine ⟨⟨set more, .texts get set more⟩, _, _, ?_, .texts get set _, rfl⟩
      simp only [added, Option.bind_some, texts?_eq_some_iff.mpr rfl, Option.bind_eq_bind]
      rfl
  | number get set =>
      rw [slot] at extended
      cases extended
  | text get set =>
      rw [slot] at extended
      cases extended

theorem exists_extend? (isList : ∃ get set, setting.slot = .texts get set) (takes : setting.Takes value) (settings : Settings) :
    ∃ result, setting.extend? value settings = some result := by
  obtain ⟨get, set, isList⟩ := isList
  obtain ⟨change, fills⟩ := takes
  rw [isList] at fills
  cases fills with
  | texts _ _ texts =>
      unfold extend?
      rw [isList]
      exact ⟨_, Option.map_eq_some_iff.mpr ⟨texts, texts?_eq_some_iff.mpr rfl, rfl⟩⟩

/-! ## One entry -/

def changed? (place : String × String) : Option SettingKey :=
  find? place.1 place.2 <|> addition? place.1 place.2

def follow (setting : SettingKey) (held : Option TomlValue) (entry : PlacedValue) : Option TomlValue :=
  match find? entry.1.1 entry.1.2 with
  | some other => if other.name = setting.name then some entry.2 else held
  | none =>
    match addition? entry.1.1 entry.1.2 with
    | some other => if other.name = setting.name then added held entry.2 else held
    | none => held

/-- A value is what the setting that it replaces or adds to has to be. -/
def Fits (entry : PlacedValue) : Prop :=
  ∀ setting, changed? entry.1 = some setting → setting.Takes entry.2

variable {path : String} {entry : PlacedValue}

theorem mem_all_of_find? {table key : String} (found : find? table key = some setting) : setting ∈ all :=
  List.mem_of_find?_eq_some found

theorem exists_mem_of_addition? {table key : String} (found : addition? table key = some setting) :
    (table, key, setting) ∈ additions := by
  obtain ⟨⟨ofTable, ofKey, added⟩, isFound, rfl⟩ := Option.map_eq_some_iff.mp found
  have same := List.find?_some isFound
  simp only [Bool.and_eq_true, decide_eq_true_eq] at same
  obtain ⟨rfl, rfl⟩ := same
  exact List.mem_of_find?_eq_some isFound

theorem mem_all_of_addition : ∀ addition ∈ additions, addition.2.2 ∈ all := by
  simp [additions, all]

theorem isList_of_addition : ∀ addition ∈ additions, ∃ get set, addition.2.2.slot = .texts get set := by
  simp [additions, entryPoints, protectedPatterns]

theorem applyEntry_eq_ok_iff : Settings.applyPlaced path settings entry = .ok result ↔
    (∃ other, find? entry.1.1 entry.1.2 = some other ∧ other.replace? entry.2 settings = some result) ∨
    (find? entry.1.1 entry.1.2 = none ∧
      ((∃ other, addition? entry.1.1 entry.1.2 = some other ∧ other.extend? entry.2 settings = some result) ∨
        addition? entry.1.1 entry.1.2 = none ∧ settings = result)) := by
  unfold Settings.applyPlaced Settings.applyEntry
  dsimp only
  cases find? entry.1.1 entry.1.2 with
  | some other => cases replaced : other.replace? entry.2 settings <;> simp [replaced]
  | none =>
      cases addition? entry.1.1 entry.1.2 with
      | some other => cases extended : other.extend? entry.2 settings <;> simp [extended]
      | none => simp

theorem exists_applyEntry_iff (path : String) (settings : Settings) :
    (∃ result, Settings.applyPlaced path settings entry = .ok result) ↔ Fits entry := by
  constructor
  · rintro ⟨result, run⟩ setting changed
    unfold changed? at changed
    rcases applyEntry_eq_ok_iff.mp run with ⟨other, found, replaced⟩ | ⟨missing, ⟨other, found, extended⟩ | ⟨unknown, rfl⟩⟩
    · rw [found] at changed
      obtain rfl := Option.some.inj changed
      obtain ⟨change, fills, _⟩ := replace?_eq_some_iff.mp replaced
      exact ⟨change, fills⟩
    · rw [missing, found] at changed
      obtain rfl := Option.some.inj changed
      exact (fills_of_extend? extended).1
    · rw [missing, unknown] at changed
      cases changed
  · intro fits
    unfold Fits changed? at fits
    cases found : find? entry.1.1 entry.1.2 with
    | some other =>
        obtain ⟨change, fills⟩ := fits other (by rw [found]; rfl)
        exact ⟨_, applyEntry_eq_ok_iff.mpr (.inl ⟨other, found, replace?_eq_some_iff.mpr ⟨change, fills, rfl⟩⟩)⟩
    | none =>
        cases added : addition? entry.1.1 entry.1.2 with
        | some other =>
            have isList := isList_of_addition _ (exists_mem_of_addition? added)
            obtain ⟨result, extended⟩ := exists_extend? isList (fits other (by rw [found, added]; rfl)) settings
            exact ⟨result, applyEntry_eq_ok_iff.mpr (.inr ⟨found, .inl ⟨other, added, extended⟩⟩)⟩
        | none => exact ⟨settings, applyEntry_eq_ok_iff.mpr (.inr ⟨found, .inr ⟨added, rfl⟩⟩)⟩

theorem value?_applyEntry (listed : setting ∈ all)
    (run : Settings.applyPlaced path settings entry = .ok result) :
    setting.value? result = setting.follow (setting.value? settings) entry := by
  unfold follow
  rcases applyEntry_eq_ok_iff.mp run with ⟨other, found, replaced⟩ | ⟨missing, ⟨other, found, extended⟩ | ⟨unknown, rfl⟩⟩
  · obtain ⟨change, fills, rfl⟩ := replace?_eq_some_iff.mp replaced
    have otherListed := mem_all_of_find? found
    simp only [found]
    split
    case isTrue same =>
      obtain rfl := eq_of_name listed otherListed same
      exact value?_of_fills listed fills settings
    case isFalse differs => exact value?_of_fills_other listed otherListed differs fills settings
  · obtain ⟨-, union, change, isUnion, fills, rfl⟩ := fills_of_extend? extended
    have otherListed := mem_all_of_addition _ (exists_mem_of_addition? found)
    simp only [missing, found]
    split
    case isTrue same =>
      obtain rfl := eq_of_name listed otherListed same
      exact (value?_of_fills listed fills settings).trans isUnion.symm
    case isFalse differs => exact value?_of_fills_other listed otherListed differs fills settings
  · simp only [missing, unknown]

end SettingKey

/-! ## Whole files -/

namespace Settings

open SettingKey

variable {path : String} {settings result : Settings} {tables : List (String × TomlValue)} {setting : SettingKey}

def entriesOf (tables : List (String × TomlValue)) : List PlacedValue :=
  tables.flatMap fun table => (table.2.entries?.getD []).map fun entry => ((table.1, entry.1), entry.2)

/-- At its top a file holds tables only, and every value is what the setting of its key has to be. -/
structure FitsAll (tables : List (String × TomlValue)) : Prop where
  areTables : ∀ table ∈ tables, table.2.entries?.isSome
  fit : ∀ entry ∈ entriesOf tables, Fits entry

theorem value?_applyEntries {entries : List PlacedValue} (listed : setting ∈ all)
    (run : entries.foldlM (applyPlaced path) settings = .ok result) :
    setting.value? result = entries.foldl setting.follow (setting.value? settings) := by
  induction entries generalizing settings with
  | nil =>
      obtain rfl := Except.ok.inj run
      rfl
  | cons entry rest ih =>
      rw [List.foldlM_cons] at run
      obtain ⟨next, first, later⟩ := bind_eq_ok_iff.mp run
      rw [ih later, value?_applyEntry listed first, List.foldl_cons]

theorem exists_applyEntries_iff (path : String) (settings : Settings) {entries : List PlacedValue} :
    (∃ result, entries.foldlM (applyPlaced path) settings = .ok result) ↔ ∀ entry ∈ entries, Fits entry := by
  induction entries generalizing settings with
  | nil => simp [pure, Except.pure]
  | cons entry rest ih =>
      rw [List.forall_mem_cons]
      constructor
      · rintro ⟨result, run⟩
        rw [List.foldlM_cons] at run
        obtain ⟨next, first, later⟩ := bind_eq_ok_iff.mp run
        exact ⟨(exists_applyEntry_iff path settings).mp ⟨next, first⟩, (ih next).mp ⟨result, later⟩⟩
      · rintro ⟨fits, restFits⟩
        obtain ⟨next, first⟩ := (exists_applyEntry_iff path settings).mpr fits
        obtain ⟨result, later⟩ := (ih next).mpr restFits
        refine ⟨result, ?_⟩
        rw [List.foldlM_cons]
        exact bind_eq_ok_iff.mpr ⟨next, first, later⟩

theorem applyTables_eq_ok_iff : applyTables path settings tables = .ok result ↔
    (∀ table ∈ tables, table.2.entries?.isSome) ∧
      (entriesOf tables).foldlM (applyPlaced path) settings = .ok result := by
  induction tables generalizing settings with
  | nil => simp [applyTables, entriesOf]
  | cons table rest ih =>
      unfold applyTables at ih ⊢
      rw [List.foldlM_cons, List.forall_mem_cons, entriesOf, List.flatMap_cons, List.foldlM_append, List.foldlM_map, ← entriesOf]
      cases isTable : table.2.entries? with
      | none =>
          simp only [isTable, Option.isSome_none, Bool.false_eq_true, false_and, iff_false]
          intro run
          cases run
      | some entries =>
          simp only [isTable, Option.isSome_some, true_and, Option.getD_some, bind_eq_ok_iff, ih]
          rw [← exists_and_left]
          exact exists_congr fun next => and_left_comm

/-- A file can be taken up if it fits, whatever stands before. -/
theorem exists_applyTables_iff : (∃ result, applyTables path settings tables = .ok result) ↔ FitsAll tables := by
  constructor
  · rintro ⟨result, run⟩
    obtain ⟨areTables, entriesRun⟩ := applyTables_eq_ok_iff.mp run
    exact ⟨areTables, (exists_applyEntries_iff path settings).mp ⟨result, entriesRun⟩⟩
  · intro fits
    obtain ⟨result, run⟩ := (exists_applyEntries_iff path settings).mpr fits.fit
    exact ⟨result, applyTables_eq_ok_iff.mpr ⟨fits.areTables, run⟩⟩

/-- Each setting is followed alone through the entries. -/
theorem value?_applyTables (listed : setting ∈ all) (run : applyTables path settings tables = .ok result) :
    setting.value? result = (entriesOf tables).foldl setting.follow (setting.value? settings) :=
  value?_applyEntries listed (applyTables_eq_ok_iff.mp run).2

end Settings
end Deadwood
