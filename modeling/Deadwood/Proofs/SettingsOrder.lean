import Deadwood.Proofs.AppliedSettings
import Deadwood.Proofs.DocumentKeys

/-!
# Settings and the order of entries

Two files that hold the same entries in another order are both taken up or both refused. They come to the same settings but for
the lists that can be added to: what is to be added is lost if it stands before the list itself.
-/

set_option autoImplicit false
namespace Deadwood

open Files

namespace SettingKey

/-- The table and the key that replace a setting. -/
abbrev place (setting : SettingKey) : String × String :=
  (setting.table, setting.key)

abbrev placeOf (addition : String × String × SettingKey) : String × String :=
  (addition.1, addition.2.1)

end SettingKey

/-! ## Values but for order -/

namespace TomlValue

/-- Two values are the same but for the order in which the entries of their tables stand. -/
inductive Alike : TomlValue → TomlValue → Prop
  | same (value : TomlValue) : Alike value value
  | arrays {items others : List TomlValue} (sameLength : items.length = others.length)
      (each : ∀ (index : Nat) (item other : TomlValue), items[index]? = some item → others[index]? = some other →
        Alike item other) :
      Alike (array items) (array others)
  | tables {value other : TomlValue} {entries others : List (String × TomlValue)} (isTable : value.entries? = some entries)
      (isOther : other.entries? = some others) (sameKeys : ∀ key, key ∈ entries.map Prod.fst ↔ key ∈ others.map Prod.fst)
      (each : ∀ key inner counterpart, (key, inner) ∈ entries → (key, counterpart) ∈ others → Alike inner counterpart) :
      Alike value other

variable {value other : TomlValue} {entries : List (String × TomlValue)}

theorem Alike.symm (alike : value.Alike other) : other.Alike value := by
  induction alike with
  | same value => exact .same value
  | arrays sameLength each ih =>
      exact .arrays sameLength.symm fun index item other isItem isOther => ih index other item isOther isItem
  | tables isTable isOther sameKeys each ih =>
      exact .tables isOther isTable (fun key => (sameKeys key).symm) fun key inner counterpart listed listed' =>
        ih key counterpart inner listed' listed

theorem Alike.exists_entries (alike : value.Alike other) (isTable : value.entries? = some entries) :
    ∃ others, other.entries? = some others ∧
      ∀ key inner, (key, inner) ∈ entries → ∃ counterpart, (key, counterpart) ∈ others ∧ inner.Alike counterpart := by
  cases alike with
  | same => exact ⟨entries, isTable, fun key inner listed => ⟨inner, listed, .same inner⟩⟩
  | arrays => cases isTable
  | @tables _ _ entries' others isTable' isOther sameKeys each =>
      obtain rfl := Option.some.inj (isTable.symm.trans isTable')
      refine ⟨others, isOther, fun key inner listed => ?_⟩
      obtain ⟨⟨_, counterpart⟩, listed', rfl⟩ := List.mem_map.mp ((sameKeys key).mp (List.mem_map_of_mem listed))
      exact ⟨counterpart, listed', each _ inner counterpart listed listed'⟩

theorem Alike.eq_of_string {text : String} (alike : (TomlValue.string text).Alike other) : other = .string text := by
  cases alike with
  | same => rfl
  | tables isTable => cases isTable

/-- A value that a setting can hold has no tables inside. -/
theorem Alike.eq_of_takes {setting : SettingKey} (alike : value.Alike other) (takes : setting.Takes value) : other = value := by
  obtain ⟨change, fills⟩ := takes
  generalize setting.slot = slot at fills
  cases alike with
  | same => rfl
  | @arrays _ others sameLength each =>
      cases fills with
      | texts get set texts =>
          refine congrArg _ (List.ext_getElem sameLength.symm fun index inOthers inTexts => ?_)
          have alike := each index _ _ (List.getElem?_eq_getElem inTexts) (List.getElem?_eq_getElem inOthers)
          rw [List.getElem_map] at alike ⊢
          exact alike.eq_of_string
  | tables isTable => cases fills <;> cases isTable

end TomlValue

namespace Settings

open SettingKey

variable {tables otherTables : List (String × TomlValue)} {value : TomlValue} {name key : String}

theorem mem_entriesOf : ((name, key), value) ∈ entriesOf tables ↔
    ∃ table entries, (name, table) ∈ tables ∧ table.entries? = some entries ∧ (key, value) ∈ entries := by
  unfold entriesOf
  rw [List.mem_flatMap]
  constructor
  · rintro ⟨⟨_, table⟩, listed, inside⟩
    obtain ⟨entry, isEntry, same⟩ := List.mem_map.mp inside
    cases isTable : table.entries? with
    | none =>
        rw [isTable] at isEntry
        cases isEntry
    | some entries =>
        rw [isTable] at isEntry
        cases same
        exact ⟨table, entries, listed, isTable, isEntry⟩
  · rintro ⟨table, entries, listed, isTable, isEntry⟩
    refine ⟨(name, table), listed, List.mem_map.mpr ⟨(key, value), ?_, rfl⟩⟩
    rw [isTable]
    exact isEntry

/-- In a file every key of every table stands once. -/
theorem nodup_places (once : (TomlValue.table tables).KeysOnce) : ((entriesOf tables).map Prod.fst).Nodup := by
  obtain ⟨namesOnce, each⟩ := once.of_entries? rfl
  unfold entriesOf
  rw [List.map_flatMap, List.nodup_flatMap]
  constructor
  · intro table listed
    rw [List.map_map]
    cases isTable : table.2.entries? with
    | none => exact List.nodup_nil
    | some entries =>
        have keysOnce := ((each table listed).of_entries? isTable).1
        exact List.pairwise_map.mpr ((List.pairwise_map.mp keysOnce).imp fun differs same => differs (Prod.mk.inj same).2)
  · refine (List.pairwise_map.mp namesOnce).imp fun differs => ?_
    intro place first second
    simp only [List.map_map, List.mem_map, Function.comp_apply] at first second
    obtain ⟨_, _, rfl⟩ := first
    obtain ⟨_, _, same⟩ := second
    exact differs (Prod.mk.inj same).1.symm

/-! ## Entries of two files -/

/-- Two files in which every key stands once hold the same entries, maybe in another order. -/
structure Reordered (tables otherTables : List (String × TomlValue)) : Prop where
  once : (TomlValue.table tables).KeysOnce
  otherOnce : (TomlValue.table otherTables).KeysOnce
  alike : (TomlValue.table tables).Alike (.table otherTables)

theorem Reordered.symm (reordered : Reordered tables otherTables) : Reordered otherTables tables :=
  ⟨reordered.otherOnce, reordered.once, reordered.alike.symm⟩

theorem Reordered.exists_entry (reordered : Reordered tables otherTables) {entry : PlacedValue}
    (listed : entry ∈ entriesOf tables) : ∃ value, (entry.1, value) ∈ entriesOf otherTables ∧ entry.2.Alike value := by
  obtain ⟨⟨name, key⟩, value⟩ := entry
  obtain ⟨table, entries, isListed, isTable, isEntry⟩ := mem_entriesOf.mp listed
  obtain ⟨_, ⟨⟩, eachTable⟩ := reordered.alike.exists_entries rfl
  obtain ⟨other, otherListed, alikeTable⟩ := eachTable name table isListed
  obtain ⟨others, isOther, eachEntry⟩ := alikeTable.exists_entries isTable
  obtain ⟨counterpart, counterpartListed, alikeValue⟩ := eachEntry key value isEntry
  exact ⟨counterpart, mem_entriesOf.mpr ⟨other, others, otherListed, isOther, counterpartListed⟩, alikeValue⟩

theorem Reordered.fitsAll (reordered : Reordered tables otherTables) (fits : FitsAll tables) : FitsAll otherTables where
  areTables := by
    rintro ⟨name, other⟩ otherListed
    obtain ⟨_, ⟨⟩, eachTable⟩ := reordered.alike.symm.exists_entries rfl
    obtain ⟨table, listed, alikeTable⟩ := eachTable name other otherListed
    obtain ⟨entries, isTable⟩ := Option.isSome_iff_exists.mp (fits.areTables _ listed)
    obtain ⟨others, isOther, -⟩ := alikeTable.symm.exists_entries isTable
    exact Option.isSome_iff_exists.mpr ⟨others, isOther⟩
  fit := by
    intro entry otherListed setting changed
    obtain ⟨value, listed, alikeValue⟩ := reordered.symm.exists_entry otherListed
    have takes := fits.fit _ listed setting changed
    rwa [alikeValue.symm.eq_of_takes takes]

def entriesFor (setting : SettingKey) (tables : List (String × TomlValue)) : List PlacedValue :=
  (entriesOf tables).filter fun entry => (changed? entry.1).any fun changed => changed.name = setting.name

variable {setting : SettingKey}

theorem foldl_entriesFor (tables : List (String × TomlValue)) (held : Option TomlValue) :
    (entriesOf tables).foldl setting.follow held = (entriesFor setting tables).foldl setting.follow held := by
  unfold entriesFor
  rw [List.foldl_filter]
  congr
  funext held entry
  unfold SettingKey.follow changed?
  cases find? entry.1.1 entry.1.2 with
  | some other => by_cases same : other.name = setting.name <;> simp [same]
  | none =>
      cases addition? entry.1.1 entry.1.2 with
      | some other => by_cases same : other.name = setting.name <;> simp [same]
      | none => simp

theorem Reordered.mem_entriesFor (reordered : Reordered tables otherTables) (fits : FitsAll tables) {entry : PlacedValue}
    (listed : entry ∈ entriesFor setting tables) : entry ∈ entriesFor setting otherTables := by
  obtain ⟨isListed, concerns⟩ := List.mem_filter.mp listed
  obtain ⟨changed, isChanged, -⟩ := (Option.any_eq_true _ _).mp concerns
  obtain ⟨value, otherListed, alikeValue⟩ := reordered.exists_entry isListed
  rw [alikeValue.eq_of_takes (fits.fit entry isListed changed isChanged)] at otherListed
  exact List.mem_filter.mpr ⟨otherListed, concerns⟩

theorem nodup_places_entriesFor (once : (TomlValue.table tables).KeysOnce) : ((entriesFor setting tables).map Prod.fst).Nodup :=
  (nodup_places once).sublist (List.filter_sublist.map _)

theorem Reordered.perm (reordered : Reordered tables otherTables) (fits : FitsAll tables) (setting : SettingKey) :
    (entriesFor setting tables).Perm (entriesFor setting otherTables) := by
  have nodup : (entriesFor setting tables).Nodup := .of_map _ (nodup_places_entriesFor reordered.once)
  have otherNodup : (entriesFor setting otherTables).Nodup := .of_map _ (nodup_places_entriesFor reordered.otherOnce)
  refine (List.perm_ext_iff_of_nodup nodup otherNodup).mpr fun entry => ⟨?_, ?_⟩
  · exact reordered.mem_entriesFor fits
  · exact reordered.symm.mem_entriesFor (reordered.fitsAll fits)

/-! ## Settings that are only replaced -/

theorem place_of_entriesFor {entry : PlacedValue} (listed : setting ∈ all) (isEntry : entry ∈ entriesFor setting tables) :
    entry.1 = setting.place ∨ ∃ addition ∈ additions, addition.2.2.name = setting.name ∧ entry.1 = placeOf addition := by
  obtain ⟨-, concerns⟩ := List.mem_filter.mp isEntry
  obtain ⟨changed, isChanged, same⟩ := (Option.any_eq_true _ _).mp concerns
  rw [decide_eq_true_eq] at same
  unfold changed? at isChanged
  cases found : find? entry.1.1 entry.1.2 with
  | some other =>
      rw [found] at isChanged
      obtain rfl := Option.some.inj isChanged
      obtain rfl := eq_of_name listed (mem_all_of_find? found) same
      have isPlace := List.find?_some found
      simp only [Bool.and_eq_true, decide_eq_true_eq] at isPlace
      exact Or.inl (Prod.ext isPlace.1.symm isPlace.2.symm)
  | none =>
      rw [found] at isChanged
      exact Or.inr ⟨_, exists_mem_of_addition? isChanged, same, rfl⟩

theorem eq_or_swapped_of_perm {α : Type} {first second : α} {others : List α} (perm : [first, second].Perm others) :
    others = [first, second] ∨ others = [second, first] := by
  obtain ⟨third, fourth, rfl⟩ := List.length_eq_two.mp perm.length_eq.symm
  rcases List.mem_pair.mp (perm.mem_iff.mpr List.mem_cons_self) with rfl | rfl
  · rw [List.singleton_perm.mp ((List.perm_cons _).mp perm)]
    exact Or.inl rfl
  · rw [← List.singleton_perm.mp ((List.perm_cons _).mp ((List.Perm.swap first third []).trans perm))]
    exact Or.inr rfl

/-- Entries at two places that are the same but for order are the same list or two entries that are swapped. -/
theorem same_or_swapped {entries others : List PlacedValue} {own extra : String × String} (perm : entries.Perm others)
    (once : (entries.map Prod.fst).Nodup) (inPlaces : ∀ entry ∈ entries, entry.1 = own ∨ entry.1 = extra) :
    entries = others ∨ own ≠ extra ∧ ∃ ownValue extraValue,
      (entries = [(own, ownValue), (extra, extraValue)] ∧ others = [(extra, extraValue), (own, ownValue)]) ∨
      (others = [(own, ownValue), (extra, extraValue)] ∧ entries = [(extra, extraValue), (own, ownValue)]) := by
  cases entries with
  | nil => exact Or.inl (List.nil_perm.mp perm).symm
  | cons first entries =>
      cases entries with
      | nil => exact Or.inl (List.singleton_perm.mp perm)
      | cons second entries =>
          cases entries with
          | nil =>
              rcases eq_or_swapped_of_perm perm with rfl | rfl
              · exact Or.inl rfl
              · have differs : first.1 ≠ second.1 := by simpa using once
                obtain ⟨firstPlace, firstValue⟩ := first
                obtain ⟨secondPlace, secondValue⟩ := second
                rcases inPlaces _ List.mem_cons_self with rfl | rfl
                · obtain rfl := (inPlaces _ (List.mem_cons_of_mem _ List.mem_cons_self)).resolve_left differs.symm
                  exact Or.inr ⟨differs, firstValue, secondValue, .inl ⟨rfl, rfl⟩⟩
                · obtain rfl := (inPlaces _ (List.mem_cons_of_mem _ List.mem_cons_self)).resolve_right differs.symm
                  exact Or.inr ⟨differs.symm, secondValue, firstValue, .inr ⟨rfl, rfl⟩⟩
          | cons third entries =>
              -- of three entries two stand at the same place
              exfalso
              simp only [List.map_cons, List.nodup_cons, List.mem_cons, not_or] at once
              rw [List.forall_mem_cons, List.forall_mem_cons, List.forall_mem_cons] at inPlaces
              obtain ⟨isFirst, isSecond, isThird, -⟩ := inPlaces
              obtain ⟨⟨firstSecond, firstThird, -⟩, ⟨secondThird, -⟩, -⟩ := once
              rcases isFirst with rfl | rfl
              · have isExtra := isSecond.resolve_left (Ne.symm firstSecond)
                exact secondThird (isExtra.trans (isThird.resolve_left (Ne.symm firstThird)).symm)
              · have isOwn := isSecond.resolve_right (Ne.symm firstSecond)
                exact secondThird (isOwn.trans (isThird.resolve_right (Ne.symm firstThird)).symm)

/-- A setting that nothing can be added to has the same value after both files. -/
theorem Reordered.foldl_follow_of_plain (reordered : Reordered tables otherTables) (fits : FitsAll tables)
    (listed : setting ∈ all) (plain : ∀ addition ∈ additions, addition.2.2.name ≠ setting.name) (held : Option TomlValue) :
    (entriesOf tables).foldl setting.follow held = (entriesOf otherTables).foldl setting.follow held := by
  have inPlaces : ∀ entry ∈ entriesFor setting tables, entry.1 = setting.place ∨ entry.1 = setting.place := by
    intro entry isEntry
    rcases place_of_entriesFor listed isEntry with isOwn | ⟨addition, isAddition, same, -⟩
    · exact Or.inl isOwn
    · exact absurd same (plain addition isAddition)
  rw [foldl_entriesFor tables, foldl_entriesFor otherTables]
  rcases same_or_swapped (reordered.perm fits setting) (nodup_places_entriesFor reordered.once) inPlaces with same | ⟨differs, -⟩
  · rw [same]
  · exact absurd rfl differs

/-! ## Settings that are added to -/

/-- The entry that replaces a list stands before the one that adds to it. -/
def ListFirst (addition : String × String × SettingKey) (tables : List (String × TomlValue)) : Prop :=
  [addition.2.2.place, placeOf addition].Sublist ((entriesOf tables).map Prod.fst)

/-- What is to be added to a list stands in it anyway. -/
def AddsNothing (addition : String × String × SettingKey) (tables : List (String × TomlValue)) : Prop :=
  ∀ texts more : List String, (addition.2.2.place, TomlValue.array (texts.map .string)) ∈ entriesOf tables →
    (placeOf addition, TomlValue.array (more.map .string)) ∈ entriesOf tables → ∀ text ∈ more, text ∈ texts

variable {addition : String × String × SettingKey} {texts more : List String} {held : Option TomlValue}

theorem changed?_place (isAddition : addition ∈ additions) :
    changed? addition.2.2.place = some addition.2.2 ∧ changed? (placeOf addition) = some addition.2.2 := by
  revert addition
  simp only [additions, List.forall_mem_cons, List.not_mem_nil, false_imp_iff, implies_true, and_true]
  exact ⟨⟨rfl, rfl⟩, rfl, rfl⟩

theorem follow_place (isAddition : addition ∈ additions) (held : Option TomlValue) (value : TomlValue) :
    addition.2.2.follow held (addition.2.2.place, value) = some value ∧
      addition.2.2.follow held (placeOf addition, value) = added held value := by
  revert addition
  simp only [additions, List.forall_mem_cons, List.not_mem_nil, false_imp_iff, implies_true, and_true]
  exact ⟨⟨rfl, rfl⟩, rfl, rfl⟩

theorem place_of_entriesFor_addition (isAddition : addition ∈ additions) {entry : PlacedValue}
    (isEntry : entry ∈ entriesFor addition.2.2 tables) : entry.1 = addition.2.2.place ∨ entry.1 = placeOf addition := by
  refine (place_of_entriesFor (mem_all_of_addition _ isAddition) isEntry).imp_right ?_
  rintro ⟨other, isOther, sameName, isPlace⟩
  have once : (additions.map fun addition => addition.2.2.name).Nodup := by decide
  rwa [List.inj_on_of_nodup_map once isOther isAddition sameName] at isPlace

theorem listFirst_iff (isAddition : addition ∈ additions) :
    ListFirst addition tables ↔ [addition.2.2.place, placeOf addition].Sublist ((entriesFor addition.2.2 tables).map Prod.fst) := by
  refine ⟨fun first => ?_, fun first => first.trans (List.filter_sublist.map _)⟩
  have kept := List.Sublist.filter (fun place => (changed? place).any fun changed => changed.name = addition.2.2.name) first
  rw [List.filter_cons_of_pos, List.filter_cons_of_pos, List.filter_nil, List.filter_map] at kept
  · exact kept
  · rw [(changed?_place isAddition).2]
    exact decide_eq_true rfl
  · rw [(changed?_place isAddition).1]
    exact decide_eq_true rfl

theorem exists_texts_of_fits (isAddition : addition ∈ additions) {entry : PlacedValue} (fits : Fits entry)
    (changes : changed? entry.1 = some addition.2.2) : ∃ texts : List String, entry.2 = .array (texts.map .string) := by
  obtain ⟨change, fills⟩ := fits _ changes
  obtain ⟨get, set, isList⟩ := isList_of_addition _ isAddition
  rw [isList] at fills
  generalize entry.2 = value at fills ⊢
  cases fills with
  | texts _ _ texts => exact ⟨texts, rfl⟩

theorem foldl_follow_listFirst (isAddition : addition ∈ additions) :
    [(addition.2.2.place, TomlValue.array (texts.map .string)), (placeOf addition, .array (more.map .string))].foldl
      addition.2.2.follow held = some (.array ((texts ++ more.filter fun text => !texts.contains text).map .string)) := by
  rw [List.foldl_cons, List.foldl_cons, List.foldl_nil, (follow_place isAddition _ _).1, (follow_place isAddition _ _).2, added]
  simp only [Option.bind_some, texts?_eq_some_iff.mpr rfl, Option.bind_eq_bind]
  rfl

/-- What is to be added before the list is replaced is lost. -/
theorem foldl_follow_listLast (isAddition : addition ∈ additions) :
    [(placeOf addition, TomlValue.array (more.map .string)), (addition.2.2.place, .array (texts.map .string))].foldl
      addition.2.2.follow held = some (.array (texts.map .string)) := by
  rw [List.foldl_cons, List.foldl_cons, List.foldl_nil, (follow_place isAddition _ _).1]

theorem append_filter_eq_self_iff : some (TomlValue.array ((texts ++ more.filter fun text => !texts.contains text).map .string)) =
    some (.array (texts.map .string)) ↔ ∀ text ∈ more, text ∈ texts := by
  rw [Option.some.injEq, TomlValue.array.injEq, List.map_inj_right fun _ _ => TomlValue.string.inj]
  simp [List.filter_eq_nil_iff]

theorem addsNothing_iff (once : (TomlValue.table tables).KeysOnce)
    (listListed : (addition.2.2.place, TomlValue.array (texts.map .string)) ∈ entriesOf tables)
    (addedListed : (placeOf addition, TomlValue.array (more.map .string)) ∈ entriesOf tables) :
    AddsNothing addition tables ↔ ∀ text ∈ more, text ∈ texts := by
  refine ⟨fun nothing => nothing texts more listListed addedListed, fun each otherTexts otherMore listListed' addedListed' => ?_⟩
  have injective : Function.Injective fun texts : List String => TomlValue.array (texts.map .string) := by
    intro first second same
    exact (List.map_inj_right fun _ _ => TomlValue.string.inj).mp (TomlValue.array.inj same)
  have sameList := List.inj_on_of_nodup_map (nodup_places once) listListed listListed' rfl
  have sameAdded := List.inj_on_of_nodup_map (nodup_places once) addedListed addedListed' rfl
  obtain rfl := injective (Prod.mk.inj sameList).2
  obtain rfl := injective (Prod.mk.inj sameAdded).2
  exact each

/-- A list that is added to has the same value after both files if the two entries stand in the same order, or the order does
not matter. -/
theorem Reordered.foldl_follow_eq_iff_of_addition (reordered : Reordered tables otherTables) (fits : FitsAll tables)
    (isAddition : addition ∈ additions) (held : Option TomlValue) :
    (entriesOf tables).foldl addition.2.2.follow held = (entriesOf otherTables).foldl addition.2.2.follow held ↔
      (ListFirst addition tables ↔ ListFirst addition otherTables) ∨ AddsNothing addition tables := by
  rw [foldl_entriesFor tables, foldl_entriesFor otherTables, listFirst_iff isAddition, listFirst_iff isAddition]
  rcases same_or_swapped (reordered.perm fits addition.2.2) (nodup_places_entriesFor reordered.once)
    (fun _ => place_of_entriesFor_addition isAddition) with same | ⟨differs, list, added, swapped⟩
  · rw [same]
    simp
  · have both : ∀ entry ∈ [(addition.2.2.place, list), (placeOf addition, added)], entry ∈ entriesOf tables := by
      intro entry listed
      refine List.mem_of_mem_filter (?_ : entry ∈ entriesFor addition.2.2 tables)
      rcases swapped with ⟨isTables, -⟩ | ⟨-, isTables⟩
      · rwa [isTables]
      · exact isTables ▸ (List.Perm.swap _ _ []).mem_iff.mp listed
    have listListed := both _ List.mem_cons_self
    have addedListed := both _ (List.mem_cons_of_mem _ List.mem_cons_self)
    obtain ⟨texts, rfl⟩ := exists_texts_of_fits isAddition (fits.fit _ listListed) (changed?_place isAddition).1
    obtain ⟨more, rfl⟩ := exists_texts_of_fits isAddition (fits.fit _ addedListed) (changed?_place isAddition).2
    have notFirst : ¬[addition.2.2.place, placeOf addition].Sublist [placeOf addition, addition.2.2.place] := by
      intro first
      exact differs (List.cons.inj (first.eq_of_length rfl)).1
    rw [addsNothing_iff reordered.once listListed addedListed]
    rcases swapped with ⟨isTables, isOther⟩ | ⟨isOther, isTables⟩
    · rw [isTables, isOther, foldl_follow_listFirst isAddition, foldl_follow_listLast isAddition, append_filter_eq_self_iff]
      simp [notFirst]
    · rw [isTables, isOther, foldl_follow_listFirst isAddition, foldl_follow_listLast isAddition, eq_comm,
        append_filter_eq_self_iff]
      simp [notFirst]

/-! ## Files -/

variable {tree otherTree : Tree} {path otherPath : Path} {settings result otherResult : Settings}
  {reader : List Char → Except TomlError (List (String × TomlValue))}

/-- Tables are read with each key at most once in each. -/
def ReadsKeysOnce (reader : List Char → Except TomlError (List (String × TomlValue))) : Prop :=
  ∀ text tables, reader text = .ok tables → (TomlValue.table tables).KeysOnce

def readTables (tree : Tree) (path : Path)
    (reader : List Char → Except TomlError (List (String × TomlValue)) := Toml.readDocument) :
    Except SettingsError (List (String × TomlValue)) :=
  match (tree.locate path).bind tree.read with
  | .error _ => .error (.unreadable path.toString)
  | .ok content =>
    match readText content with
    | .error error => .error (.notText error)
    | .ok text => (reader text).mapError (.ofToml path.toString)

theorem applyFile_eq (tree : Tree) (settings : Settings) (path : Path) :
    applyFile tree settings path reader = readTables tree path reader >>= applyTables path.toString settings := by
  unfold applyFile readTables
  cases (tree.locate path).bind tree.read with
  | error fault => rfl
  | ok content =>
      cases textRead : readText content with
      | error error => simp only [textRead, bind, Except.bind]
      | ok text =>
          cases documentRead : reader text <;> simp only [textRead, documentRead, bind, Except.bind, Except.mapError]

theorem applyFile_of_readTables (isRead : readTables tree path reader = .ok tables) (settings : Settings) :
    applyFile tree settings path reader = applyTables path.toString settings tables := by
  rw [applyFile_eq, isRead]
  rfl

theorem keysOnce_of_readTables (once : ReadsKeysOnce reader) (isRead : readTables tree path reader = .ok tables) :
    (TomlValue.table tables).KeysOnce := by
  unfold readTables at isRead
  split at isRead
  · cases isRead
  split at isRead
  · cases isRead
  · rename_i text _
    cases documentRead : reader text with
    | error error =>
        rw [documentRead] at isRead
        cases isRead
    | ok read =>
        rw [documentRead] at isRead
        exact Except.ok.inj isRead ▸ once text read documentRead

/-- Two files with the same entries in another order are both taken up or both refused. They come to the same settings but for the
lists that can be added to, and to the same settings altogether unless a list and what is to be added to it stand in another
order and something is to be added. -/
theorem applyFile_of_alike (once : ReadsKeysOnce reader) (isRead : readTables tree path reader = .ok tables)
    (otherIsRead : readTables otherTree otherPath reader = .ok otherTables)
    (alike : (TomlValue.table tables).Alike (.table otherTables)) (settings : Settings) :
    ((∃ result, applyFile tree settings path reader = .ok result) ↔
        ∃ result, applyFile otherTree settings otherPath reader = .ok result) ∧
      ∀ result otherResult, applyFile tree settings path reader = .ok result →
        applyFile otherTree settings otherPath reader = .ok otherResult →
        (∀ setting ∈ all, (∀ addition ∈ additions, addition.2.2.name ≠ setting.name) →
          setting.value? result = setting.value? otherResult) ∧
        (result = otherResult ↔ ∀ addition ∈ additions,
          (ListFirst addition tables ↔ ListFirst addition otherTables) ∨ AddsNothing addition tables) := by
  have reordered : Reordered tables otherTables :=
    ⟨keysOnce_of_readTables once isRead, keysOnce_of_readTables once otherIsRead, alike⟩
  rw [applyFile_of_readTables isRead, applyFile_of_readTables otherIsRead, exists_applyTables_iff, exists_applyTables_iff]
  refine ⟨⟨reordered.fitsAll, reordered.symm.fitsAll⟩, fun result otherResult run otherRun => ?_⟩
  have fits := exists_applyTables_iff.mp ⟨result, run⟩
  have plain : ∀ setting ∈ all, (∀ addition ∈ additions, addition.2.2.name ≠ setting.name) →
      setting.value? result = setting.value? otherResult := by
    intro setting listed isPlain
    rw [value?_applyTables listed run, value?_applyTables listed otherRun]
    exact reordered.foldl_follow_of_plain fits listed isPlain _
  have lists : ∀ addition ∈ additions, addition.2.2.value? result = addition.2.2.value? otherResult ↔
      (ListFirst addition tables ↔ ListFirst addition otherTables) ∨ AddsNothing addition tables := by
    intro addition isAddition
    have listed := mem_all_of_addition addition isAddition
    rw [value?_applyTables listed run, value?_applyTables listed otherRun]
    exact reordered.foldl_follow_eq_iff_of_addition fits isAddition _
  refine ⟨plain, fun same addition isAddition => ?_, fun each => eq_of_value? fun setting listed => ?_⟩
  · exact (lists addition isAddition).mp (same ▸ rfl)
  · by_cases isPlain : ∀ addition ∈ additions, addition.2.2.name ≠ setting.name
    · exact plain setting listed isPlain
    · push Not at isPlain
      obtain ⟨addition, isAddition, sameName⟩ := isPlain
      obtain rfl := eq_of_name listed (mem_all_of_addition addition isAddition) sameName
      exact (lists addition isAddition).mpr (each addition isAddition)

/-! ### A list that is added to before it is replaced -/

def configured (text : String) : Tree :=
  ⟨[(["sweepgraph.toml"], .file (Text.encode text.toList))]⟩

def configuredPath : Path :=
  ⟨"/", ["sweepgraph.toml"]⟩

/-- A list of entry points and one to be added, in this order. -/
def addedAfter : List (String × TomlValue) :=
  [("roots", .table [("entry_points", .array [.string "main"]), ("extra_entry_points", .array [.string "x"])])]

/-- The same with the one to be added before the list. -/
def addedBefore : List (String × TomlValue) :=
  [("roots", .table [("extra_entry_points", .array [.string "x"]), ("entry_points", .array [.string "main"])])]

def addedAfterText : String :=
  "[roots]\nentry_points = [\"main\"]\nextra_entry_points = [\"x\"]\n"

def addedBeforeText : String :=
  "[roots]\nextra_entry_points = [\"x\"]\nentry_points = [\"main\"]\n"

theorem readTables_addedAfter : readTables (configured addedAfterText) configuredPath = .ok addedAfter := by
  rfl

theorem readTables_addedBefore : readTables (configured addedBeforeText) configuredPath = .ok addedBefore := by
  rfl

theorem alike_addedBefore : (TomlValue.table addedAfter).Alike (.table addedBefore) := by
  refine .tables rfl rfl (fun _ => Iff.rfl) ?_
  simp only [addedAfter, addedBefore, List.mem_singleton, Prod.mk.injEq]
  rintro _ _ _ ⟨rfl, rfl⟩ ⟨-, rfl⟩
  refine .tables rfl rfl (by simp [or_comm]) ?_
  simp only [List.mem_cons, Prod.mk.injEq, List.not_mem_nil, or_false]
  rintro key _ _ (⟨rfl, rfl⟩ | ⟨rfl, rfl⟩) (⟨differs, rfl⟩ | ⟨differs, rfl⟩)
  · exact absurd differs (by decide)
  · exact .same _
  · exact .same _
  · exact absurd differs (by decide)

theorem applyFile_addedAfter :
    applyFile (configured addedAfterText) {} configuredPath = .ok { entryPoints := ["main", "x"] } := by
  rw [applyFile_of_readTables readTables_addedAfter]
  rfl

theorem applyFile_addedBefore :
    applyFile (configured addedBeforeText) {} configuredPath = .ok { entryPoints := ["main"] } := by
  rw [applyFile_of_readTables readTables_addedBefore]
  rfl

/-- The entry point that is added is lost if it stands before the list, and that is because of the order. -/
theorem applyFile_of_addedBefore_differs :
    ReadsKeysOnce Toml.readDocument ∧
      readTables (configured addedAfterText) configuredPath = .ok addedAfter ∧
      readTables (configured addedBeforeText) configuredPath = .ok addedBefore ∧
      (TomlValue.table addedAfter).Alike (.table addedBefore) ∧
      ¬∀ addition ∈ additions,
        (ListFirst addition addedAfter ↔ ListFirst addition addedBefore) ∨ AddsNothing addition addedAfter := by
  refine ⟨Toml.keysOnce_readDocument, readTables_addedAfter, readTables_addedBefore, alike_addedBefore, fun orderly => ?_⟩
  have agree := (applyFile_of_alike Toml.keysOnce_readDocument readTables_addedAfter readTables_addedBefore alike_addedBefore {}).2
  have same := (agree _ _ applyFile_addedAfter applyFile_addedBefore).2.mpr orderly
  exact absurd same (by decide)

/-- Two files with the same entries in another order come to other settings. -/
theorem extra_entry_point_is_lost :
    (TomlValue.table addedAfter).Alike (.table addedBefore) ∧
      readTables (configured addedAfterText) configuredPath = .ok addedAfter ∧
      readTables (configured addedBeforeText) configuredPath = .ok addedBefore ∧
      applyFile (configured addedAfterText) {} configuredPath = .ok { entryPoints := ["main", "x"] } ∧
      applyFile (configured addedBeforeText) {} configuredPath = .ok { entryPoints := ["main"] } :=
  ⟨alike_addedBefore, readTables_addedAfter, readTables_addedBefore, applyFile_addedAfter, applyFile_addedBefore⟩

end Settings
end Deadwood
