import Deadwood.Proofs.KeyedEntries
import Deadwood.Proofs.Partition
import Deadwood.Toml.Document

/-!
# Keys of configuration documents

In what is read of a configuration file every key of every table stands once, in the tables inside of arrays and of other tables
too: entries are put in place of one with the same key, and headers only make tables that are missing.
-/

set_option autoImplicit false
namespace Deadwood

open TomlValue

namespace TomlValue

/-- Every key of every table stands once, at every depth. -/
inductive KeysOnce : TomlValue → Prop
  | bare {value : TomlValue} (isBare : value.sort < 6) : KeysOnce value
  | array {items : List TomlValue} (each : ∀ item ∈ items, KeysOnce item) : KeysOnce (array items)
  | table {entries : List (String × TomlValue)} (once : (entries.map Prod.fst).Nodup)
      (each : ∀ entry ∈ entries, KeysOnce entry.2) : KeysOnce (table entries)
  | inlineTable {entries : List (String × TomlValue)} (once : (entries.map Prod.fst).Nodup)
      (each : ∀ entry ∈ entries, KeysOnce entry.2) : KeysOnce (inlineTable entries)

variable {value inner entered : TomlValue} {entries : List (String × TomlValue)} {name : String}

theorem entries?_eq_some_iff : value.entries? = some entries ↔ value = table entries ∨ value = inlineTable entries := by
  cases value <;> simp [entries?]

theorem keysOnce_empty : (table []).KeysOnce :=
  .table List.nodup_nil (List.forall_mem_nil _)

theorem KeysOnce.item {items : List TomlValue} (once : (TomlValue.array items).KeysOnce) : ∀ item ∈ items, item.KeysOnce := by
  cases once with
  | bare isBare => exact absurd isBare (by simp [sort])
  | array each => exact each

theorem KeysOnce.of_entries? (once : value.KeysOnce) (isTable : value.entries? = some entries) :
    (entries.map Prod.fst).Nodup ∧ ∀ entry ∈ entries, entry.2.KeysOnce := by
  rcases entries?_eq_some_iff.mp isTable with rfl | rfl
  · cases once with
    | bare isBare => exact absurd isBare (by simp [sort])
    | table once each => exact ⟨once, each⟩
  · cases once with
    | bare isBare => exact absurd isBare (by simp [sort])
    | inlineTable once each => exact ⟨once, each⟩

theorem KeysOnce.lookup (once : value.KeysOnce) (isTable : value.entries? = some entries)
    (found : entries.lookup name = some inner) : inner.KeysOnce :=
  (once.of_entries? isTable).2 _ (Keyed.mem_of_lookup found)

theorem keysOnce_insert (once : value.KeysOnce) (enteredOnce : entered.KeysOnce) : (insert name entered value).KeysOnce := by
  have put : ∀ entries, value.entries? = some entries →
      ((putEntry name entered entries).map Prod.fst).Nodup ∧ ∀ entry ∈ putEntry name entered entries, entry.2.KeysOnce := by
    intro entries isTable
    rw [putEntry_eq_put]
    refine ⟨Keyed.nodup_map_key_put (once.of_entries? isTable).1, fun entry listed => ?_⟩
    rcases Keyed.mem_put listed with rfl | old
    · exact enteredOnce
    · exact (once.of_entries? isTable).2 entry old
  unfold insert
  split
  · exact .table (put _ rfl).1 (put _ rfl).2
  · exact .inlineTable (put _ rfl).1 (put _ rfl).2
  · exact once

theorem keysOnce_change {f : TomlValue → TomlValue} (keeps : ∀ inner, inner.KeysOnce → (f inner).KeysOnce) (steps : List Step)
    (once : value.KeysOnce) : (change f steps value).KeysOnce := by
  induction steps, value using change.induct with
  | case1 value => exact keeps value once
  | case2 name rest entries inner found ih =>
      rw [change, found]
      exact keysOnce_insert once (ih (once.lookup rfl found))
  | case3 name rest entries missing =>
      rw [change, missing]
      exact once
  | case4 name rest entries inner found ih =>
      rw [change, found]
      exact keysOnce_insert once (ih (once.lookup rfl found))
  | case5 name rest entries missing =>
      rw [change, missing]
      exact once
  | case6 rest items inner isLast ih =>
      rw [change, isLast]
      refine .array fun item listed => ?_
      rcases List.mem_append.mp listed with old | new
      · exact once.item item (List.dropLast_subset items old)
      · rw [List.mem_singleton.mp new]
        exact ih (once.item inner (List.mem_of_getLast? isLast))
  | case7 rest items isEmpty =>
      rw [change, isEmpty]
      exact once
  | case8 => rwa [change] <;> assumption

theorem KeysOnce.at? {steps : List Step} (once : value.KeysOnce) (found : value.at? steps = some inner) : inner.KeysOnce := by
  induction steps generalizing value with
  | nil => exact Option.some.inj found ▸ once
  | cons step rest ih =>
      cases step with
      | key name =>
          obtain ⟨middle, isMiddle, found⟩ := Option.bind_eq_some_iff.mp found
          obtain ⟨entries, isTable, isEntry⟩ := Option.bind_eq_some_iff.mp isMiddle
          exact ih (once.lookup isTable isEntry) found
      | last =>
          cases value with
          | array items =>
              obtain ⟨middle, isLast, found⟩ := Option.bind_eq_some_iff.mp found
              exact ih (once.item middle (List.mem_of_getLast? isLast)) found
          | _ => cases found

end TomlValue

namespace Toml

def Yields {α : Type} (result : Except TomlError α) (good : α → Prop) : Prop :=
  ∀ value, result = .ok value → good value

section Yields

variable {α β : Type} {result : Except TomlError α} {good : α → Prop} {better : β → Prop}

theorem yields_ok {value : α} (isGood : good value) : Yields (.ok value) good := by
  rintro _ ⟨⟩
  exact isGood

theorem yields_error (error : TomlError) : Yields (.error error) good := by
  rintro _ ⟨⟩

theorem yields_any : Yields result fun _ => True :=
  fun _ _ => trivial

theorem Yields.bind {next : α → Except TomlError β} (first : Yields result good)
    (second : ∀ value, good value → Yields (next value) better) : Yields (result >>= next) better := by
  intro value run
  obtain ⟨middle, firstRun, secondRun⟩ := bind_eq_ok_iff.mp run
  exact second middle (first middle firstRun) value secondRun

theorem yields_ite {condition : Prop} [Decidable condition] {other : Except TomlError α} (holds : Yields result good)
    (fails : Yields other good) : Yields (if condition then result else other) good := by
  split
  · exact holds
  · exact fails

end Yields

theorem keysOnce_descend {value : TomlValue} (once : value.KeysOnce) (names : List String) :
    Yields (descend names value) KeysOnce := by
  induction names generalizing value with
  | nil => exact yields_ok once
  | cons name rest ih =>
      unfold descend
      split
      case h_1 => exact yields_error _
      case h_2 entries isTable =>
        have startOnce : ((entries.lookup name).getD (table [])).KeysOnce := by
          cases found : entries.lookup name with
          | none => exact keysOnce_empty
          | some inner => exact once.lookup isTable found
        exact (ih startOnce).bind fun inner innerOnce => yields_ok (keysOnce_insert once innerOnce)

/-! ## Values -/

theorem keysOnce_readScalar (plain : Bool) (text : List Char) : Yields (readScalar plain text) KeysOnce := by
  unfold readScalar
  dsimp only
  repeat' split
  all_goals first | exact yields_error _ | exact yields_ok (KeysOnce.bare (by simp [sort]))

theorem keysOnce_readString (quote : Char) (text : List Char) : Yields (readString quote text) KeysOnce := by
  have string (text : String) : (TomlValue.string text).KeysOnce := .bare (by simp [sort])
  unfold readString
  refine yields_ite (yields_error _) (yields_ite ?_ (yields_ok (string _)))
  exact yields_any.bind fun _ _ => yields_any.bind fun _ _ => yields_any.bind fun _ _ => yields_ok (string _)

section Reading

variable {read : ValueReader} {target : TomlValue} (reads : ∀ plain text, Yields (read plain text) KeysOnce)

include reads

theorem keysOnce_readItems (sort : Option Nat) (texts : List (List Char)) :
    Yields (readItems read sort texts) fun items => ∀ item ∈ items, item.KeysOnce := by
  induction texts generalizing sort with
  | nil => exact yields_ok (List.forall_mem_nil _)
  | cons text rest ih =>
      unfold readItems
      split
      · exact ih sort
      · refine (reads true _).bind fun value valueOnce => ?_
        split
        · exact yields_error _
        · exact (ih _).bind fun items itemsOnce => yields_ok (List.forall_mem_cons.mpr ⟨valueOnce, itemsOnce⟩)

theorem keysOnce_readArray (text : List Char) : Yields (readArray read text) KeysOnce :=
  yields_any.bind fun _ _ => (keysOnce_readItems reads none _).bind fun _ itemsOnce => yields_ok (.array itemsOnce)

theorem keysOnce_enter (line : List Char) (once : target.KeysOnce) :
    Yields (enter read line target) fun entered => entered.1.KeysOnce := by
  unfold enter
  refine yields_any.bind fun split _ => yields_any.bind fun names _ => ?_
  refine (keysOnce_descend once _).bind fun opened openedOnce => yields_any.bind fun isOpen _ => ?_
  dsimp only
  split
  · split
    · exact yields_error _
    · exact yields_ok openedOnce
  · refine (reads _ _).bind fun value valueOnce => ?_
    split
    · exact yields_error _
    · exact yields_ok (keysOnce_change (fun inner innerOnce => keysOnce_insert innerOnce valueOnce) _ openedOnce)

theorem keysOnce_enterAll (lines : List (List Char)) (once : target.KeysOnce) :
    Yields (enterAll read target lines) KeysOnce := by
  induction lines generalizing target with
  | nil => exact yields_ok once
  | cons line rest ih =>
      unfold enterAll
      refine (keysOnce_enter reads line once).bind fun entered enteredOnce => ?_
      split
      · exact ih enteredOnce
      · exact yields_ok enteredOnce

theorem keysOnce_enterInline (text : List Char) (once : target.KeysOnce) :
    Yields (enterInline read text target) KeysOnce := by
  unfold enterInline
  dsimp only
  split
  · exact yields_ok once
  · exact yields_any.bind fun lines _ => keysOnce_enterAll reads lines once

end Reading

theorem keysOnce_readWithin (limit : Nat) : ∀ plain text, Yields (readWithin limit plain text) KeysOnce := by
  induction limit with
  | zero => exact fun _ _ => yields_error _
  | succ limit reads =>
      intro plain text
      have empty : (inlineTable []).KeysOnce := .inlineTable List.nodup_nil (List.forall_mem_nil _)
      have boolean (value : Bool) : (TomlValue.boolean value).KeysOnce := .bare (by simp [sort])
      unfold readWithin
      split
      · exact yields_error _
      split
      · exact yields_ok (boolean _)
      split
      · exact yields_ok (boolean _)
      split
      · exact keysOnce_readString _ _
      split
      · exact keysOnce_readArray reads _
      split
      · exact keysOnce_enterInline reads _ empty
      · exact keysOnce_readScalar _ _

theorem keysOnce_readValue (plain : Bool) (text : List Char) : Yields (readValue plain text) KeysOnce :=
  keysOnce_readWithin _ plain text

/-! ## Documents -/

section Documents

variable {document : Document}

theorem keysOnce_stepInto (once : document.values.KeysOnce) (isArray isLast : Bool) (name : String) (level : List Step) :
    Yields (stepInto isArray isLast name document level) fun stepped => stepped.1.values.KeysOnce := by
  have freshOnce : (if isLast && isArray then TomlValue.array [table []] else table []).KeysOnce := by
    split
    · exact .array (List.forall_mem_singleton.mpr keysOnce_empty)
    · exact keysOnce_empty
  have inserted {value : TomlValue} (valueOnce : value.KeysOnce) (level : List Step) :
      (document.values.change (insert name value) level).KeysOnce :=
    keysOnce_change (fun inner innerOnce => keysOnce_insert innerOnce valueOnce) level once
  unfold stepInto
  dsimp only
  split
  · exact yields_error _
  split
  · split
    · exact yields_error _
    split
    · exact yields_error _
    · refine yields_ok ?_
      dsimp only
      split
      · exact once
      · exact inserted freshOnce _
  · exact yields_error _
  · rename_i value _ _ found
    split
    · exact yields_error _
    rename_i entries isTable
    split
    · exact yields_ok (inserted freshOnce _)
    rename_i old isEntry
    split
    · exact yields_ok once
    split
    · split
      · exact yields_error _
      · exact yields_ok once
    split
    · exact yields_error _
    split
    · rename_i items
      have oldOnce := ((once.at? found).lookup isTable isEntry).item
      refine yields_ok (inserted (.array fun item listed => ?_) _)
      rcases List.mem_append.mp listed with listed | new
      · exact oldOnce item listed
      · rw [List.mem_singleton.mp new]
        exact keysOnce_empty
    · exact yields_error _
  · exact yields_error _

theorem keysOnce_followHeader (isArray : Bool) (names : List String) (once : document.values.KeysOnce) (level : List Step) :
    Yields (followHeader isArray document level names) fun followed => followed.values.KeysOnce := by
  induction names generalizing document level with
  | nil => exact yields_ok once
  | cons name rest ih =>
      unfold followHeader
      refine (keysOnce_stepInto once isArray _ name level).bind fun stepped steppedOnce => ?_
      exact yields_ite (yields_any.bind fun next _ => ih steppedOnce next) (yields_any.bind fun next _ => ih steppedOnce next)

theorem keysOnce_continueValue (once : document.values.KeysOnce) (pending : OpenValue) (line : List Char) :
    Yields (continueValue document pending line) fun continued => continued.values.KeysOnce := by
  unfold continueValue
  refine yields_ite (yields_error _) (yields_ite ?_ (yields_ok once))
  refine (keysOnce_readValue true _).bind fun value valueOnce => ?_
  split
  · exact yields_ok (keysOnce_change (fun inner innerOnce => keysOnce_insert innerOnce valueOnce) _ once)
  · exact yields_ok (keysOnce_change (fun inner innerOnce => keysOnce_insert innerOnce valueOnce) _ once)
  · exact yields_error _

theorem keysOnce_readLine (once : document.values.KeysOnce) (line : List Char) :
    Yields (readLine document line) fun read => read.values.KeysOnce := by
  have filled {value : TomlValue} (valueOnce : value.KeysOnce) :
      (document.values.change (fun _ => value) document.current).KeysOnce :=
    keysOnce_change (fun _ _ => valueOnce) _ once
  unfold readLine
  split
  · exact yields_any.bind fun header _ => keysOnce_followHeader header.2 header.1 once []
  · refine yields_ite (yields_error _) ?_
    split
    · rename_i target found
      exact (keysOnce_enterInline keysOnce_readValue _ (once.at? found)).bind fun value valueOnce => yields_ok (filled valueOnce)
    · exact yields_error _
  · refine yields_ite (yields_ok once) ?_
    split
    · rename_i target found
      exact (keysOnce_enter keysOnce_readValue _ (once.at? found)).bind fun entered enteredOnce => yields_ok (filled enteredOnce)
    · exact yields_error _

theorem keysOnce_takeLine (once : document.values.KeysOnce) (line : List Char) :
    Yields (takeLine document line) fun taken => taken.values.KeysOnce := by
  unfold takeLine
  split
  · exact yields_ite (yields_ok once) (keysOnce_readLine once _)
  · exact yields_ite (yields_ok once) (keysOnce_continueValue once _ _)

theorem keysOnce_takeLines (once : document.values.KeysOnce) (lines : List (List Char)) :
    Yields (lines.foldlM takeLine document) fun taken => taken.values.KeysOnce := by
  induction lines generalizing document with
  | nil => exact yields_ok once
  | cons line rest ih =>
      rw [List.foldlM_cons]
      exact (keysOnce_takeLine once line).bind fun taken takenOnce => ih takenOnce

end Documents

/-- In a configuration file every key of every table stands once. -/
theorem keysOnce_readDocument (text : List Char) : Yields (readDocument text) fun tables => (table tables).KeysOnce := by
  have startOnce : ({} : Document).values.KeysOnce := keysOnce_empty
  refine yields_any.bind fun lines _ => (keysOnce_takeLines startOnce lines).bind fun document once => yields_ok ?_
  cases isTable : document.values.entries? with
  | none => exact keysOnce_empty
  | some entries => exact .table (once.of_entries? isTable).1 (once.of_entries? isTable).2

end Toml
end Deadwood
