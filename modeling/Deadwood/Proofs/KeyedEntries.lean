import Deadwood.Json.Value
import Deadwood.Keyed
import Deadwood.Toml.Value

/-!
# Entries by their keys

Objects of structured values and tables of configuration files are lists of entries, changed by putting an entry in place of the
one of its key. They are tables whose rows are the entries.
-/

set_option autoImplicit false
namespace Deadwood

namespace Keyed

variable {α : Type} {key : String} {value : α} {entries : List (String × α)}

theorem lookup_eq_find? (key : String) (entries : List (String × α)) :
    entries.lookup key = (find? Prod.fst key entries).map Prod.snd := by
  induction entries with
  | nil => rfl
  | cons entry rest ih =>
      rw [List.lookup_cons, ih, find?, find?, List.find?_cons]
      by_cases same : entry.1 = key
      · simp [same]
      · simp [same, beq_false_of_ne (Ne.symm same)]

theorem lookup_put (entry : String × α) (entries : List (String × α)) (key : String) :
    (put Prod.fst entry entries).lookup key = if key = entry.1 then some entry.2 else entries.lookup key := by
  rw [lookup_eq_find?, lookup_eq_find?]
  split
  case isTrue same => rw [same, find?_put_self, Option.map_some]
  case isFalse differs => rw [find?_put_of_ne Prod.fst entry entries key differs]

theorem mem_of_lookup (found : entries.lookup key = some value) : (key, value) ∈ entries := by
  rw [lookup_eq_find?, Option.map_eq_some_iff] at found
  obtain ⟨entry, isFound, rfl⟩ := found
  obtain rfl := key_of_find? isFound
  exact List.mem_of_find?_eq_some isFound

/-- Where every key stands once, the entry that is put takes the place of the one of its key. -/
theorem mem_put_of_once {entry other : String × α} (once : (entries.map Prod.fst).Nodup)
    (listed : other ∈ put Prod.fst entry entries) : other = entry ∨ other ∈ entries ∧ other.1 ≠ entry.1 := by
  induction entries with
  | nil => exact Or.inl (List.mem_singleton.mp listed)
  | cons first rest ih =>
      rw [List.map_cons, List.nodup_cons] at once
      rw [put] at listed
      split at listed
      case isTrue here =>
        refine (List.mem_cons.mp listed).imp_right fun old => ⟨List.mem_cons_of_mem _ old, fun same => ?_⟩
        exact once.1 (here.trans same.symm ▸ List.mem_map_of_mem old)
      case isFalse elsewhere =>
        rcases List.mem_cons.mp listed with rfl | later
        · exact Or.inr ⟨List.mem_cons_self, elsewhere⟩
        · exact (ih once.2 later).imp_right fun old => ⟨List.mem_cons_of_mem _ old.1, old.2⟩

end Keyed

theorem JsonValue.putEntry_eq_put (key : String) (value : JsonValue) (entries : List (String × JsonValue)) :
    putEntry key value entries = Keyed.put Prod.fst (key, value) entries := by
  induction entries with
  | nil => rfl
  | cons entry rest ih => rw [putEntry, Keyed.put, ih]

theorem TomlValue.putEntry_eq_put (name : String) (value : TomlValue) (entries : List (String × TomlValue)) :
    putEntry name value entries = Keyed.put Prod.fst (name, value) entries := by
  induction entries with
  | nil => rfl
  | cons entry rest ih => rw [putEntry, Keyed.put, ih]

end Deadwood
