import Deadwood.Files.Tree
import Deadwood.Snapshot.Store

/-!
# Laws of paths

A path that can be followed in a tree leads to where it leads without one. The name of a snapshot is one name of a path, so
its directory stands just below the root of the store.
-/

set_option autoImplicit false
namespace Deadwood

open Files

namespace Files

/-! ## Following names -/

theorem follow_nil (reversed : Location) : follow reversed [] = reversed.reverse :=
  rfl

theorem follow_parent (reversed : Location) (rest : List String) :
    follow reversed (".." :: rest) = follow reversed.tail rest := by
  rw [follow]

theorem follow_name {name : String} (noParent : name ≠ "..") (reversed : Location) (rest : List String) :
    follow reversed (name :: rest) = follow (name :: reversed) rest := by
  rw [follow]
  exact noParent

theorem follow_append (reversed : Location) (first second : List String) :
    follow reversed (first ++ second) = follow (follow reversed first).reverse second := by
  induction first generalizing reversed with
  | nil => rw [List.nil_append, follow_nil, List.reverse_reverse]
  | cons name rest ih =>
      by_cases parent : name = ".."
      · subst parent
        rw [List.cons_append, follow_parent, follow_parent, ih]
      · rw [List.cons_append, follow_name parent, follow_name parent, ih]

theorem follow_of_no_parent {names : List String} (noParent : ".." ∉ names) (reversed : Location) :
    follow reversed names = reversed.reverse ++ names := by
  induction names generalizing reversed with
  | nil => rw [follow_nil, List.append_nil]
  | cons name rest ih =>
      rw [List.mem_cons, not_or] at noParent
      obtain ⟨differs, restNames⟩ := noParent
      rw [follow_name (Ne.symm differs), ih restNames, List.reverse_cons, List.append_assoc, List.singleton_append]

theorem no_parent_follow (names : List String) {reversed : Location} (noParent : ".." ∉ reversed) :
    ".." ∉ follow reversed names := by
  induction names generalizing reversed with
  | nil => rwa [follow_nil, List.mem_reverse]
  | cons name rest ih =>
      by_cases parent : name = ".."
      · subst parent
        rw [follow_parent]
        exact ih fun listed => noParent (List.mem_of_mem_tail listed)
      · rw [follow_name parent]
        refine ih ?_
        rw [List.mem_cons, not_or]
        exact ⟨Ne.symm parent, noParent⟩

theorem no_parent_resolve (path : Path) : ".." ∉ path.resolve :=
  no_parent_follow path.names List.not_mem_nil

theorem resolve_of_no_parent {root : Location} (noParent : ".." ∉ root) : (⟨"/", root⟩ : Path).resolve = root :=
  follow_of_no_parent noParent []

theorem resolve_join (base : Path) (names : List String) :
    (base.join ⟨"", names⟩).resolve = follow base.resolve.reverse names := by
  exact follow_append [] base.names names

theorem resolve_join_of_no_parent (base : Path) {names : List String} (noParent : ".." ∉ names) :
    (base.join ⟨"", names⟩).resolve = base.resolve ++ names := by
  rw [resolve_join, follow_of_no_parent noParent, List.reverse_reverse]

theorem Tree.locateFrom_eq_follow {tree : Tree} {reversed location : Location} {names : List String}
    (found : tree.locateFrom reversed names = .ok location) : location = follow reversed names := by
  induction names generalizing reversed with
  | nil =>
      obtain rfl := Except.ok.inj found
      rw [follow_nil]
  | cons name rest ih =>
      unfold Tree.locateFrom at found
      split at found
      · rename_i parent
        subst parent
        rw [follow_parent]
        split at found
        · exact ih found
        · cases found
        · cases found
      · rename_i noParent
        rw [follow_name noParent]
        exact ih found

theorem Tree.locate_eq_resolve {tree : Tree} {path : Path} {location : Location}
    (found : tree.locate path = .ok location) : location = path.resolve :=
  Tree.locateFrom_eq_follow found

theorem Tree.locateFrom_of_no_parent (tree : Tree) (reversed : Location) {names : List String} (noParent : ".." ∉ names) :
    tree.locateFrom reversed names = .ok (follow reversed names) := by
  induction names generalizing reversed with
  | nil => rw [Tree.locateFrom, follow_nil]
  | cons name rest ih =>
      rw [List.mem_cons, not_or] at noParent
      obtain ⟨differs, restNames⟩ := noParent
      rw [Tree.locateFrom, if_neg (Ne.symm differs), follow_name (Ne.symm differs)]
      exact ih (name :: reversed) restNames

/-- A path without parents can be followed in every tree. -/
theorem Tree.locate_of_no_parent (tree : Tree) {path : Path} (noParent : ".." ∉ path.names) :
    tree.locate path = .ok path.resolve :=
  tree.locateFrom_of_no_parent [] noParent

theorem Tree.locateFrom_append (tree : Tree) (reversed : Location) (first second : List String) :
    tree.locateFrom reversed (first ++ second) =
      (tree.locateFrom reversed first).bind fun location => tree.locateFrom location.reverse second := by
  induction first generalizing reversed with
  | nil => rw [List.nil_append, Tree.locateFrom, Except.bind, List.reverse_reverse]
  | cons name rest ih =>
      rw [List.cons_append, Tree.locateFrom, Tree.locateFrom]
      split
      · split
        · exact ih reversed.tail
        · rfl
        · rfl
      · exact ih (name :: reversed)

theorem Tree.locate_join (tree : Tree) (base : Path) {names : List String} (noParent : ".." ∉ names) :
    tree.locate (base.join ⟨"", names⟩) = (tree.locate base).map (· ++ names) := by
  have joined : (base.join ⟨"", names⟩).names = base.names ++ names := rfl
  rw [Tree.locate, joined, Tree.locateFrom_append, Tree.locate]
  cases tree.locateFrom [] base.names with
  | error fault => rfl
  | ok location =>
      have followed := tree.locateFrom_of_no_parent location.reverse noParent
      rw [follow_of_no_parent noParent, List.reverse_reverse] at followed
      exact followed

/-- A path that can be followed in two trees can be followed where every directory of both is one. -/
theorem Tree.locate_of_directories {tree first second : Tree} {path : Path} {location location' : Location}
    (kept : ∀ place, first.entry? place = some .directory → second.entry? place = some .directory →
      tree.entry? place = some .directory)
    (found : first.locate path = .ok location) (found' : second.locate path = .ok location') :
    tree.locate path = .ok location := by
  have general : ∀ (names : List String) (reversed : Location), first.locateFrom reversed names = .ok location →
      second.locateFrom reversed names = .ok location' → tree.locateFrom reversed names = .ok location := by
    intro names
    induction names with
    | nil => exact fun reversed found _ => found
    | cons name rest ih =>
        intro reversed found found'
        rw [Tree.locateFrom] at found found' ⊢
        split
        case isTrue parent =>
          rw [if_pos parent] at found found'
          split at found
          case h_1 directory =>
            split at found'
            case h_1 directory' =>
              rw [kept _ directory directory']
              exact ih _ found found'
            all_goals cases found'
          all_goals cases found
        case isFalse noParent =>
          rw [if_neg noParent] at found found'
          exact ih _ found found'
  exact general path.names [] found found'

/-! ## Names in texts -/

/-- A name as it stands in a path: it says something and has no slash. -/
structure IsName (name : String) : Prop where
  someChars : name.toList ≠ []
  noDot : name.toList ≠ ['.']
  noSlash : '/' ∉ name.toList

theorem splitNames_append_slash {chars : List Char} (noSlash : '/' ∉ chars) (current rest : List Char) :
    splitNames current (chars ++ '/' :: rest) = splitNames.keep (chars.reverse ++ current) ++ splitNames [] rest := by
  induction chars generalizing current with
  | nil => exact if_pos (beq_self_eq_true '/')
  | cons c more ih =>
      rw [List.mem_cons, not_or] at noSlash
      obtain ⟨differs, moreChars⟩ := noSlash
      rw [List.cons_append, splitNames, if_neg (by simpa using Ne.symm differs), ih moreChars, List.reverse_cons,
        List.append_assoc, List.singleton_append]

theorem splitNames_of_no_slash {chars : List Char} (noSlash : '/' ∉ chars) (current : List Char) :
    splitNames current chars = splitNames.keep (chars.reverse ++ current) := by
  induction chars generalizing current with
  | nil => rw [splitNames]; rfl
  | cons c rest ih =>
      rw [List.mem_cons, not_or] at noSlash
      obtain ⟨differs, restChars⟩ := noSlash
      rw [splitNames, if_neg (by simpa using Ne.symm differs), ih restChars, List.reverse_cons, List.append_assoc,
        List.singleton_append]

theorem IsName.keep {name : String} (isName : IsName name) : splitNames.keep (name.toList.reverse ++ []) = [name] := by
  rw [List.append_nil, splitNames.keep, if_neg, List.reverse_reverse, String.ofList_toList]
  simp only [Bool.or_eq_true, List.isEmpty_iff, beq_iff_eq, List.reverse_eq_nil_iff, not_or]
  refine ⟨isName.someChars, fun dot => isName.noDot ?_⟩
  rw [← List.reverse_reverse name.toList, dot]
  rfl

/-- A text without slashes is one name, unless it stands for nothing. -/
theorem ofString_of_isName {text : String} (isName : IsName text) : Path.ofString text = ⟨"", [text]⟩ := by
  have slashes : text.toList.takeWhile (· == '/') = [] := by
    cases chars : text.toList with
    | nil => rfl
    | cons c rest =>
        have noSlash := isName.noSlash
        rw [chars] at noSlash
        rw [List.takeWhile_cons_of_neg]
        rintro same
        exact noSlash (by simp [beq_iff_eq.mp same])
  have names : splitNames [] text.toList = [text] := by
    rw [splitNames_of_no_slash isName.noSlash, isName.keep]
  unfold Path.ofString
  dsimp only
  rw [slashes, names]
  rfl

theorem isName_of_mem_keep {part : List Char} {name : String} (noSlash : '/' ∉ part)
    (member : name ∈ splitNames.keep part) : IsName name := by
  unfold splitNames.keep at member
  split at member
  case isTrue => cases member
  case isFalse kept =>
    rw [List.mem_singleton.mp member]
    simp only [Bool.or_eq_true, List.isEmpty_iff, beq_iff_eq, not_or] at kept
    constructor
    · simpa using kept.1
    · rw [String.toList_ofList]
      intro dot
      exact kept.2 (List.reverse_eq_iff.mp dot)
    · simpa using noSlash

theorem isName_of_mem_splitNames {chars current : List Char} {name : String} (noSlash : '/' ∉ current)
    (member : name ∈ splitNames current chars) : IsName name := by
  induction chars generalizing current with
  | nil => exact isName_of_mem_keep noSlash member
  | cons c rest ih =>
      unfold splitNames at member
      split at member
      case isTrue =>
        rcases List.mem_append.mp member with here | later
        · exact isName_of_mem_keep noSlash here
        · exact ih List.not_mem_nil later
      case isFalse differs =>
        refine ih ?_ member
        rw [List.mem_cons, not_or]
        exact ⟨fun same => differs (by simp [← same]), noSlash⟩

theorem mem_of_mem_follow {name : String} {reversed : Location} {names : List String}
    (member : name ∈ follow reversed names) : name ∈ reversed ∨ name ∈ names := by
  induction names generalizing reversed with
  | nil =>
      rw [follow_nil, List.mem_reverse] at member
      exact Or.inl member
  | cons first rest ih =>
      by_cases parent : first = ".."
      · subst parent
        rw [follow_parent] at member
        exact (ih member).imp List.mem_of_mem_tail (List.mem_cons_of_mem _)
      · rw [follow_name parent] at member
        rcases ih member with inside | later
        · rcases List.mem_cons.mp inside with rfl | before
          · exact Or.inr List.mem_cons_self
          · exact Or.inl before
        · exact Or.inr (List.mem_cons_of_mem first later)

/-- Where a written path leads to has names that can be written. -/
theorem isName_of_mem_resolve_ofString {text name : String} (member : name ∈ (Path.ofString text).resolve) :
    IsName name :=
  isName_of_mem_splitNames List.not_mem_nil ((mem_of_mem_follow member).resolve_left List.not_mem_nil)

theorem splitNames_intercalate {names : List String} (areNames : ∀ name ∈ names, IsName name) :
    splitNames [] ("/".toList.intercalate (names.map String.toList)) = names := by
  induction names with
  | nil => rfl
  | cons name rest ih =>
      obtain ⟨isName, restNames⟩ := List.forall_mem_cons.mp areNames
      cases rest with
      | nil =>
          rw [List.map_cons, List.map_nil, List.intercalate_singleton, splitNames_of_no_slash isName.noSlash, isName.keep]
      | cons next more =>
          have slash : "/".toList = ['/'] := rfl
          rw [List.map_cons, List.map_cons, List.intercalate_cons_cons, slash, List.append_assoc, List.singleton_append,
            splitNames_append_slash isName.noSlash, isName.keep, List.singleton_append, ← slash, ← List.map_cons,
            ih restNames]

theorem resolve_ofString_toString {location : Location} (areNames : ∀ name ∈ location, IsName name)
    (noParent : ".." ∉ location) : (Path.ofString (Location.toString location)).resolve = location := by
  have names : (Path.ofString (Location.toString location)).names = location := by
    have text : (Location.toString location).toList = '/' :: "/".toList.intercalate (location.map String.toList) := by
      rw [Location.toString, String.toList_append, String.toList_intercalate]
      rfl
    have split : splitNames [] (Location.toString location).toList = location := by
      rw [text]
      exact (if_pos (beq_self_eq_true '/')).trans (splitNames_intercalate areNames)
    exact split
  rw [Path.resolve, names, follow_of_no_parent noParent]
  rfl

end Files

/-! ## The names of snapshots -/

theorem slash_not_mem_padded (width value : Nat) : '/' ∉ (Moment.padded width value).toList := by
  rw [Moment.padded, String.toList_ofList, List.mem_append, not_or]
  constructor
  · intro member
    cases List.eq_of_mem_replicate member
  · intro member
    have digit : '/'.isDigit = true := Nat.isDigit_of_mem_toDigits (b := 10) (by decide) (by decide) (by
      rwa [← Nat.toList_repr])
    cases digit

theorem slash_not_mem_attemptDigits (attempt : Nat) : '/' ∉ (attemptDigits attempt).toList := by
  have digits : ∀ value < 16, JsonValue.hexDigit value ≠ '/' := by decide
  rw [attemptDigits, String.toList_ofList, Text.hexDigits, List.mem_map]
  rintro ⟨place, _, same⟩
  exact digits _ (Nat.mod_lt _ (by decide)) same

theorem slash_not_mem_idOf (now : Moment) (attempt : Nat) : '/' ∉ (Snapshot.idOf now attempt).toList := by
  simp only [Snapshot.idOf, Moment.stamp, String.toList_append, List.mem_append, not_or]
  have underscore : '/' ∉ "_".toList := by decide
  simp only [slash_not_mem_padded, slash_not_mem_attemptDigits, underscore, not_false_eq_true, and_self]

theorem underscore_mem_idOf (now : Moment) (attempt : Nat) : '_' ∈ (Snapshot.idOf now attempt).toList := by
  simp [Snapshot.idOf]

theorem isName_idOf (now : Moment) (attempt : Nat) : IsName (Snapshot.idOf now attempt) where
  someChars none := by
    have member := underscore_mem_idOf now attempt
    rw [none] at member
    cases member
  noDot dot := by
    have member := underscore_mem_idOf now attempt
    rw [dot] at member
    simp at member
  noSlash := slash_not_mem_idOf now attempt

theorem ofString_idOf (now : Moment) (attempt : Nat) :
    Path.ofString (Snapshot.idOf now attempt) = ⟨"", [Snapshot.idOf now attempt]⟩ :=
  ofString_of_isName (isName_idOf now attempt)

theorem idOf_ne_parent (now : Moment) (attempt : Nat) : Snapshot.idOf now attempt ≠ ".." := by
  intro parent
  have member := underscore_mem_idOf now attempt
  rw [parent] at member
  simp at member

/-- The directory of a new snapshot stands just below the root of the store. -/
theorem SnapshotStore.resolve_directory_idOf (store : SnapshotStore) (now : Moment) (attempt : Nat) :
    (store.directory (Snapshot.idOf now attempt)).resolve = store.root.resolve ++ [Snapshot.idOf now attempt] := by
  rw [SnapshotStore.directory, ofString_idOf, resolve_join_of_no_parent]
  rw [List.mem_singleton]
  exact (idOf_ne_parent now attempt).symm

end Deadwood
