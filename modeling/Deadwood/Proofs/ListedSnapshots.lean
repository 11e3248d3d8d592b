import Mathlib.Data.List.Lex
import Mathlib.Data.Prod.Lex
import Mathlib.Data.String.Basic
import Mathlib.Tactic.Push
import Deadwood.Proofs.MomentOrder
import Deadwood.Proofs.SnapshotPruning

/-!
# Listed snapshots

A store lists the directories in it whose metadata can be read, the newest first. Metadata that cannot be read as a value, or
that is an object without a time, only keeps its own directory off the list. Metadata that is a value of another kind or is
nested too deep, or a time that cannot be compared with the other times, keeps everything off it: then there is no list at all.
-/

set_option autoImplicit false
namespace Deadwood

open Files

namespace JsonValue

/-! ## Texts by their code points -/

theorem points_lt_iff {first second : String} : points first < points second ↔ first < second := by
  have keeps : ∀ {first second : String}, first < second → points first < points second := fun before =>
    List.map_lt (fun _ _ less => Char.lt_def.mp less) (String.lt_iff.mp before)
  refine ⟨fun before => ?_, keeps⟩
  rcases lt_trichotomy first second with isBefore | rfl | isAfter
  · exact isBefore
  · exact absurd before (lt_irrefl _)
  · exact absurd before (lt_asymm (keeps isAfter))

theorem comparePoints_self (points : List Nat) : comparePoints points points = .eq := by
  induction points with
  | nil => rfl
  | cons point rest ih => rw [comparePoints, compare_eq_iff_eq.mpr rfl, ih]

theorem comparePoints_of_lt {first second : List Nat} (before : first < second) :
    comparePoints first second = .lt ∧ comparePoints second first = .gt := by
  induction first generalizing second with
  | nil =>
      cases second with
      | nil => exact absurd before (lt_irrefl _)
      | cons => exact ⟨rfl, rfl⟩
  | cons point rest ih =>
      cases second with
      | nil => exact absurd before (List.not_lt_nil _)
      | cons other others =>
          rw [comparePoints, comparePoints]
          rcases List.cons_lt_cons_iff.mp before with less | ⟨rfl, later⟩
          · rw [compare_lt_iff_lt.mpr less, compare_gt_iff_gt.mpr less]
            exact ⟨rfl, rfl⟩
          · rw [compare_eq_iff_eq.mpr rfl]
            exact ih later

def textPoints? : JsonValue → Option (List Nat)
  | string text => some (points text)
  | wide points => some points
  | _ => none

theorem compare_string (first second : String) : compare first second = comparePoints (points first) (points second) := by
  rcases lt_trichotomy first second with before | rfl | after
  · rw [(comparePoints_of_lt (points_lt_iff.mpr before)).1, compare_lt_iff_lt.mpr before]
  · rw [comparePoints_self, compare_eq_iff_eq.mpr rfl]
  · rw [(comparePoints_of_lt (points_lt_iff.mpr after)).2, compare_gt_iff_gt.mpr after]

theorem compare?_of_textPoints {first second : JsonValue} {points points' : List Nat} (isText : first.textPoints? = some points)
    (isText' : second.textPoints? = some points') : first.compare? second = some (comparePoints points points') := by
  cases first <;> simp only [textPoints?, reduceCtorEq, Option.some.injEq] at isText <;>
    cases second <;> simp only [textPoints?, reduceCtorEq, Option.some.injEq] at isText' <;> subst isText isText'
  case string.string first second => rw [compare?, compare_string]
  all_goals rfl

/-- A text can be compared with texts only. -/
theorem isText_of_compare? {text other : JsonValue} (isText : text.textPoints?.isSome = true)
    (both : (text.compare? other).isSome = true) : other.textPoints?.isSome = true := by
  cases text <;> simp only [textPoints?, Option.isSome_none, Bool.false_eq_true] at isText <;> cases other <;>
    simp_all [compare?, compareNumbers?, same, sameNumber, special?, decimal?, textPoints?] <;>
    split at both <;> simp_all

end JsonValue

namespace Files.Tree

variable {tree : Tree} {root : Location} {name : String}

def onlyName? (location : Location) : Option String :=
  match location with
  | [name] => some name
  | _ => none

theorem nodup_childNames (wellFormed : tree.WellFormed) (root : Location) : (tree.childNames root).Nodup := by
  have keys : tree.childNames root = ((tree.below root).map Prod.fst).filterMap onlyName? := by
    rw [childNames, List.filterMap_map]
    rfl
  rw [keys]
  refine (nodup_keys_below wellFormed root).filterMap ?_
  intro first second name found found'
  simp only [Option.mem_def, onlyName?] at found found'
  split at found
  · split at found'
    · rw [Option.some.inj (found.trans found'.symm)]
    · cases found'
  · cases found

theorem mem_childNames_iff (wellFormed : tree.WellFormed) :
    name ∈ tree.childNames root ↔ ∃ entry, tree.entry? (root ++ [name]) = some entry := by
  rw [childNames, List.mem_filterMap]
  constructor
  · rintro ⟨⟨location, entry⟩, listed, found⟩
    have held := (wellFormed.mem_below_iff.mp listed).2
    dsimp only at found
    split at found
    · obtain rfl := Option.some.inj found
      exact ⟨entry, held⟩
    · cases found
  · rintro ⟨entry, held⟩
    exact ⟨([name], entry), wellFormed.mem_below_iff.mpr ⟨List.cons_ne_nil _ _, held⟩, rfl⟩

end Files.Tree

namespace SnapshotStore

open Tree

variable {store : SnapshotStore} {tree : Tree} {nesting : Nat} {name : String} {value time : JsonValue}
  {result : Except JsonFault JsonValue} {snapshot : Snapshot}

/-! ## What metadata says -/

/-- What reading the metadata in a directory of the store as a value comes to, if it is text. -/
def Parses (store : SnapshotStore) (tree : Tree) (nesting : Nat) (name : String) (result : Except JsonFault JsonValue) : Prop :=
  ∃ content text, tree.locate store.root = .ok store.root.resolve ∧
    tree.entry? (store.root.resolve ++ [name, Snapshot.metadataName]) = some (.file content) ∧
      Files.readText content = .ok text ∧ JsonValue.ofText text nesting = result

def Reads (store : SnapshotStore) (tree : Tree) (nesting : Nat) (name : String) (value : JsonValue) : Prop :=
  Parses store tree nesting name (.ok value)

/-- The metadata in a directory of the store is nested too deep. -/
def IsTooDeep (store : SnapshotStore) (tree : Tree) (nesting : Nat) (name : String) : Prop :=
  Parses store tree nesting name (.error .tooDeep)

/-- The metadata in a directory of the store is an object with a time. -/
def Takes (store : SnapshotStore) (tree : Tree) (nesting : Nat) (name : String) (time : JsonValue) : Prop :=
  ∃ value, Reads store tree nesting name value ∧ Snapshot.isObject value = true ∧ value.get? "timestamp" = some time

def child (store : SnapshotStore) (name : String) : Path :=
  store.root.join ⟨"", [name]⟩

theorem name_child (store : SnapshotStore) (name : String) : (store.child name).name = name := by
  simp [child, Path.join, Path.name]

theorem content_of_file (wellFormed : tree.WellFormed) (followed : tree.locate store.root = .ok store.root.resolve)
    {content : Bytes} (held : tree.entry? (store.root.resolve ++ [name, Snapshot.metadataName]) = some (.file content)) :
    (tree.locate ((store.child name).join ⟨"", [Snapshot.metadataName]⟩)).bind tree.read = .ok content := by
  have noParent : ".." ∉ [name, Snapshot.metadataName] := fun member =>
    wellFormed.no_parent_name held (List.mem_append_right _ member)
  have joined : (store.child name).join ⟨"", [Snapshot.metadataName]⟩ =
      store.root.join ⟨"", [name, Snapshot.metadataName]⟩ := by
    simp [child, Path.join]
  rw [joined, tree.locate_join _ noParent, followed]
  simp only [Except.map, Except.bind, Tree.read, held]

def ofParsed (directory : Path) : Except JsonFault JsonValue → Except SnapshotError Snapshot
  | .error .malformed => .error (.unreadable directory.name)
  | .error .tooDeep => .error .tooDeep
  | .ok value => Snapshot.ofMetadata directory value

theorem read_of_parses (wellFormed : tree.WellFormed) (parses : Parses store tree nesting name result) :
    Snapshot.read tree (store.child name) nesting = ofParsed (store.child name) result := by
  obtain ⟨content, text, followed, held, decoded, parsed⟩ := parses
  rw [Snapshot.read, content_of_file wellFormed followed held]
  dsimp only
  rw [decoded]
  dsimp only
  rw [parsed]
  rfl

theorem parses_or_unreadable (wellFormed : tree.WellFormed) (followed : tree.locate store.root = .ok store.root.resolve)
    (metadata : tree.isFile (store.root.resolve ++ [name, Snapshot.metadataName]) = true) (nesting : Nat) :
    (∃ result, Parses store tree nesting name result) ∨
      (∀ result, ¬ Parses store tree nesting name result) ∧
        Snapshot.read tree (store.child name) nesting = .error (.unreadable name) := by
  rw [isFile] at metadata
  split at metadata
  · rename_i content held
    cases decoded : Files.readText content with
    | error error =>
        refine Or.inr ⟨?_, ?_⟩
        · rintro result ⟨content', text, _, held', decoded', _⟩
          obtain rfl : content = content' := by simpa using held.symm.trans held'
          cases decoded.symm.trans decoded'
        · rw [Snapshot.read, content_of_file wellFormed followed held]
          dsimp only
          rw [decoded, name_child]
    | ok text => exact Or.inl ⟨_, content, text, followed, held, decoded, rfl⟩
  · cases metadata

theorem Parses.unique {result' : Except JsonFault JsonValue} (parses : Parses store tree nesting name result)
    (parses' : Parses store tree nesting name result') : result = result' := by
  obtain ⟨content, text, _, held, decoded, parsed⟩ := parses
  obtain ⟨content', text', _, held', decoded', parsed'⟩ := parses'
  obtain rfl : content = content' := by simpa using held.symm.trans held'
  obtain rfl := Except.ok.inj (decoded.symm.trans decoded')
  exact parsed.symm.trans parsed'

theorem Reads.unique {value' : JsonValue} (reads : Reads store tree nesting name value)
    (reads' : Reads store tree nesting name value') : value = value' :=
  Except.ok.inj (Parses.unique reads reads')

theorem Parses.isFile (parses : Parses store tree nesting name result) :
    tree.isFile (store.root.resolve ++ [name, Snapshot.metadataName]) = true := by
  obtain ⟨content, text, _, held, _⟩ := parses
  rw [Tree.isFile, held]

theorem ofMetadata_cases (directory : Path) (value : JsonValue) :
    (Snapshot.isObject value = true ∧ ∃ time, value.get? "timestamp" = some time ∧
      ∃ snapshot, Snapshot.ofMetadata directory value = .ok snapshot ∧ snapshot.id = directory.name ∧
        snapshot.directory = directory ∧ snapshot.createdAt = time) ∨
    (Snapshot.isObject value = true ∧ value.get? "timestamp" = none ∧
      Snapshot.ofMetadata directory value = .error (.unreadable directory.name)) ∨
    Snapshot.isObject value = false ∧ Snapshot.ofMetadata directory value = .error .wrongType := by
  unfold Snapshot.ofMetadata
  cases isObject : Snapshot.isObject value with
  | false => exact Or.inr (Or.inr ⟨rfl, rfl⟩)
  | true =>
      cases found : value.get? "timestamp" with
      | none => exact Or.inr (Or.inl ⟨rfl, rfl, rfl⟩)
      | some time => exact Or.inl ⟨rfl, time, rfl, _, rfl, rfl, rfl, rfl⟩

/-- A directory of the store is read as a snapshot just if its metadata is an object with a time. -/
theorem takes_of_read (wellFormed : tree.WellFormed) (followed : tree.locate store.root = .ok store.root.resolve)
    (metadata : tree.isFile (store.root.resolve ++ [name, Snapshot.metadataName]) = true)
    (read : Snapshot.read tree (store.child name) nesting = .ok snapshot) :
    Takes store tree nesting name snapshot.createdAt := by
  rcases parses_or_unreadable wellFormed followed metadata nesting with ⟨result, parses⟩ | ⟨_, unread⟩
  · rw [read_of_parses wellFormed parses] at read
    match result, parses, read with
    | .error .malformed, _, read => cases read
    | .error .tooDeep, _, read => cases read
    | .ok value, parses, read =>
      rw [ofParsed] at read
      rcases ofMetadata_cases (store.child name) value with
        ⟨isObject, time, found, made, same, _, _, createdAt⟩ | ⟨_, _, failed⟩ | ⟨_, failed⟩
      · obtain rfl := Except.ok.inj (same.symm.trans read)
        exact ⟨value, parses, isObject, createdAt ▸ found⟩
      · cases failed.symm.trans read
      · cases failed.symm.trans read
  · cases unread.symm.trans read

theorem Takes.exists_read (wellFormed : tree.WellFormed) (takes : Takes store tree nesting name time) :
    ∃ snapshot, Snapshot.read tree (store.child name) nesting = .ok snapshot ∧ snapshot.createdAt = time := by
  obtain ⟨value, reads, isObject, found⟩ := takes
  rw [read_of_parses wellFormed reads, ofParsed, Snapshot.ofMetadata, isObject, found]
  exact ⟨_, rfl, rfl⟩

/-! ## Gathering -/

def gather (store : SnapshotStore) (tree : Tree) (nesting : Nat) (names : List String) :
    Except SnapshotError (List Snapshot) :=
  names.foldrM (fun name found =>
    match Snapshot.read tree (store.root.join ⟨"", [name]⟩) nesting with
    | .ok snapshot => .ok (snapshot :: found)
    | .error (.unreadable _) => .ok found
    | .error error => .error error) []

theorem gather_cons (store : SnapshotStore) (tree : Tree) (nesting : Nat) (name : String) (rest : List String) :
    store.gather tree nesting (name :: rest) = (store.gather tree nesting rest).bind fun found =>
      match Snapshot.read tree (store.child name) nesting with
      | .ok snapshot => .ok (snapshot :: found)
      | .error (.unreadable _) => .ok found
      | .error error => .error error := by
  rw [gather, List.foldrM_cons]
  rfl

theorem sublist_of_gather {names : List String} {found : List Snapshot}
    (gathered : store.gather tree nesting names = .ok found) : (found.map (·.id)).Sublist names := by
  induction names generalizing found with
  | nil =>
      obtain rfl := Except.ok.inj gathered
      exact List.Sublist.refl []
  | cons name rest ih =>
      rw [gather_cons] at gathered
      cases later : store.gather tree nesting rest with
      | error error =>
          rw [later] at gathered
          cases gathered
      | ok others =>
          rw [later] at gathered
          simp only [Except.bind] at gathered
          split at gathered
          · rename_i snapshot read
            obtain rfl := Except.ok.inj gathered
            rw [List.map_cons, (of_read read).1, name_child]
            exact (ih later).cons_cons name
          · obtain rfl := Except.ok.inj gathered
            exact (ih later).cons name
          · cases gathered

/-- What metadata may be without keeping the other directories off the list: an object, or nothing that can be read as a
value. -/
def Fits (store : SnapshotStore) (tree : Tree) (nesting : Nat) (name : String) : Prop :=
  (∀ value, Reads store tree nesting name value → Snapshot.isObject value = true) ∧ ¬ IsTooDeep store tree nesting name

def Obstructs (store : SnapshotStore) (tree : Tree) (nesting : Nat) (name : String) (error : SnapshotError) : Prop :=
  error = .tooDeep ∧ IsTooDeep store tree nesting name ∨
    error = .wrongType ∧ ∃ value, Reads store tree nesting name value ∧ Snapshot.isObject value = false

theorem Obstructs.not_fits {error : SnapshotError} (obstructs : Obstructs store tree nesting name error) :
    ¬ Fits store tree nesting name := by
  rintro ⟨objects, shallow⟩
  rcases obstructs with ⟨_, isTooDeep⟩ | ⟨_, value, reads, noObject⟩
  · exact shallow isTooDeep
  · cases (objects value reads).symm.trans noObject

/-- One directory adds its snapshot, or nothing, or spoils the list. -/
theorem read_cases (wellFormed : tree.WellFormed) (followed : tree.locate store.root = .ok store.root.resolve)
    (metadata : tree.isFile (store.root.resolve ++ [name, Snapshot.metadataName]) = true) (nesting : Nat) :
    Fits store tree nesting name ∧
      ((∃ snapshot, Snapshot.read tree (store.child name) nesting = .ok snapshot) ∨
        Snapshot.read tree (store.child name) nesting = .error (.unreadable name)) ∨
    ∃ error, Snapshot.read tree (store.child name) nesting = .error error ∧ (∀ id, error ≠ .unreadable id) ∧
      Obstructs store tree nesting name error := by
  rcases parses_or_unreadable wellFormed followed metadata nesting with ⟨result, parses⟩ | ⟨noText, unread⟩
  · have read := read_of_parses wellFormed parses
    match result, parses, read with
    | .error .malformed, parses, read =>
        rw [ofParsed, name_child] at read
        exact Or.inl ⟨⟨fun _ reads => (nomatch parses.unique reads), fun isTooDeep => (nomatch parses.unique isTooDeep)⟩,
          Or.inr read⟩
    | .error .tooDeep, parses, read =>
        exact Or.inr ⟨_, read, fun _ same => (nomatch same), Or.inl ⟨rfl, parses⟩⟩
    | .ok value, parses, read =>
        have only : Snapshot.isObject value = true → Fits store tree nesting name := fun isObject =>
          ⟨fun other reads => Reads.unique parses reads ▸ isObject, fun isTooDeep => (nomatch parses.unique isTooDeep)⟩
        rcases ofMetadata_cases (store.child name) value with
          ⟨isObject, _, _, made, same, _⟩ | ⟨isObject, _, same⟩ | ⟨noObject, same⟩
        · exact Or.inl ⟨only isObject, Or.inl ⟨made, read.trans same⟩⟩
        · rw [name_child] at same
          exact Or.inl ⟨only isObject, Or.inr (read.trans same)⟩
        · exact Or.inr ⟨_, read.trans same, fun _ same => (nomatch same), Or.inr ⟨rfl, value, parses, noObject⟩⟩
  · exact Or.inl ⟨⟨fun _ reads => absurd reads (noText _), noText _⟩, Or.inr unread⟩

/-- Names are gathered unless the metadata of one of them does not fit. -/
theorem gather_cases (wellFormed : tree.WellFormed) (followed : tree.locate store.root = .ok store.root.resolve)
    {names : List String}
    (metadata : ∀ name ∈ names, tree.isFile (store.root.resolve ++ [name, Snapshot.metadataName]) = true) (nesting : Nat) :
    (∃ found, store.gather tree nesting names = .ok found ∧ ∀ name ∈ names, Fits store tree nesting name) ∨
      ∃ error, store.gather tree nesting names = .error error ∧ ∃ name ∈ names, Obstructs store tree nesting name error := by
  induction names with
  | nil => exact Or.inl ⟨[], rfl, fun _ member => absurd member List.not_mem_nil⟩
  | cons name rest ih =>
      rw [gather_cons]
      rcases ih fun other member => metadata other (List.mem_cons_of_mem name member) with
        ⟨others, later, fit⟩ | ⟨error, failed, other, member, obstructs⟩
      · rw [later]
        rcases read_cases wellFormed followed (metadata name List.mem_cons_self) nesting with
          ⟨fits, ⟨snapshot, read⟩ | unread⟩ | ⟨error, failed, notUnreadable, obstructs⟩
        · rw [read]
          exact Or.inl ⟨snapshot :: others, rfl, List.forall_mem_cons.mpr ⟨fits, fit⟩⟩
        · rw [unread]
          exact Or.inl ⟨others, rfl, List.forall_mem_cons.mpr ⟨fits, fit⟩⟩
        · rw [failed]
          refine Or.inr ⟨error, ?_, name, List.mem_cons_self, obstructs⟩
          rcases obstructs with ⟨rfl, _⟩ | ⟨rfl, _⟩ <;> rfl
      · rw [failed]
        exact Or.inr ⟨error, rfl, other, List.mem_cons_of_mem name member, obstructs⟩

/-! ## The order of the list -/

/-- The first of two snapshots with texts for their times comes from a later time, or from the same time and has the greater
name. Texts are ordered by their code points. -/
def Newer (first second : Snapshot) : Prop :=
  ∀ points points', first.createdAt.textPoints? = some points → second.createdAt.textPoints? = some points' →
    points' < points ∨ points' = points ∧ second.id < first.id

def sortKey (snapshot : Snapshot) : List Nat ×ₗ String :=
  toLex (snapshot.createdAt.textPoints?.getD [], snapshot.id)

theorem notOlder_eq {first second : Snapshot} {points points' : List Nat}
    (dated : first.createdAt.textPoints? = some points) (dated' : second.createdAt.textPoints? = some points') :
    notOlder first second = decide (sortKey second ≤ sortKey first) := by
  rw [notOlder, JsonValue.compare?_of_textPoints dated dated', sortKey, sortKey, dated, dated']
  simp only [Option.getD_some, Prod.Lex.toLex_le_toLex]
  rcases lt_trichotomy points points' with before | rfl | after
  · rw [(JsonValue.comparePoints_of_lt before).1]
    simp [lt_asymm before, (ne_of_lt before).symm]
  · rw [JsonValue.comparePoints_self]
    simp
  · rw [(JsonValue.comparePoints_of_lt after).2]
    simp [after]

theorem newer_of_sortKey {first second : Snapshot} (differs : first.id ≠ second.id)
    (after : sortKey second ≤ sortKey first) : Newer first second := by
  intro points points' dated dated'
  rw [sortKey, sortKey, dated, dated', Prod.Lex.toLex_le_toLex] at after
  exact after.imp_right fun ⟨same, below⟩ => ⟨same, lt_of_le_of_ne below (Ne.symm differs)⟩

/-- Sorting brings snapshots that can be compared into the order of their times and names. -/
theorem pairwise_newer_mergeSort {found : List Snapshot} (once : (found.map (·.id)).Nodup)
    (comparable : ∀ first ∈ found, ∀ second ∈ found, (first.createdAt.compare? second.createdAt).isSome = true) :
    (found.mergeSort notOlder).Pairwise Newer := by
  have distinct : (found.mergeSort notOlder).Pairwise fun first second => first.id ≠ second.id := by
    rw [← List.pairwise_map (f := Snapshot.id) (R := (· ≠ ·))]
    exact ((List.mergeSort_perm found notOlder).map _).nodup_iff.mpr once
  by_cases someText : ∃ snapshot ∈ found, snapshot.createdAt.textPoints?.isSome = true
  · obtain ⟨snapshot, member, isText⟩ := someText
    -- one text makes all of them texts
    have texts : ∀ other ∈ found, ∃ points, other.createdAt.textPoints? = some points := fun other isOther =>
      Option.isSome_iff_exists.mp (JsonValue.isText_of_compare? isText (comparable snapshot member other isOther))
    have same : found.mergeSort notOlder = found.mergeSort fun first second => decide (sortKey second ≤ sortKey first) := by
      have mapped := @List.map_mergeSort _ _ notOlder (fun first second => decide (sortKey second ≤ sortKey first)) id found
        fun first isFirst second isSecond =>
          notOlder_eq (texts first isFirst).choose_spec (texts second isSecond).choose_spec
      rwa [List.map_id, List.map_id] at mapped
    have sorted : (found.mergeSort notOlder).Pairwise fun first second => sortKey second ≤ sortKey first := by
      rw [same]
      refine (List.pairwise_mergeSort (fun a b c first second => ?_) (fun a b => ?_) found).imp fun ordered =>
        of_decide_eq_true ordered
      · rw [decide_eq_true_eq] at first second ⊢
        exact second.trans first
      · rw [Bool.or_eq_true, decide_eq_true_eq, decide_eq_true_eq]
        exact le_total _ _
    exact (distinct.and sorted).imp fun both => newer_of_sortKey both.1 both.2
  · refine distinct.imp_of_mem fun {first second} isFirst _ _ points _ dated _ => ?_
    exact absurd ⟨first, List.mem_mergeSort.mp isFirst, by rw [dated]; rfl⟩ someText

def NotBefore (first second : Snapshot) : Prop :=
  ∀ taken taken' : Moment, taken.isValid = true → taken'.isValid = true → first.createdAt = .string taken.toString →
    second.createdAt = .string taken'.toString → taken'.toMicroseconds ≤ taken.toMicroseconds

theorem Newer.notBefore {first second : Snapshot} (newer : Newer first second) : NotBefore first second := by
  intro taken taken' valid valid' dated dated'
  refine Moment.toMicroseconds_le_of_toString_le valid' valid ?_
  rcases newer _ _ (by rw [dated]; rfl) (by rw [dated']; rfl) with later | ⟨same, _⟩
  · exact le_of_lt (JsonValue.points_lt_iff.mp later)
  · exact le_of_eq (JsonValue.points_injective same)

/-! ## The list -/

/-- All that can be read as a value in the store is an object, nothing is nested too deep, and all times can be compared. -/
structure Listable (store : SnapshotStore) (tree : Tree) (nesting : Nat) : Prop where
  objects : ∀ name value, Reads store tree nesting name value → Snapshot.isObject value = true
  shallow : ∀ name, ¬ IsTooDeep store tree nesting name
  times : ∀ name time name' time', Takes store tree nesting name time → Takes store tree nesting name' time' →
    (time.compare? time').isSome = true

/-- Just the snapshots that metadata with a time tells of, each once. -/
structure Gathers (store : SnapshotStore) (tree : Tree) (nesting : Nat) (snapshots : List Snapshot) : Prop where
  complete : ∀ name time, Takes store tree nesting name time →
    ∃ snapshot ∈ snapshots, snapshot.id = name ∧ snapshot.createdAt = time
  takes : ∀ snapshot ∈ snapshots, Takes store tree nesting snapshot.id snapshot.createdAt
  read : ∀ snapshot ∈ snapshots, Snapshot.read tree (store.child snapshot.id) nesting = .ok snapshot
  once : (snapshots.map (·.id)).Nodup

/-- All snapshots that metadata with a time tells of, the newest first. -/
structure Lists (store : SnapshotStore) (tree : Tree) (nesting : Nat) (snapshots : List Snapshot) : Prop
    extends Gathers store tree nesting snapshots where
  newestFirst : snapshots.Pairwise Newer
  chronological : snapshots.Pairwise NotBefore

theorem Gathers.of_perm {found snapshots : List Snapshot} (gathers : Gathers store tree nesting found)
    (perm : snapshots.Perm found) :
    Gathers store tree nesting snapshots where
  complete name time taken := by
    obtain ⟨snapshot, member, same⟩ := gathers.complete name time taken
    exact ⟨snapshot, perm.mem_iff.mpr member, same⟩
  takes snapshot member := gathers.takes snapshot (perm.mem_iff.mp member)
  read snapshot member := gathers.read snapshot (perm.mem_iff.mp member)
  once := (perm.map _).nodup_iff.mpr gathers.once

theorem Gathers.lists_mergeSort {found : List Snapshot} (gathers : Gathers store tree nesting found)
    (comparable : ∀ first ∈ found, ∀ second ∈ found, (first.createdAt.compare? second.createdAt).isSome = true) :
    Lists store tree nesting (found.mergeSort notOlder) where
  toGathers := gathers.of_perm (List.mergeSort_perm found notOlder)
  newestFirst := pairwise_newer_mergeSort gathers.once comparable
  chronological := (pairwise_newer_mergeSort gathers.once comparable).imp Newer.notBefore

def namesIn (store : SnapshotStore) (tree : Tree) : List String :=
  (tree.childNames store.root.resolve).filter fun name =>
    tree.isFile (store.root.resolve ++ [name, Snapshot.metadataName])

theorem mem_namesIn_iff (wellFormed : tree.WellFormed) :
    name ∈ store.namesIn tree ↔ tree.isFile (store.root.resolve ++ [name, Snapshot.metadataName]) = true := by
  rw [namesIn, List.mem_filter, mem_childNames_iff wellFormed]
  refine ⟨And.right, fun metadata => ⟨⟨.directory, ?_⟩, metadata⟩⟩
  exact isDirectory_iff.mp (isDirectory_of_metadata wellFormed metadata)

theorem nodup_namesIn (wellFormed : tree.WellFormed) (store : SnapshotStore) : (store.namesIn tree).Nodup :=
  (nodup_childNames wellFormed store.root.resolve).filter _

theorem gathers_of_gather (wellFormed : tree.WellFormed) (followed : tree.locate store.root = .ok store.root.resolve)
    {found : List Snapshot} (gathered : store.gather tree nesting (store.namesIn tree) = .ok found) :
    Gathers store tree nesting found := by
  have reading := mem_iff_exists_name gathered
  have read : ∀ snapshot ∈ found, snapshot.id ∈ store.namesIn tree ∧
      Snapshot.read tree (store.child snapshot.id) nesting = .ok snapshot := by
    intro snapshot member
    obtain ⟨name, isName, isRead⟩ := (reading snapshot).mp member
    have same : snapshot.id = name := (of_read isRead).1.trans (name_child store name)
    rw [same]
    exact ⟨isName, isRead⟩
  refine ⟨fun name time taken => ?_, fun snapshot member => ?_, fun snapshot member => (read snapshot member).2, ?_⟩
  · obtain ⟨snapshot, isRead, createdAt⟩ := taken.exists_read wellFormed
    have isName : name ∈ store.namesIn tree := (mem_namesIn_iff wellFormed).mpr taken.choose_spec.1.isFile
    refine ⟨snapshot, (reading snapshot).mpr ⟨name, isName, isRead⟩, ?_, createdAt⟩
    exact (of_read isRead).1.trans (name_child store name)
  · obtain ⟨isName, isRead⟩ := read snapshot member
    exact takes_of_read wellFormed followed ((mem_namesIn_iff wellFormed).mp isName) isRead
  · exact (nodup_namesIn wellFormed store).sublist (sublist_of_gather gathered)

/-- What is gathered is listed if it can be compared. -/
theorem list_eq_of_followed (wellFormed : tree.WellFormed) (followed : tree.locate store.root = .ok store.root.resolve) :
    store.list tree nesting = (store.gather tree nesting (store.namesIn tree)).bind fun found =>
      if found.any fun first => found.any fun second => (first.createdAt.compare? second.createdAt).isNone then
        .error .wrongType
      else .ok (found.mergeSort notOlder) := by
  rw [list, followed]
  dsimp only
  by_cases directory : tree.isDirectory store.root.resolve = true
  · rw [directory]
    simp only [Bool.not_true, Bool.false_eq_true, if_false]
    change (store.gather tree nesting (store.namesIn tree)).bind _ = _
    congr 1
  · have empty : store.namesIn tree = [] := by
      rw [List.eq_nil_iff_forall_not_mem]
      intro name member
      have below := isDirectory_iff.mp (isDirectory_of_metadata wellFormed ((mem_namesIn_iff wellFormed).mp member))
      exact directory (isDirectory_iff.mpr (wellFormed.isDirectory_above below (List.prefix_append _ _) (by simp)))
    rw [Bool.not_eq_true] at directory
    rw [directory, empty]
    simp [gather, Except.bind, pure, Except.pure]

theorem list_eq_of_unfollowed (lost : tree.locate store.root ≠ .ok store.root.resolve) : store.list tree nesting = .ok [] := by
  rw [list]
  cases located : tree.locate store.root with
  | error fault => rfl
  | ok location =>
      obtain rfl := locate_eq_resolve located
      exact absurd located lost

theorem listable_and_lists_of_unfollowed (lost : tree.locate store.root ≠ .ok store.root.resolve) :
    Listable store tree nesting ∧ Lists store tree nesting [] := by
  have noText : ∀ name result, ¬ Parses store tree nesting name result := fun _ _ ⟨_, _, followed, _⟩ => lost followed
  have noTime : ∀ name time, ¬ Takes store tree nesting name time := fun _ _ ⟨_, reads, _⟩ => noText _ _ reads
  constructor
  · exact ⟨fun name value reads => absurd reads (noText name _), fun name => noText name _,
      fun name time _ _ taken _ => absurd taken (noTime name time)⟩
  · exact ⟨⟨fun name time taken => absurd taken (noTime name time), fun _ member => absurd member List.not_mem_nil,
      fun _ member => absurd member List.not_mem_nil, List.nodup_nil⟩, List.Pairwise.nil, List.Pairwise.nil⟩

/-- There is a list of all that is to be listed, or there is none as something cannot be listed. -/
theorem listable_or_error (wellFormed : tree.WellFormed) (store : SnapshotStore) (nesting : Nat) :
    (Listable store tree nesting ∧ ∃ snapshots, store.list tree nesting = .ok snapshots ∧ Lists store tree nesting snapshots) ∨
      ¬ Listable store tree nesting ∧ (store.list tree nesting = .error .wrongType ∨
        store.list tree nesting = .error .tooDeep ∧ ∃ name, IsTooDeep store tree nesting name) := by
  by_cases followed : tree.locate store.root = .ok store.root.resolve
  case neg =>
    obtain ⟨listable, lists⟩ := @listable_and_lists_of_unfollowed store tree nesting followed
    exact Or.inl ⟨listable, [], list_eq_of_unfollowed followed, lists⟩
  rw [list_eq_of_followed wellFormed followed]
  rcases gather_cases wellFormed followed (fun name member => (mem_namesIn_iff wellFormed).mp member) nesting with
    ⟨found, gathered, fit⟩ | ⟨error, failed, name, _, obstructs⟩
  · rw [gathered]
    have gathers := gathers_of_gather wellFormed followed gathered
    have isName : ∀ {name result}, Parses store tree nesting name result → name ∈ store.namesIn tree := fun parses =>
      (mem_namesIn_iff wellFormed).mpr parses.isFile
    by_cases comparable : ∀ first ∈ found, ∀ second ∈ found, (first.createdAt.compare? second.createdAt).isSome = true
    · have noneApart : (found.any fun first => found.any fun second =>
          (first.createdAt.compare? second.createdAt).isNone) = false := by
        simpa [Option.isSome_iff_ne_none] using comparable
      refine Or.inl ⟨⟨fun name value reads => (fit name (isName reads)).1 value reads,
        fun name isTooDeep => (fit name (isName isTooDeep)).2 isTooDeep, fun name time name' time' taken taken' => ?_⟩,
        found.mergeSort notOlder, ?_, gathers.lists_mergeSort comparable⟩
      · obtain ⟨first, isFirst, _, rfl⟩ := gathers.complete name time taken
        obtain ⟨second, isSecond, _, rfl⟩ := gathers.complete name' time' taken'
        exact comparable first isFirst second isSecond
      · simp only [Except.bind, noneApart, Bool.false_eq_true, if_false]
    · push Not at comparable
      obtain ⟨first, isFirst, second, isSecond, apart⟩ := comparable
      have someApart : (found.any fun first => found.any fun second =>
          (first.createdAt.compare? second.createdAt).isNone) = true := by
        rw [List.any_eq_true]
        refine ⟨first, isFirst, List.any_eq_true.mpr ⟨second, isSecond, ?_⟩⟩
        simpa using apart
      refine Or.inr ⟨fun listable => ?_, Or.inl ?_⟩
      · exact apart (listable.times _ _ _ _ (gathers.takes first isFirst) (gathers.takes second isSecond))
      · simp only [Except.bind, someApart, if_true]
  · rw [failed]
    refine Or.inr ⟨fun listable => ?_, ?_⟩
    · exact obstructs.not_fits ⟨listable.objects name, listable.shallow name⟩
    · rcases obstructs with ⟨rfl, isTooDeep⟩ | ⟨rfl, _⟩
      · exact Or.inr ⟨rfl, name, isTooDeep⟩
      · exact Or.inl rfl

def homeStore : SnapshotStore :=
  ⟨⟨"/", ["home"]⟩⟩

def timed (time : String) : JsonValue :=
  .object [("timestamp", .string time)]

theorem readsBack_timed (time : String) : (timed time).ReadsBack := by
  refine .object (List.nodup_singleton _) fun entry member => ?_
  obtain rfl := List.mem_singleton.mp member
  exact .string time

theorem shallow_timed (time : String) : (timed time).depth ≤ JsonValue.nestingLimit := by
  refine le_trans (JsonValue.depth_object_le_iff.mpr fun entry member => ?_) (show 0 + 1 ≤ JsonValue.nestingLimit by decide)
  obtain rfl := List.mem_singleton.mp member
  exact le_refl 0

/-- The store with the metadata of a snapshot, and with something else in the place of the metadata of another one. -/
def besideOther (content : Bytes) : Tree where
  rows :=
    [(["home"], .directory), (["home", "good"], .directory),
      (["home", "good", Snapshot.metadataName], .file (Text.encode (timed "2020-01-01T00:00:00").render.toList)),
      (["home", "other"], .directory), (["home", "other", Snapshot.metadataName], .file content)]

theorem wellFormed_besideOther (content : Bytes) : (besideOther content).WellFormed where
  named row member := by
    simp only [besideOther, List.mem_cons, List.not_mem_nil, or_false] at member
    rcases member with rfl | rfl | rfl | rfl | rfl <;> exact ⟨List.cons_ne_nil _ _, by dsimp only; decide⟩
  once := (by decide : [["home"], ["home", "good"], ["home", "good", Snapshot.metadataName], ["home", "other"],
    ["home", "other", Snapshot.metadataName]].Nodup)
  parents row member := by
    simp only [besideOther, List.mem_cons, List.not_mem_nil, or_false] at member
    rcases member with rfl | rfl | rfl | rfl | rfl <;> rfl

theorem takes_besideOther (content : Bytes) :
    Takes homeStore (besideOther content) JsonValue.nestingLimit "good" (.string "2020-01-01T00:00:00") := by
  have readsBack := readsBack_timed "2020-01-01T00:00:00"
  exact ⟨_, ⟨_, _, rfl, rfl, JsonValue.readText_render readsBack.writable,
    JsonValue.ofText_render readsBack (shallow_timed _)⟩, rfl, rfl⟩

end SnapshotStore
end Deadwood
