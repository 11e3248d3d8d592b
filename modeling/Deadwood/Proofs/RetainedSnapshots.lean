import Deadwood.Proofs.LastingSnapshots
import Deadwood.Proofs.ListedSnapshots

/-!
# Which snapshots are retained

Removing old snapshots takes away those that are older than the days for which snapshots are kept, and gives their names in
order. So many days before now must be a moment of the calendar, or nothing is looked at. A store may be spelled through its
own snapshots, by a parent: then the removal comes to an end when an old one on the way to the store is gone and there is
another old one.
-/

set_option autoImplicit false
namespace Deadwood

open Files

/-! ## The way that a path takes -/

namespace Files

def turnsFrom (reversed : Location) : List String → List Location
  | [] => []
  | name :: rest =>
    if name = ".." then reversed.reverse :: turnsFrom reversed.tail rest else turnsFrom (name :: reversed) rest

def Path.turns (path : Path) : List Location :=
  turnsFrom [] path.names

theorem turnsFrom_of_no_parent {names : List String} (noParent : ".." ∉ names) (reversed : Location) :
    turnsFrom reversed names = [] := by
  induction names generalizing reversed with
  | nil => rfl
  | cons name rest ih =>
      rw [List.mem_cons, not_or] at noParent
      rw [turnsFrom, if_neg (Ne.symm noParent.1), ih noParent.2]

namespace Tree

variable {tree : Tree} {path : Path}

theorem exists_locateFrom_iff {names : List String} {reversed : Location} :
    (∃ location, tree.locateFrom reversed names = .ok location) ↔
      ∀ turn ∈ turnsFrom reversed names, tree.entry? turn = some .directory := by
  induction names generalizing reversed with
  | nil => simp [locateFrom, turnsFrom]
  | cons name rest ih =>
      rw [locateFrom, turnsFrom]
      split
      · rw [List.forall_mem_cons]
        cases held : tree.entry? reversed.reverse with
        | none => simp
        | some entry => cases entry <;> simp [ih]
      · exact ih

/-- A path can be followed just if it asks the parents of directories only. -/
theorem locate_eq_resolve_iff :
    tree.locate path = .ok path.resolve ↔ ∀ turn ∈ path.turns, tree.entry? turn = some .directory := by
  rw [Path.turns, ← exists_locateFrom_iff]
  refine ⟨fun followed => ⟨_, followed⟩, fun ⟨location, followed⟩ => ?_⟩
  rw [locate, followed, locateFrom_eq_follow followed]
  rfl

/-- A path that could be followed still can if it asks the parent of nothing that is taken away. -/
theorem locate_erase_iff {location : Location} (someName : location ≠ []) (followed : tree.locate path = .ok path.resolve) :
    (tree.erase location).locate path = .ok path.resolve ↔ ∀ turn ∈ path.turns, ¬ location <+: turn := by
  rw [locate_eq_resolve_iff] at followed ⊢
  refine forall₂_congr fun turn isTurn => ?_
  rw [entry?_erase someName, followed turn isTurn]
  split <;> simp_all

end Tree
end Files

namespace SnapshotStore

open Tree

variable {store : SnapshotStore} {tree tree' : Tree} {withOffset : Bool} {limit : Int} {removed names : List String}
  {snapshots earlier later : List Snapshot} {snapshot : Snapshot}

def OnWay (store : SnapshotStore) (name : String) : Prop :=
  ∃ turn ∈ store.root.turns, store.root.resolve ++ [name] <+: turn

/-! ## One removal after another -/

def isOld (withOffset : Bool) (limit : Int) (snapshot : Snapshot) : Bool :=
  match isBefore withOffset limit snapshot with
  | .ok old => old
  | .error _ => false

def oldNames (withOffset : Bool) (limit : Int) (snapshots : List Snapshot) : List String :=
  (snapshots.filter (isOld withOffset limit)).map (·.id)

def without (store : SnapshotStore) (tree : Tree) (names : List String) : Tree :=
  (names.map fun name => store.root.resolve ++ [name]).foldl Tree.erase tree

structure Placed (store : SnapshotStore) (tree : Tree) (snapshots : List Snapshot) : Prop where
  directory : ∀ snapshot ∈ snapshots, snapshot.directory = store.root.join ⟨"", [snapshot.id]⟩
  noParent : ∀ snapshot ∈ snapshots, snapshot.id ≠ ".."
  isDirectory : ∀ snapshot ∈ snapshots, tree.isDirectory (store.root.resolve ++ [snapshot.id]) = true
  once : (snapshots.map (·.id)).Nodup

theorem Placed.tail (placed : Placed store tree (snapshot :: later)) : Placed store tree later where
  directory other member := placed.directory other (List.mem_cons_of_mem snapshot member)
  noParent other member := placed.noParent other (List.mem_cons_of_mem snapshot member)
  isDirectory other member := placed.isDirectory other (List.mem_cons_of_mem snapshot member)
  once := (List.nodup_cons.mp placed.once).2

theorem Placed.locate (placed : Placed store tree (snapshot :: later)) :
    tree.locate snapshot.directory = (tree.locate store.root).map (· ++ [snapshot.id]) := by
  rw [placed.directory snapshot List.mem_cons_self, tree.locate_join]
  rw [List.mem_singleton]
  exact Ne.symm (placed.noParent snapshot List.mem_cons_self)

theorem Placed.discard (placed : Placed store tree (snapshot :: later))
    (followed : tree.locate store.root = .ok store.root.resolve) :
    discard tree snapshot.directory = tree.erase (store.root.resolve ++ [snapshot.id]) := by
  have directory := placed.isDirectory snapshot List.mem_cons_self
  rw [SnapshotStore.discard, placed.locate, followed]
  simp [Except.map, directory]

/-- The others keep their directories when one is taken away. -/
theorem Placed.erase (placed : Placed store tree (snapshot :: later)) :
    Placed store (tree.erase (store.root.resolve ++ [snapshot.id])) later where
  directory := placed.tail.directory
  noParent := placed.tail.noParent
  once := placed.tail.once
  isDirectory other member := by
    have differs : snapshot.id ≠ other.id := by
      intro same
      exact (List.nodup_cons.mp placed.once).1 (List.mem_map.mpr ⟨other, member, same.symm⟩)
    refine directory_of_erase (by simp) (placed.tail.isDirectory other member) fun within => differs ?_
    simpa using List.IsPrefix.eq_of_length within (by simp)

/-- One step: a young snapshot is passed over, and an old one is taken away where the store can be followed to. -/
theorem removeBefore_cons (placed : Placed store tree (snapshot :: later))
    (told : ∃ old, isBefore withOffset limit snapshot = .ok old) :
    (isOld withOffset limit snapshot = false ∧ removeBefore withOffset limit removed tree (snapshot :: later) =
      removeBefore withOffset limit removed tree later) ∨
    (isOld withOffset limit snapshot = true ∧
      ((tree.locate store.root = .ok store.root.resolve ∧ removeBefore withOffset limit removed tree (snapshot :: later) =
          removeBefore withOffset limit (snapshot.id :: removed) (tree.erase (store.root.resolve ++ [snapshot.id])) later) ∨
        ∃ fault, tree.locate store.root = .error fault ∧ removeBefore withOffset limit removed tree (snapshot :: later) =
          (.error (.notRemoved ⟨fault, snapshot.directory.toString⟩), tree))) := by
  obtain ⟨old, told⟩ := told
  cases old with
  | false => exact Or.inl ⟨by rw [isOld, told], removeBefore_of_young told⟩
  | true =>
      refine Or.inr ⟨by rw [isOld, told], ?_⟩
      have located := placed.locate
      cases followed : tree.locate store.root with
      | error fault =>
          rw [followed] at located
          exact Or.inr ⟨fault, rfl, removeBefore_of_unremovable (.lost told located)⟩
      | ok location =>
          obtain rfl := locate_eq_resolve followed
          rw [followed] at located
          exact Or.inl ⟨rfl, (removeBefore_of_old told located).trans (by rw [placed.discard followed])⟩

/-- All old snapshots can be taken away one after the other: the store can be followed to if there is one, and is not spelled
through one that has another after it. -/
structure Passable (store : SnapshotStore) (withOffset : Bool) (limit : Int) (tree : Tree) (snapshots : List Snapshot) :
    Prop where
  followed : ∀ snapshot ∈ snapshots, isOld withOffset limit snapshot = true → tree.locate store.root = .ok store.root.resolve
  offWay : snapshots.Pairwise fun first second =>
    isOld withOffset limit first = true → isOld withOffset limit second = true → ¬ OnWay store first.id

/-- What a whole removal comes to. -/
inductive Removal (store : SnapshotStore) (withOffset : Bool) (limit : Int) (removed : List String) (tree : Tree)
    (snapshots : List Snapshot) : Except SnapshotError (List String) × Tree → Prop
  | all (passable : Passable store withOffset limit tree snapshots) :
      Removal store withOffset limit removed tree snapshots
        (.ok (((oldNames withOffset limit snapshots).reverse ++ removed).mergeSort (decide <| · ≤ ·)),
          store.without tree (oldNames withOffset limit snapshots))
  | stopped (impassable : ¬ Passable store withOffset limit tree snapshots) {earlier : List Snapshot} (error : FileError)
      (before : earlier <+: snapshots) :
      Removal store withOffset limit removed tree snapshots
        (.error (.notRemoved error), store.without tree (oldNames withOffset limit earlier))

theorem passable_cons_of_young (young : isOld withOffset limit snapshot = false) :
    Passable store withOffset limit tree (snapshot :: later) ↔ Passable store withOffset limit tree later := by
  constructor
  · rintro ⟨followed, offWay⟩
    exact ⟨fun other member => followed other (List.mem_cons_of_mem snapshot member), offWay.tail⟩
  · rintro ⟨followed, offWay⟩
    refine ⟨fun other member old => ?_, List.pairwise_cons.mpr ⟨fun other _ old => ?_, offWay⟩⟩
    · rcases List.mem_cons.mp member with rfl | member
      · cases young.symm.trans old
      · exact followed other member old
    · cases young.symm.trans old

theorem passable_cons_of_old (old : isOld withOffset limit snapshot = true)
    (followed : tree.locate store.root = .ok store.root.resolve) :
    Passable store withOffset limit tree (snapshot :: later) ↔
      Passable store withOffset limit (tree.erase (store.root.resolve ++ [snapshot.id])) later := by
  have stillFollowed := @locate_erase_iff tree store.root (store.root.resolve ++ [snapshot.id]) (by simp) followed
  constructor
  · rintro ⟨_, offWay⟩
    obtain ⟨here, there⟩ := List.pairwise_cons.mp offWay
    refine ⟨fun other member isOld => stillFollowed.mpr fun turn isTurn within => ?_, there⟩
    exact here other member old isOld ⟨turn, isTurn, within⟩
  · rintro ⟨following, offWay⟩
    refine ⟨fun _ _ _ => followed, List.pairwise_cons.mpr ⟨fun other member _ isOld => ?_, offWay⟩⟩
    rintro ⟨turn, isTurn, within⟩
    exact stillFollowed.mp (following other member isOld) turn isTurn within

theorem oldNames_cons_of_young (young : isOld withOffset limit snapshot = false) :
    oldNames withOffset limit (snapshot :: later) = oldNames withOffset limit later := by
  simp [oldNames, young]

theorem oldNames_cons_of_old (old : isOld withOffset limit snapshot = true) :
    oldNames withOffset limit (snapshot :: later) = snapshot.id :: oldNames withOffset limit later := by
  simp [oldNames, old]

theorem without_cons (store : SnapshotStore) (tree : Tree) (name : String) (names : List String) :
    store.without tree (name :: names) = store.without (tree.erase (store.root.resolve ++ [name])) names := rfl

theorem Removal.pass_over {outcome : Except SnapshotError (List String) × Tree}
    (young : isOld withOffset limit snapshot = false) (run : Removal store withOffset limit removed tree later outcome) :
    Removal store withOffset limit removed tree (snapshot :: later) outcome := by
  cases run with
  | all passable =>
      rw [← oldNames_cons_of_young young]
      exact .all ((passable_cons_of_young young).mpr passable)
  | @stopped impassable earlier error before =>
      rw [← @oldNames_cons_of_young withOffset limit earlier snapshot young]
      exact .stopped (fun passable => impassable ((passable_cons_of_young young).mp passable)) error
        ((List.prefix_cons_inj snapshot).mpr before)

theorem Removal.take_away {outcome : Except SnapshotError (List String) × Tree} (old : isOld withOffset limit snapshot = true)
    (followed : tree.locate store.root = .ok store.root.resolve)
    (run : Removal store withOffset limit (snapshot.id :: removed) (tree.erase (store.root.resolve ++ [snapshot.id])) later
      outcome) :
    Removal store withOffset limit removed tree (snapshot :: later) outcome := by
  cases run with
  | all passable =>
      have whole := @Removal.all store withOffset limit removed tree _ ((passable_cons_of_old old followed).mpr passable)
      rwa [oldNames_cons_of_old old, without_cons, List.reverse_cons, List.append_assoc, List.singleton_append] at whole
  | @stopped impassable earlier error before =>
      rw [← without_cons, ← @oldNames_cons_of_old withOffset limit earlier snapshot old]
      exact .stopped (fun passable => impassable ((passable_cons_of_old old followed).mp passable)) error
        ((List.prefix_cons_inj snapshot).mpr before)

theorem removal_removeBefore (placed : Placed store tree snapshots)
    (told : ∀ snapshot ∈ snapshots, ∃ old, isBefore withOffset limit snapshot = .ok old) :
    Removal store withOffset limit removed tree snapshots (removeBefore withOffset limit removed tree snapshots) := by
  induction snapshots generalizing removed tree with
  | nil => exact .all ⟨fun _ member => absurd member List.not_mem_nil, List.Pairwise.nil⟩
  | cons first rest ih =>
      have toldLater := fun snapshot member => told snapshot (List.mem_cons_of_mem first member)
      rcases @removeBefore_cons store tree withOffset limit removed rest first placed (told first List.mem_cons_self) with
        ⟨young, step⟩ | ⟨old, ⟨followed, step⟩ | ⟨fault, lost, step⟩⟩
      · rw [step]
        exact (ih placed.tail toldLater).pass_over young
      · rw [step]
        exact (ih placed.erase toldLater).take_away old followed
      · rw [step]
        refine @Removal.stopped store withOffset limit removed tree (first :: rest) (fun passable => ?_) [] _ (List.nil_prefix)
        cases lost.symm.trans (passable.followed first List.mem_cons_self old)

/-! ## Times without an offset -/

variable {name : String} {taken : Moment} {days : Int} {now : Moment}

def cutOff (days : Int) (now : Moment) : Int :=
  now.toMicroseconds - days * Moment.microsecondsPerDay

def HasMetadata (store : SnapshotStore) (tree : Tree) (name : String) : Prop :=
  tree.locate store.root = .ok store.root.resolve ∧
    tree.isFile (store.root.resolve ++ [name, Snapshot.metadataName]) = true

def TakenAt (store : SnapshotStore) (tree : Tree) (name : String) (taken : Moment) : Prop :=
  ∃ text, Takes store tree JsonValue.nestingLimit name (.string text) ∧ Moment.ofString? text = some (taken, false)

/-- All metadata in the store tells of a moment, without an offset. -/
def Dated (store : SnapshotStore) (tree : Tree) : Prop :=
  ∀ name, HasMetadata store tree name → ∃ taken, TakenAt store tree name taken

/-- The snapshot of a name is older than so many days. -/
def HasExpired (store : SnapshotStore) (tree : Tree) (days : Int) (now : Moment) (name : String) : Prop :=
  ∃ taken, TakenAt store tree name taken ∧ Expired taken days now

theorem Takes.unique {time time' : JsonValue} (takes : Takes store tree JsonValue.nestingLimit name time)
    (takes' : Takes store tree JsonValue.nestingLimit name time') :
    time = time' := by
  obtain ⟨value, reads, _, found⟩ := takes
  obtain ⟨value', reads', _, found'⟩ := takes'
  obtain rfl := Reads.unique reads reads'
  exact Option.some.inj (found.symm.trans found')

theorem TakenAt.unique {taken' : Moment} (isTaken : TakenAt store tree name taken) (isTaken' : TakenAt store tree name taken') :
    taken = taken' := by
  obtain ⟨text, takes, read⟩ := isTaken
  obtain ⟨text', takes', read'⟩ := isTaken'
  obtain rfl := JsonValue.string.inj (takes.unique takes')
  exact (Prod.mk.inj (Option.some.inj (read.symm.trans read'))).1

theorem Reads.hasMetadata {value : JsonValue} (reads : Reads store tree JsonValue.nestingLimit name value) :
    HasMetadata store tree name :=
  ⟨reads.choose_spec.choose_spec.1, Parses.isFile reads⟩

theorem Dated.exists_takenAt (dated : Dated store tree) {time : JsonValue}
    (takes : Takes store tree JsonValue.nestingLimit name time) :
    ∃ text taken, time = .string text ∧ Moment.ofString? text = some (taken, false) ∧ TakenAt store tree name taken := by
  obtain ⟨taken, text, takes', read⟩ := dated name takes.choose_spec.1.hasMetadata
  exact ⟨text, taken, takes.unique takes', read, text, takes', read⟩

theorem Dated.listable (dated : Dated store tree) : Listable store tree JsonValue.nestingLimit where
  objects name value reads := by
    obtain ⟨taken, text, ⟨other, reads', isObject, _⟩, _⟩ := dated name reads.hasMetadata
    exact Reads.unique reads reads' ▸ isObject
  shallow name isTooDeep := by
    obtain ⟨taken, text, ⟨value, reads, _⟩, _⟩ := dated name ⟨isTooDeep.choose_spec.choose_spec.1, Parses.isFile isTooDeep⟩
    cases Parses.unique isTooDeep reads
  times name time name' time' takes takes' := by
    obtain ⟨text, _, rfl, _⟩ := dated.exists_takenAt takes
    obtain ⟨text', _, rfl, _⟩ := dated.exists_takenAt takes'
    rw [JsonValue.compare?]
    rfl

theorem Dated.exists_list (dated : Dated store tree) (wellFormed : tree.WellFormed) :
    ∃ snapshots, store.list tree = .ok snapshots ∧ Lists store tree JsonValue.nestingLimit snapshots := by
  rcases listable_or_error wellFormed store JsonValue.nestingLimit with ⟨_, listed⟩ | ⟨unlistable, _⟩
  · exact listed
  · exact absurd dated.listable unlistable

theorem Dated.isBefore_eq (dated : Dated store tree)
    (takes : Takes store tree JsonValue.nestingLimit snapshot.id snapshot.createdAt) :
    ∃ taken, TakenAt store tree snapshot.id taken ∧
      isBefore false limit snapshot = .ok ((taken.toMicroseconds : Int) < limit) := by
  obtain ⟨text, taken, createdAt, read, isTaken⟩ := dated.exists_takenAt takes
  refine ⟨taken, isTaken, ?_⟩
  rw [isBefore, createdAt]
  dsimp only
  rw [read]
  simp

theorem Dated.isOld_iff (dated : Dated store tree)
    (takes : Takes store tree JsonValue.nestingLimit snapshot.id snapshot.createdAt) :
    isOld false (cutOff days now) snapshot = true ↔
      HasExpired store tree days now snapshot.id := by
  obtain ⟨taken, isTaken, told⟩ :=
    @isBefore_eq store tree (cutOff days now) snapshot dated takes
  rw [isOld, told, decide_eq_true_eq]
  constructor
  · intro before
    refine ⟨taken, isTaken, ?_⟩
    unfold cutOff at before
    unfold Expired
    omega
  · rintro ⟨taken', isTaken', expired⟩
    obtain rfl := isTaken.unique isTaken'
    unfold Expired at expired
    unfold cutOff
    omega

theorem placed_of_list (wellFormed : tree.WellFormed) (listed : store.list tree = .ok snapshots)
    (lists : Lists store tree JsonValue.nestingLimit snapshots) : Placed store tree snapshots where
  directory _ member := (of_mem_list wellFormed listed member).1
  noParent _ member := (of_mem_list wellFormed listed member).2.1
  isDirectory _ member := isDirectory_of_metadata wellFormed (of_mem_list wellFormed listed member).2.2.2
  once := lists.once

/-! ## The last of the expired snapshots -/

def Precedes (store : SnapshotStore) (tree : Tree) (first second : String) : Prop :=
  ∃ text text', Takes store tree JsonValue.nestingLimit first (.string text) ∧
    Takes store tree JsonValue.nestingLimit second (.string text') ∧
    (text' < text ∨ text' = text ∧ second < first)

/-- The store is not spelled through an expired snapshot that has another one listed after it. -/
def Lasting (store : SnapshotStore) (tree : Tree) (days : Int) (now : Moment) : Prop :=
  ∀ first second, HasExpired store tree days now first → HasExpired store tree days now second →
    Precedes store tree first second → ¬ OnWay store first

theorem Newer.of_texts {first second : Snapshot} (newer : Newer first second) {text text' : String}
    (createdAt : first.createdAt = .string text) (createdAt' : second.createdAt = .string text') :
    text' < text ∨ text' = text ∧ second.id < first.id := by
  rcases newer _ _ (by rw [createdAt]; rfl) (by rw [createdAt']; rfl) with later | ⟨same, after⟩
  · exact Or.inl (JsonValue.points_lt_iff.mp later)
  · exact Or.inr ⟨JsonValue.points_injective same, after⟩

theorem not_precedes_of_newer {first second : Snapshot} (takes : Takes store tree JsonValue.nestingLimit first.id first.createdAt)
    (takes' : Takes store tree JsonValue.nestingLimit second.id second.createdAt) (newer : Newer first second) :
    ¬ Precedes store tree second.id first.id := by
  rintro ⟨text', text, isTaken', isTaken, order⟩
  rcases newer.of_texts (takes.unique isTaken) (takes'.unique isTaken') with later | ⟨same, after⟩
  · rcases order with earlier | ⟨same, _⟩
    · exact lt_asymm earlier later
    · exact lt_irrefl _ (same ▸ later)
  · rcases order with earlier | ⟨_, before⟩
    · exact lt_irrefl _ (same ▸ earlier)
    · exact lt_asymm before after

theorem not_precedes_self (name : String) : ¬ Precedes store tree name name := by
  rintro ⟨text, text', isTaken, isTaken', order⟩
  obtain rfl := JsonValue.string.inj (isTaken.unique isTaken')
  rcases order with later | ⟨_, after⟩
  · exact lt_irrefl _ later
  · exact lt_irrefl _ after

theorem Dated.precedes_of_newer (dated : Dated store tree) {first second : Snapshot}
    (takes : Takes store tree JsonValue.nestingLimit first.id first.createdAt)
    (takes' : Takes store tree JsonValue.nestingLimit second.id second.createdAt)
    (newer : Newer first second) : Precedes store tree first.id second.id := by
  obtain ⟨text, _, createdAt, _⟩ := dated.exists_takenAt takes
  obtain ⟨text', _, createdAt', _⟩ := dated.exists_takenAt takes'
  exact ⟨text, text', createdAt ▸ takes, createdAt' ▸ takes', newer.of_texts createdAt createdAt'⟩

/-- What holds of the first of two listed snapshots holds of the one that precedes. -/
theorem Lists.pairwise_iff (lists : Lists store tree JsonValue.nestingLimit snapshots) (dated : Dated store tree)
    {holds : Snapshot → Snapshot → Prop} :
    snapshots.Pairwise holds ↔
      ∀ first ∈ snapshots, ∀ second ∈ snapshots, Precedes store tree first.id second.id → holds first second := by
  constructor
  · intro pairwise
    have forward : snapshots.Pairwise fun first second => Precedes store tree first.id second.id → holds first second := by
      refine pairwise.imp ?_
      intro first second held _
      exact held
    have backward : snapshots.Pairwise fun first second => Precedes store tree second.id first.id → holds second first :=
      lists.newestFirst.imp_of_mem fun {first second} isFirst isSecond newer precedes =>
        absurd precedes (not_precedes_of_newer (lists.takes first isFirst) (lists.takes second isSecond) newer)
    intro first isFirst second isSecond
    exact forward.forall_of_forall_of_flip (fun same _ precedes => absurd precedes (not_precedes_self same.id)) backward
      isFirst isSecond
  · intro all
    refine lists.newestFirst.imp_of_mem fun {first second} isFirst isSecond newer => all first isFirst second isSecond ?_
    exact dated.precedes_of_newer (lists.takes first isFirst) (lists.takes second isSecond) newer

theorem Dated.passable_iff (dated : Dated store tree) (lists : Lists store tree JsonValue.nestingLimit snapshots) :
    Passable store false (cutOff days now) tree snapshots ↔
      Lasting store tree days now := by
  have old : ∀ snapshot ∈ snapshots, isOld false (cutOff days now) snapshot = true ↔
      HasExpired store tree days now snapshot.id := fun snapshot member => dated.isOld_iff (lists.takes snapshot member)
  constructor
  · rintro ⟨_, offWay⟩
    intro first second expired expired' precedes
    obtain ⟨_, _, takes, takes', _⟩ := id precedes
    obtain ⟨isFirst, inList, rfl, _⟩ := lists.complete first _ takes
    obtain ⟨isSecond, inList', rfl, _⟩ := lists.complete second _ takes'
    exact (lists.pairwise_iff dated).mp offWay isFirst inList isSecond inList' precedes ((old _ inList).mpr expired)
      ((old _ inList').mpr expired')
  · intro lasting
    refine ⟨fun snapshot member _ => ?_, (lists.pairwise_iff dated).mpr ?_⟩
    · exact (lists.takes snapshot member).choose_spec.1.hasMetadata.1
    · intro first isFirst second isSecond precedes expired expired'
      exact lasting first.id second.id ((old _ isFirst).mp expired) ((old _ isSecond).mp expired') precedes

/-! ## The days of the calendar -/

/-- So many days before a moment there is a moment of the calendar. -/
def InCalendar (days : Int) (now : Moment) : Prop :=
  days * Moment.microsecondsPerDay ≤ now.toMicroseconds

theorem daysBefore?_of_inCalendar (valid : now.isValid = true) (someDays : 0 ≤ days) (inCalendar : InCalendar days now) :
    daysBefore? now days = some (cutOff days now) := by
  have notLast := Moment.toMicroseconds_le_last valid
  have lastMoment : Moment.last.toMicroseconds = 315537897599999999 := by decide
  unfold InCalendar Moment.microsecondsPerDay at inCalendar
  have counts : (decide (days.natAbs ≤ greatestDays.natAbs) &&
      decide (0 ≤ (now.toMicroseconds : Int) - days * Moment.microsecondsPerDay) &&
        decide ((now.toMicroseconds : Int) - days * Moment.microsecondsPerDay ≤ Moment.last.toMicroseconds)) = true := by
    rw [lastMoment] at notLast ⊢
    simp only [Bool.and_eq_true, decide_eq_true_eq]
    unfold greatestDays Moment.microsecondsPerDay
    omega
  exact if_pos counts

theorem daysBefore?_of_beyond (beyond : ¬ InCalendar days now) : daysBefore? now days = none := by
  unfold InCalendar Moment.microsecondsPerDay at beyond
  refine if_neg ?_
  simp only [Bool.and_eq_true, decide_eq_true_eq]
  unfold Moment.microsecondsPerDay
  omega

theorem inCalendar_of_expired (expired : Expired taken days now) : InCalendar days now := by
  unfold Expired at expired
  unfold InCalendar
  omega

/-! ## Removing what has expired -/

/-- Just the expired snapshots are gone, and their names are given, in order. -/
structure Retains (store : SnapshotStore) (days : Int) (now : Moment) (world : World) (names : List String) (world' : World) :
    Prop where
  mem_iff : ∀ name, name ∈ names ↔ HasExpired store world.tree days now name
  ordered : names.Pairwise (· < ·)
  entry?_eq : ∀ place, world'.tree.entry? place =
    if ∃ name ∈ names, store.root.resolve ++ [name] <+: place then none else world.tree.entry? place
  rest : world' = { world with tree := world'.tree }

/-- At most expired snapshots are gone. -/
def Spares (store : SnapshotStore) (days : Int) (now : Moment) (world world' : World) : Prop :=
  world' = { world with tree := world'.tree } ∧ ∀ place, world'.tree.entry? place = world.tree.entry? place ∨
    ∃ name, HasExpired store world.tree days now name ∧ store.root.resolve ++ [name] <+: place

section Pruning

variable {world world' : World}

theorem prune_of_inCalendar (wellFormed : world.tree.WellFormed) (valid : now.isValid = true) (someDays : 0 ≤ days)
    (inCalendar : InCalendar days now) (listed : store.list world.tree = .ok snapshots) (dated : Dated store world.tree)
    (lists : Lists store world.tree JsonValue.nestingLimit snapshots) :
    ∃ outcome, Removal store false (cutOff days now) [] world.tree snapshots outcome ∧
      store.prune days now false world = (outcome.1, { world with tree := outcome.2 }) := by
  refine ⟨_, removal_removeBefore (placed_of_list wellFormed listed lists) fun snapshot member => ?_, ?_⟩
  · obtain ⟨taken, _, told⟩ := dated.isBefore_eq (lists.takes snapshot member)
    exact ⟨_, told⟩
  · rw [prune, daysBefore?_of_inCalendar valid someDays inCalendar]
    dsimp only
    rw [listed]

theorem mem_oldNames_iff (dated : Dated store tree) (lists : Lists store tree JsonValue.nestingLimit snapshots) :
    name ∈ oldNames false (cutOff days now) snapshots ↔
      HasExpired store tree days now name := by
  rw [oldNames, List.mem_map]
  constructor
  · rintro ⟨snapshot, member, rfl⟩
    obtain ⟨inList, old⟩ := List.mem_filter.mp member
    exact (dated.isOld_iff (lists.takes snapshot inList)).mp old
  · intro expired
    obtain ⟨taken, ⟨text, takes, _⟩, _⟩ := id expired
    obtain ⟨snapshot, inList, rfl, _⟩ := lists.complete name _ takes
    exact ⟨snapshot, List.mem_filter.mpr ⟨inList, (dated.isOld_iff (lists.takes snapshot inList)).mpr expired⟩, rfl⟩

theorem ordered_mergeSort (once : names.Nodup) : (names.mergeSort (decide <| · ≤ ·)).Pairwise (· < ·) := by
  have inOrder : (names.mergeSort (decide <| · ≤ ·)).Pairwise fun first second => decide (first ≤ second) = true := by
    refine List.pairwise_mergeSort (fun a b c => ?_) (fun a b => ?_) names
    · simpa only [decide_eq_true_eq] using le_trans
    · simpa only [Bool.or_eq_true, decide_eq_true_eq] using le_total a b
  have distinct : (names.mergeSort (decide <| · ≤ ·)).Nodup := (List.mergeSort_perm names _).nodup_iff.mpr once
  exact (inOrder.and distinct).imp fun both => lt_of_le_of_ne (of_decide_eq_true both.1) both.2

theorem entry?_without (store : SnapshotStore) (tree : Tree) (names : List String) (place : Location) :
    Tree.entry? (store.without tree names) place =
      if ∃ name ∈ names, store.root.resolve ++ [name] <+: place then none else tree.entry? place := by
  have named : ∀ location ∈ names.map fun name => store.root.resolve ++ [name], location ≠ [] := by
    intro location member
    obtain ⟨name, _, rfl⟩ := List.mem_map.mp member
    simp
  rw [without, entry?_foldl_erase named]
  simp only [List.mem_map, exists_exists_and_eq_and]

theorem retains_of_all (dated : Dated store world.tree) (lists : Lists store world.tree JsonValue.nestingLimit snapshots) :
    Retains store days now world
      (((oldNames false (cutOff days now) snapshots).reverse ++ []).mergeSort (decide <| · ≤ ·))
      { world with tree := store.without world.tree (oldNames false (cutOff days now) snapshots) } where
  mem_iff name := by
    rw [List.mem_mergeSort, List.append_nil, List.mem_reverse, mem_oldNames_iff dated lists]
  ordered := by
    refine ordered_mergeSort ?_
    rw [List.append_nil, List.nodup_reverse]
    exact lists.once.sublist (List.filter_sublist.map _)
  entry?_eq place := by
    simp only [entry?_without, List.mem_mergeSort, List.append_nil, List.mem_reverse]
  rest := rfl

theorem spares_of_stopped (dated : Dated store world.tree) (lists : Lists store world.tree JsonValue.nestingLimit snapshots)
    (before : earlier <+: snapshots) :
    Spares store days now world
      { world with tree := store.without world.tree (oldNames false (cutOff days now) earlier) } := by
  refine ⟨rfl, fun place => ?_⟩
  rw [entry?_without]
  split
  · rename_i within
    obtain ⟨name, isOldName, within⟩ := within
    have old : name ∈ oldNames false (cutOff days now) snapshots :=
      ((before.sublist.filter _).map Snapshot.id).subset isOldName
    exact Or.inr ⟨name, (mem_oldNames_iff dated lists).mp old, within⟩
  · exact Or.inl rfl

/-- All expired snapshots are removed and no other one, unless so many days are beyond the calendar, when nothing has expired,
or the store is spelled through an expired snapshot that is not the last. -/
theorem prune_retains_iff_lasting (wellFormed : world.tree.WellFormed) (valid : now.isValid = true) (someDays : 0 ≤ days)
    (dated : Dated store world.tree) :
    (InCalendar days now → Lasting store world.tree days now →
      ∃ names world', store.prune days now false world = (.ok names, world') ∧ Retains store days now world names world') ∧
    (InCalendar days now → ¬ Lasting store world.tree days now →
      ∃ error world', store.prune days now false world = (.error (.notRemoved error), world') ∧
        Spares store days now world world') ∧
    (¬ InCalendar days now →
      store.prune days now false world = (.error .beyondCalendar, world) ∧
        ∀ name, ¬ HasExpired store world.tree days now name) := by
  obtain ⟨snapshots, listed, lists⟩ := dated.exists_list wellFormed
  have passable := @Dated.passable_iff store world.tree snapshots days now dated lists
  refine ⟨fun inCalendar lasting => ?_, fun inCalendar unlasting => ?_, fun beyond => ⟨?_, fun name expired => ?_⟩⟩
  · obtain ⟨outcome, removal, pruned⟩ := prune_of_inCalendar wellFormed valid someDays inCalendar listed dated lists
    cases removal with
    | all => exact ⟨_, _, pruned, retains_of_all dated lists⟩
    | stopped impassable => exact absurd (passable.mpr lasting) impassable
  · obtain ⟨outcome, removal, pruned⟩ := prune_of_inCalendar wellFormed valid someDays inCalendar listed dated lists
    cases removal with
    | all isPassable => exact absurd (passable.mp isPassable) unlasting
    | stopped _ error before => exact ⟨_, _, pruned, spares_of_stopped dated lists before⟩
  · rw [prune, daysBefore?_of_beyond beyond]
  · obtain ⟨taken, _, isExpired⟩ := expired
    exact beyond (inCalendar_of_expired isExpired)

end Pruning

/-! ## One old and one new snapshot -/

/-- A store with a snapshot of the year 2020 and one of the day before. -/
def oldAndNew : World where
  tree := besideOther (Text.encode (timed "2025-12-31T12:00:00").render.toList)
  now := ⟨2026, 1, 1, 12, 0, 0, 0⟩

theorem takenAt_oldAndNew : TakenAt homeStore oldAndNew.tree "good" ⟨2020, 1, 1, 0, 0, 0, 0⟩ ∧
    TakenAt homeStore oldAndNew.tree "other" ⟨2025, 12, 31, 12, 0, 0, 0⟩ := by
  have readsBack := readsBack_timed "2025-12-31T12:00:00"
  have other : Takes homeStore oldAndNew.tree JsonValue.nestingLimit "other" (.string "2025-12-31T12:00:00") :=
    ⟨_, ⟨_, _, rfl, rfl, JsonValue.readText_render readsBack.writable, JsonValue.ofText_render readsBack (shallow_timed _)⟩,
      rfl, rfl⟩
  exact ⟨⟨_, takes_besideOther _, by decide⟩, _, other, by decide⟩

theorem dated_oldAndNew : Dated homeStore oldAndNew.tree := by
  rintro name ⟨_, isFile⟩
  rw [Tree.isFile] at isFile
  split at isFile
  · rename_i content held
    have member := (wellFormed_besideOther _).mem_rows_iff.mpr ⟨List.cons_ne_nil _ _, held⟩
    simp only [besideOther, List.mem_cons, List.not_mem_nil, or_false, Prod.mk.injEq, Entry.file.injEq, reduceCtorEq,
      and_false, false_or] at member
    rcases member with ⟨place, _⟩ | ⟨place, _⟩
    · obtain ⟨rfl, _⟩ := List.cons.inj (List.cons.inj place).2
      exact ⟨_, takenAt_oldAndNew.1⟩
    · obtain ⟨rfl, _⟩ := List.cons.inj (List.cons.inj place).2
      exact ⟨_, takenAt_oldAndNew.2⟩
  · cases isFile

theorem lasting_homeStore (tree : Tree) (days : Int) (now : Moment) : Lasting homeStore tree days now := by
  rintro first second _ _ _ ⟨turn, isTurn, _⟩
  rw [Path.turns, turnsFrom_of_no_parent (by decide)] at isTurn
  cases isTurn

theorem oldAndNew_retains_new : oldAndNew.tree.WellFormed ∧ oldAndNew.now.isValid = true ∧ (0 : Int) ≤ 30 ∧
    Dated homeStore oldAndNew.tree ∧ ∃ names world', homeStore.prune 30 oldAndNew.now false oldAndNew = (.ok names, world') ∧
      Retains homeStore 30 oldAndNew.now oldAndNew names world' ∧ "good" ∈ names ∧ "other" ∉ names := by
  have wellFormed : oldAndNew.tree.WellFormed := wellFormed_besideOther _
  have valid : oldAndNew.now.isValid = true := by decide
  have inCalendar : InCalendar 30 oldAndNew.now := by
    unfold InCalendar
    decide
  obtain ⟨names, world', pruned, retains⟩ :=
    (prune_retains_iff_lasting wellFormed valid (by decide) dated_oldAndNew).1 inCalendar (lasting_homeStore _ 30 _)
  refine ⟨wellFormed, valid, by decide, dated_oldAndNew, names, world', pruned, retains, ?_, ?_⟩
  · rw [retains.mem_iff]
    refine ⟨_, takenAt_oldAndNew.1, ?_⟩
    unfold Expired
    decide
  · rw [retains.mem_iff]
    rintro ⟨taken, isTaken, expired⟩
    obtain rfl := isTaken.unique takenAt_oldAndNew.2
    unfold Expired at expired
    revert expired
    decide

/-- A million days are accepted for how long snapshots are kept, and then old ones cannot be told from new ones. -/
theorem million_days_beyond_calendar : oldAndNew.tree.WellFormed ∧ oldAndNew.now.isValid = true ∧ (0 : Int) ≤ 1000000 ∧
    Dated homeStore oldAndNew.tree ∧
      homeStore.prune 1000000 oldAndNew.now false oldAndNew = (.error .beyondCalendar, oldAndNew) := by
  have beyond : ¬ InCalendar 1000000 oldAndNew.now := by
    unfold InCalendar
    decide
  refine ⟨wellFormed_besideOther _, by decide, by decide, dated_oldAndNew, ?_⟩
  rw [prune, daysBefore?_of_beyond beyond]

end SnapshotStore
end Deadwood
