import Mathlib.Logic.Relation
import Deadwood.Proofs.FirstRemovals
import Deadwood.Proofs.LoneDeletions
import Deadwood.Proofs.ShrinkingRemovals

/-!
# Paths that are spelled in several ways

A session keeps the texts that it has cut, and the files that it has deleted, by the path as it is spelled; the tree has one
file for all spellings. What a deletion takes away stays away until a function is cut out of a text that the session had kept
under another spelling when the deletion was made: that text knows nothing of the deletion, and what is left of it is written.
-/

set_option autoImplicit false
namespace Deadwood

open Files

def Removal.LeftOf : List Char → List Char → Prop :=
  Relation.ReflTransGen fun text shorter => ∃ isPage name span, remove? isPage name text = some (shorter, span)

namespace Removal.LeftOf

variable {text left : List Char}

theorem return_not_mem (isLeft : LeftOf text left) (noReturn : '\r' ∉ text) : '\r' ∉ left := by
  induction isLeft with
  | refl => exact noReturn
  | tail _ cut ih =>
      obtain ⟨_, _, _, removed⟩ := cut
      exact return_not_mem_of_remove? removed ih

theorem eq_or_shorter (isLeft : LeftOf text left) : left = text ∨ left.length < text.length := by
  induction isLeft with
  | refl => exact Or.inl rfl
  | tail _ cut ih =>
      obtain ⟨_, _, _, removed⟩ := cut
      obtain ⟨_, located, same⟩ := Option.map_eq_some_iff.mp removed
      obtain ⟨rfl, rfl⟩ := Prod.mk.inj same
      have shorter := length_cut_lt located
      rcases ih with rfl | before
      · exact Or.inr shorter
      · exact Or.inr (shorter.trans before)

end Removal.LeftOf

namespace DeletionSession

/-- An item is deleted, and the deletion is recorded. -/
def Records (session : DeletionSession) (item : DeletionItem) : Prop :=
  (item.deleteIn session).2.isSome = true

instance (session : DeletionSession) (item : DeletionItem) : Decidable (session.Records item) :=
  inferInstanceAs (Decidable (_ = true))

/-! ## What an item comes to -/

section Outcomes

variable {session : DeletionSession} {item : DeletionItem} {path name : String} {location : Location} {text : List Char}

theorem exists_of_textOf (read : session.textOf path = .ok (location, text)) :
    location = placeOf session.root path ∧ path ∉ session.removed ∧
      (session.pending.lookup path = some text ∨ session.pending.lookup path = none ∧
        ∃ content, session.tree.entry? location = some (.file content) ∧ readText content = .ok text) := by
  cases resolved : session.resolve path with
  | error fault => cases (textOf_of_unresolved resolved).symm.trans read
  | ok place =>
      obtain rfl := (of_resolve resolved).1
      obtain rfl : location = _ := (of_textOf read).1
      by_cases gone : path ∈ session.removed
      · cases (textOf_of_removed resolved gone).symm.trans read
      refine ⟨rfl, gone, ?_⟩
      cases edited : session.pending.lookup path with
      | some kept =>
          obtain ⟨_, rfl⟩ := Prod.mk.inj (Except.ok.inj ((textOf_of_pending resolved gone edited).symm.trans read))
          exact Or.inl rfl
      | none =>
          by_cases isFile : ∃ content, session.tree.entry? (placeOf session.root path) = some (.file content)
          · obtain ⟨content, held⟩ := isFile
            refine Or.inr ⟨rfl, content, held, ?_⟩
            rw [textOf_of_file resolved gone edited held] at read
            cases decoded : readText content with
            | error error =>
                rw [decoded] at read
                cases read
            | ok whole =>
                rw [decoded] at read
                rw [(Prod.mk.inj (Except.ok.inj read)).2]
          · obtain ⟨fault, unread⟩ := exists_textOf_error resolved gone edited (not_exists.mp isFile)
            cases unread.symm.trans read

theorem step_file (path : String) : session.step (.file path) = (session.deleteFile path).1 :=
  rfl

theorem step_function (path name : String) : session.step (.function path name) = (session.deleteFunction path name).1 :=
  rfl

theorem records_file (path : String) : session.Records (.file path) = ((session.deleteFile path).2.isSome = true) :=
  rfl

theorem records_function (path name : String) :
    session.Records (.function path name) = ((session.deleteFunction path name).2.isSome = true) :=
  rfl

theorem follows_step (session : DeletionSession) (item : DeletionItem) : Follows [item.path] session (session.step item) := by
  cases item with
  | file path =>
      rw [step_file]
      exact follows_deleteFile (List.mem_singleton_self path)
  | function path name =>
      rw [step_function]
      exact follows_deleteFunction (List.mem_singleton_self path)

@[simp] theorem pending_noteOriginal : (session.noteOriginal path text).pending = session.pending := by
  unfold noteOriginal
  split <;> rfl

theorem record_of_unwritten {resolved : Except DeletionFault Location} {shorter : List Char} {span : FunctionSpan}
    {fault : DeletionFault}
    (read : session.textOf path resolved = .ok (location, text))
    (removes : Removal.remove? (isPagePath path) name text = some (shorter, span))
    (unwritten : (if session.dryRun then .ok session.tree
      else faultAt location (session.tree.write location (Text.encode shorter))) = .error fault) :
    (session.deleteFunction path name resolved).2 = none := by
  rw [deleteFunction, read]
  dsimp only
  rw [removes]
  dsimp only
  by_cases edited : (session.pending.lookup path).isSome = true
  · rw [if_pos edited, unwritten]
  · rw [if_neg edited, unwritten]

/-- What a session that performs its deletions does with an item: nothing that matters to a file, or it removes a file, or it
cuts a function out of what it has of one. -/
inductive Outcome (session : DeletionSession) (item : DeletionItem) : Prop where
  | failed (unrecorded : ¬ session.Records item) (tree : (session.step item).tree = session.tree)
      (pending : (session.step item).pending = session.pending) (removed : (session.step item).removed = session.removed)
  | deleted (path : String) (isFile : item = .file path)
      (pending : (session.step item).pending = session.pending.filter (·.1 ≠ path))
      (removed : (session.step item).removed = session.removed ++ [path])
      (entries : ∀ place, (session.step item).tree.entry? place =
        if place = placeOf session.root path then none else session.tree.entry? place)
  | cut (path name : String) (text shorter : List Char) (span : FunctionSpan) (isFunction : item = .function path name)
      (recorded : session.Records item)
      (read : session.textOf path = .ok (placeOf session.root path, text))
      (removes : Removal.remove? (isPagePath path) name text = some (shorter, span))
      (pending : (session.step item).pending = putText path shorter session.pending)
      (removed : (session.step item).removed = session.removed)
      (entries : ∀ place, (session.step item).tree.entry? place =
        if place = placeOf session.root path then some (.file (Text.encode shorter)) else session.tree.entry? place)

theorem Outcome.of_fail {noted : DeletionSession} {symbol : Option String} {fault : DeletionFault}
    (unrecorded : ¬ session.Records item) (fails : session.step item = noted.fail path symbol fault)
    (tree : noted.tree = session.tree) (pending : noted.pending = session.pending) (removed : noted.removed = session.removed) :
    Outcome session item := by
  refine .failed unrecorded ?_ ?_ ?_
  · rw [fails]
    exact tree
  · rw [fails]
    exact pending
  · rw [fails]
    exact removed

theorem present_of_withoutFile {resolved : Except DeletionFault Location} {keeps : Bool} {found : Tree × Nat}
    (without : session.withoutFile path resolved keeps = .ok found) : path ∉ session.removed := by
  intro gone
  obtain ⟨fault, aimed⟩ : ∃ fault, session.target path resolved = .error fault := by
    cases resolved with
    | error fault => exact ⟨fault, rfl⟩
    | ok place =>
        refine ⟨.alreadyDeleted path, ?_⟩
        simp only [target, bind, Except.bind, List.contains_iff_mem.mpr gone, if_true]
        rfl
  rw [withoutFile, aimed] at without
  cases without

theorem outcome_file (performs : session.dryRun = false) (wellFormed : session.tree.WellFormed) (path : String) :
    Outcome session (.file path) := by
  cases without : session.withoutFile path with
  | error fault =>
      have fails : session.deleteFile path = (session.fail path none fault, none) := deleteFile_of_withoutFile_error without
      refine .of_fail ?_ (by rw [step_file, fails]) rfl rfl rfl
      rw [records_file, fails]
      exact Bool.false_ne_true
  | ok found =>
      obtain ⟨tree, size⟩ := found
      have deletes : session.step (.file path) = session.afterFile tree path size := by
        rw [step_file, deleteFile_of_withoutFile without (present_of_withoutFile without)]
      rcases exists_of_withoutFile without with ⟨dry, _⟩ | ⟨_, _, removed⟩
      · cases dry.symm.trans performs
      · refine .deleted path rfl (by rw [deletes]; rfl) (by rw [deletes]; rfl) fun place => ?_
        rw [deletes]
        exact Tree.entry?_remove wellFormed removed place

theorem outcome_written {shorter : List Char} {span : FunctionSpan} (performs : session.dryRun = false)
    (read : session.textOf path = .ok (placeOf session.root path, text))
    (removes : Removal.remove? (isPagePath path) name text = some (shorter, span)) : Outcome session (.function path name) := by
  cases written : session.tree.write (placeOf session.root path) (Text.encode shorter) with
  | error fault =>
      have unwritten : (if session.dryRun then .ok session.tree
          else faultAt (placeOf session.root path) (session.tree.write (placeOf session.root path) (Text.encode shorter))) =
            .error (.fileFault ⟨fault, (placeOf session.root path).toString⟩) := by
        rw [performs, written]
        rfl
      refine .of_fail ?_ ((step_function path name).trans (deleteFunction_of_unwritten read removes unwritten))
        tree_noteOriginal pending_noteOriginal removed_noteOriginal
      rw [records_function, record_of_unwritten read removes unwritten]
      exact Bool.false_ne_true
  | ok tree =>
      have done : (if session.dryRun then .ok session.tree
          else faultAt (placeOf session.root path) (session.tree.write (placeOf session.root path) (Text.encode shorter))) =
            .ok tree := by
        rw [performs, written]
        rfl
      have cuts : session.step (.function path name) =
          (session.noteOriginal path text).afterCut tree path name text shorter span :=
        (step_function path name).trans (deleteFunction_of_written read removes done)
      refine .cut path name text shorter span rfl ?_ read removes ?_ ?_ fun place => ?_
      · rw [records_function, record_of_written read removes performs written]
        rfl
      · rw [cuts, afterCut, pending_noteOriginal]
      · rw [cuts, afterCut, removed_noteOriginal]
      · rw [cuts]
        exact Tree.entry?_write written place

theorem outcome_function (performs : session.dryRun = false) (path name : String) :
    Outcome session (.function path name) := by
  cases read : session.textOf path with
  | error fault =>
      refine .of_fail ?_ ((step_function path name).trans (deleteFunction_of_error read)) rfl rfl rfl
      rw [records_function, record_of_textOf_error read]
      exact Bool.false_ne_true
  | ok found =>
      obtain ⟨location, text⟩ := found
      obtain rfl : location = placeOf session.root path := (of_textOf read).1
      cases removes : Removal.remove? (isPagePath path) name text with
      | none =>
          refine .of_fail ?_ ((step_function path name).trans (deleteFunction_of_absent read removes))
            tree_noteOriginal pending_noteOriginal removed_noteOriginal
          rw [records_function, record_of_absent read removes]
          exact Bool.false_ne_true
      | some removal => exact outcome_written performs read removes

/-- A session does one of three things with an item. -/
theorem outcome_step (performs : session.dryRun = false) (wellFormed : session.tree.WellFormed) (item : DeletionItem) :
    Outcome session item := by
  cases item with
  | file path => exact outcome_file performs wellFormed path
  | function path name => exact outcome_function performs path name

end Outcomes

/-! ## Sessions under way -/

/-- A session below a root that performs its deletions and keeps texts as they are read. -/
structure Performs (root : Location) (session : DeletionSession) : Prop where
  root : session.root = root
  performs : session.dryRun = false
  wellFormed : session.tree.WellFormed
  noReturn : ∀ path text, session.pending.lookup path = some text → '\r' ∉ text

namespace Performs

variable {root : Location} {session : DeletionSession} {tree : Tree}

theorem start (wellFormed : tree.WellFormed) (root : Location) (now : Moment) (id : String) :
    Performs root (realStart tree root now id) where
  root := rfl
  performs := rfl
  wellFormed := wellFormed
  noReturn _ _ edited := by cases edited

theorem return_not_mem_of_textOf (performing : Performs root session) {path : String} {location : Location} {text : List Char}
    (read : session.textOf path = .ok (location, text)) : '\r' ∉ text := by
  obtain ⟨_, _, edited | ⟨_, content, _, decoded⟩⟩ := exists_of_textOf read
  · exact performing.noReturn path text edited
  · exact Text.return_not_mem_of_readText decoded

theorem outcome (performing : Performs root session) (item : DeletionItem) : Outcome session item :=
  outcome_step performing.performs performing.wellFormed item

theorem step (performing : Performs root session) (item : DeletionItem) : Performs root (session.step item) := by
  have follows := follows_step session item
  refine ⟨follows.root.trans performing.root, follows.dryRun.trans performing.performs,
    follows.wellFormed performing.wellFormed, fun other kept edited => ?_⟩
  cases performing.outcome item with
  | failed _ _ pending _ =>
      rw [pending] at edited
      exact performing.noReturn other kept edited
  | deleted path _ pending _ _ =>
      rw [pending, lookup_filter_ne] at edited
      split at edited
      · cases edited
      · exact performing.noReturn other kept edited
  | cut path name text shorter span _ _ read removes pending _ _ =>
      rw [pending, lookup_putText] at edited
      split at edited
      · rw [← Option.some.inj edited]
        exact Removal.return_not_mem_of_remove? removes (performing.return_not_mem_of_textOf read)
      · exact performing.noReturn other kept edited

theorem run (performing : Performs root session) (items : List DeletionItem) :
    Performs root (items.foldl DeletionSession.step session) := by
  induction items generalizing session with
  | nil => exact performing
  | cons item rest ih => exact ih (performing.step item)

end Performs

/-! ## What stays away -/

def Respells (session : DeletionSession) (path other : String) : Prop :=
  other ≠ path ∧ placeOf session.root other = placeOf session.root path ∧ (session.pending.lookup other).isSome

/-- An item cuts a function out of what had been kept of the file under another spelling of the path. -/
def Revives (done : DeletionSession) (path : String) (session : DeletionSession) : DeletionItem → Prop
  | .file _ => False
  | .function other name => Respells done path other ∧ session.Records (.function other name)

/-- No item of a list revives what had been kept. -/
def Spares (done : DeletionSession) (path : String) : DeletionSession → List DeletionItem → Prop
  | _, [] => True
  | session, item :: rest => ¬ Revives done path session item ∧ Spares done path (session.step item) rest

/-- What is taken away by an item in a session is not in a place: a deleted file does not exist, and of a text that a function
is cut out of there is at most what other cuts leave of it. -/
inductive StaysAway (session : DeletionSession) : DeletionItem → Option Entry → Prop where
  | file (path : String) : StaysAway session (.file path) none
  | gone (path name : String) : StaysAway session (.function path name) none
  | function {path name : String} {text shorter left : List Char} {span : FunctionSpan}
      (read : session.textOf path = .ok (placeOf session.root path, text))
      (removes : Removal.remove? (isPagePath path) name text = some (shorter, span)) (isLeft : Removal.LeftOf shorter left) :
      StaysAway session (.function path name) (some (.file (Text.encode left)))

section Staying

variable {root : Location} {before done session : DeletionSession} {item next : DeletionItem} {content : Bytes}
  {text shorter : List Char} {span : FunctionSpan} {path name : String}

theorem StaysAway.of_none (item : DeletionItem) : StaysAway before item none := by
  cases item with
  | file path => exact .file path
  | function path name => exact .gone path name

/-- What is read from a place where nothing came back has nothing come back. -/
theorem StaysAway.of_readText (performing : Performs root before) (away : StaysAway before item (some (.file content)))
    (decoded : readText content = .ok text) : StaysAway before item (some (.file (Text.encode text))) := by
  cases away with
  | function read removes isLeft =>
      have noReturn := Removal.return_not_mem_of_remove? removes (performing.return_not_mem_of_textOf read)
      rw [Text.readText_encode (isLeft.return_not_mem noReturn)] at decoded
      rw [← Except.ok.inj decoded]
      exact .function read removes isLeft

theorem StaysAway.exists_of_encode {left : List Char} (away : StaysAway before item (some (.file (Text.encode left)))) :
    ∃ path name text shorter span, item = .function path name ∧ before.textOf path = .ok (placeOf before.root path, text) ∧
      Removal.remove? (isPagePath path) name text = some (shorter, span) ∧ Removal.LeftOf shorter left := by
  -- the text is known from its bytes only
  generalize stored : Text.encode left = bytes at away
  cases away with
  | function read removes isLeft =>
      have same := (congrArg Text.decode stored).trans (Text.decode_encode _)
      obtain rfl := Except.ok.inj ((Text.decode_encode left).symm.trans same)
      exact ⟨_, _, _, _, _, rfl, read, removes, isLeft⟩

theorem StaysAway.leftOf {location : Location} {left : List Char}
    (away : StaysAway before (.function path name) (some (.file (Text.encode left))))
    (read : before.textOf path = .ok (location, text))
    (removes : Removal.remove? (isPagePath path) name text = some (shorter, span)) : Removal.LeftOf shorter left := by
  obtain ⟨_, _, _, _, _, same, readToo, removesToo, isLeft⟩ := away.exists_of_encode
  obtain ⟨rfl, rfl⟩ := DeletionItem.function.inj same
  obtain ⟨_, rfl⟩ := Prod.mk.inj (Except.ok.inj (readToo.symm.trans read))
  obtain ⟨rfl, _⟩ := Prod.mk.inj (Option.some.inj (removesToo.symm.trans removes))
  exact isLeft

theorem StaysAway.of_remove? {isPage : Bool} (away : StaysAway before item (some (.file (Text.encode text))))
    (removed : Removal.remove? isPage name text = some (shorter, span)) :
    StaysAway before item (some (.file (Text.encode shorter))) := by
  obtain ⟨_, _, _, _, _, rfl, read, removes, isLeft⟩ := away.exists_of_encode
  exact .function read removes (isLeft.tail ⟨isPage, name, span, removed⟩)

/-- What an item took away stays away from its file, and from every text that is kept of the file but those that had been kept
under other spellings; these are as they were, or their path is deleted. -/
structure Holds (before done : DeletionSession) (item : DeletionItem) (session : DeletionSession) : Prop where
  away : StaysAway before item (session.tree.entry? (placeOf done.root item.path))
  kept : ∀ path text, placeOf done.root path = placeOf done.root item.path → ¬ Respells done item.path path →
    session.pending.lookup path = some text → StaysAway before item (some (.file (Text.encode text)))
  respelled : ∀ path, Respells done item.path path →
    session.pending.lookup path = done.pending.lookup path ∨ path ∈ session.removed

/-- A recorded deletion takes away what it is to take away. -/
theorem holds_of_recorded (performing : Performs root before) (recorded : before.Records item) :
    Holds before (before.step item) item (before.step item) := by
  have sameRoot : (before.step item).root = before.root := (performing.step item).root.trans performing.root.symm
  cases performing.outcome item with
  | failed unrecorded _ _ _ => exact absurd recorded unrecorded
  | deleted path isFile pending _ entries =>
      subst isFile
      refine ⟨?_, fun other text same notRespelled edited => ?_, fun _ _ => Or.inl rfl⟩
      · rw [entries, sameRoot, if_pos (by rfl)]
        exact .file path
      · have isPath : other = path := not_not.mp fun differs =>
          notRespelled ⟨differs, same, Option.isSome_of_eq_some edited⟩
        rw [pending, lookup_filter_ne, if_pos isPath] at edited
        cases edited
  | cut path name text shorter span isFunction _ read removes pending _ entries =>
      subst isFunction
      have left : StaysAway before (.function path name) (some (.file (Text.encode shorter))) :=
        .function read removes .refl
      refine ⟨?_, fun other kept same notRespelled edited => ?_, fun _ _ => Or.inl rfl⟩
      · rw [entries, sameRoot, if_pos (by rfl)]
        exact left
      · have isPath : other = path := not_not.mp fun differs =>
          notRespelled ⟨differs, same, Option.isSome_of_eq_some edited⟩
        rw [pending, lookup_putText, if_pos isPath] at edited
        rw [← Option.some.inj edited]
        exact left

/-- The text that is cut from has nothing come back, unless it had been kept under another spelling. -/
theorem Holds.staysAway_of_textOf (holds : Holds before done item session) (performing : Performs root before)
    (sameRoot : session.root = done.root) (same : placeOf done.root path = placeOf done.root item.path)
    (notRespelled : ¬ Respells done item.path path) {location : Location} (read : session.textOf path = .ok (location, text)) :
    StaysAway before item (some (.file (Text.encode text))) := by
  obtain ⟨rfl, _, edited | ⟨_, content, held, decoded⟩⟩ := exists_of_textOf read
  · exact holds.kept path text same notRespelled edited
  · have away := holds.away
    rw [← same, ← sameRoot, held] at away
    exact away.of_readText performing decoded

/-- An item that does not revive what had been kept leaves away what stays away. -/
theorem Holds.step (holds : Holds before done item session) (started : Performs root before) (performing : Performs root session)
    (sameRoot : session.root = done.root) (spares : ¬ Revives done item.path session next) :
    Holds before done item (session.step next) := by
  cases performing.outcome next with
  | failed _ tree pending removed =>
      refine ⟨?_, fun other text => ?_, fun other respelled => ?_⟩
      · rw [tree]
        exact holds.away
      · rw [pending]
        exact holds.kept other text
      · rw [pending, removed]
        exact holds.respelled other respelled
  | deleted path _ pending removed entries =>
      refine ⟨?_, fun other text same notRespelled edited => ?_, fun other respelled => ?_⟩
      · rw [entries]
        split
        · exact .of_none item
        · exact holds.away
      · rw [pending, lookup_filter_ne] at edited
        split at edited
        · cases edited
        · exact holds.kept other text same notRespelled edited
      · rw [pending, removed, lookup_filter_ne]
        rcases holds.respelled other respelled with unchanged | gone
        · split
          · rename_i isPath
            exact Or.inr (List.mem_append_right _ (List.mem_singleton.mpr isPath))
          · exact Or.inl unchanged
        · exact Or.inr (List.mem_append_left _ gone)
  | cut path name text shorter span isFunction recorded read removes pending removed entries =>
      subst isFunction
      have notRespelled : ¬ Respells done item.path path := fun respelled => spares ⟨respelled, recorded⟩
      have left (same : placeOf done.root path = placeOf done.root item.path) :
          StaysAway before item (some (.file (Text.encode shorter))) :=
        (holds.staysAway_of_textOf started sameRoot same notRespelled read).of_remove? removes
      refine ⟨?_, fun other kept same otherNot edited => ?_, fun other respelled => ?_⟩
      · rw [entries, sameRoot]
        split
        · rename_i here
          exact left here.symm
        · exact holds.away
      · rw [pending, lookup_putText] at edited
        split at edited
        · rename_i isPath
          rw [← Option.some.inj edited]
          exact left (isPath ▸ same)
        · exact holds.kept other kept same otherNot edited
      · have differs : other ≠ path := fun isPath => notRespelled (isPath ▸ respelled)
        rw [pending, removed, lookup_putText, if_neg differs]
        exact holds.respelled other respelled

theorem Holds.run (holds : Holds before done item session) (started : Performs root before) (performing : Performs root session)
    (sameRoot : done.root = root) {items : List DeletionItem} (spares : Spares done item.path session items) :
    Holds before done item (items.foldl DeletionSession.step session) := by
  induction items generalizing session with
  | nil => exact holds
  | cons next rest ih =>
      exact ih (holds.step started performing (performing.root.trans sameRoot.symm) spares.1) (performing.step next) spares.2

end Staying

/-! ## What comes back -/

/-- A text that a place has held after some of the items. -/
def HeldAfter (start : DeletionSession) (items : List DeletionItem) (place : Location) (text : List Char) : Prop :=
  ∃ first rest, items = first ++ rest ∧ (first.foldl step start).tree.entry? place = some (.file (Text.encode text))

theorem heldAfter_of_pending {root : Location} {start : DeletionSession} (performing : Performs root start)
    (nothing : start.pending = []) (items : List DeletionItem) {path : String} {text : List Char}
    (kept : (items.foldl step start).pending.lookup path = some text) : HeldAfter start items (placeOf root path) text := by
  induction items using List.reverseRecOn generalizing text with
  | nil =>
      rw [List.foldl_nil, nothing] at kept
      cases kept
  | append_singleton first last ih =>
      have grow {older : List Char} (held : HeldAfter start first (placeOf root path) older) :
          HeldAfter start (first ++ [last]) (placeOf root path) older := by
        obtain ⟨some, rest, rfl, held⟩ := held
        exact ⟨some, rest ++ [last], List.append_assoc .., held⟩
      have underWay := performing.run first
      rw [List.foldl_concat] at kept
      cases underWay.outcome last with
      | failed _ _ pending _ =>
          rw [pending] at kept
          exact grow (ih kept)
      | deleted other _ pending _ _ =>
          rw [pending, lookup_filter_ne] at kept
          split at kept
          · cases kept
          · exact grow (ih kept)
      | cut other name read shorter span _ _ _ _ pending _ entries =>
          rw [pending, lookup_putText] at kept
          split at kept
          · rename_i isPath
            refine ⟨first ++ [last], [], (List.append_nil _).symm, ?_⟩
            rw [List.foldl_concat, entries, underWay.root, if_pos (by rw [isPath]), Option.some.inj kept]
          · exact grow (ih kept)

/-- An item leaves alone what is kept under other spellings. -/
theorem lookup_pending_step {root : Location} {session : DeletionSession} (performing : Performs root session)
    {item : DeletionItem} {other : String} (differs : other ≠ item.path) :
    (session.step item).pending.lookup other = session.pending.lookup other := by
  cases performing.outcome item with
  | failed _ _ pending _ => rw [pending]
  | deleted path isFile pending _ _ =>
      subst isFile
      rw [pending, lookup_filter_ne]
      exact if_neg differs
  | cut path name text shorter span isFunction _ _ _ pending _ _ =>
      subst isFunction
      rw [pending, lookup_putText]
      exact if_neg differs

/-- Items that spell the path of a file alike revive nothing. -/
theorem spares_of_alike {done : DeletionSession} {path : String} {items : List DeletionItem}
    (alike : ∀ next ∈ items, placeOf done.root next.path = placeOf done.root path → next.path = path)
    (session : DeletionSession) : Spares done path session items := by
  induction items generalizing session with
  | nil => trivial
  | cons next rest ih =>
      refine ⟨fun revives => ?_, ih (fun other listed => alike other (List.mem_cons_of_mem next listed)) (session.step next)⟩
      cases next with
      | file other => exact revives
      | function other name => exact revives.1.1 (alike _ List.mem_cons_self revives.1.2.1)

/-- What a recorded deletion takes away stays away, whatever is deleted afterwards, until a function is cut out of a text that
the session had kept of the file under another spelling. Then the file holds what is left of that text, which is one that it
held before the deletion: a deleted file exists again, and what was cut out of the file since is back. -/
theorem deletions_last_until_revived {tree : Tree} (wellFormed : tree.WellFormed) (root : Location) (now : Moment) (id : String)
    (earlier : List DeletionItem) (item : DeletionItem)
    (recorded : (earlier.foldl step (realStart tree root now id)).Records item) :
    let before := earlier.foldl step (realStart tree root now id)
    let done := before.step item
    ∀ later, Spares done item.path done later →
      StaysAway before item ((later.foldl step done).tree.entry? (placeOf root item.path)) ∧
        ∀ path name, Revives done item.path (later.foldl step done) (.function path name) →
          ∃ text shorter span, HeldAfter (realStart tree root now id) earlier (placeOf root item.path) text ∧
            Removal.remove? (isPagePath path) name text = some (shorter, span) ∧
            ((later.foldl step done).step (.function path name)).tree.entry? (placeOf root item.path) =
              some (.file (Text.encode shorter)) := by
  intro before done later spares
  have started : Performs root (realStart tree root now id) := .start wellFormed root now id
  have performing : Performs root before := started.run earlier
  have doneRoot : done.root = root := (performing.step item).root
  have underWay : Performs root (later.foldl step done) := (performing.step item).run later
  have holds := (holds_of_recorded performing recorded).run performing (performing.step item) doneRoot spares
  refine ⟨doneRoot ▸ holds.away, fun path name revives => ?_⟩
  obtain ⟨respells, again⟩ := revives
  cases underWay.outcome (.function path name) with
  | failed unrecorded _ _ _ => exact absurd again unrecorded
  | deleted _ isFile _ _ _ => cases isFile
  | cut _ _ text shorter span isFunction _ read removes _ _ entries =>
      cases isFunction
      have edited : done.pending.lookup path = some text := by
        obtain ⟨older, kept⟩ := Option.isSome_iff_exists.mp respells.2.2
        obtain ⟨_, present, found⟩ := exists_of_textOf read
        have unchanged := (holds.respelled path respells).resolve_right present
        rcases found with edited | ⟨unedited, _⟩
        · exact unchanged ▸ edited
        · cases (unchanged.symm.trans unedited).symm.trans kept
      rw [lookup_pending_step performing respells.1] at edited
      have same : placeOf root path = placeOf root item.path := doneRoot ▸ respells.2.1
      refine ⟨text, shorter, span, same ▸ heldAfter_of_pending started rfl earlier edited, removes, ?_⟩
      rw [entries, underWay.root, if_pos same.symm]

/-! ## Two spellings -/

def threeFunctions : Tree :=
  ⟨[(["src"], .directory),
    (["src", "a.gs"], .file (Text.encode "function f() \x7b\x7d\nfunction g() \x7b\x7d\nfunction h() \x7b\x7d\n".toList))]⟩

/-- A session in which a function has been cut out of the file. -/
def firstSpelled : DeletionSession :=
  (realStart threeFunctions ["src"] ⟨2026, 1, 1, 12, 0, 0, 0⟩ "s").step (.function "a.gs" "f")

/-- A second function is cut out under another spelling, and stays away as long as the path is spelled so. A third function
that is then cut out under the first spelling is cut out of an older text. -/
theorem secondSpelled_lasts_until_revived :
    threeFunctions.WellFormed ∧ firstSpelled.Records (.function "./a.gs" "g") ∧
    StaysAway firstSpelled (.function "./a.gs" "g")
      (((firstSpelled.step (.function "./a.gs" "g")).step (.function "./a.gs" "h")).tree.entry? ["src", "a.gs"]) ∧
    ∃ text shorter span, HeldAfter (realStart threeFunctions ["src"] ⟨2026, 1, 1, 12, 0, 0, 0⟩ "s") [.function "a.gs" "f"]
        ["src", "a.gs"] text ∧
      Removal.remove? (isPagePath "a.gs") "h" text = some (shorter, span) ∧
      ((firstSpelled.step (.function "./a.gs" "g")).step (.function "a.gs" "h")).tree.entry? ["src", "a.gs"] =
        some (.file (Text.encode shorter)) := by
  have wellFormed : threeFunctions.WellFormed := ⟨by decide, by decide, by decide⟩
  have recorded : firstSpelled.Records (.function "./a.gs" "g") := by decide +kernel
  have lasts := deletions_last_until_revived wellFormed ["src"] ⟨2026, 1, 1, 12, 0, 0, 0⟩ "s" [.function "a.gs" "f"]
    (.function "./a.gs" "g") recorded
  have place : placeOf ["src"] "./a.gs" = ["src", "a.gs"] := by decide +kernel
  have path : DeletionItem.path (.function "./a.gs" "g") = "./a.gs" := rfl
  have start : (realStart threeFunctions ["src"] ⟨2026, 1, 1, 12, 0, 0, 0⟩ "s").step (.function "a.gs" "f") = firstSpelled := rfl
  simp only [List.foldl_cons, List.foldl_nil, place, path, start] at lasts
  have alike : Spares (firstSpelled.step (.function "./a.gs" "g")) "./a.gs" (firstSpelled.step (.function "./a.gs" "g"))
      [.function "./a.gs" "h"] := by
    refine spares_of_alike (fun next listed _ => ?_) _
    rw [List.mem_singleton.mp listed]
    rfl
  have revives : Revives (firstSpelled.step (.function "./a.gs" "g")) "./a.gs" (firstSpelled.step (.function "./a.gs" "g"))
      (.function "a.gs" "h") :=
    ⟨⟨by decide, by decide +kernel, by decide +kernel⟩, by decide +kernel⟩
  have stays := (lasts [.function "./a.gs" "h"] alike).1
  have undone := (lasts [] trivial).2 "a.gs" "h"
  rw [List.foldl_cons, List.foldl_nil] at stays
  rw [List.foldl_nil] at undone
  exact ⟨wellFormed, recorded, stays, undone revives⟩

theorem textOf_firstSpelled : firstSpelled.textOf "./a.gs" =
    .ok (["src", "a.gs"], "function g() \x7b\x7d\nfunction h() \x7b\x7d\n".toList) := by
  have found : (firstSpelled.textOf "./a.gs").toOption =
      some (["src", "a.gs"], "function g() \x7b\x7d\nfunction h() \x7b\x7d\n".toList) := by decide +kernel
  cases read : firstSpelled.textOf "./a.gs" with
  | error fault =>
      rw [read] at found
      cases found
  | ok pair =>
      rw [read] at found
      exact congrArg Except.ok (Option.some.inj found)

/-- A function that was cut out is back, and a file that was deleted exists again. -/
theorem firstSpelled_undoes_second :
    firstSpelled.Records (.function "./a.gs" "g") ∧
    ¬ StaysAway firstSpelled (.function "./a.gs" "g")
      (((firstSpelled.step (.function "./a.gs" "g")).step (.function "a.gs" "h")).tree.entry? ["src", "a.gs"]) ∧
    firstSpelled.Records (.file "./a.gs") ∧
    ¬ StaysAway firstSpelled (.file "./a.gs")
      (((firstSpelled.step (.file "./a.gs")).step (.function "a.gs" "g")).tree.entry? ["src", "a.gs"]) := by
  have older : ((firstSpelled.step (.function "./a.gs" "g")).step (.function "a.gs" "h")).tree.entry? ["src", "a.gs"] =
      some (.file (Text.encode "function g() \x7b\x7d\n".toList)) := by decide +kernel
  have again : ((firstSpelled.step (.file "./a.gs")).step (.function "a.gs" "g")).tree.entry? ["src", "a.gs"] =
      some (.file (Text.encode "function h() \x7b\x7d\n".toList)) := by decide +kernel
  have removes : Removal.remove? (isPagePath "./a.gs") "g" "function g() \x7b\x7d\nfunction h() \x7b\x7d\n".toList =
      some ("function h() \x7b\x7d\n".toList, ⟨"g", 0, 16, 1, 1⟩) := by decide +kernel
  refine ⟨by decide +kernel, fun away => ?_, by decide +kernel, fun away => ?_⟩
  · rw [older] at away
    rcases (away.leftOf textOf_firstSpelled removes).eq_or_shorter with same | shorter
    · exact absurd same (by decide)
    · exact absurd shorter (by decide)
  · rw [again] at away
    cases away

end DeletionSession
end Deadwood
