import Deadwood.Proofs.LinkedSessions
import Deadwood.Proofs.LiveCode
import Deadwood.Proofs.SessionFrame
import Deadwood.Proofs.TreeCopies
import Deadwood.SourceTree

/-!
# Rehearsals

A dry run keeps in the session what a run writes into the tree, and the two go through a plan in step: the tree of the run is
the tree of the dry run with the texts of the session laid over it and the deleted files taken away. So a dry run tells what
the run will do.
-/

set_option autoImplicit false
namespace Deadwood

open Files

def DeletionRecord.performed (id : String) (record : DeletionRecord) : DeletionRecord :=
  { record with dryRun := false, snapshotId := some id }

namespace DeletionSession

/-! ## Tables of texts -/

theorem lookup_putText (path other : String) (text : List Char) (texts : List (String × List Char)) :
    (putText path text texts).lookup other = if other = path then some text else texts.lookup other := by
  induction texts with
  | nil =>
      by_cases same : other = path
      · simp [putText, Keyed.put, same]
      · simp [putText, Keyed.put, List.lookup_cons, same, beq_false_of_ne same]
  | cons first rest ih =>
      obtain ⟨key, old⟩ := first
      rw [putText] at ih
      by_cases here : key = path
      · by_cases same : other = path
        · simp [putText, Keyed.put, here, same]
        · simp [putText, Keyed.put, List.lookup_cons, here, same, beq_false_of_ne same]
      · rw [putText, Keyed.put, if_neg here, List.lookup_cons, List.lookup_cons, ih]
        by_cases same : other = path
        · subst same
          simp [beq_false_of_ne (Ne.symm here)]
        · simp [same]

theorem filter_ne_of_lookup {path : String} {texts : List (String × List Char)} (absent : texts.lookup path = none) :
    texts.filter (·.1 ≠ path) = texts := by
  refine List.filter_eq_self.mpr fun row member => ?_
  have differs : path ≠ row.1 := bne_iff_ne.mp (List.lookup_eq_none_iff.mp absent row member)
  exact decide_eq_true differs.symm

/-! ## What a session finds -/

section Finding

variable {session : DeletionSession} {path : String} {location : Location} {fault : DeletionFault} {content : Bytes}

theorem target_of_unresolved (failed : session.resolve path = .error fault) : session.target path = .error fault := by
  rw [target, failed]
  rfl

theorem target_of_removed (resolved : session.resolve path = .ok location) (gone : path ∈ session.removed) :
    session.target path = .error (.alreadyDeleted path) := by
  rw [target, resolved]
  simp only [bind, Except.bind, List.contains_iff_mem.mpr gone, if_true]
  rfl

theorem target_of_file (resolved : session.resolve path = .ok location) (present : path ∉ session.removed)
    (held : session.tree.entry? location = some (.file content)) :
    session.target path = .ok (location, content.length) := by
  rw [target, resolved]
  simp only [bind, Except.bind, List.contains_iff_mem, present, if_false, held]
  rfl

theorem textOf_of_unresolved (failed : session.resolve path = .error fault) : session.textOf path = .error fault := by
  rw [textOf, failed]
  rfl

theorem textOf_of_removed (resolved : session.resolve path = .ok location) (gone : path ∈ session.removed) :
    session.textOf path = .error (.alreadyDeleted path) := by
  rw [textOf, resolved]
  simp only [bind, Except.bind, List.contains_iff_mem.mpr gone, if_true]
  rfl

theorem textOf_of_pending {text : List Char} (resolved : session.resolve path = .ok location)
    (present : path ∉ session.removed) (edited : session.pending.lookup path = some text) :
    session.textOf path = .ok (location, text) := by
  rw [textOf, resolved]
  simp only [bind, Except.bind, List.contains_iff_mem, present, if_false, edited]
  rfl

theorem textOf_of_file (resolved : session.resolve path = .ok location) (present : path ∉ session.removed)
    (unedited : session.pending.lookup path = none) (held : session.tree.entry? location = some (.file content)) :
    session.textOf path = match readText content with
      | .ok text => .ok (location, text)
      | .error error => .error (.notText error) := by
  rw [textOf, resolved]
  simp only [bind, Except.bind, List.contains_iff_mem, present, if_false, unedited, Tree.read, held, faultAt]
  rfl

end Finding

/-! ## What a session does with what it finds -/

/-- The session with the text of a path noted as it was read, unless the session has changed it. -/
def noteOriginal (session : DeletionSession) (path : String) (text : List Char) : DeletionSession :=
  if (session.pending.lookup path).isSome then session
  else { session with originals := putText path text session.originals }

def cutRecord (session : DeletionSession) (path name : String) (text shorter : List Char) (span : FunctionSpan) :
    DeletionRecord :=
  { kind := .function, path := path, symbol := some name, snapshotId := session.snapshotId
    sizeBefore := (Text.encode text).length, sizeAfter := (Text.encode shorter).length
    span := some (span.startLine, span.endLine)
    dryRun := session.dryRun, timestamp := session.now.toString }

def afterCut (session : DeletionSession) (tree : Tree) (path name : String) (text shorter : List Char)
    (span : FunctionSpan) : DeletionSession :=
  { session with
    tree := tree
    pending := putText path shorter session.pending
    records := session.records ++ [session.cutRecord path name text shorter span] }

def fileRecord (session : DeletionSession) (path : String) (size : Nat) : DeletionRecord :=
  { kind := .file, path := path, snapshotId := session.snapshotId, sizeBefore := size, sizeAfter := 0,
    dryRun := session.dryRun, timestamp := session.now.toString }

def afterFile (session : DeletionSession) (tree : Tree) (path : String) (size : Nat) : DeletionSession :=
  { session with
    tree := tree
    removed := session.removed ++ [path]
    pending := session.pending.filter (·.1 ≠ path)
    records := session.records ++ [session.fileRecord path size] }

section Doing

variable {resolved : Except DeletionFault Location} {session : DeletionSession} {path name : String} {location : Location}
  {fault : DeletionFault} {text shorter : List Char} {span : FunctionSpan} {size : Nat} {tree : Tree}

@[simp] theorem root_noteOriginal : (session.noteOriginal path text).root = session.root := by
  unfold noteOriginal
  split <;> rfl

@[simp] theorem tree_noteOriginal : (session.noteOriginal path text).tree = session.tree := by
  unfold noteOriginal
  split <;> rfl

@[simp] theorem removed_noteOriginal : (session.noteOriginal path text).removed = session.removed := by
  unfold noteOriginal
  split <;> rfl

theorem deleteFunction_of_error (failed : session.textOf path resolved = .error fault) :
    (session.deleteFunction path name resolved).1 = session.fail path name fault := by
  rw [deleteFunction, failed]

theorem deleteFunction_of_absent (read : session.textOf path resolved = .ok (location, text))
    (absent : Removal.remove? (isPagePath path) name text = none) :
    (session.deleteFunction path name resolved).1 = (session.noteOriginal path text).fail path name .notFound := by
  rw [deleteFunction, read]
  dsimp only
  rw [absent]
  rfl

theorem deleteFunction_of_written (read : session.textOf path resolved = .ok (location, text))
    (cut : Removal.remove? (isPagePath path) name text = some (shorter, span))
    (written : (if session.dryRun then .ok session.tree
      else faultAt location (session.tree.write location (Text.encode shorter))) = .ok tree) :
    (session.deleteFunction path name resolved).1 =
      (session.noteOriginal path text).afterCut tree path name text shorter span := by
  rw [deleteFunction, read, noteOriginal]
  dsimp only
  rw [cut]
  dsimp only
  by_cases edited : (session.pending.lookup path).isSome = true
  · rw [if_pos edited, written]
    rfl
  · rw [if_neg edited, written]
    rfl

theorem deleteFile_of_error (failed : session.target path = .error fault) :
    (session.deleteFile path).1 = session.fail path none fault := by
  rw [deleteFile, withoutFile, failed]
  rfl

theorem deleteFile_of_removed (aimed : session.target path = .ok (location, size)) (present : path ∉ session.removed)
    (removed : (if session.dryRun then .ok session.tree else faultAt location (session.tree.remove location)) = .ok tree) :
    (session.deleteFile path).1 = session.afterFile tree path size := by
  have without : session.withoutFile path = .ok (tree, size) := by
    rw [withoutFile, aimed]
    simp only [bind, Except.bind, pure, Except.pure]
    split at removed
    · rw [if_pos ‹_›, Except.ok.inj removed]
    · rw [if_neg ‹_›, removed]
  have fresh : ¬ session.removed.contains path = true := fun listed => present (List.contains_iff_mem.mp listed)
  rw [deleteFile, without]
  dsimp only
  rw [if_neg fresh]
  rfl

end Doing

/-! ## What a session lays over a tree -/

/-- The later tree is the tree with the texts of some paths in their places and the files of others gone. -/
structure Overlays (root : Location) (tree : Tree) (texts : List (String × List Char)) (removed : List String)
    (later : Tree) : Prop where
  rewritten : ∀ path text, texts.lookup path = some text →
    later.entry? (placeOf root path) = some (.file (Text.encode text))
  gone : ∀ path ∈ removed, later.entry? (placeOf root path) = none
  others : ∀ place, (∀ path, (texts.lookup path).isSome → placeOf root path ≠ place) →
    (∀ path ∈ removed, placeOf root path ≠ place) → later.entry? place = tree.entry? place

namespace Overlays

variable {root : Location} {tree middle later : Tree} {texts : List (String × List Char)} {removed : List String}
  {path : String}

/-- Writing a text where no other path of the overlay leads. -/
theorem rewrite (overlays : Overlays root tree texts removed middle) {text : List Char} (present : path ∉ removed)
    (apart : ∀ other, (texts.lookup other).isSome ∨ other ∈ removed →
      placeOf root other = placeOf root path → other = path)
    (written : ∀ place, later.entry? place =
      if place = placeOf root path then some (.file (Text.encode text)) else middle.entry? place) :
    Overlays root tree (putText path text texts) removed later where
  rewritten other otherText isEdited := by
    rw [lookup_putText] at isEdited
    rw [written]
    split at isEdited
    · rename_i same
      rw [same, if_pos rfl, Option.some.inj isEdited]
    · rename_i differs
      have edited : (texts.lookup other).isSome := Option.isSome_of_eq_some isEdited
      rw [if_neg fun same => differs (apart other (Or.inl edited) same)]
      exact overlays.rewritten other otherText isEdited
  gone other listed := by
    have differs : other ≠ path := fun same => present (same ▸ listed)
    rw [written, if_neg fun same => differs (apart other (Or.inr listed) same)]
    exact overlays.gone other listed
  others place noText noFile := by
    have away : place ≠ placeOf root path := by
      refine Ne.symm (noText path ?_)
      rw [lookup_putText, if_pos rfl]
      rfl
    rw [written, if_neg away]
    refine overlays.others place (fun other edited => noText other ?_) noFile
    rw [lookup_putText]
    split
    · rfl
    · exact edited

/-- Deleting a file where no text of the overlay stands. -/
theorem delete (overlays : Overlays root tree texts removed middle)
    (apart : ∀ other, (texts.lookup other).isSome → placeOf root other ≠ placeOf root path)
    (gone : ∀ place, later.entry? place = if place = placeOf root path then none else middle.entry? place) :
    Overlays root tree texts (removed ++ [path]) later where
  rewritten other text isEdited := by
    rw [gone, if_neg (apart other (Option.isSome_of_eq_some isEdited))]
    exact overlays.rewritten other text isEdited
  gone other listed := by
    rw [gone]
    split
    · rfl
    · rename_i away
      refine overlays.gone other ((List.mem_append.mp listed).resolve_right fun new => away ?_)
      rw [List.mem_singleton.mp new]
  others place noText noFile := by
    have away : place ≠ placeOf root path := Ne.symm (noFile path (List.mem_append_right _ List.mem_cons_self))
    rw [gone, if_neg away]
    exact overlays.others place noText fun other listed => noFile other (List.mem_append_left _ listed)

end Overlays

end DeletionSession

open DeletionSession

/-- A plan names files of a tree, each by one path, and cuts nothing out of the files that it deletes. -/
structure Plan.Fits (plan : Plan) (tree : Tree) (root : Location) : Prop where
  files : ∀ path ∈ plan.paths, ∃ content, tree.entry? (placeOf root path) = some (.file content)
  apart : ∀ path ∈ plan.paths, ∀ other ∈ plan.paths, placeOf root path = placeOf root other → path = other
  whole : ∀ planned ∈ plan.functions, planned.path ∉ plan.files

namespace DeletionSession

/-- A dry run and a run under a snapshot that have done the same of a plan to the same tree. -/
structure Mirrors (plan : Plan) (tree : Tree) (id : String) (dry real : DeletionSession) : Prop where
  rehearses : dry.dryRun = true
  performs : real.dryRun = false
  snapshot : real.snapshotId = some id
  untouched : dry.tree = tree
  root : real.root = dry.root
  now : real.now = dry.now
  records : real.records = dry.records.map (·.performed id)
  failures : real.failures = dry.failures
  pending : real.pending = dry.pending
  originals : real.originals = dry.originals
  removed : real.removed = dry.removed
  wellFormed : real.tree.WellFormed
  edited : ∀ path, (dry.pending.lookup path).isSome → path ∈ plan.functions.map (·.path)
  deleted : ∀ path ∈ dry.removed, path ∈ plan.files
  recorded : ∀ path, path ∈ dry.removed ↔ ∃ record ∈ dry.records, record.kind = .file ∧ record.path = path
  overlays : Overlays dry.root tree dry.pending dry.removed real.tree

namespace Mirrors

variable {plan : Plan} {tree : Tree} {id : String} {dry real : DeletionSession} {path : String}

theorem fail (mirrors : Mirrors plan tree id dry real) (path : String) (symbol : Option String) (fault : DeletionFault) :
    Mirrors plan tree id (dry.fail path symbol fault) (real.fail path symbol fault) :=
  { mirrors with
    failures := by
      rw [DeletionSession.fail, DeletionSession.fail, mirrors.failures] }

theorem resolve (mirrors : Mirrors plan tree id dry real) (path : String) : real.resolve path = dry.resolve path := by
  unfold DeletionSession.resolve
  rw [mirrors.root]

theorem mem_paths (mirrors : Mirrors plan tree id dry real)
    (touched : (dry.pending.lookup path).isSome ∨ path ∈ dry.removed) : path ∈ plan.paths := by
  rcases touched with edited | gone
  · exact List.mem_append_left _ (mirrors.edited path edited)
  · exact List.mem_append_right _ (mirrors.deleted path gone)

theorem entry?_of_unedited (mirrors : Mirrors plan tree id dry real) (fits : plan.Fits tree dry.root)
    (named : path ∈ plan.paths) (unedited : dry.pending.lookup path = none) (present : path ∉ dry.removed) :
    real.tree.entry? (placeOf dry.root path) = tree.entry? (placeOf dry.root path) := by
  refine mirrors.overlays.others _ (fun other edited same => ?_) fun other gone same => ?_
  · rw [fits.apart other (mirrors.mem_paths (Or.inl edited)) path named same, unedited] at edited
    cases edited
  · exact present (fits.apart other (mirrors.mem_paths (Or.inr gone)) path named same ▸ gone)

theorem exists_file (mirrors : Mirrors plan tree id dry real) (fits : plan.Fits tree dry.root)
    (named : path ∈ plan.paths) (present : path ∉ dry.removed) :
    ∃ content, real.tree.entry? (placeOf dry.root path) = some (.file content) := by
  cases edited : dry.pending.lookup path with
  | some text => exact ⟨_, mirrors.overlays.rewritten path text edited⟩
  | none =>
      rw [mirrors.entry?_of_unedited fits named edited present]
      exact fits.files path named

theorem not_pending_of_file (mirrors : Mirrors plan tree id dry real) (fits : plan.Fits tree dry.root)
    (named : path ∈ plan.files) : dry.pending.lookup path = none := by
  rw [← Option.not_isSome_iff_eq_none]
  intro edited
  obtain ⟨planned, listed, rfl⟩ := List.mem_map.mp (mirrors.edited path edited)
  exact fits.whole planned listed named

/-- Both sessions read the same text, or neither reads any for the same reason. -/
theorem textOf_cases (mirrors : Mirrors plan tree id dry real) (fits : plan.Fits tree dry.root)
    (named : path ∈ plan.paths) :
    (∃ fault, dry.textOf path = .error fault ∧ real.textOf path = .error fault) ∨
      ∃ text, path ∉ dry.removed ∧ dry.textOf path = .ok (placeOf dry.root path, text) ∧
        real.textOf path = .ok (placeOf dry.root path, text) := by
  have sameResolve := mirrors.resolve path
  rcases dry.resolve_cases path with ⟨fault, resolved⟩ | resolved
  case inl =>
      exact Or.inl ⟨fault, textOf_of_unresolved resolved, textOf_of_unresolved (sameResolve.trans resolved)⟩
  case inr =>
      rw [resolved] at sameResolve
      by_cases gone : path ∈ dry.removed
      · exact Or.inl ⟨_, textOf_of_removed resolved gone, textOf_of_removed sameResolve (mirrors.removed ▸ gone)⟩
      · have goneToo : path ∉ real.removed := mirrors.removed ▸ gone
        cases edited : dry.pending.lookup path with
        | some text =>
            exact Or.inr ⟨text, gone, textOf_of_pending resolved gone edited,
              textOf_of_pending sameResolve goneToo (mirrors.pending ▸ edited)⟩
        | none =>
            obtain ⟨content, held⟩ := fits.files path named
            have heldToo := (mirrors.entry?_of_unedited fits named edited gone).trans held
            have dryReads := textOf_of_file resolved gone edited (mirrors.untouched ▸ held)
            have realReads := textOf_of_file sameResolve goneToo (mirrors.pending ▸ edited) heldToo
            cases read : readText content with
            | error error =>
                rw [read] at dryReads realReads
                exact Or.inl ⟨_, dryReads, realReads⟩
            | ok text =>
                rw [read] at dryReads realReads
                exact Or.inr ⟨text, gone, dryReads, realReads⟩

/-- Both sessions find the same file to delete, or neither finds one for the same reason. -/
theorem target_cases (mirrors : Mirrors plan tree id dry real) (fits : plan.Fits tree dry.root)
    (named : path ∈ plan.files) :
    (∃ fault, dry.target path = .error fault ∧ real.target path = .error fault) ∨
      ∃ content, path ∉ dry.removed ∧ dry.target path = .ok (placeOf dry.root path, content.length) ∧
        real.target path = .ok (placeOf dry.root path, content.length) ∧
          real.tree.entry? (placeOf dry.root path) = some (.file content) := by
  have sameResolve := mirrors.resolve path
  rcases dry.resolve_cases path with ⟨fault, resolved⟩ | resolved
  case inl =>
      exact Or.inl ⟨fault, target_of_unresolved resolved, target_of_unresolved (sameResolve.trans resolved)⟩
  case inr =>
      rw [resolved] at sameResolve
      by_cases gone : path ∈ dry.removed
      · exact Or.inl ⟨_, target_of_removed resolved gone, target_of_removed sameResolve (mirrors.removed ▸ gone)⟩
      · have inPlan : path ∈ plan.paths := List.mem_append_right _ named
        obtain ⟨content, held⟩ := fits.files path inPlan
        have heldToo := (mirrors.entry?_of_unedited fits inPlan (mirrors.not_pending_of_file fits named) gone).trans held
        exact Or.inr ⟨content, gone, target_of_file resolved gone (mirrors.untouched ▸ held),
          target_of_file sameResolve (mirrors.removed ▸ gone) heldToo, heldToo⟩

theorem noteOriginal (mirrors : Mirrors plan tree id dry real) (path : String) (text : List Char) :
    Mirrors plan tree id (dry.noteOriginal path text) (real.noteOriginal path text) := by
  unfold DeletionSession.noteOriginal
  rw [mirrors.pending, mirrors.originals]
  split
  · exact mirrors
  · exact { mirrors with pending := rfl, originals := rfl }

theorem performed_cutRecord (mirrors : Mirrors plan tree id dry real) (path name : String) (text shorter : List Char)
    (span : FunctionSpan) :
    real.cutRecord path name text shorter span = (dry.cutRecord path name text shorter span).performed id := by
  rw [cutRecord, cutRecord, DeletionRecord.performed, mirrors.snapshot, mirrors.performs, mirrors.now]

theorem performed_fileRecord (mirrors : Mirrors plan tree id dry real) (path : String) (size : Nat) :
    real.fileRecord path size = (dry.fileRecord path size).performed id := by
  rw [fileRecord, fileRecord, DeletionRecord.performed, mirrors.snapshot, mirrors.performs, mirrors.now]

/-- The dry run leaves its tree alone, whatever a write would come to. -/
theorem rehearsed (mirrors : Mirrors plan tree id dry real) (change : Except DeletionFault Tree) :
    (if dry.dryRun then .ok dry.tree else change) = .ok dry.tree :=
  if_pos mirrors.rehearses

theorem performed (mirrors : Mirrors plan tree id dry real) {change : Except DeletionFault Tree} {later : Tree}
    (succeeds : change = .ok later) : (if real.dryRun then .ok real.tree else change) = .ok later := by
  rw [mirrors.performs, succeeds]
  rfl

/-! ## One step -/

theorem afterCut (mirrors : Mirrors plan tree id dry real) (fits : plan.Fits tree dry.root)
    (planned : path ∈ plan.functions.map (·.path)) (present : path ∉ dry.removed) {later : Tree} (name : String)
    (text shorter : List Char) (span : FunctionSpan) (wellFormed : later.WellFormed)
    (written : ∀ place, later.entry? place =
      if place = placeOf dry.root path then some (.file (Text.encode shorter)) else real.tree.entry? place) :
    Mirrors plan tree id (dry.afterCut dry.tree path name text shorter span)
      (real.afterCut later path name text shorter span) := by
  have named : path ∈ plan.paths := List.mem_append_left _ planned
  have apart : ∀ other, (dry.pending.lookup other).isSome ∨ other ∈ dry.removed →
      placeOf dry.root other = placeOf dry.root path → other = path :=
    fun other touched same => fits.apart other (mirrors.mem_paths touched) path named same
  refine { mirrors with
    records := ?_, pending := congrArg (putText path shorter) mirrors.pending, wellFormed := wellFormed
    edited := fun other isEdited => ?_, recorded := fun other => ?_
    overlays := mirrors.overlays.rewrite present apart written }
  · change real.records ++ [_] = (dry.records ++ [_]).map _
    rw [List.map_append, mirrors.records, mirrors.performed_cutRecord]
    rfl
  · rw [DeletionSession.afterCut, lookup_putText] at isEdited
    split at isEdited
    · rename_i same
      exact same ▸ planned
    · exact mirrors.edited other isEdited
  · refine (mirrors.recorded other).trans ?_
    simp [DeletionSession.afterCut, cutRecord]

theorem afterFile (mirrors : Mirrors plan tree id dry real) (fits : plan.Fits tree dry.root) (named : path ∈ plan.files)
    {later : Tree} (size : Nat) (wellFormed : later.WellFormed)
    (gone : ∀ place, later.entry? place = if place = placeOf dry.root path then none else real.tree.entry? place) :
    Mirrors plan tree id (dry.afterFile dry.tree path size) (real.afterFile later path size) := by
  have unedited := mirrors.not_pending_of_file fits named
  have sameTexts : dry.pending.filter (·.1 ≠ path) = dry.pending := filter_ne_of_lookup unedited
  have inPlan : path ∈ plan.paths := List.mem_append_right _ named
  have apart : ∀ other, (dry.pending.lookup other).isSome → placeOf dry.root other ≠ placeOf dry.root path := by
    intro other isEdited same
    rw [fits.apart other (mirrors.mem_paths (Or.inl isEdited)) path inPlan same, unedited] at isEdited
    cases isEdited
  refine { mirrors with
    records := ?_, pending := congrArg (List.filter _) mirrors.pending
    removed := congrArg (· ++ [path]) mirrors.removed, wellFormed := wellFormed
    edited := ?_, deleted := fun other listed => ?_, recorded := fun other => ?_, overlays := ?_ }
  · change real.records ++ [_] = (dry.records ++ [_]).map _
    rw [List.map_append, mirrors.records, mirrors.performed_fileRecord]
    rfl
  · rw [DeletionSession.afterFile, sameTexts]
    exact mirrors.edited
  · rcases List.mem_append.mp listed with old | new
    · exact mirrors.deleted other old
    · exact List.mem_singleton.mp new ▸ named
  · have inRecords := mirrors.recorded other
    simp only [DeletionSession.afterFile, List.mem_append, List.mem_singleton, inRecords]
    constructor
    · rintro (⟨record, listed, isFile, samePath⟩ | rfl)
      · exact ⟨record, Or.inl listed, isFile, samePath⟩
      · exact ⟨_, Or.inr rfl, rfl, rfl⟩
    · rintro ⟨record, listed | rfl, isFile, samePath⟩
      · exact Or.inl ⟨record, listed, isFile, samePath⟩
      · exact Or.inr samePath.symm
  · rw [DeletionSession.afterFile, sameTexts]
    exact mirrors.overlays.delete apart gone

theorem deleteFunction (mirrors : Mirrors plan tree id dry real) (fits : plan.Fits tree dry.root)
    (planned : path ∈ plan.functions.map (·.path)) (name : String) :
    Mirrors plan tree id (dry.deleteFunction path name).1 (real.deleteFunction path name).1 := by
  have named : path ∈ plan.paths := List.mem_append_left _ planned
  rcases mirrors.textOf_cases fits named with ⟨fault, dryFails, realFails⟩ | ⟨text, present, dryReads, realReads⟩
  · rw [deleteFunction_of_error dryFails, deleteFunction_of_error realFails]
    exact mirrors.fail path name fault
  have noted := mirrors.noteOriginal path text
  cases cut : Removal.remove? (isPagePath path) name text with
  | none =>
      rw [deleteFunction_of_absent dryReads cut, deleteFunction_of_absent realReads cut]
      exact noted.fail path name .notFound
  | some removal =>
      obtain ⟨shorter, span⟩ := removal
      obtain ⟨content, held⟩ := mirrors.exists_file fits named present
      obtain ⟨later, written⟩ : ∃ later, real.tree.write (placeOf dry.root path) (Text.encode shorter) = .ok later :=
        ⟨_, by rw [Tree.write, held]⟩
      have succeeds : faultAt (placeOf dry.root path) (real.tree.write (placeOf dry.root path) (Text.encode shorter)) =
          .ok later := by rw [written, faultAt]
      rw [deleteFunction_of_written dryReads cut (mirrors.rehearsed _),
        deleteFunction_of_written realReads cut (mirrors.performed succeeds)]
      have fitsToo : plan.Fits tree (dry.noteOriginal path text).root := by rwa [root_noteOriginal]
      have presentToo : path ∉ (dry.noteOriginal path text).removed := by rwa [removed_noteOriginal]
      have stepped := noted.afterCut fitsToo planned presentToo name text shorter span
        (mirrors.wellFormed.write (no_parent_resolve _) written) (by simpa using Tree.entry?_write written)
      rwa [tree_noteOriginal] at stepped

theorem deleteFile (mirrors : Mirrors plan tree id dry real) (fits : plan.Fits tree dry.root) (named : path ∈ plan.files) :
    Mirrors plan tree id (dry.deleteFile path).1 (real.deleteFile path).1 := by
  rcases mirrors.target_cases fits named with ⟨fault, dryFails, realFails⟩ | ⟨content, present, dryAims, realAims, held⟩
  · rw [deleteFile_of_error dryFails, deleteFile_of_error realFails]
    exact mirrors.fail path none fault
  obtain ⟨later, removed⟩ : ∃ later, real.tree.remove (placeOf dry.root path) = .ok later :=
    ⟨_, by rw [Tree.remove, held]⟩
  have succeeds : faultAt (placeOf dry.root path) (real.tree.remove (placeOf dry.root path)) = .ok later := by
    rw [removed, faultAt]
  rw [deleteFile_of_removed dryAims present (mirrors.rehearsed _),
    deleteFile_of_removed realAims (mirrors.removed ▸ present) (mirrors.performed succeeds)]
  exact mirrors.afterFile fits named content.length (mirrors.wellFormed.remove removed)
    (Tree.entry?_remove mirrors.wellFormed removed)

/-! ## A plan -/

theorem foldl {α : Type} {act : DeletionSession → α → DeletionSession} {items : List α}
    (step : ∀ dry real, Mirrors plan tree id dry real → plan.Fits tree dry.root → ∀ item ∈ items,
      Mirrors plan tree id (act dry item) (act real item))
    (keepsRoot : ∀ session item, (act session item).root = session.root) (mirrors : Mirrors plan tree id dry real)
    (fits : plan.Fits tree dry.root) :
    Mirrors plan tree id (items.foldl act dry) (items.foldl act real) := by
  induction items generalizing dry real with
  | nil => exact mirrors
  | cons item rest ih =>
      refine ih (fun dry real mirrors fits other listed => step dry real mirrors fits other (List.mem_cons_of_mem item listed))
        (step dry real mirrors fits item List.mem_cons_self) ?_
      rwa [keepsRoot]

theorem carryOut (mirrors : Mirrors plan tree id dry real) (fits : plan.Fits tree dry.root) :
    Mirrors plan tree id (dry.carryOut plan).1 (real.carryOut plan).1 := by
  have cutsKeepRoot : ∀ (session : DeletionSession) (planned : PlannedCut),
      (session.deleteFunction planned.path planned.name).1.root = session.root :=
    fun session planned => (follows_deleteFunction (List.mem_singleton_self planned.path)).root
  have filesKeepRoot : ∀ (session : DeletionSession) (path : String), (session.deleteFile path).1.root = session.root :=
    fun session path => (follows_deleteFile (List.mem_singleton_self path)).root
  -- cuts come first, then files, and the plan still fits because neither moves the root
  have cut := mirrors.foldl (fun dry real mirrors fits planned listed =>
    mirrors.deleteFunction fits (List.mem_map_of_mem listed) planned.name) cutsKeepRoot fits
  refine cut.foldl (fun dry real mirrors fits path named => mirrors.deleteFile fits named) filesKeepRoot ?_
  have sameRoot := (follows_foldl (fun session (planned : PlannedCut) (listed : planned ∈ plan.functions) =>
    @follows_deleteFunction (plan.functions.map (·.path)) session planned.path planned.name (List.mem_map_of_mem listed))
    dry).root
  rwa [sameRoot]

end Mirrors

/-- What a dry run of deletions says of a tree and of the run under a snapshot after it. -/
structure Foretells (tree : Tree) (root : Location) (id : String) (dry real : DeletionSession) : Prop where
  untouched : dry.tree = tree
  records : real.records = dry.records.map (·.performed id)
  failures : real.failures = dry.failures
  preview : real.preview = dry.preview
  rewritten : ∀ path text, dry.pending.lookup path = some text →
    real.tree.entry? (placeOf root path) = some (.file (Text.encode text))
  gone : ∀ record ∈ dry.records, record.kind = .file → real.tree.entry? (placeOf root record.path) = none
  others : ∀ place, (∀ path, (dry.pending.lookup path).isSome → placeOf root path ≠ place) →
    (∀ record ∈ dry.records, record.kind = .file → placeOf root record.path ≠ place) →
      real.tree.entry? place = tree.entry? place

theorem Mirrors.foretells {plan : Plan} {tree : Tree} {id : String} {dry real : DeletionSession}
    (mirrors : Mirrors plan tree id dry real) : Foretells tree dry.root id dry real where
  untouched := mirrors.untouched
  records := mirrors.records
  failures := mirrors.failures
  preview := by rw [DeletionSession.preview, DeletionSession.preview, mirrors.pending, mirrors.originals, mirrors.removed]
  rewritten := mirrors.overlays.rewritten
  gone record listed isFile := mirrors.overlays.gone _ ((mirrors.recorded _).mpr ⟨record, listed, isFile, rfl⟩)
  others place noText noFile := by
    refine mirrors.overlays.others place noText fun path gone => ?_
    obtain ⟨record, listed, isFile, rfl⟩ := (mirrors.recorded path).mp gone
    exact noFile record listed isFile

/-- A dry run that has done nothing yet. -/
def dryStart (tree : Tree) (root : Location) (now : Moment) (snapshotId : Option String) : DeletionSession :=
  { tree := tree, root := root, now := now, dryRun := true, snapshotId := snapshotId }

/-- A run under a snapshot that has done nothing yet. -/
def realStart (tree : Tree) (root : Location) (now : Moment) (id : String) : DeletionSession :=
  { tree := tree, root := root, now := now, snapshotId := some id }

theorem mirrors_start (plan : Plan) {tree : Tree} (wellFormed : tree.WellFormed) (root : Location) (now : Moment)
    (snapshotId : Option String) (id : String) :
    Mirrors plan tree id (dryStart tree root now snapshotId) (realStart tree root now id) where
  rehearses := rfl
  performs := rfl
  snapshot := rfl
  untouched := rfl
  root := rfl
  now := rfl
  records := rfl
  failures := rfl
  pending := rfl
  originals := rfl
  removed := rfl
  wellFormed := wellFormed
  edited _ isEdited := by cases isEdited
  deleted _ gone := by cases gone
  recorded _ := by simp [dryStart]
  overlays := ⟨fun _ _ isEdited => (by cases isEdited), fun _ gone => (by cases gone), fun _ _ _ => rfl⟩

end DeletionSession

/-! ## Plans for the files of a tree -/

variable {tree : Tree} {root location : Location}

/-- The path of a location below a root is read as its names. -/
theorem ofString_relativePath (someName : location ≠ []) (areNames : ∀ name ∈ location, IsName name) :
    Path.ofString (relativePath location) = ⟨"", location⟩ := by
  have text : (relativePath location).toList = "/".toList.intercalate (location.map String.toList) := by
    rw [relativePath, String.toList_intercalate]
  have slashes : (relativePath location).toList.takeWhile (· == '/') = [] := by
    obtain ⟨name, rest, rfl⟩ := List.exists_cons_of_ne_nil someName
    have isName := areNames name List.mem_cons_self
    obtain ⟨c, others, chars⟩ := List.exists_cons_of_ne_nil isName.someChars
    have noSlash : c ≠ '/' := fun same => isName.noSlash (by simp [chars, same])
    rw [text, List.map_cons, chars]
    cases rest with
    | nil => simp [noSlash]
    | cons next more => simp [List.intercalate_cons_cons, noSlash]
  unfold Path.ofString
  dsimp only
  rw [slashes, text, splitNames_intercalate areNames]
  rfl

theorem placeOf_relativePath (someName : location ≠ []) (areNames : ∀ name ∈ location, IsName name)
    (noParent : ".." ∉ root ++ location) : placeOf root (relativePath location) = root ++ location := by
  rw [placeOf, ofString_relativePath someName areNames]
  exact follow_of_no_parent noParent []

/-- The path of a source file names a file below the root. -/
theorem exists_of_mem_sourceFiles (wellFormed : tree.WellFormed) (areNames : ∀ row ∈ tree.rows, ∀ name ∈ row.1, IsName name)
    {skipDirs : List String} {file : SourceFile} (listed : file ∈ sourceFiles tree root skipDirs) :
    ∃ location content, file.path = relativePath location ∧ placeOf root file.path = root ++ location ∧
      tree.entry? (root ++ location) = some (.file content) := by
  obtain ⟨⟨location, entry⟩, below, isFile⟩ := List.mem_filterMap.mp listed
  obtain ⟨someName, held⟩ := wellFormed.mem_below_iff.mp below
  have named : ∀ name ∈ location, IsName name := fun name member =>
    areNames _ (Tree.mem_below_iff.mp below).2 name (List.mem_append_right root member)
  cases entry with
  | directory => cases isFile
  | file content =>
      have path : file.path = relativePath location := by
        unfold sourceFile? at isFile
        dsimp only at isFile
        split at isFile
        · cases isFile
        · obtain ⟨kind, _, rfl⟩ := Option.map_eq_some_iff.mp isFile
          rfl
      refine ⟨location, content, path, ?_, held⟩
      rw [path, placeOf_relativePath someName named (wellFormed.no_parent_name held)]

namespace Plan

variable {reading : Source.Reading} {files : List SourceFile} {roots : Roots} {analysis : Analysis} {policy : RiskPolicy}
  {threshold : RiskLevel}

theorem exists_file_of_mem_paths
    (run : Analysis.ofBuild (Build.ofExtractor (Source.extract reading) files) roots = .ok analysis) {path : String}
    (named : path ∈ (ofAssessment threshold (Assessment.ofAnalysis policy analysis)).paths) :
    ∃ file ∈ files, file.path = path := by
  rcases List.mem_append.mp named with cut | whole
  · obtain ⟨planned, listed, rfl⟩ := List.mem_map.mp cut
    obtain ⟨symbol, unused, _, defining⟩ := mem_functions_ofAssessment listed
    obtain ⟨definition, defines, samePath⟩ := List.mem_map.mp (Text.mem_sortedSet.mp defining)
    obtain ⟨_, file, inFiles, readOff⟩ := (Analysis.mem_definitions_of_unused run unused).mp defines
    exact ⟨file, inFiles, (Source.path_of_mem_extract readOff).symm.trans samePath⟩
  · obtain ⟨unused, listed, samePath, _⟩ := mem_files_ofAssessment.mp whole
    obtain ⟨file, inFiles, path, _⟩ := Analysis.exists_file_of_unused run listed
    exact ⟨file, inFiles, path.symm.trans samePath⟩

theorem path_not_mem_files {planned : PlannedCut} {assessment : Assessment}
    (listed : planned ∈ (ofAssessment threshold assessment).functions) :
    planned.path ∉ (ofAssessment threshold assessment).files := by
  rw [ofAssessment, List.mem_mergeSort] at listed
  obtain ⟨rated, _, inPaths⟩ := List.mem_flatMap.mp listed
  obtain ⟨path, defining, rfl⟩ := List.mem_map.mp inPaths
  have kept := (List.mem_filter.mp defining).2
  rwa [Bool.not_eq_true', ← Bool.not_eq_true, List.contains_iff_mem] at kept

/-- A plan for the source files of a tree fits the tree. -/
theorem fits_ofAssessment (wellFormed : tree.WellFormed) (areNames : ∀ row ∈ tree.rows, ∀ name ∈ row.1, IsName name)
    {skipDirs : List String}
    (run : Analysis.ofBuild (Build.ofExtractor (Source.extract reading) (sourceFiles tree root skipDirs)) roots =
      .ok analysis) : (ofAssessment threshold (Assessment.ofAnalysis policy analysis)).Fits tree root where
  files path named := by
    obtain ⟨file, listed, rfl⟩ := exists_file_of_mem_paths run named
    obtain ⟨location, content, _, place, held⟩ := exists_of_mem_sourceFiles wellFormed areNames listed
    exact ⟨content, place ▸ held⟩
  apart path named other otherNamed same := by
    obtain ⟨file, listed, rfl⟩ := exists_file_of_mem_paths run named
    obtain ⟨home, homeListed, rfl⟩ := exists_file_of_mem_paths run otherNamed
    obtain ⟨location, _, path, place, _⟩ := exists_of_mem_sourceFiles wellFormed areNames listed
    obtain ⟨elsewhere, _, homePath, homePlace, _⟩ := exists_of_mem_sourceFiles wellFormed areNames homeListed
    have sameLocation : location = elsewhere := by
      rw [place, homePlace] at same
      exact List.append_cancel_left same
    rw [path, homePath, sameLocation]
  whole planned listed := path_not_mem_files listed

end Plan

namespace DeletionSession

theorem foretells_of_fits {plan : Plan} (wellFormed : tree.WellFormed) (fits : plan.Fits tree root) (now : Moment)
    (snapshotId : Option String) (id : String) :
    Foretells tree root id ((dryStart tree root now snapshotId).carryOut plan).1
      ((realStart tree root now id).carryOut plan).1 := by
  have done := ((mirrors_start plan wellFormed root now snapshotId id).carryOut fits).foretells
  rwa [(follows_carryOut (dryStart tree root now snapshotId) plan).root] at done

theorem guarded_carryOut {session : DeletionSession} (allowed : session.mayDelete = true) (fresh : session.records = [])
    (plan : Plan) :
    session.guarded (·.carryOut plan) = .ok ((session.carryOut plan).1, (session.carryOut plan).1.records) := by
  have everyRecord : (session.carryOut plan).2 = (session.carryOut plan).1.records := by
    rw [carryOut, fresh]
    rfl
  rw [guarded, if_pos allowed, ← everyRecord]

/-- A plan made for the source files of a tree does under a snapshot what it does in a dry run, and the dry run leaves the
tree alone. -/
theorem dry_run_foretells_run (reading : Source.Reading) (skipDirs : List String) (roots : Roots) (policy : RiskPolicy)
    (threshold : RiskLevel) (tree : Tree) (root : Location) (now : Moment) (snapshotId : Option String) (id : String)
    (wellFormed : tree.WellFormed) (areNames : ∀ row ∈ tree.rows, ∀ name ∈ row.1, IsName name) :
    ∃ analysis, Analysis.ofBuild (Build.ofExtractor (Source.extract reading) (sourceFiles tree root skipDirs)) roots =
        .ok analysis ∧
      ∀ plan, plan = Plan.ofAssessment threshold (Assessment.ofAnalysis policy analysis) →
        ∃ dry real, (dryStart tree root now snapshotId).guarded (·.carryOut plan) = .ok (dry, dry.records) ∧
          (realStart tree root now id).guarded (·.carryOut plan) = .ok (real, real.records) ∧
            Foretells tree root id dry real := by
  obtain ⟨analysis, run⟩ := Analysis.exists_ofBuild_eq_ok reading (sourceFiles tree root skipDirs) roots
  refine ⟨analysis, run, fun plan isPlan => ?_⟩
  have fits : plan.Fits tree root := isPlan ▸ Plan.fits_ofAssessment wellFormed areNames run
  exact ⟨_, _, guarded_carryOut rfl rfl plan, guarded_carryOut rfl rfl plan,
    foretells_of_fits wellFormed fits now snapshotId id⟩

def twoFunctions : Tree :=
  ⟨[(["src"], .directory), (["src", "A.gs"], .file (Text.encode "function ab()\x7b\x7d function cd()\x7b\x7d".toList))]⟩

theorem dry_run_of_twoFunctions : twoFunctions.WellFormed ∧ (∀ row ∈ twoFunctions.rows, ∀ name ∈ row.1, IsName name) ∧
    ∃ analysis, Analysis.ofBuild (Build.ofExtractor (Source.extract Plan.plainReading) (sourceFiles twoFunctions ["src"] []))
        {} = .ok analysis ∧
      ∀ plan, plan = Plan.ofAssessment .low (Assessment.ofAnalysis Plan.initPolicy analysis) →
        ∃ dry real, (dryStart twoFunctions ["src"] ⟨2026, 1, 1, 12, 0, 0, 0⟩ none).guarded (·.carryOut plan) =
            .ok (dry, dry.records) ∧
          (realStart twoFunctions ["src"] ⟨2026, 1, 1, 12, 0, 0, 0⟩ "20260101_120000_ab").guarded (·.carryOut plan) =
              .ok (real, real.records) ∧
            Foretells twoFunctions ["src"] "20260101_120000_ab" dry real := by
  have wellFormed : twoFunctions.WellFormed := ⟨by decide, by decide, by decide⟩
  have areNames : ∀ row ∈ twoFunctions.rows, ∀ name ∈ row.1, IsName name := by
    have each : ∀ row ∈ twoFunctions.rows, ∀ name ∈ row.1, name.toList ≠ [] ∧ name.toList ≠ ['.'] ∧ '/' ∉ name.toList := by
      decide
    exact fun row listed name member =>
      have isName := each row listed name member
      ⟨isName.1, isName.2.1, isName.2.2⟩
  exact ⟨wellFormed, areNames, dry_run_foretells_run Plan.plainReading [] {} Plan.initPolicy .low twoFunctions ["src"]
    ⟨2026, 1, 1, 12, 0, 0, 0⟩ none "20260101_120000_ab" wellFormed areNames⟩

end DeletionSession

/-! ## A link between two planned paths -/

namespace LinkedSession

open DeletionSession

def aliasedTree : Tree :=
  ⟨[(["src"], .directory), (["src", "a.gs"], .file [])]⟩

def aliasLinks : Links :=
  ⟨[(["src", "b.gs"], "a.gs")]⟩

def aliasPlan : Plan where
  functions := []
  files := ["a.gs", "b.gs"]

def emptyFile (path : String) : SourceFile :=
  { path := path, kind := .backend, text := [], size := 0 }

theorem sourceFiles_alias : sourceFiles (aliasLinks.shown aliasedTree) ["src"] [] = [emptyFile "a.gs", emptyFile "b.gs"] := by
  have shown : aliasLinks.shown aliasedTree =
      ⟨[(["src"], .directory), (["src", "a.gs"], .file []), (["src", "b.gs"], .file [])]⟩ := by decide +kernel
  have below : (aliasLinks.shown aliasedTree).below ["src"] = [(["a.gs"], .file []), (["b.gs"], .file [])] := by
    rw [shown]
    exact List.mergeSort_of_pairwise (by decide)
  have kinds : ∀ name ∈ ["a.gs", "b.gs"], FileKind.ofPath? name = some .backend := by decide
  have empty : Files.readTextLeniently [] = [] := by decide +kernel
  rw [sourceFiles, below]
  simp [sourceFile?, relativePath, emptyFile, kinds, empty]

theorem extract_emptyFile : ∀ file ∈ [emptyFile "a.gs", emptyFile "b.gs"],
    Source.extract Plan.plainReading file = { path := file.path } := by
  simp only [List.forall_mem_cons]
  exact ⟨by decide +kernel, by decide +kernel, by simp⟩

theorem exists_analysis_alias : ∃ analysis,
    Analysis.ofBuild (Build.ofExtractor (Source.extract Plan.plainReading)
      (sourceFiles (aliasLinks.shown aliasedTree) ["src"] [])) {} = .ok analysis ∧
    Plan.ofAssessment .low (Assessment.ofAnalysis Plan.initPolicy analysis) = aliasPlan := by
  rw [sourceFiles_alias, Build.ofExtractor_congr extract_emptyFile]
  have planned : (Analysis.ofBuild (Build.ofExtractor (fun file => { path := file.path })
      [emptyFile "a.gs", emptyFile "b.gs"]) {}).map
      (fun analysis => (Plan.ofAssessment .low (Assessment.ofAnalysis Plan.initPolicy analysis))) = .ok aliasPlan := by
    cbv
  exact exists_of_map_eq_ok planned

/-- A dry run of the plan deletes the file and then the link; the run fails on the link, as the file is gone by then. -/
theorem aliasPlan_fails_after_dry_run :
    (∃ analysis, Analysis.ofBuild (Build.ofExtractor (Source.extract Plan.plainReading)
        (sourceFiles (aliasLinks.shown aliasedTree) ["src"] [])) {} = .ok analysis ∧
      Plan.ofAssessment .low (Assessment.ofAnalysis Plan.initPolicy analysis) = aliasPlan) ∧
    ∃ dry real : LinkedSession,
      (⟨dryStart aliasedTree ["src"] ⟨2026, 1, 1, 12, 0, 0, 0⟩ none, aliasLinks⟩ : LinkedSession).carryOut aliasPlan =
        .ok (dry, .ok dry.session.records) ∧
      (⟨realStart aliasedTree ["src"] ⟨2026, 1, 1, 12, 0, 0, 0⟩ "20260101_120000_ab", aliasLinks⟩ : LinkedSession).carryOut
        aliasPlan = .ok (real, .ok real.session.records) ∧
      dry.session.records.map (·.path) = ["a.gs", "b.gs"] ∧ dry.session.failures = [] ∧
      real.session.records.map (·.path) = ["a.gs"] ∧ real.session.failures.map (·.path) = ["b.gs"] ∧
      ¬ Foretells aliasedTree ["src"] "20260101_120000_ab" dry.session real.session := by
  refine ⟨exists_analysis_alias, _, _, carryOut_of_deleteAll rfl (Prod.ext rfl ?_), carryOut_of_deleteAll rfl (Prod.ext rfl ?_),
    ?_, ?_, ?_, ?_, fun foretells => ?_⟩
  · decide +kernel
  · decide +kernel
  · decide +kernel
  · decide +kernel
  · decide +kernel
  · decide +kernel
  · have same := congrArg (List.map (·.path)) foretells.failures
    revert same
    decide +kernel

end LinkedSession
end Deadwood
