import Deadwood.Deletion.Item
import Deadwood.Proofs.Rehearsal
import Deadwood.Proofs.TextBytes

/-!
# Items deleted one by one

A session keeps the texts that it has cut and knows which files it has deleted. Who deletes the items of a plan one by one,
each in a session of its own, finds both in the tree: a text that was written is read back as it was, and a deleted file is not
there. So a new session does with the next item what the session that has done all before does with it.
-/

set_option autoImplicit false
namespace Deadwood

open Files

namespace Removal

/-- A cut brings nothing into a text but a line feed. -/
theorem mem_of_mem_cut {text : List Char} {span : FunctionSpan} {c : Char} (member : c ∈ cut text span) :
    c ∈ text ∨ c = '\n' := by
  have fits := fits_seamOfCut text span
  rw [cut, fits.seam_eq, List.mem_append, List.mem_append] at member
  rcases member with (before | filled) | after
  · exact Or.inl (List.mem_of_mem_take (List.mem_of_mem_take before))
  · rcases fits.filler with none | feed
    · rw [none] at filled
      cases filled
    · rw [feed] at filled
      exact Or.inr (List.mem_singleton.mp filled)
  · exact Or.inl (List.mem_of_mem_drop (List.mem_of_mem_drop after))

theorem return_not_mem_of_remove? {isPage : Bool} {name : String} {text shorter : List Char} {span : FunctionSpan}
    (removed : remove? isPage name text = some (shorter, span)) (noReturn : '\r' ∉ text) : '\r' ∉ shorter := by
  obtain ⟨_, _, same⟩ := Option.map_eq_some_iff.mp removed
  obtain ⟨rfl, rfl⟩ := Prod.mk.inj same
  intro member
  rcases mem_of_mem_cut member with old | feed
  · exact noReturn old
  · cases feed

end Removal

theorem Plan.path_mem_paths {plan : Plan} {item : DeletionItem} (listed : item ∈ plan.items) : item.path ∈ plan.paths := by
  rcases List.mem_append.mp listed with function | file
  · obtain ⟨planned, member, rfl⟩ := List.mem_map.mp function
    exact List.mem_append_left _ (List.mem_map_of_mem member)
  · obtain ⟨path, member, rfl⟩ := List.mem_map.mp file
    exact List.mem_append_right _ member

namespace DeletionSession

/-- The session after an item. -/
def step (session : DeletionSession) (item : DeletionItem) : DeletionSession :=
  (item.deleteIn session).1

theorem carryOut_eq_foldl (session : DeletionSession) (plan : Plan) :
    (session.carryOut plan).1 = plan.items.foldl step session := by
  rw [carryOut, Plan.items, List.foldl_append, List.foldl_map, List.foldl_map]
  rfl

theorem lookup_filter_ne (path other : String) (texts : List (String × List Char)) :
    (texts.filter (·.1 ≠ path)).lookup other = if other = path then none else texts.lookup other := by
  induction texts with
  | nil => simp
  | cons first rest ih =>
      obtain ⟨key, text⟩ := first
      by_cases here : key = path
      · rw [List.filter_cons_of_neg (by simpa using here), ih, List.lookup_cons]
        by_cases same : other = path
        · rw [if_pos same, if_pos same]
        · rw [if_neg same, if_neg same, here, beq_false_of_ne same]
      · rw [List.filter_cons_of_pos (by simpa using here), List.lookup_cons, List.lookup_cons, ih]
        by_cases same : other = path
        · rw [if_pos same, if_pos same, same, beq_false_of_ne (Ne.symm here)]
        · rw [if_neg same, if_neg same]

/-! ## What a deletion records -/

section Records

variable {resolved : Except DeletionFault Location} {keeps : Bool} {session : DeletionSession} {path name : String}
  {location : Location} {fault : DeletionFault}
  {text shorter : List Char} {span : FunctionSpan} {size : Nat} {tree : Tree} {content : Bytes}

theorem record_of_textOf_error (failed : session.textOf path resolved = .error fault) :
    (session.deleteFunction path name resolved).2 = none := by
  rw [deleteFunction, failed]

theorem record_of_absent (read : session.textOf path resolved = .ok (location, text))
    (absent : Removal.remove? (isPagePath path) name text = none) : (session.deleteFunction path name resolved).2 = none := by
  rw [deleteFunction, read]
  dsimp only
  rw [absent]

theorem record_of_written (read : session.textOf path = .ok (location, text))
    (cut : Removal.remove? (isPagePath path) name text = some (shorter, span)) (performs : session.dryRun = false)
    (written : session.tree.write location (Text.encode shorter) = .ok tree) :
    (session.deleteFunction path name).2 = some (session.cutRecord path name text shorter span) := by
  rw [deleteFunction, read]
  dsimp only
  rw [cut]
  dsimp only
  by_cases edited : (session.pending.lookup path).isSome = true
  · rw [if_pos edited, if_neg (by simp [performs]), written]
    rfl
  · rw [if_neg edited]
    dsimp only
    rw [if_neg (by simp [performs]), written]
    rfl

theorem deleteFile_of_withoutFile_error (failed : session.withoutFile path resolved keeps = .error fault) :
    session.deleteFile path resolved keeps = (session.fail path none fault, none) := by
  rw [deleteFile, failed]

theorem deleteFile_of_withoutFile (without : session.withoutFile path resolved keeps = .ok (tree, size))
    (present : path ∉ session.removed) :
    session.deleteFile path resolved keeps = (session.afterFile tree path size, some (session.fileRecord path size)) := by
  have fresh : ¬ session.removed.contains path = true := fun listed => present (List.contains_iff_mem.mp listed)
  rw [deleteFile, without]
  dsimp only
  rw [if_neg fresh]
  rfl

theorem exists_textOf_error (resolved : session.resolve path = .ok location) (present : path ∉ session.removed)
    (unedited : session.pending.lookup path = none)
    (noFile : ∀ content, session.tree.entry? location ≠ some (.file content)) :
    ∃ fault, session.textOf path = .error fault := by
  obtain ⟨fault, unread⟩ : ∃ fault, session.tree.read location = .error fault := by
    rw [Tree.read]
    split
    · rename_i content held
      exact absurd held (noFile content)
    · exact ⟨_, rfl⟩
    · exact ⟨_, rfl⟩
  refine ⟨.fileFault ⟨fault, location.toString⟩, ?_⟩
  rw [textOf, resolved]
  simp only [bind, Except.bind, List.contains_iff_mem, present, if_false, unedited, unread, faultAt]

/-- No file is taken away where none stands. -/
theorem exists_withoutFile_error (resolved : session.resolve path = .ok location) (present : path ∉ session.removed)
    (performs : session.dryRun = false) (noFile : ∀ content, session.tree.entry? location ≠ some (.file content)) :
    ∃ fault, session.withoutFile path = .error fault := by
  cases aimed : session.target path with
  | error fault => exact ⟨fault, by rw [withoutFile, aimed]; rfl⟩
  | ok found =>
      obtain ⟨place, size⟩ := found
      have here : place = location := by
        rw [target, resolved] at aimed
        simp only [bind, Except.bind, List.contains_iff_mem, present, if_false] at aimed
        split at aimed
        · exact (Prod.mk.inj (Except.ok.inj aimed)).1.symm
        · exact (Prod.mk.inj (Except.ok.inj aimed)).1.symm
        · cases aimed
      subst here
      obtain ⟨fault, kept⟩ : ∃ fault, session.tree.remove place = .error fault := by
        rw [Tree.remove]
        split
        · exact ⟨_, rfl⟩
        · rename_i content held
          exact absurd held (noFile content)
        · exact ⟨_, rfl⟩
      refine ⟨.fileFault ⟨fault, place.toString⟩, ?_⟩
      rw [withoutFile, aimed]
      simp only [bind, Except.bind, performs, Bool.false_eq_true, if_false, kept, faultAt]

theorem withoutFile_of_file (resolved : session.resolve path = .ok location) (present : path ∉ session.removed)
    (performs : session.dryRun = false) (held : session.tree.entry? location = some (.file content))
    (removed : session.tree.remove location = .ok tree) : session.withoutFile path = .ok (tree, content.length) := by
  rw [withoutFile, target_of_file resolved present held]
  simp only [bind, Except.bind, pure, Except.pure, performs, Bool.false_eq_true, if_false, removed, faultAt]

end Records

/-! ## Sessions taken up anew -/

/-- A tree in which a new session goes on as the session would: below the root it is the tree of the session, and what the
session keeps of paths stands in it. -/
structure Resumes (paths : List String) (root : Location) (now : Moment) (id : String) (tree : Tree)
    (session : DeletionSession) : Prop where
  performs : session.dryRun = false
  root_eq : session.root = root
  now_eq : session.now = now
  snapshot : session.snapshotId = some id
  wellFormed : tree.WellFormed
  sessionWellFormed : session.tree.WellFormed
  same : ∀ place, root <+: place → tree.entry? place = session.tree.entry? place
  pending : ∀ path text, session.pending.lookup path = some text → path ∈ paths ∧
    session.tree.entry? (placeOf root path) = some (.file (Text.encode text)) ∧ '\r' ∉ text
  removed : ∀ path ∈ session.removed, path ∈ paths ∧ session.tree.entry? (placeOf root path) = none

namespace Resumes

variable {paths : List String} {root : Location} {now : Moment} {id : String} {tree tree' : Tree}
  {session : DeletionSession} {path name : String}

theorem start (paths : List String) (wellFormed : tree.WellFormed) (wellFormed' : tree'.WellFormed)
    (same : ∀ place, root <+: place → tree'.entry? place = tree.entry? place) (now : Moment) (id : String) :
    Resumes paths root now id tree' (realStart tree root now id) where
  performs := rfl
  root_eq := rfl
  now_eq := rfl
  snapshot := rfl
  wellFormed := wellFormed'
  sessionWellFormed := wellFormed
  same := same
  pending _ _ edited := by cases edited
  removed _ gone := by cases gone

/-- What is changed outside of the root does not matter. -/
theorem elsewhere (resumes : Resumes paths root now id tree session) (wellFormed : tree'.WellFormed)
    (same : ∀ place, root <+: place → tree'.entry? place = tree.entry? place) : Resumes paths root now id tree' session :=
  { resumes with
    wellFormed := wellFormed
    same := fun place inside => (same place inside).trans (resumes.same place inside) }

theorem fail (resumes : Resumes paths root now id tree session) (path : String) (symbol : Option String)
    (fault : DeletionFault) : Resumes paths root now id tree (session.fail path symbol fault) :=
  { resumes with }

theorem resolve_eq (resumes : Resumes paths root now id tree session) (path : String) :
    (realStart tree root now id).resolve path = session.resolve path := by
  unfold DeletionSession.resolve
  rw [resumes.root_eq]
  rfl

/-- Both read the same text from the same file, or neither reads any. -/
theorem textOf_cases (resumes : Resumes paths root now id tree session) (path : String) :
    (∃ fault, session.textOf path = .error fault) ∧ (∃ fault, (realStart tree root now id).textOf path = .error fault) ∨
      ∃ text content, root <+: placeOf root path ∧ path ∉ session.removed ∧ '\r' ∉ text ∧
        session.tree.entry? (placeOf root path) = some (.file content) ∧
        session.textOf path = .ok (placeOf root path, text) ∧
        (realStart tree root now id).textOf path = .ok (placeOf root path, text) := by
  have sameResolve := resumes.resolve_eq path
  rcases session.resolve_cases path with ⟨fault, resolved⟩ | resolved
  case inl =>
      exact Or.inl ⟨⟨fault, textOf_of_unresolved resolved⟩, fault, textOf_of_unresolved (sameResolve.trans resolved)⟩
  case inr =>
      have inside := (of_resolve resolved).2
      rw [resolved] at sameResolve
      rw [resumes.root_eq] at inside resolved sameResolve
      have sameEntry := resumes.same _ inside
      have fresh : path ∉ (realStart tree root now id).removed := List.not_mem_nil
      have unedited : (realStart tree root now id).pending.lookup path = none := rfl
      by_cases gone : path ∈ session.removed
      · refine Or.inl ⟨⟨_, textOf_of_removed resolved gone⟩, exists_textOf_error sameResolve fresh unedited fun content held => ?_⟩
        cases ((resumes.removed path gone).2.symm.trans sameEntry.symm).trans held
      cases edited : session.pending.lookup path with
      | some text =>
          obtain ⟨_, held, noReturn⟩ := resumes.pending path text edited
          have reads := textOf_of_file sameResolve fresh unedited (sameEntry.trans held)
          rw [Text.readText_encode noReturn] at reads
          exact Or.inr ⟨text, _, inside, gone, noReturn, held, textOf_of_pending resolved gone edited, reads⟩
      | none =>
          by_cases isFile : ∃ content, session.tree.entry? (placeOf root path) = some (.file content)
          · obtain ⟨content, held⟩ := isFile
            have reads := textOf_of_file resolved gone edited held
            have freshReads := textOf_of_file sameResolve fresh unedited (sameEntry.trans held)
            cases read : readText content with
            | error error =>
                rw [read] at reads freshReads
                exact Or.inl ⟨⟨_, reads⟩, _, freshReads⟩
            | ok text =>
                rw [read] at reads freshReads
                exact Or.inr ⟨text, content, inside, gone, Text.return_not_mem_of_readText read, held, reads, freshReads⟩
          · have noFile := not_exists.mp isFile
            refine Or.inl ⟨exists_textOf_error resolved gone edited noFile, exists_textOf_error sameResolve fresh unedited ?_⟩
            exact fun content held => noFile content (sameEntry.symm.trans held)

/-- Both take the same file away, or neither takes any. -/
theorem withoutFile_cases (resumes : Resumes paths root now id tree session) (path : String) :
    (∃ fault, session.withoutFile path = .error fault) ∧
        (∃ fault, (realStart tree root now id).withoutFile path = .error fault) ∨
      ∃ content later later', root <+: placeOf root path ∧ path ∉ session.removed ∧
        session.tree.remove (placeOf root path) = .ok later ∧ tree.remove (placeOf root path) = .ok later' ∧
        session.withoutFile path = .ok (later, content.length) ∧
        (realStart tree root now id).withoutFile path = .ok (later', (content : Bytes).length) := by
  have sameResolve := resumes.resolve_eq path
  rcases session.resolve_cases path with ⟨fault, resolved⟩ | resolved
  case inl =>
      have unresolved {other : DeletionSession} (failed : other.resolve path = .error fault) :
          ∃ fault, other.withoutFile path = .error fault :=
        ⟨fault, by rw [withoutFile, target_of_unresolved failed]; rfl⟩
      exact Or.inl ⟨unresolved resolved, unresolved (sameResolve.trans resolved)⟩
  case inr =>
      have inside := (of_resolve resolved).2
      rw [resolved] at sameResolve
      rw [resumes.root_eq] at inside resolved sameResolve
      have sameEntry := resumes.same _ inside
      have fresh : path ∉ (realStart tree root now id).removed := List.not_mem_nil
      by_cases gone : path ∈ session.removed
      · refine Or.inl ⟨⟨.alreadyDeleted path, by rw [withoutFile, target_of_removed resolved gone]; rfl⟩,
          exists_withoutFile_error sameResolve fresh rfl fun content held => ?_⟩
        cases ((resumes.removed path gone).2.symm.trans sameEntry.symm).trans held
      by_cases isFile : ∃ content, session.tree.entry? (placeOf root path) = some (.file content)
      · obtain ⟨content, held⟩ := isFile
        obtain ⟨later, removed⟩ : ∃ later, session.tree.remove (placeOf root path) = .ok later :=
          ⟨_, by rw [Tree.remove, held]⟩
        obtain ⟨later', removed'⟩ : ∃ later, tree.remove (placeOf root path) = .ok later :=
          ⟨_, by rw [Tree.remove, sameEntry, held]⟩
        exact Or.inr ⟨content, later, later', inside, gone, removed, removed',
          withoutFile_of_file resolved gone resumes.performs held removed,
          withoutFile_of_file sameResolve fresh rfl (sameEntry.trans held) removed'⟩
      · have noFile := not_exists.mp isFile
        exact Or.inl ⟨exists_withoutFile_error resolved gone resumes.performs noFile,
          exists_withoutFile_error sameResolve fresh rfl fun content held => noFile content (sameEntry.symm.trans held)⟩

theorem noteOriginal (resumes : Resumes paths root now id tree session) (path : String) (text : List Char) :
    Resumes paths root now id tree (session.noteOriginal path text) := by
  unfold DeletionSession.noteOriginal
  split
  · exact resumes
  · exact { resumes with }

/-! ## One item -/

section Steps

variable (apart : ∀ path ∈ paths, ∀ other ∈ paths, placeOf root path = placeOf root other → path = other)

include apart

theorem afterCut (resumes : Resumes paths root now id tree session) (named : path ∈ paths)
    (present : path ∉ session.removed) {text shorter : List Char} (noReturn : '\r' ∉ shorter) {later later' : Tree}
    (written : session.tree.write (placeOf root path) (Text.encode shorter) = .ok later)
    (written' : tree.write (placeOf root path) (Text.encode shorter) = .ok later') (span : FunctionSpan) :
    Resumes paths root now id later' (session.afterCut later path name text shorter span) := by
  have after := Tree.entry?_write written
  refine { resumes with
    wellFormed := resumes.wellFormed.write (no_parent_resolve _) written'
    sessionWellFormed := resumes.sessionWellFormed.write (no_parent_resolve _) written
    same := fun place inside => ?_, pending := fun other otherText edited => ?_, removed := fun other gone => ?_ }
  · exact (Tree.entry?_write written' place).trans ((if_congr Iff.rfl rfl (resumes.same place inside)).trans (after place).symm)
  · simp only [DeletionSession.afterCut] at edited ⊢
    rw [lookup_putText] at edited
    rw [after]
    split at edited
    · rename_i same
      obtain rfl := Option.some.inj edited
      subst same
      exact ⟨named, if_pos rfl, noReturn⟩
    · rename_i differs
      obtain ⟨otherNamed, held, otherNoReturn⟩ := resumes.pending other otherText edited
      rw [if_neg fun here => differs (apart other otherNamed path named here)]
      exact ⟨otherNamed, held, otherNoReturn⟩
  · obtain ⟨otherNamed, none⟩ := resumes.removed other gone
    simp only [DeletionSession.afterCut]
    rw [after, if_neg fun here => present (apart other otherNamed path named here ▸ gone)]
    exact ⟨otherNamed, none⟩

theorem afterFile (resumes : Resumes paths root now id tree session) (named : path ∈ paths) {later later' : Tree}
    (removed : session.tree.remove (placeOf root path) = .ok later)
    (removed' : tree.remove (placeOf root path) = .ok later') (size : Nat) :
    Resumes paths root now id later' (session.afterFile later path size) := by
  have after := Tree.entry?_remove resumes.sessionWellFormed removed
  refine { resumes with
    wellFormed := resumes.wellFormed.remove removed'
    sessionWellFormed := resumes.sessionWellFormed.remove removed
    same := fun place inside => ?_, pending := fun other text edited => ?_, removed := fun other gone => ?_ }
  · exact (Tree.entry?_remove resumes.wellFormed removed' place).trans
      ((if_congr Iff.rfl rfl (resumes.same place inside)).trans (after place).symm)
  · simp only [DeletionSession.afterFile] at edited ⊢
    rw [lookup_filter_ne] at edited
    split at edited
    · cases edited
    · rename_i differs
      obtain ⟨otherNamed, held, noReturn⟩ := resumes.pending other text edited
      rw [after, if_neg fun here => differs (apart other otherNamed path named here)]
      exact ⟨otherNamed, held, noReturn⟩
  · simp only [DeletionSession.afterFile] at gone ⊢
    rw [after]
    rcases List.mem_append.mp gone with old | new
    · obtain ⟨otherNamed, none⟩ := resumes.removed other old
      exact ⟨otherNamed, by rw [none, ite_self]⟩
    · rw [List.mem_singleton.mp new]
      exact ⟨named, if_pos rfl⟩

/-- A new session cuts out what the session would cut out. -/
theorem deleteFunction (resumes : Resumes paths root now id tree session) (named : path ∈ paths) (name : String) :
    ((realStart tree root now id).deleteFunction path name).2 = (session.deleteFunction path name).2 ∧
      Resumes paths root now id ((realStart tree root now id).deleteFunction path name).1.tree
        (session.deleteFunction path name).1 := by
  rcases resumes.textOf_cases path with ⟨⟨fault, fails⟩, fault', fails'⟩ |
    ⟨text, content, inside, present, noReturn, held, reads, reads'⟩
  · rw [record_of_textOf_error fails, record_of_textOf_error fails', deleteFunction_of_error fails,
      deleteFunction_of_error fails']
    exact ⟨rfl, resumes.fail path name fault⟩
  have noted := resumes.noteOriginal path text
  cases cut : Removal.remove? (isPagePath path) name text with
  | none =>
      have untouched : (((realStart tree root now id).noteOriginal path text).fail path name .notFound).tree = tree :=
        tree_noteOriginal
      rw [record_of_absent reads cut, record_of_absent reads' cut, deleteFunction_of_absent reads cut,
        deleteFunction_of_absent reads' cut, untouched]
      exact ⟨rfl, noted.fail path name .notFound⟩
  | some removal =>
      obtain ⟨shorter, span⟩ := removal
      obtain ⟨later, written⟩ : ∃ later, session.tree.write (placeOf root path) (Text.encode shorter) = .ok later :=
        ⟨_, by rw [Tree.write, held]⟩
      obtain ⟨later', written'⟩ : ∃ later, tree.write (placeOf root path) (Text.encode shorter) = .ok later :=
        ⟨_, by rw [Tree.write, resumes.same _ inside, held]⟩
      have done : (if session.dryRun then .ok session.tree
          else faultAt (placeOf root path) (session.tree.write (placeOf root path) (Text.encode shorter))) = .ok later := by
        rw [resumes.performs, written]
        rfl
      have done' : (if (realStart tree root now id).dryRun then .ok (realStart tree root now id).tree
          else faultAt (placeOf root path) ((realStart tree root now id).tree.write (placeOf root path)
            (Text.encode shorter))) = .ok later' := by
        rw [show (realStart tree root now id).tree = tree from rfl, written']
        rfl
      have records : (realStart tree root now id).cutRecord path name text shorter span =
          session.cutRecord path name text shorter span := by
        rw [cutRecord, cutRecord, resumes.now_eq, resumes.snapshot, resumes.performs]
        rfl
      rw [record_of_written reads cut resumes.performs written, record_of_written reads' cut rfl written', records,
        deleteFunction_of_written reads cut done, deleteFunction_of_written reads' cut done']
      refine ⟨rfl, noted.afterCut apart named ?_ (Removal.return_not_mem_of_remove? cut noReturn) ?_ written' span⟩
      · rw [removed_noteOriginal]
        exact present
      · rw [tree_noteOriginal]
        exact written

theorem deleteFile (resumes : Resumes paths root now id tree session) (named : path ∈ paths) :
    ((realStart tree root now id).deleteFile path).2 = (session.deleteFile path).2 ∧
      Resumes paths root now id ((realStart tree root now id).deleteFile path).1.tree (session.deleteFile path).1 := by
  rcases resumes.withoutFile_cases path with ⟨⟨fault, fails⟩, fault', fails'⟩ |
    ⟨content, later, later', _, present, removed, removed', without, without'⟩
  · rw [deleteFile_of_withoutFile_error fails, deleteFile_of_withoutFile_error fails']
    exact ⟨rfl, resumes.fail path none fault⟩
  have records : (realStart tree root now id).fileRecord path content.length = session.fileRecord path content.length := by
    rw [fileRecord, fileRecord, resumes.now_eq, resumes.snapshot, resumes.performs]
    rfl
  rw [deleteFile_of_withoutFile without present, deleteFile_of_withoutFile without' List.not_mem_nil, records]
  exact ⟨rfl, resumes.afterFile apart named removed removed' content.length⟩

/-- A new session does with an item what the session would do. -/
theorem deleteIn (resumes : Resumes paths root now id tree session) {item : DeletionItem} (named : item.path ∈ paths) :
    (item.deleteIn (realStart tree root now id)).2 = (item.deleteIn session).2 ∧
      Resumes paths root now id (item.deleteIn (realStart tree root now id)).1.tree (session.step item) := by
  cases item with
  | file path => exact resumes.deleteFile apart named
  | function path name => exact resumes.deleteFunction apart named name

end Steps

end Resumes

end DeletionSession
end Deadwood
