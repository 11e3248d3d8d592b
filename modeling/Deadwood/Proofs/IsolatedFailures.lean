import Deadwood.Proofs.FirstRemovals
import Deadwood.Proofs.LinkedSessions
import Deadwood.Proofs.RespelledPaths

/-!
# Failures stay alone

Each item of a plan comes to one record or to one failure, unless its path leads into a loop of links. A failure is noted and
nothing else: what the session goes on with, and so what becomes of the items behind it, is the same as if the item had not been
there. A loop ends the run, and the items behind it come to nothing.
-/

set_option autoImplicit false
namespace Deadwood

open Files

def DeletionItem.kind : DeletionItem → DeletionKind
  | file _ => .file
  | function _ _ => .function

def DeletionItem.symbol : DeletionItem → Option String
  | file _ => none
  | function _ name => some name

namespace DeletionSession

variable {session : DeletionSession} {item : DeletionItem} {path name : String} {resolved : Except DeletionFault Location}

/-! ## What a session does with an item -/

@[simp] theorem records_noteOriginal (session : DeletionSession) (path : String) (text : List Char) :
    (session.noteOriginal path text).records = session.records := by
  unfold noteOriginal
  split <;> rfl

theorem cutRecord_noteOriginal (session : DeletionSession) (path name : String) (text shorter : List Char)
    (span : FunctionSpan) : (session.noteOriginal path text).cutRecord path name text shorter span =
      session.cutRecord path name text shorter span := by
  unfold noteOriginal
  split <;> rfl

/-- What a session does with an item: it fails, perhaps after a text has been noted; or it deletes a file; or it cuts a
function out of a text. -/
inductive Act (session : DeletionSession) : DeletionItem → DeletionSession × Option DeletionRecord → Prop
  | failed {item : DeletionItem} {noted : DeletionSession} (fault : DeletionFault)
      (kept : noted = session ∨ ∃ text, noted = session.noteOriginal item.path text) :
      Act session item (noted.fail item.path item.symbol fault, none)
  | deleted (path : String) (tree : Tree) (size : Nat) :
      Act session (.file path) (session.afterFile tree path size, some (session.fileRecord path size))
  | cut (path name : String) (tree : Tree) (text shorter : List Char) (span : FunctionSpan) :
      Act session (.function path name) ((session.noteOriginal path text).afterCut tree path name text shorter span,
        some (session.cutRecord path name text shorter span))

theorem act_file (session : DeletionSession) (path : String) (resolved : Except DeletionFault Location) (keeps : Bool) :
    Act session (.file path) (session.deleteFile path resolved keeps) := by
  cases without : session.withoutFile path resolved keeps with
  | error fault =>
      rw [deleteFile_of_withoutFile_error without]
      exact .failed fault (Or.inl rfl)
  | ok found =>
      obtain ⟨tree, size⟩ := found
      rw [deleteFile_of_withoutFile without (present_of_withoutFile without)]
      exact .deleted path tree size

section Cutting

variable {location : Location} {text shorter : List Char} {span : FunctionSpan} {fault : DeletionFault} {tree : Tree}

theorem deleteFunction_eq_of_error (failed : session.textOf path resolved = .error fault) :
    session.deleteFunction path name resolved = (session.fail path name fault, none) :=
  Prod.ext (deleteFunction_of_error failed) (record_of_textOf_error failed)

theorem deleteFunction_eq_of_absent (read : session.textOf path resolved = .ok (location, text))
    (absent : Removal.remove? (isPagePath path) name text = none) :
    session.deleteFunction path name resolved = ((session.noteOriginal path text).fail path name .notFound, none) :=
  Prod.ext (deleteFunction_of_absent read absent) (record_of_absent read absent)

theorem deleteFunction_eq_of_unwritten (read : session.textOf path resolved = .ok (location, text))
    (removes : Removal.remove? (isPagePath path) name text = some (shorter, span))
    (unwritten : (if session.dryRun then .ok session.tree
      else faultAt location (session.tree.write location (Text.encode shorter))) = .error fault) :
    session.deleteFunction path name resolved = ((session.noteOriginal path text).fail path name fault, none) :=
  Prod.ext (deleteFunction_of_unwritten read removes unwritten) (record_of_unwritten read removes unwritten)

theorem deleteFunction_eq_of_written (read : session.textOf path resolved = .ok (location, text))
    (removes : Removal.remove? (isPagePath path) name text = some (shorter, span))
    (written : (if session.dryRun then .ok session.tree
      else faultAt location (session.tree.write location (Text.encode shorter))) = .ok tree) :
    session.deleteFunction path name resolved = ((session.noteOriginal path text).afterCut tree path name text shorter span,
      some (session.cutRecord path name text shorter span)) := by
  refine Prod.ext (deleteFunction_of_written read removes written) ?_
  rw [deleteFunction, read]
  dsimp only
  rw [removes]
  dsimp only
  by_cases edited : (session.pending.lookup path).isSome = true
  · rw [if_pos edited, written]
    rfl
  · rw [if_neg edited, written]
    rfl

end Cutting

theorem act_function (session : DeletionSession) (path name : String) (resolved : Except DeletionFault Location) :
    Act session (.function path name) (session.deleteFunction path name resolved) := by
  cases read : session.textOf path resolved with
  | error fault =>
      rw [deleteFunction_eq_of_error read]
      exact .failed fault (Or.inl rfl)
  | ok found =>
      obtain ⟨location, text⟩ := found
      cases removes : Removal.remove? (isPagePath path) name text with
      | none =>
          rw [deleteFunction_eq_of_absent read removes]
          exact .failed .notFound (Or.inr ⟨text, rfl⟩)
      | some removal =>
          obtain ⟨shorter, span⟩ := removal
          cases written : (if session.dryRun then .ok session.tree
              else faultAt location (session.tree.write location (Text.encode shorter)) : Except DeletionFault Tree) with
          | error fault =>
              rw [deleteFunction_eq_of_unwritten read removes written]
              exact .failed fault (Or.inr ⟨text, rfl⟩)
          | ok tree =>
              rw [deleteFunction_eq_of_written read removes written]
              exact .cut path name tree text shorter span

/-! ## What a session goes on with -/

def core (session : DeletionSession) : DeletionSession :=
  { session with failures := [], originals := [] }

theorem core_noteOriginal (session : DeletionSession) (path : String) (text : List Char) :
    (session.noteOriginal path text).core = session.core := by
  unfold noteOriginal
  split <;> rfl

theorem core_afterCut_noteOriginal (session : DeletionSession) (tree : Tree) (path name : String) (text shorter : List Char)
    (span : FunctionSpan) : ((session.noteOriginal path text).afterCut tree path name text shorter span).core =
      (session.core.afterCut tree path name text shorter span).core := by
  unfold noteOriginal
  split <;> rfl

/-- What an item comes to depends on nothing else. -/
theorem deleteFunction_core (session : DeletionSession) (path name : String) (resolved : Except DeletionFault Location) :
    (session.core.deleteFunction path name resolved).1.core = (session.deleteFunction path name resolved).1.core ∧
      (session.core.deleteFunction path name resolved).2 = (session.deleteFunction path name resolved).2 := by
  cases read : session.textOf path resolved with
  | error fault =>
      have readCore : session.core.textOf path resolved = .error fault := read
      rw [deleteFunction_eq_of_error read, deleteFunction_eq_of_error readCore]
      exact ⟨rfl, rfl⟩
  | ok found =>
      obtain ⟨location, text⟩ := found
      have readCore : session.core.textOf path resolved = .ok (location, text) := read
      have noted : (session.core.noteOriginal path text).core = (session.noteOriginal path text).core := by
        rw [core_noteOriginal, core_noteOriginal]
        rfl
      cases removes : Removal.remove? (isPagePath path) name text with
      | none =>
          rw [deleteFunction_eq_of_absent read removes, deleteFunction_eq_of_absent readCore removes]
          exact ⟨noted, rfl⟩
      | some removal =>
          obtain ⟨shorter, span⟩ := removal
          cases written : (if session.dryRun then .ok session.tree
              else faultAt location (session.tree.write location (Text.encode shorter)) : Except DeletionFault Tree) with
          | error fault =>
              rw [deleteFunction_eq_of_unwritten read removes written,
                @deleteFunction_eq_of_unwritten session.core _ _ _ _ _ _ _ _ readCore removes written]
              exact ⟨noted, rfl⟩
          | ok tree =>
              rw [deleteFunction_eq_of_written read removes written,
                @deleteFunction_eq_of_written session.core _ _ _ _ _ _ _ _ readCore removes written]
              refine ⟨?_, rfl⟩
              rw [core_afterCut_noteOriginal, core_afterCut_noteOriginal]
              rfl

theorem deleteFile_core (session : DeletionSession) (path : String) (resolved : Except DeletionFault Location) (keeps : Bool) :
    (session.core.deleteFile path resolved keeps).1.core = (session.deleteFile path resolved keeps).1.core ∧
      (session.core.deleteFile path resolved keeps).2 = (session.deleteFile path resolved keeps).2 := by
  have without : session.core.withoutFile path resolved keeps = session.withoutFile path resolved keeps := rfl
  simp only [deleteFile, without]
  split <;> exact ⟨rfl, rfl⟩

end DeletionSession

namespace LinkedSession

open DeletionSession

variable {linked alone later : LinkedSession} {item : DeletionItem} {record : Option DeletionRecord}

/-! ## One item -/

structure Recorded (linked : LinkedSession) (item : DeletionItem) (record : DeletionRecord) (later : LinkedSession) : Prop where
  deleted : linked.delete item = .ok (later, some record)
  kind : record.kind = item.kind
  path : record.path = item.path
  symbol : record.symbol = item.symbol
  records : later.session.records = linked.session.records ++ [record]
  failures : later.session.failures = linked.session.failures

/-- An item fails, and nothing but that is noted of it. -/
structure Failed (linked : LinkedSession) (item : DeletionItem) (failure : DeletionFailure) (later : LinkedSession) : Prop where
  deleted : linked.delete item = .ok (later, none)
  path : failure.path = item.path
  symbol : failure.symbol = item.symbol
  records : later.session.records = linked.session.records
  failures : later.session.failures = linked.session.failures ++ [failure]
  tree : later.session.tree = linked.session.tree
  links : later.links = linked.links
  pending : later.session.pending = linked.session.pending
  removed : later.session.removed = linked.session.removed

theorem act_deleteAt (linked : LinkedSession) (resolved : Except DeletionFault Location) (link : Option Location)
    (item : DeletionItem) :
    Act linked.session item ((linked.deleteAt resolved link item).1.session, (linked.deleteAt resolved link item).2) := by
  cases item with
  | file path =>
      rw [deleteAt_file]
      exact act_file linked.session path resolved _
  | function path name =>
      rw [deleteAt_function]
      exact act_function linked.session path name resolved

theorem links_deleteAt (resolved : Except DeletionFault Location) (link : Option Location)
    (fails : (linked.deleteAt resolved link item).2 = none) : (linked.deleteAt resolved link item).1.links = linked.links := by
  cases item with
  | function path name => rw [deleteAt_function]
  | file path =>
      rw [deleteAt_file] at fails ⊢
      dsimp only at fails ⊢
      rw [fails]
      rfl

theorem exists_of_delete (deleted : linked.delete item = .ok (later, record)) :
    ∃ resolved link, linked.resolve item.path = .ok (resolved, link) ∧ linked.deleteAt resolved link item = (later, record) := by
  unfold delete at deleted
  cases place : linked.resolve item.path with
  | error loop =>
      rw [place] at deleted
      cases deleted
  | ok found =>
      rw [place] at deleted
      exact ⟨found.1, found.2, rfl, Except.ok.inj deleted⟩

theorem act_delete (deleted : linked.delete item = .ok (later, record)) : Act linked.session item (later.session, record) := by
  obtain ⟨resolved, link, _, comes⟩ := exists_of_delete deleted
  have act := act_deleteAt linked resolved link item
  rwa [comes] at act

theorem links_delete (deleted : linked.delete item = .ok (later, none)) : later.links = linked.links := by
  obtain ⟨resolved, link, _, comes⟩ := exists_of_delete deleted
  have kept := @links_deleteAt linked item resolved link
  rw [comes] at kept
  exact kept rfl

theorem delete_of_looped (looped : linked.links.place? linked.session.tree
      ((⟨"/", linked.session.root⟩ : Path).join (Path.ofString item.path)) = none) :
    linked.delete item = .error ⟨item.path⟩ := by
  rw [delete, resolve, looped]
  rfl

theorem loop_of_delete {loop : LinkLoop} (loops : linked.delete item = .error loop) : loop = ⟨item.path⟩ := by
  unfold delete resolve at loops
  cases place : linked.links.place? linked.session.tree
      ((⟨"/", linked.session.root⟩ : Path).join (Path.ofString item.path)) with
  | none =>
      rw [place] at loops
      exact (Except.error.inj loops).symm
  | some found =>
      rw [place] at loops
      cases loops

/-- An item comes to one record or to one failure, or its path leads into a loop. -/
theorem recorded_or_failed_or_looped (linked : LinkedSession) (item : DeletionItem) :
    (∃ record later, Recorded linked item record later) ∨ (∃ failure later, Failed linked item failure later) ∨
      linked.delete item = .error ⟨item.path⟩ := by
  cases deleted : linked.delete item with
  | error loop => exact Or.inr (Or.inr (congrArg Except.error (loop_of_delete deleted)))
  | ok result =>
      obtain ⟨later, record⟩ := result
      have act := act_delete deleted
      generalize comes : (later.session, record) = result at act
      cases act with
      | @failed _ noted fault kept =>
          obtain ⟨after, rfl⟩ := Prod.mk.inj comes
          have same : noted.records = linked.session.records ∧ noted.failures = linked.session.failures ∧
              noted.tree = linked.session.tree ∧ noted.pending = linked.session.pending ∧
                noted.removed = linked.session.removed := by
            rcases kept with rfl | ⟨text, rfl⟩
            · exact ⟨rfl, rfl, rfl, rfl, rfl⟩
            · simp
          obtain ⟨records, failures, tree, pending, removed⟩ := same
          refine Or.inr (Or.inl ⟨⟨item.path, item.symbol, fault⟩, later, deleted, rfl, rfl, ?_, ?_, ?_, links_delete deleted,
            ?_, ?_⟩)
          all_goals rw [after]
          · exact records
          · exact congrArg (· ++ [_]) failures
          · exact tree
          · exact pending
          · exact removed
      | deleted path tree size =>
          obtain ⟨after, rfl⟩ := Prod.mk.inj comes
          refine Or.inl ⟨linked.session.fileRecord path size, later, deleted, rfl, rfl, rfl, ?_, ?_⟩
          all_goals rw [after]; rfl
      | cut path name tree text shorter span =>
          obtain ⟨after, rfl⟩ := Prod.mk.inj comes
          refine Or.inl ⟨linked.session.cutRecord path name text shorter span, later, deleted, rfl, rfl, rfl, ?_, ?_⟩
          all_goals rw [after]
          · simp [afterCut, cutRecord_noteOriginal]
          · simp [afterCut]

/-! ## What an item depends on -/

/-- All of a session but its failures and the texts that a listing starts from, with the links. -/
def core (linked : LinkedSession) : LinkedSession :=
  { linked with session := linked.session.core }

theorem deleteAt_core (linked : LinkedSession) (resolved : Except DeletionFault Location) (link : Option Location)
    (item : DeletionItem) :
    (linked.core.deleteAt resolved link item).1.core = (linked.deleteAt resolved link item).1.core ∧
      (linked.core.deleteAt resolved link item).2 = (linked.deleteAt resolved link item).2 := by
  cases item with
  | function path name =>
      obtain ⟨session, record⟩ := deleteFunction_core linked.session path name resolved
      rw [deleteAt_function, deleteAt_function]
      exact ⟨congrArg (fun session => (⟨session, linked.links⟩ : LinkedSession)) session, record⟩
  | file path =>
      obtain ⟨session, record⟩ := deleteFile_core linked.session path resolved (linked.session.dryRun || link.isSome)
      rw [deleteAt_file, deleteAt_file]
      refine ⟨?_, record⟩
      rw [core, core, LinkedSession.mk.injEq]
      exact ⟨session, congrArg (linked.linksAfter link) record⟩

/-- What an item comes to depends on nothing else. -/
theorem exists_delete (same : alone.core = linked.core) (deleted : linked.delete item = .ok (later, record)) :
    ∃ other, alone.delete item = .ok (other, record) ∧ other.core = later.core := by
  obtain ⟨resolved, link, place, comes⟩ := exists_of_delete deleted
  have aloneResolve : alone.resolve item.path = .ok (resolved, link) := by
    change alone.core.resolve item.path = _
    rw [same]
    exact place
  refine ⟨(alone.deleteAt resolved link item).1, ?_, ?_⟩
  · rw [delete, aloneResolve]
    refine congrArg Except.ok (Prod.ext rfl ?_)
    rw [← (deleteAt_core alone resolved link item).2, same, (deleteAt_core linked resolved link item).2, comes]
  · rw [← (deleteAt_core alone resolved link item).1, same, (deleteAt_core linked resolved link item).1, comes]

theorem core_of_failed {failure : DeletionFailure} (failed : Failed linked item failure later) : later.core = linked.core := by
  have act := act_delete failed.deleted
  have links := failed.links
  rw [core, core, LinkedSession.mk.injEq]
  refine ⟨?_, links⟩
  generalize comes : (later.session, none) = result at act
  cases act with
  | failed fault kept =>
      obtain ⟨after, -⟩ := Prod.mk.inj comes
      rw [after]
      rcases kept with rfl | ⟨text, rfl⟩
      · rfl
      · exact core_noteOriginal linked.session item.path text
  | deleted => cases (Prod.mk.inj comes).2
  | cut => cases (Prod.mk.inj comes).2

/-! ## Items one after the other -/

/-- What each of the items comes to when they are deleted one after the other, and the session after them. -/
inductive Run : LinkedSession → List DeletionItem → List (Except DeletionFailure DeletionRecord) → LinkedSession → Prop
  | nil (linked : LinkedSession) : Run linked [] [] linked
  | recorded {linked next later : LinkedSession} {item : DeletionItem} {record : DeletionRecord} {rest : List DeletionItem}
      {answers : List (Except DeletionFailure DeletionRecord)} (recorded : Recorded linked item record next)
      (run : Run next rest answers later) : Run linked (item :: rest) (.ok record :: answers) later
  | failed {linked next later : LinkedSession} {item : DeletionItem} {failure : DeletionFailure} {rest : List DeletionItem}
      {answers : List (Except DeletionFailure DeletionRecord)} (failed : Failed linked item failure next)
      (run : Run next rest answers later) : Run linked (item :: rest) (.error failure :: answers) later

def failure? : Except DeletionFailure DeletionRecord → Option DeletionFailure
  | .error failure => some failure
  | .ok _ => none

def recordedOf {α : Type} : List α → List (Except DeletionFailure DeletionRecord) → List α
  | next :: rest, .ok _ :: answers => next :: recordedOf rest answers
  | _ :: rest, .error _ :: answers => recordedOf rest answers
  | _, _ => []

theorem recordedOf_append {α : Type} (first second : List α)
    (answers : List (Except DeletionFailure DeletionRecord)) :
    recordedOf (first ++ second) answers = recordedOf first answers ++ recordedOf second (answers.drop first.length) := by
  induction first generalizing answers with
  | nil => rfl
  | cons next rest ih =>
      cases answers with
      | nil => cases second <;> rfl
      | cons answer answers =>
          cases answer with
          | ok record => rw [List.cons_append, recordedOf, recordedOf, ih, List.length_cons, List.drop_succ_cons, List.cons_append]
          | error failure => rw [List.cons_append, recordedOf, recordedOf, ih, List.length_cons, List.drop_succ_cons]

theorem map_recordedOf {α β : Type} (f : α → β) (list : List α)
    (answers : List (Except DeletionFailure DeletionRecord)) :
    (recordedOf list answers).map f = recordedOf (list.map f) answers := by
  induction list generalizing answers with
  | nil => rfl
  | cons next rest ih =>
      cases answers with
      | nil => rfl
      | cons answer answers =>
          cases answer with
          | ok record => rw [recordedOf, List.map_cons, List.map_cons, recordedOf, ih]
          | error failure => rw [recordedOf, List.map_cons, recordedOf, ih]

/-- All items come to answers, or the first of them that leads into a loop is come to. -/
theorem exists_run_or_loop (linked : LinkedSession) (items : List DeletionItem) :
    (∃ answers later, Run linked items answers later) ∨ ∃ done item rest answers later, items = done ++ item :: rest ∧
      Run linked done answers later ∧ later.delete item = .error ⟨item.path⟩ := by
  induction items generalizing linked with
  | nil => exact Or.inl ⟨[], linked, .nil linked⟩
  | cons item rest ih =>
      rcases recorded_or_failed_or_looped linked item with ⟨record, next, recorded⟩ | ⟨failure, next, failed⟩ | looped
      case inr.inr => exact Or.inr ⟨[], item, rest, [], linked, rfl, .nil linked, looped⟩
      · rcases ih next with ⟨answers, later, run⟩ | ⟨done, looped, behind, answers, later, rfl, run, loops⟩
        · exact Or.inl ⟨.ok record :: answers, later, .recorded recorded run⟩
        · exact Or.inr ⟨item :: done, looped, behind, .ok record :: answers, later, rfl, .recorded recorded run, loops⟩
      · rcases ih next with ⟨answers, later, run⟩ | ⟨done, looped, behind, answers, later, rfl, run, loops⟩
        · exact Or.inl ⟨.error failure :: answers, later, .failed failed run⟩
        · exact Or.inr ⟨item :: done, looped, behind, .error failure :: answers, later, rfl, .failed failed run, loops⟩

namespace Run

variable {items : List DeletionItem} {answers : List (Except DeletionFailure DeletionRecord)}

theorem records (run : Run linked items answers later) :
    later.session.records = linked.session.records ++ answers.filterMap (·.toOption) := by
  induction run with
  | nil => simp
  | recorded recorded _ ih => simp [ih, recorded.records, Except.toOption]
  | failed failed _ ih => simp [ih, failed.records, Except.toOption]

theorem failures (run : Run linked items answers later) :
    later.session.failures = linked.session.failures ++ answers.filterMap failure? := by
  induction run with
  | nil => simp
  | recorded recorded _ ih =>
      rw [ih, recorded.failures]
      rfl
  | failed failed _ ih =>
      rw [ih, failed.failures, List.append_assoc]
      rfl

theorem deleteAll (run : Run linked items answers later) (rest : List DeletionItem) :
    linked.deleteAll (items ++ rest) = later.deleteAll rest := by
  induction run with
  | nil => rfl
  | recorded recorded _ ih =>
      rw [List.cons_append, LinkedSession.deleteAll, recorded.deleted]
      exact ih
  | failed failed _ ih =>
      rw [List.cons_append, LinkedSession.deleteAll, failed.deleted]
      exact ih

theorem links_unlinked (run : Run linked items answers later) (noLinks : linked.links = {}) : later.links = {} := by
  have next : ∀ {linked next : LinkedSession} {item : DeletionItem} {record : Option DeletionRecord},
      linked.links = {} → linked.delete item = .ok (next, record) → next.links = {} := by
    rintro ⟨session, links⟩ next item record rfl deleted
    rw [delete_unlinked] at deleted
    rw [← (Prod.mk.inj (Except.ok.inj deleted)).1]
  induction run with
  | nil => exact noLinks
  | recorded recorded _ ih => exact ih (next noLinks recorded.deleted)
  | failed failed _ ih => exact ih (next noLinks failed.deleted)

/-- Items that fail can be left out. -/
theorem exists_alone (run : Run linked items answers later) (same : alone.core = linked.core) :
    ∃ other, alone.deleteAll (recordedOf items answers) = (other, none) ∧ other.core = later.core ∧
      other.session.failures = alone.session.failures := by
  induction run generalizing alone with
  | nil => exact ⟨alone, rfl, same, rfl⟩
  | @recorded linked next later item record rest answers recorded run ih =>
      obtain ⟨after, deleted, sameAfter⟩ := exists_delete same recorded.deleted
      obtain ⟨other, done, sameOther, noFailures⟩ := ih sameAfter
      refine ⟨other, ?_, sameOther, noFailures.trans ?_⟩
      · rw [recordedOf, LinkedSession.deleteAll, deleted]
        exact done
      · have act := act_delete deleted
        generalize comes : (after.session, some record) = result at act
        cases act with
        | failed fault kept => cases (Prod.mk.inj comes).2
        | deleted path tree size =>
            rw [(Prod.mk.inj comes).1]
            rfl
        | cut path name tree text shorter span =>
            rw [(Prod.mk.inj comes).1]
            simp [afterCut]
  | failed failed run ih =>
      rw [recordedOf]
      exact ih (same.trans (core_of_failed failed).symm)

end Run

end LinkedSession

open LinkedSession

def Plan.recordedIn (plan : Plan) (answers : List (Except DeletionFailure DeletionRecord)) : Plan :=
  { functions := recordedOf plan.functions answers
    files := recordedOf plan.files (answers.drop plan.functions.length) }

theorem Plan.items_recordedIn (plan : Plan) (answers : List (Except DeletionFailure DeletionRecord)) :
    (plan.recordedIn answers).items = recordedOf plan.items answers := by
  rw [Plan.items, Plan.items, recordedOf_append, ← map_recordedOf, ← map_recordedOf, List.length_map]
  rfl

namespace LinkedSession

open DeletionSession

variable {linked later : LinkedSession}

/-- What carrying out a plan comes to: each item, functions first, comes to one record or one failure, and without those that
fail the plan comes to the same records, the same tree and the same links. -/
structure Isolated (linked : LinkedSession) (plan : Plan) (answers : List (Except DeletionFailure DeletionRecord))
    (later alone : LinkedSession) : Prop where
  carriedOut : linked.carryOut plan = .ok (later, .ok (answers.filterMap (·.toOption)))
  run : Run linked plan.items answers later
  records : later.session.records = linked.session.records ++ answers.filterMap (·.toOption)
  failures : later.session.failures = linked.session.failures ++ answers.filterMap failure?
  aloneCarriedOut : linked.carryOut (plan.recordedIn answers) = .ok (alone, .ok (answers.filterMap (·.toOption)))
  aloneRecords : alone.session.records = later.session.records
  aloneFailures : alone.session.failures = linked.session.failures
  tree : alone.session.tree = later.session.tree
  links : alone.links = later.links
  pending : alone.session.pending = later.session.pending

/-- What carrying out a plan comes to where an item leads into a loop: the items before it come to their answers, the loop is
the answer to the plan, and neither it nor what is behind it leaves a record or a failure. -/
structure Looped (linked : LinkedSession) (plan : Plan) (done : List DeletionItem) (item : DeletionItem)
    (rest : List DeletionItem) (answers : List (Except DeletionFailure DeletionRecord)) (later : LinkedSession) : Prop where
  items : plan.items = done ++ item :: rest
  run : Run linked done answers later
  loops : later.delete item = .error ⟨item.path⟩
  carriedOut : linked.carryOut plan = .ok (later, .error ⟨item.path⟩)
  records : later.session.records = linked.session.records ++ answers.filterMap (·.toOption)
  failures : later.session.failures = linked.session.failures ++ answers.filterMap failure?

/-- A failing item does not keep the others from what they come to, and a loop of links is all that ends the run: without links
none does. -/
theorem carryOut_isolates_failures_unless_looped (linked : LinkedSession) (plan : Plan)
    (bound : linked.session.snapshotId.isSome = true) :
    ((∃ answers later alone, Isolated linked plan answers later alone) ∨
      ∃ done item rest answers later, Looped linked plan done item rest answers later) ∧
    (linked.links = {} → ∃ answers later alone, Isolated linked plan answers later alone) := by
  have allowed : linked.session.mayDelete = true := by rw [DeletionSession.mayDelete, bound, Bool.or_true]
  have isolates : ∀ answers later, Run linked plan.items answers later →
      ∃ answers later alone, Isolated linked plan answers later alone := by
    intro answers later run
    have all := run.deleteAll []
    rw [List.append_nil] at all
    obtain ⟨alone, done, same, noFailures⟩ := run.exists_alone (rfl : linked.core = linked.core)
    rw [← plan.items_recordedIn] at done
    have sameSession : alone.session.core = later.session.core := congrArg LinkedSession.session same
    have sameRecords : alone.session.records = later.session.records := (congrArg DeletionSession.records sameSession :)
    have added : later.session.records.drop linked.session.records.length = answers.filterMap (·.toOption) := by
      rw [run.records, List.drop_left]
    refine ⟨answers, later, alone, ?_⟩
    exact
      { carriedOut := by rw [carryOut_of_deleteAll allowed all, added]
        run := run
        records := run.records
        failures := run.failures
        aloneCarriedOut := by rw [carryOut_of_deleteAll allowed done, sameRecords, added]
        aloneRecords := sameRecords
        aloneFailures := noFailures
        tree := (congrArg DeletionSession.tree sameSession :)
        links := (congrArg LinkedSession.links same :)
        pending := (congrArg DeletionSession.pending sameSession :) }
  rcases exists_run_or_loop linked plan.items with ⟨answers, later, run⟩ | ⟨done, item, rest, answers, later, items, run, loops⟩
  · exact ⟨Or.inl (isolates answers later run), fun _ => isolates answers later run⟩
  · refine ⟨Or.inr ⟨done, item, rest, answers, later, items, run, loops, ?_, run.records, run.failures⟩, fun noLinks => ?_⟩
    · rw [carryOut, if_pos allowed, items, run.deleteAll, deleteAll, loops]
    · obtain ⟨session, links⟩ := later
      have kept : links = {} := run.links_unlinked noLinks
      rw [kept, delete_unlinked] at loops
      cases loops

/-- A plan with functions that are not there, a file that is named twice, and a path that leads out of the tree. -/
def mixedPlan : Plan where
  functions := [⟨"a.gs", "x"⟩, ⟨"a.gs", "f"⟩, ⟨"b.gs", "f"⟩]
  files := ["../a.gs", "a.gs", "a.gs"]

/-- A session on a tree with one file and with links. -/
def linkedStart (links : Links) : LinkedSession :=
  ⟨realStart threeFunctions ["src"] ⟨2026, 1, 1, 12, 0, 0, 0⟩ "s", links⟩

/-- Of its six items two are deleted, with the others or without them. -/
theorem mixedPlan_isolates_failures :
    (linkedStart {}).session.snapshotId.isSome = true ∧
      (((linkedStart {}).carryOut mixedPlan).toOption.bind fun done => done.2.toOption.map (·.map (·.kind))) =
        some [.function, .file] ∧
      ∃ answers later alone, Isolated (linkedStart {}) mixedPlan answers later alone := by
  refine ⟨rfl, by decide +kernel, ?_⟩
  exact (carryOut_isolates_failures_unless_looped (linkedStart {}) mixedPlan rfl).2 rfl

def loopedLinks : Links :=
  ⟨[(["src", "loop.gs"], "loop.gs")]⟩

/-- A plan whose first item stands behind the link. -/
def loopedPlan : Plan where
  functions := [⟨"loop.gs", "f"⟩, ⟨"a.gs", "f"⟩]

/-- The item behind the link comes to nothing, and nor does the one after it. -/
theorem loopedPlan_stops_at_loop :
    (linkedStart loopedLinks).session.snapshotId.isSome = true ∧
      (linkedStart loopedLinks).carryOut loopedPlan = .ok (linkedStart loopedLinks, .error ⟨"loop.gs"⟩) ∧
      ¬ ∃ answers later alone, Isolated (linkedStart loopedLinks) loopedPlan answers later alone := by
  have loops : (linkedStart loopedLinks).delete (.function "loop.gs" "f") = .error ⟨"loop.gs"⟩ :=
    delete_of_looped (by decide +kernel)
  have stops : (linkedStart loopedLinks).carryOut loopedPlan = .ok (linkedStart loopedLinks, .error ⟨"loop.gs"⟩) := by
    have items : loopedPlan.items = .function "loop.gs" "f" :: [.function "a.gs" "f"] := rfl
    have allowed : (linkedStart loopedLinks).session.mayDelete = true := rfl
    rw [carryOut, if_pos allowed, items, deleteAll, loops]
  refine ⟨rfl, stops, ?_⟩
  rintro ⟨answers, later, alone, isolated⟩
  have carriedOut := isolated.carriedOut
  rw [stops] at carriedOut
  cases (Prod.mk.inj (Except.ok.inj carriedOut)).2

end LinkedSession
end Deadwood
