import Deadwood.Deletion.Item
import Deadwood.Proofs.TreeLaws
import Deadwood.Proofs.WrittenValues

/-!
# Logs that grow

A log to which deletions are added again and again holds all of them with their totals. Whoever adds to it reads back what was
written before, and leaves it alone if it has or would get numbers too long for a text; nothing else can go wrong.
-/

set_option autoImplicit false
namespace Deadwood

open Files JsonValue

namespace DeletionLog

def totals (records : List DeletionRecord) : List (String × JsonValue) :=
  [("files_deleted", .nat (records.countP (·.kind = .file))), ("functions_deleted", .nat (records.countP (·.kind = .function))),
   ("bytes_freed", .int (records.map DeletionRecord.bytesFreed).sum)]

def grown (id rollback : String) (records : List DeletionRecord) (now : Moment) : JsonValue :=
  .object
    [("snapshot_id", .string id), ("rollback_command", .string rollback), ("summary", .object (totals records)),
     ("deletions", .array (records.map DeletionRecord.toJson)), ("written_at", .string now.toString)]

theorem kind_toJson (record : DeletionRecord) : field "kind" record.toJson = .ok (.string record.kind.label) := rfl

theorem label_inj {first second : DeletionKind} : first.label = second.label ↔ first = second := by
  cases first <;> cases second <;> decide

/-- A fold in which every step succeeds is a fold over what the steps make of a state. -/
theorem foldlM_eq_ok {α β γ ε : Type} (shown : β → γ) (next : β → α → β) {step : γ → α → Except ε γ}
    (steps : ∀ state item, step (shown state) item = .ok (shown (next state item))) (items : List α) (state : β) :
    items.foldlM step (shown state) = .ok (shown (items.foldl next state)) := by
  induction items generalizing state with
  | nil => rfl
  | cons item rest ih =>
      rw [List.foldlM_cons, steps]
      exact ih (next state item)

theorem countKind_records (kind : DeletionKind) (records : List DeletionRecord) :
    countKind kind (records.map DeletionRecord.toJson) = .ok (records.countP (·.kind = kind)) := by
  have counted : ∀ (records : List DeletionRecord) (count : Nat),
      records.foldl (fun count record => if record.kind = kind then count + 1 else count) count =
        count + records.countP (·.kind = kind) := by
    intro records
    induction records with
    | nil => exact fun count => rfl
    | cons record rest ih =>
        intro count
        rw [List.foldl_cons, ih, List.countP_cons]
        by_cases same : record.kind = kind <;> (simp [same]; try omega)
  rw [countKind, List.foldlM_map]
  refine (foldlM_eq_ok id (fun count record => if record.kind = kind then count + 1 else count)
    (fun count record => ?_) records 0).trans (by rw [counted, Nat.zero_add, id])
  rw [kind_toJson]
  simp only [bind, Except.bind, pure, Except.pure, label_inj, id]

theorem bytesFreed_records (records : List DeletionRecord) :
    bytesFreed (records.map DeletionRecord.toJson) = .ok (.int (records.map DeletionRecord.bytesFreed).sum) := by
  have summed : ∀ (records : List DeletionRecord) (total : Int),
      records.foldl (fun total record => total + record.bytesFreed) total =
        total + (records.map DeletionRecord.bytesFreed).sum := by
    intro records
    induction records with
    | nil => exact fun total => (Int.add_zero total).symm
    | cons record rest ih =>
        intro total
        rw [List.foldl_cons, ih, List.map_cons, List.sum_cons, Int.add_assoc]
  rw [bytesFreed, List.foldlM_map]
  refine (foldlM_eq_ok JsonValue.int (fun total record => total + record.bytesFreed)
    (fun total record => ?_) records 0).trans (by rw [summed, Int.zero_add])
  have before : field "size_before" record.toJson = .ok (.int record.sizeBefore) := rfl
  have after : field "size_after" record.toJson = .ok (.int record.sizeAfter) := rfl
  have freed : (JsonValue.int record.sizeBefore).addMultiple (-1) (.int record.sizeAfter) = some (.int record.bytesFreed) := by
    simp [addMultiple, decimal?, isWhole, DeletionRecord.bytesFreed]
    omega
  have added : (JsonValue.int total).addMultiple 1 (.int record.bytesFreed) = some (.int (total + record.bytesFreed)) := by
    simp [addMultiple, decimal?, isWhole]
  rw [before, after]
  simp only [bind, Except.bind, pure, Except.pure, freed, Option.bind_some, added]

/-- A log that holds records is extended by more of them. -/
theorem extend_records {entries summary : List (String × JsonValue)} {old : List DeletionRecord}
    (deletions : entries.lookup "deletions" = some (.array (old.map DeletionRecord.toJson)))
    (summarized : entries.lookup "summary" = some (.object summary)) (records : List DeletionRecord) (now : Moment) :
    extend (.object entries) records now =
      .ok (.object (putEntry "summary" (.object ((totals (old ++ records)).foldl (fun summary entry =>
          putEntry entry.1 entry.2 summary) summary))
        (putEntry "written_at" (.string now.toString)
          (putEntry "deletions" (.array ((old ++ records).map DeletionRecord.toJson)) entries)))) := by
  have files := countKind_records .file (old ++ records)
  have functions := countKind_records .function (old ++ records)
  have freed := bytesFreed_records (old ++ records)
  have held : field "deletions" (.object entries) = .ok (.array (old.map DeletionRecord.toJson)) := by
    rw [field, if_pos (show Snapshot.isObject (.object entries) = true from rfl), get?, deletions]
  have summary : field "summary" (.object entries) = .ok (.object summary) := by
    rw [field, if_pos (show Snapshot.isObject (.object entries) = true from rfl), get?, summarized]
  rw [List.map_append] at files functions freed ⊢
  rw [extend, held, summary]
  simp only [bind, Except.bind, pure, Except.pure, files, functions, freed]
  rfl

theorem extend_empty (snapshot : Snapshot) (origin : Path) (records : List DeletionRecord) (now : Moment) :
    extend (empty snapshot origin) records now =
      .ok (grown snapshot.id (Snapshot.rollbackCommand snapshot.id origin) records now) := by
  rw [empty, @extend_records _ [] [] rfl rfl records now]
  rfl

theorem extend_grown (id rollback : String) (old records : List DeletionRecord) (before now : Moment) :
    extend (grown id rollback old before) records now = .ok (grown id rollback (old ++ records) now) := by
  rw [grown, @extend_records _ (totals old) old rfl rfl records now]
  rfl

/-! ## In a tree -/

theorem writable_toJson (record : DeletionRecord) : record.toJson.Writable := by
  have ofOption : ∀ text : Option String, (JsonValue.ofOption text).Writable := by
    rintro (_ | text)
    · exact .null
    · exact .string text
  have once : (["kind", "path", "symbol", "snapshot_id", "size_before", "size_after", "span", "dry_run", "timestamp"] :
      List String).Nodup := by decide
  refine .object once ?_
  simp only [List.forall_mem_cons, List.not_mem_nil, false_implies, implies_true, and_true]
  refine ⟨.string _, .string _, ofOption _, ofOption _, .int _, .int _, ?_, .bool _, .string _⟩
  rcases record.span with _ | ⟨first, last⟩
  · exact .null
  · exact .array (List.forall_mem_cons.mpr ⟨.int first, List.forall_mem_cons.mpr ⟨.int last, by simp⟩⟩)

theorem writable_grown (id rollback : String) (records : List DeletionRecord) (now : Moment) :
    (grown id rollback records now).Writable := by
  have totals : (JsonValue.object (totals records)).Writable := by
    have once : (["files_deleted", "functions_deleted", "bytes_freed"] : List String).Nodup := by decide
    refine .object once ?_
    simp only [DeletionLog.totals, List.forall_mem_cons, List.not_mem_nil, false_implies, implies_true, and_true]
    exact ⟨.int _, .int _, .int _⟩
  have deletions : (JsonValue.array (records.map DeletionRecord.toJson)).Writable :=
    .array (List.forall_mem_map.mpr fun record _ => writable_toJson record)
  have once : (["snapshot_id", "rollback_command", "summary", "deletions", "written_at"] : List String).Nodup := by decide
  refine .object once ?_
  simp only [List.forall_mem_cons, List.not_mem_nil, false_implies, implies_true, and_true]
  exact ⟨.string _, .string _, totals, deletions, .string _⟩

theorem depth_toJson_le (record : DeletionRecord) : record.toJson.depth ≤ 2 := by
  have ofOption : ∀ text : Option String, (JsonValue.ofOption text).depth ≤ 1 := by
    rintro (_ | text) <;> exact Nat.zero_le 1
  refine depth_object_le_iff.mpr ?_
  simp only [List.forall_mem_cons, List.not_mem_nil, false_implies, implies_true, and_true]
  refine ⟨Nat.zero_le 1, Nat.zero_le 1, ofOption _, ofOption _, Nat.zero_le 1, Nat.zero_le 1, ?_, Nat.zero_le 1, Nat.zero_le 1⟩
  rcases record.span with _ | ⟨first, last⟩
  · exact Nat.zero_le 1
  · exact le_refl 1

theorem depth_records_le (records : List DeletionRecord) : (JsonValue.array (records.map DeletionRecord.toJson)).depth ≤ 3 :=
  depth_array_le_iff.mpr (List.forall_mem_map.mpr fun record _ => depth_toJson_le record)

theorem shallow_grown (id rollback : String) (records : List DeletionRecord) (now : Moment) :
    (grown id rollback records now).depth ≤ nestingLimit := by
  refine le_trans (depth_object_le_iff.mpr ?_) (show 3 + 1 ≤ nestingLimit by decide)
  simp only [List.forall_mem_cons, List.not_mem_nil, false_implies, implies_true, and_true]
  refine ⟨Nat.zero_le 3, Nat.zero_le 3, ?_, depth_records_le records, Nat.zero_le 3⟩
  refine depth_object_le_iff.mpr ?_
  simp only [totals, List.forall_mem_cons, List.not_mem_nil, false_implies, implies_true, and_true]
  exact ⟨Nat.zero_le 2, Nat.zero_le 2, Nat.zero_le 2⟩

def MayGrow (tree : Tree) (place : Location) : Prop :=
  tree.entry? place = none ∨ ∃ id rollback records now,
    tree.entry? place = some (.file (Text.encode (grown id rollback records now).render.toList))

end DeletionLog

namespace SnapshotStore

open DeletionLog

variable {snapshot : Snapshot} {world : World} {tree : Tree} {place : Location} {origin : Path}

theorem openLog_of_text {content : Bytes} {text : List Char} (found : isTaken tree snapshot.logFile = true)
    (read : (tree.locate snapshot.logFile).bind tree.read = .ok content) (decoded : readText content = .ok text) :
    openLog snapshot tree = match JsonValue.ofText text with
      | .ok log => .ok log
      | .error .malformed => .error .logNotAppended
      | .error .tooDeep => .error .tooDeep := by
  rcases log : JsonValue.ofText text with (_ | _) | _ <;> simp only [openLog, if_pos found, read, decoded, log]

/-- The log to which deletions are added can be extended by them, or it cannot be read. -/
theorem openLog_cases (located : tree.locate snapshot.logFile = .ok place) (taken : snapshot.originPath = .ok origin)
    (mayGrow : MayGrow tree place) : openLog snapshot tree = .error .logNotAppended ∨
      ∃ log, openLog snapshot tree = .ok log ∧ ∀ records now, ∃ id rollback all,
        extend log records now = .ok (grown id rollback all now) := by
  rcases mayGrow with none | ⟨id, rollback, old, before, held⟩
  · have vacant : isTaken tree snapshot.logFile = false := by
      rw [isTaken, Tree.isFileAt, Tree.isDirectoryAt, located]
      simp only [Tree.isFile, Tree.isDirectory, none]
      rfl
    refine Or.inr ⟨empty snapshot origin, ?_, fun records now => ⟨_, _, _, extend_empty snapshot origin records now⟩⟩
    rw [openLog, vacant, taken]
    rfl
  · have found : isTaken tree snapshot.logFile = true := by
      rw [isTaken, Tree.isFileAt, located]
      simp only [Tree.isFile, held, Bool.true_or]
    have writable := writable_grown id rollback old before
    have read : (tree.locate snapshot.logFile).bind tree.read =
        .ok (Text.encode (grown id rollback old before).render.toList) := by
      rw [located, Except.bind, Tree.read, held]
    have opened := openLog_of_text found read (JsonValue.readText_render writable)
    rw [JsonValue.ofText_render_eq writable (shallow_grown id rollback old before)] at opened
    by_cases short : (grown id rollback old before).isShort = true
    · rw [if_pos short] at opened
      exact Or.inr ⟨_, opened, fun records now => ⟨_, _, _, extend_grown id rollback old records before now⟩⟩
    · rw [if_neg short] at opened
      exact Or.inl opened

/-- Adding to a log writes the log or leaves it as it is; the log can be added to again. -/
theorem tryAppendLog_cases (located : world.tree.locate snapshot.logFile = .ok place)
    (taken : snapshot.originPath = .ok origin) (mayGrow : MayGrow world.tree place) (records : List DeletionRecord) :
    tryAppendLog snapshot records world = (some .logNotAppended, world) ∨
      ∃ later content, tryAppendLog snapshot records world = (none, { world with tree := later }) ∧
        world.tree.write place content = .ok later ∧ MayGrow later place := by
  rcases openLog_cases located taken mayGrow with unread | ⟨log, opened, extends'⟩
  · refine Or.inl ?_
    rw [tryAppendLog, appendLog, unread]
    rfl
  · obtain ⟨id, rollback, all, extended⟩ := extends' records world.now
    cases short : (grown id rollback all world.now).isShort with
    | false =>
        refine Or.inl ?_
        rw [tryAppendLog, appendLog, opened]
        simp only [bind, Except.bind, extended, short, Bool.not_false, if_true, throw, throwThe, MonadExceptOf.throw]
    | true =>
        cases written : world.tree.write place (Text.encode (grown id rollback all world.now).render.toList) with
        | error fault =>
            have unsaved : ∃ error, save world.tree snapshot.logFile (grown id rollback all world.now) = .error error := by
              exact ⟨⟨fault, snapshot.logFile.toString⟩, by rw [save, located, Except.bind, written]⟩
            obtain ⟨error, unsaved⟩ := unsaved
            refine Or.inl ?_
            rw [tryAppendLog, appendLog, opened]
            simp only [bind, Except.bind, extended, short, Bool.not_true, Bool.false_eq_true, if_false, unsaved, throw,
              throwThe, MonadExceptOf.throw]
        | ok later =>
            have saved : save world.tree snapshot.logFile (grown id rollback all world.now) = .ok later := by
              rw [save, located, Except.bind, written]
            refine Or.inr ⟨later, _, ?_, written, Or.inr ⟨id, rollback, all, world.now, ?_⟩⟩
            · rw [tryAppendLog, appendLog, opened]
              simp only [bind, Except.bind, extended, short, Bool.not_true, Bool.false_eq_true, if_false, saved, pure,
                Except.pure]
            · rw [Tree.entry?_write written, if_pos rfl]

end SnapshotStore
end Deadwood
