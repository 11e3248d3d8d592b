import Deadwood.Proofs.DeletionLogs
import Deadwood.Proofs.KeyedEntries
import Deadwood.Proofs.PathLaws

/-!
# What a log holds after any calls

A log is written once as a whole or begun with the first deletions; from then on it only grows. What is read back after any
sequence of calls is what the calls were to leave: all deletions in order, with the totals put over the summary.
-/

set_option autoImplicit false
namespace Deadwood

open Files

namespace JsonValue

theorem writable_putEntry {key : String} {value : JsonValue} {entries : List (String × JsonValue)}
    (writable : (object entries).Writable) (isWritable : value.Writable) :
    (object (putEntry key value entries)).Writable := by
  cases writable with
  | object once each =>
      rw [putEntry_eq_put]
      refine .object (Keyed.nodup_map_key_put once) fun entry listed => ?_
      rcases Keyed.mem_put listed with rfl | old
      · exact isWritable
      · exact each entry old

end JsonValue

open JsonValue

/-! ## What a log is to hold -/

structure LogContents where
  deletions : List DeletionRecord := []
  summary : List (String × JsonValue) := []

/-- A call at a time that writes a log as a whole or adds to it. -/
inductive LogCall where
  | write (records : List DeletionRecord) (summary : List (String × JsonValue)) (now : Moment)
  | append (records : List DeletionRecord) (now : Moment)

namespace LogContents

/-- No number is too long for a text. -/
def isShort (contents : LogContents) : Bool :=
  (object contents.summary).isShort && (array (contents.deletions.map DeletionRecord.toJson)).isShort

def isShallow (contents : LogContents) : Bool :=
  decide ((object contents.summary).depth < nestingLimit)

def add (contents : LogContents) (records : List DeletionRecord) : LogContents :=
  { deletions := contents.deletions ++ records
    summary := (DeletionLog.totals (contents.deletions ++ records)).foldl
      (fun summary entry => putEntry entry.1 entry.2 summary) contents.summary }

/-- Deletions are added at the end, the totals are those of the whole list, and nothing else of the summary changes. -/
structure Extends (before after : LogContents) (records : List DeletionRecord) : Prop where
  deletions : after.deletions = before.deletions ++ records
  files : after.summary.lookup "files_deleted" = some (.nat (after.deletions.countP (·.kind = .file)))
  functions : after.summary.lookup "functions_deleted" = some (.nat (after.deletions.countP (·.kind = .function)))
  freed : after.summary.lookup "bytes_freed" =
    some (.int (after.deletions.map fun record => record.sizeBefore - record.sizeAfter).sum)
  others : ∀ key, key ∉ ["files_deleted", "functions_deleted", "bytes_freed"] →
    after.summary.lookup key = before.summary.lookup key

theorem extends_add (contents : LogContents) (records : List DeletionRecord) :
    Extends contents (contents.add records) records := by
  have lookup : ∀ key, (contents.add records).summary.lookup key =
      if key = "bytes_freed" then some (.int ((contents.deletions ++ records).map DeletionRecord.bytesFreed).sum)
      else if key = "functions_deleted" then some (.nat ((contents.deletions ++ records).countP (·.kind = .function)))
      else if key = "files_deleted" then some (.nat ((contents.deletions ++ records).countP (·.kind = .file)))
      else contents.summary.lookup key := by
    intro key
    simp only [add, DeletionLog.totals, List.foldl_cons, List.foldl_nil, putEntry_eq_put, Keyed.lookup_put]
  refine ⟨rfl, ?_, ?_, ?_, fun key noTotal => ?_⟩
  · rw [lookup, if_neg (by decide), if_neg (by decide), if_pos rfl]
    rfl
  · rw [lookup, if_neg (by decide), if_pos rfl]
    rfl
  · rw [lookup, if_pos rfl]
    rfl
  · simp only [List.mem_cons, List.not_mem_nil, or_false, not_or] at noTotal
    rw [lookup, if_neg noTotal.2.2, if_neg noTotal.2.1, if_neg noTotal.1]

theorem writable_add {contents : LogContents} (writable : (object contents.summary).Writable)
    (records : List DeletionRecord) : (object (contents.add records).summary).Writable :=
  writable_putEntry (writable_putEntry (writable_putEntry writable (.int _)) (.int _)) (.int _)

theorem isShallow_iff {contents : LogContents} :
    contents.isShallow = true ↔ ∀ entry ∈ contents.summary, entry.2.depth ≤ nestingLimit - 2 := by
  rw [isShallow, decide_eq_true_eq, ← depth_object_le_iff]
  exact Nat.lt_succ_iff

theorem isShallow_add {contents : LogContents} (shallow : contents.isShallow = true) (records : List DeletionRecord) :
    (contents.add records).isShallow = true := by
  have put : ∀ {key : String} {value : JsonValue} {entries : List (String × JsonValue)}, value.depth = 0 →
      (∀ entry ∈ entries, entry.2.depth ≤ nestingLimit - 2) →
        ∀ entry ∈ putEntry key value entries, entry.2.depth ≤ nestingLimit - 2 := by
    intro key value entries flat each entry listed
    rw [putEntry_eq_put] at listed
    rcases Keyed.mem_put listed with rfl | old
    · exact flat.trans_le (Nat.zero_le _)
    · exact each entry old
  exact isShallow_iff.mpr (put rfl (put rfl (put rfl (isShallow_iff.mp shallow))))

end LogContents

namespace LogCall

def perform (snapshot : Snapshot) (world : World) : LogCall → Except SnapshotError World
  | write records summary now => SnapshotStore.writeLog snapshot records summary { world with now := now }
  | append records now => SnapshotStore.appendLog snapshot records { world with now := now }

/-- The world after a call: as it was, if the call fails. -/
def after (snapshot : Snapshot) (world : World) (call : LogCall) : World :=
  match call.perform snapshot world with
  | .ok later => later
  | .error _ => world

def next (id : String) (held : Option LogContents) : LogCall → Except SnapshotError LogContents
  | write records summary _ =>
    if held.isSome then .error (.logExists id)
    else if !LogContents.isShallow ⟨records, summary⟩ then .error .tooDeep
    else if LogContents.isShort ⟨records, summary⟩ then .ok ⟨records, summary⟩
    else .error .numberTooLong
  | append records _ =>
    if ((held.getD {}).add records).isShort then .ok ((held.getD {}).add records) else .error .logNotAppended

def leave (id : String) (held : Option LogContents) (call : LogCall) : Option LogContents :=
  match call.next id held with
  | .ok contents => some contents
  | .error _ => held

/-- The summary that a call brings can be written. -/
def IsWritable : LogCall → Prop
  | write _ summary _ => (object summary).Writable
  | append _ _ => True

end LogCall

/-! ## Logs that hold it -/

namespace DeletionLog

/-- A log has deletions and a summary; all else in it are texts. -/
structure Carries (entries : List (String × JsonValue)) (contents : LogContents) : Prop where
  once : (entries.map Prod.fst).Nodup
  deletions : entries.lookup "deletions" = some (.array (contents.deletions.map DeletionRecord.toJson))
  summary : entries.lookup "summary" = some (.object contents.summary)
  parts : ∀ entry ∈ entries, entry = ("deletions", .array (contents.deletions.map DeletionRecord.toJson)) ∨
    entry = ("summary", .object contents.summary) ∨ ∃ text, entry.2 = .string text

variable {entries : List (String × JsonValue)} {contents : LogContents}

theorem Carries.isShort_iff (carries : Carries entries contents) : (object entries).isShort = true ↔ contents.isShort = true := by
  rw [isShort_object_iff, LogContents.isShort, Bool.and_eq_true]
  constructor
  · intro each
    exact ⟨each _ (Keyed.mem_of_lookup carries.summary), each _ (Keyed.mem_of_lookup carries.deletions)⟩
  · rintro ⟨summary, deletions⟩ entry listed
    rcases carries.parts entry listed with rfl | rfl | ⟨text, isText⟩
    · exact deletions
    · exact summary
    · rw [isText]
      rfl

theorem Carries.writable (carries : Carries entries contents) (writable : (object contents.summary).Writable) :
    (object entries).Writable := by
  refine .object carries.once fun entry listed => ?_
  rcases carries.parts entry listed with rfl | rfl | ⟨text, isText⟩
  · exact .array (List.forall_mem_map.mpr fun record _ => writable_toJson record)
  · exact writable
  · rw [isText]
    exact .string text

theorem Carries.depth_le_iff (carries : Carries entries contents) :
    (object entries).depth ≤ nestingLimit ↔ contents.isShallow = true := by
  rw [show nestingLimit = nestingLimit - 1 + 1 from rfl, depth_object_le_iff, LogContents.isShallow, decide_eq_true_eq]
  constructor
  · intro each
    exact Nat.lt_succ_of_le (each _ (Keyed.mem_of_lookup carries.summary))
  · intro shallow entry listed
    rcases carries.parts entry listed with rfl | rfl | ⟨text, isText⟩
    · exact (depth_records_le _).trans (by decide)
    · exact Nat.le_of_lt_succ shallow
    · rw [isText]
      exact Nat.zero_le _

theorem exists_whole (snapshot : Snapshot) (origin : Path) (records : List DeletionRecord)
    (summary : List (String × JsonValue)) (now : Moment) :
    ∃ entries, whole snapshot origin records summary now = .object entries ∧ Carries entries ⟨records, summary⟩ := by
  refine ⟨_, rfl, by simp, rfl, rfl, ?_⟩
  simp

theorem exists_empty (snapshot : Snapshot) (origin : Path) :
    ∃ entries, empty snapshot origin = .object entries ∧ Carries entries {} := by
  refine ⟨_, rfl, by simp, rfl, rfl, ?_⟩
  simp

theorem Carries.extend (carries : Carries entries contents) (records : List DeletionRecord) (now : Moment) :
    ∃ grown, extend (.object entries) records now = .ok (.object grown) ∧ Carries grown (contents.add records) := by
  refine ⟨_, extend_records carries.deletions carries.summary records now, ?_⟩
  simp only [putEntry_eq_put]
  have once : ((Keyed.put Prod.fst ("deletions", JsonValue.array ((contents.deletions ++ records).map DeletionRecord.toJson))
      entries).map Prod.fst).Nodup := Keyed.nodup_map_key_put carries.once
  constructor
  case once => exact Keyed.nodup_map_key_put (Keyed.nodup_map_key_put once)
  case deletions =>
    rw [Keyed.lookup_put, if_neg (show "deletions" ≠ "summary" by decide), Keyed.lookup_put,
      if_neg (show "deletions" ≠ "written_at" by decide), Keyed.lookup_put, if_pos rfl]
    rfl
  case summary =>
    rw [Keyed.lookup_put, if_pos rfl]
    simp only [LogContents.add, putEntry_eq_put]
  case parts =>
    intro entry listed
    rcases Keyed.mem_put_of_once (Keyed.nodup_map_key_put once) listed with rfl | ⟨listed, noSummary⟩
    · exact Or.inr (Or.inl (by simp only [LogContents.add, putEntry_eq_put]))
    rcases Keyed.mem_put_of_once once listed with rfl | ⟨listed, _⟩
    · exact Or.inr (Or.inr ⟨_, rfl⟩)
    rcases Keyed.mem_put_of_once carries.once listed with rfl | ⟨listed, noDeletions⟩
    · exact Or.inl rfl
    rcases carries.parts entry listed with rfl | rfl | isText
    · exact absurd rfl noDeletions
    · exact absurd rfl noSummary
    · exact Or.inr (Or.inr isText)

/-! ## In a tree -/

/-- What stands where the log of a snapshot belongs: nothing yet, but in a directory, or the bytes of a log that holds what is
to be held. -/
def Keeps (tree : Tree) (place : Location) : Option LogContents → Prop
  | none => tree.entry? place = none ∧ tree.isDirectory place.dropLast = true
  | some contents => ∃ entries, Carries entries contents ∧ contents.isShort = true ∧ contents.isShallow = true ∧
      (object contents.summary).Writable ∧ tree.entry? place = some (.file (Text.encode (object entries).render.toList))

end DeletionLog

open DeletionLog

namespace SnapshotStore

variable {snapshot : Snapshot} {tree : Tree} {place : Location} {held : Option LogContents} {contents : LogContents}
  {entries : List (String × JsonValue)} {origin : Path}

/-- A log that is short enough can be saved, and nothing else changes. -/
theorem exists_save_of_keeps (located : tree.locate snapshot.logFile = .ok place) (keeps : Keeps tree place held)
    (carries : Carries entries contents) (short : contents.isShort = true) (shallow : contents.isShallow = true)
    (writable : (object contents.summary).Writable) :
    ∃ later, save tree snapshot.logFile (.object entries) = .ok later ∧ later.locate snapshot.logFile = .ok place ∧
      Keeps later place (some contents) ∧ ∀ other, other ≠ place → later.entry? other = tree.entry? other := by
  obtain ⟨later, written⟩ : ∃ later, tree.write place (Text.encode (object entries).render.toList) = .ok later := by
    cases held with
    | none =>
        rw [Tree.write, keeps.1]
        dsimp only
        rw [Tree.room, if_pos keeps.2]
        exact ⟨_, rfl⟩
    | some old =>
        obtain ⟨_, _, _, _, _, stands⟩ := keeps
        rw [Tree.write, stands]
        exact ⟨_, rfl⟩
  have frame := Tree.entry?_write written
  refine ⟨later, ?_, ?_, ⟨entries, carries, short, shallow, writable, ?_⟩, fun other elsewhere => ?_⟩
  · rw [save, located, Except.bind, written]
  · exact Tree.locate_of_directories (fun _ directory _ => Tree.directory_of_write written directory) located located
  · rw [frame, if_pos rfl]
  · rw [frame, if_neg elsewhere]

theorem isTaken_iff_of_keeps (located : tree.locate snapshot.logFile = .ok place) (keeps : Keeps tree place held) :
    isTaken tree snapshot.logFile = held.isSome := by
  rw [isTaken, Tree.isFileAt, Tree.isDirectoryAt, located]
  cases held with
  | none =>
      simp only [Tree.isFile, Tree.isDirectory, keeps.1]
      rfl
  | some contents =>
      obtain ⟨_, _, _, _, _, stands⟩ := keeps
      simp only [Tree.isFile, stands]
      rfl

theorem ofText_of_carries (carries : Carries entries contents) (short : contents.isShort = true)
    (shallow : contents.isShallow = true) (writable : (object contents.summary).Writable) :
    JsonValue.ofText (object entries).render.toList = .ok (object entries) := by
  rw [JsonValue.ofText_render_eq (carries.writable writable) (carries.depth_le_iff.mpr shallow),
    if_pos (carries.isShort_iff.mpr short)]

/-- The log to be added to holds what is held, nothing if there is none. -/
theorem exists_openLog_of_keeps (located : tree.locate snapshot.logFile = .ok place) (taken : snapshot.originPath = .ok origin)
    (keeps : Keeps tree place held) :
    ∃ entries, openLog snapshot tree = .ok (.object entries) ∧ Carries entries (held.getD {}) := by
  have isTaken := isTaken_iff_of_keeps located keeps
  cases held with
  | none =>
      obtain ⟨entries, isEmpty, carries⟩ := exists_empty snapshot origin
      refine ⟨entries, ?_, carries⟩
      rw [openLog, isTaken, taken]
      exact congrArg Except.ok isEmpty
  | some contents =>
      obtain ⟨entries, carries, short, shallow, writable, stands⟩ := keeps
      refine ⟨entries, ?_, carries⟩
      have read : (tree.locate snapshot.logFile).bind tree.read = .ok (Text.encode (object entries).render.toList) := by
        rw [located, Except.bind, Tree.read, stands]
      rw [openLog_of_text isTaken read (JsonValue.readText_render (carries.writable writable)),
        ofText_of_carries carries short shallow writable]

theorem log?_of_keeps {store : SnapshotStore} (own : snapshot.directory = store.directory snapshot.id)
    (located : tree.locate snapshot.logFile = .ok place) (keeps : Keeps tree place held) :
    (held = none ∧ store.log? tree snapshot.id = .ok none) ∨
      ∃ contents entries, held = some contents ∧ Carries entries contents ∧
        store.log? tree snapshot.id = .ok (some (.object entries)) := by
  have path : (store.directory snapshot.id).join ⟨"", [Snapshot.logName]⟩ = snapshot.logFile := by
    rw [Snapshot.logFile, own]
  cases held with
  | none =>
      refine Or.inl ⟨rfl, ?_⟩
      rw [log?, path, Tree.isFileAt, located]
      simp only [Tree.isFile, keeps.1]
      rfl
  | some contents =>
      obtain ⟨entries, carries, short, shallow, writable, stands⟩ := keeps
      refine Or.inr ⟨contents, entries, rfl, carries, ?_⟩
      have isFile : tree.isFileAt snapshot.logFile = true := by
        rw [Tree.isFileAt, located]
        simp only [Tree.isFile, stands]
      have read : (tree.locate snapshot.logFile).bind tree.read = .ok (Text.encode (object entries).render.toList) := by
        rw [located, Except.bind, Tree.read, stands]
      rw [log?, path]
      simp only [isFile, read, JsonValue.readText_render (carries.writable writable),
        ofText_of_carries carries short shallow writable]
      rfl

end SnapshotStore

namespace LogCall

open SnapshotStore

variable {snapshot : Snapshot} {world : World} {place : Location} {held : Option LogContents} {origin : Path}

structure Stands (snapshot : Snapshot) (tree : Tree) (place : Location) (held : Option LogContents) : Prop where
  located : tree.locate snapshot.logFile = .ok place
  keeps : Keeps tree place held

/-- What a call does is what it is to do: it leaves a log with the next contents and nothing else, or it fails. -/
structure Obeys (snapshot : Snapshot) (world : World) (place : Location) (held : Option LogContents) (call : LogCall) :
    Prop where
  succeeds : ∀ contents, call.next snapshot.id held = .ok contents → ∃ later, call.perform snapshot world = .ok later ∧
    Stands snapshot later.tree place (some contents) ∧
      ∀ other, other ≠ place → later.tree.entry? other = world.tree.entry? other
  fails : ∀ error, call.next snapshot.id held = .error error → call.perform snapshot world = .error error

theorem Obeys.of_failure {call : LogCall} {error : SnapshotError} (stops : call.next snapshot.id held = .error error)
    (fails : call.perform snapshot world = .error error) : Obeys snapshot world place held call := by
  refine ⟨fun contents goes => ?_, fun other stops' => ?_⟩
  · cases stops.symm.trans goes
  · cases stops.symm.trans stops'
    exact fails

theorem Obeys.of_success {call : LogCall} {contents : LogContents} {later : World}
    (goes : call.next snapshot.id held = .ok contents) (succeeds : call.perform snapshot world = .ok later)
    (stands : Stands snapshot later.tree place (some contents))
    (frame : ∀ other, other ≠ place → later.tree.entry? other = world.tree.entry? other) :
    Obeys snapshot world place held call := by
  refine ⟨fun contents' goes' => ?_, fun error stops => ?_⟩
  · cases goes.symm.trans goes'
    exact ⟨later, succeeds, stands, frame⟩
  · cases goes.symm.trans stops

theorem obeys_write (stands : Stands snapshot world.tree place held) (taken : snapshot.originPath = .ok origin)
    (records : List DeletionRecord) {summary : List (String × JsonValue)} (writable : (JsonValue.object summary).Writable)
    (now : Moment) : Obeys snapshot world place held (.write records summary now) := by
  have isTaken := isTaken_iff_of_keeps stands.located stands.keeps
  obtain ⟨entries, isWhole, carries⟩ := exists_whole snapshot origin records summary now
  cases held with
  | some old =>
      have refused : perform snapshot world (.write records summary now) = .error (.logExists snapshot.id) := by
        have isTaken : DeletionLog.isTaken world.tree snapshot.logFile = true := isTaken
        rw [perform, writeLog, if_pos isTaken]
        rfl
      exact .of_failure rfl refused
  | none =>
      have vacant : ¬ DeletionLog.isTaken world.tree snapshot.logFile = true := by rw [isTaken]; exact Bool.false_ne_true
      have runs : perform snapshot world (.write records summary now) =
          if (object entries).depth ≤ nestingLimit then
            if (object entries).isShort = true then
              ((save world.tree snapshot.logFile (.object entries)).map fun tree =>
                { world with now := now, tree := tree }).mapError .logNotWritten
            else .error .numberTooLong
          else .error .tooDeep := by
        rw [perform, writeLog, if_neg vacant, taken]
        simp only [bind, Except.bind, isWhole]
        by_cases shallow : (object entries).depth ≤ nestingLimit
        · rw [if_neg (Nat.not_lt.mpr shallow), if_pos shallow]
          cases (object entries).isShort with
          | false => rfl
          | true => cases save world.tree snapshot.logFile (.object entries) <;> rfl
        · rw [if_pos (Nat.not_le.mp shallow), if_neg shallow]
          rfl
      simp only [carries.depth_le_iff, carries.isShort_iff] at runs
      cases shallow : LogContents.isShallow ⟨records, summary⟩ with
      | false =>
          have next : next snapshot.id none (.write records summary now) = .error .tooDeep := by
            simp only [LogCall.next, shallow, Option.isSome_none, Bool.false_eq_true, if_false, Bool.not_false, if_true]
          rw [if_neg (by rw [shallow]; exact Bool.false_ne_true)] at runs
          exact .of_failure next runs
      | true =>
          rw [if_pos shallow] at runs
          cases short : LogContents.isShort ⟨records, summary⟩ with
          | false =>
              have next : next snapshot.id none (.write records summary now) = .error .numberTooLong := by
                simp only [LogCall.next, shallow, short, Option.isSome_none, Bool.false_eq_true, if_false, Bool.not_true]
              rw [if_neg (by rw [short]; exact Bool.false_ne_true)] at runs
              exact .of_failure next runs
          | true =>
              have next : next snapshot.id none (.write records summary now) = .ok ⟨records, summary⟩ := by
                simp only [LogCall.next, shallow, short, Option.isSome_none, Bool.false_eq_true, if_false, Bool.not_true,
                  if_true]
              rw [if_pos short] at runs
              obtain ⟨later, saved, located, keeps, frame⟩ :=
                exists_save_of_keeps stands.located stands.keeps carries short shallow writable
              rw [saved] at runs
              exact .of_success next runs ⟨located, keeps⟩ frame

theorem obeys_append (stands : Stands snapshot world.tree place held) (taken : snapshot.originPath = .ok origin)
    (records : List DeletionRecord) (now : Moment) : Obeys snapshot world place held (.append records now) := by
  obtain ⟨entries, opened, carries⟩ := exists_openLog_of_keeps stands.located taken stands.keeps
  obtain ⟨grown, extended, carriesMore⟩ := carries.extend records now
  have writable : (JsonValue.object ((held.getD {}).add records).summary).Writable := by
    refine LogContents.writable_add ?_ records
    cases held with
    | none => exact .object List.nodup_nil (by simp)
    | some contents =>
        obtain ⟨_, _, _, _, writable, _⟩ := stands.keeps
        exact writable
  have shallow : ((held.getD {}).add records).isShallow = true := by
    refine LogContents.isShallow_add ?_ records
    cases held with
    | none => rfl
    | some contents =>
        obtain ⟨_, _, _, shallow, _⟩ := stands.keeps
        exact shallow
  have runs : perform snapshot world (.append records now) =
      if (object grown).isShort = true then
        ((save world.tree snapshot.logFile (.object grown)).map fun tree =>
          { world with now := now, tree := tree }).mapError fun _ => .logNotAppended
      else .error .logNotAppended := by
    rw [perform, appendLog, opened]
    simp only [bind, Except.bind, extended]
    cases (object grown).isShort with
    | false => rfl
    | true => cases save world.tree snapshot.logFile (.object grown) <;> rfl
  cases short : ((held.getD {}).add records).isShort with
  | false =>
      have next : next snapshot.id held (.append records now) = .error .logNotAppended := by
        simp only [LogCall.next, short, Bool.false_eq_true, if_false]
      rw [if_neg (by rw [carriesMore.isShort_iff, short]; exact Bool.false_ne_true)] at runs
      exact .of_failure next runs
  | true =>
      have next : next snapshot.id held (.append records now) = .ok ((held.getD {}).add records) := by
        simp only [LogCall.next, short, if_true]
      rw [if_pos (carriesMore.isShort_iff.mpr short)] at runs
      obtain ⟨later, saved, located, keeps, frame⟩ :=
        exists_save_of_keeps stands.located stands.keeps carriesMore short shallow writable
      rw [saved] at runs
      exact .of_success next runs ⟨located, keeps⟩ frame

theorem obeys (stands : Stands snapshot world.tree place held) (taken : snapshot.originPath = .ok origin) {call : LogCall}
    (writable : call.IsWritable) : Obeys snapshot world place held call := by
  cases call with
  | write records summary now => exact obeys_write stands taken records writable now
  | append records now => exact obeys_append stands taken records now

/-- One call leaves what it is to leave, and changes nothing else. -/
theorem stands_after (stands : Stands snapshot world.tree place held) (taken : snapshot.originPath = .ok origin)
    {call : LogCall} (writable : call.IsWritable) :
    Stands snapshot (call.after snapshot world).tree place (call.leave snapshot.id held) ∧
      ∀ other, other ≠ place → (call.after snapshot world).tree.entry? other = world.tree.entry? other := by
  have done := obeys stands taken writable
  rw [LogCall.after, leave]
  cases goes : call.next snapshot.id held with
  | ok contents =>
      obtain ⟨later, performed, standing, frame⟩ := done.succeeds contents goes
      rw [performed]
      exact ⟨standing, frame⟩
  | error error =>
      rw [done.fails error goes]
      exact ⟨stands, fun _ _ => rfl⟩

/-- So do any calls, one after another. -/
theorem stands_foldl_after (taken : snapshot.originPath = .ok origin) {calls : List LogCall}
    (writable : ∀ call ∈ calls, call.IsWritable) (stands : Stands snapshot world.tree place held) :
    Stands snapshot (calls.foldl (LogCall.after snapshot) world).tree place (calls.foldl (leave snapshot.id) held) ∧
      ∀ other, other ≠ place →
        (calls.foldl (LogCall.after snapshot) world).tree.entry? other = world.tree.entry? other := by
  induction calls generalizing world held with
  | nil => exact ⟨stands, fun _ _ => rfl⟩
  | cons call rest ih =>
      obtain ⟨isWritable, restWritable⟩ := List.forall_mem_cons.mp writable
      obtain ⟨standing, frame⟩ := stands_after stands taken isWritable
      obtain ⟨later, laterFrame⟩ := ih restWritable standing
      exact ⟨later, fun other elsewhere => (laterFrame other elsewhere).trans (frame other elsewhere)⟩

def IsRead (store : SnapshotStore) (tree : Tree) (id : String) : Option LogContents → Prop
  | none => store.log? tree id = .ok none
  | some contents => ∃ log, store.log? tree id = .ok (some log) ∧
      log.get? "deletions" = some (.array (contents.deletions.map DeletionRecord.toJson)) ∧
        log.get? "summary" = some (.object contents.summary)

theorem Stands.isRead {store : SnapshotStore} {tree : Tree} (stands : Stands snapshot tree place held)
    (own : snapshot.directory = store.directory snapshot.id) : IsRead store tree snapshot.id held := by
  rcases log?_of_keeps own stands.located stands.keeps with ⟨rfl, nothing⟩ | ⟨contents, entries, rfl, carries, read⟩
  · exact nothing
  · exact ⟨_, read, carries.deletions, carries.summary⟩

end LogCall

namespace SnapshotStore

/-- Whatever calls write to the log of a snapshot, it is read back as they are to leave it, nothing else changes, and the next
call ends as it is to end. A log is only ever added to. -/
theorem log_grows (store : SnapshotStore) (snapshot : Snapshot) (start : World) {origin : Path} {place : Location}
    (own : snapshot.directory = store.directory snapshot.id) (taken : snapshot.originPath = .ok origin)
    (located : start.tree.locate snapshot.logFile = .ok place) (vacant : start.tree.entry? place = none)
    (room : start.tree.isDirectory place.dropLast = true) (calls : List LogCall)
    (writable : ∀ call ∈ calls, call.IsWritable) :
    let world := calls.foldl (LogCall.after snapshot) start
    let held := calls.foldl (LogCall.leave snapshot.id) none
    LogCall.IsRead store world.tree snapshot.id held ∧
      (∀ other, other ≠ place → world.tree.entry? other = start.tree.entry? other) ∧
      (∀ call : LogCall, call.IsWritable →
        (call.perform snapshot world).map (fun _ => ()) = (call.next snapshot.id held).map fun _ => ()) ∧
      ∀ records now contents, (LogCall.append records now).next snapshot.id held = .ok contents →
        LogContents.Extends (held.getD {}) contents records := by
  have standing : LogCall.Stands snapshot start.tree place none := ⟨located, vacant, room⟩
  obtain ⟨stands, frame⟩ := LogCall.stands_foldl_after taken writable standing
  refine ⟨stands.isRead own, frame, fun call isWritable => ?_, fun records now contents goes => ?_⟩
  · have done := LogCall.obeys stands taken isWritable
    cases next : call.next snapshot.id (calls.foldl (LogCall.leave snapshot.id) none) with
    | ok contents =>
        obtain ⟨later, performed, _⟩ := done.succeeds contents next
        rw [performed]
        rfl
    | error error =>
        rw [done.fails error next]
        rfl
  · rw [LogCall.next] at goes
    split at goes
    · obtain rfl := Except.ok.inj goes
      exact LogContents.extends_add _ records
    · cases goes

/-- A snapshot under which nothing has been deleted yet. -/
def freshSnapshot : Snapshot :=
  { id := "s", directory := ⟨"/", ["home", "s"]⟩, createdAt := .string "", origin := .string "/src", purpose := .string ""
    revision := .null, fileCount := .int 0 }

def freshWorld : World :=
  { tree := ⟨[(["home"], .directory), (["home", "s"], .directory)]⟩, now := ⟨2026, 1, 1, 12, 0, 0, 0⟩ }

def loggedFile : DeletionRecord :=
  { kind := .file, path := "A.gs", snapshotId := some "s", sizeBefore := 20, sizeAfter := 0, timestamp := "" }

def loggedFunction : DeletionRecord :=
  { loggedFile with kind := .function, path := "B.gs", symbol := some "ab", sizeAfter := 15, span := some (1, 2) }

def timedCalls : List LogCall :=
  [.write [loggedFile] [("seconds", .decimal 15 (-1)), ("files_deleted", .int 7)] freshWorld.now,
   .append [loggedFunction] freshWorld.now]

theorem isSettled_oneAndHalf : IsSettled 15 (-1) := by
  intro rest ends
  have text : (decimalText 15 (-1)).toList = ['1', '.', '5'] := by decide +kernel
  have whole : leadingDigits ('1' :: '.' :: '5' :: rest) = ['1'] := rfl
  have places : leadingDigits (['5'] ++ rest) = ['5'] :=
    leadingDigits_append (List.forall_mem_singleton.mpr rfl) fun c member => (ends c member).1
  have fraction : fraction ('.' :: '5' :: rest) = (['5'], rest) := by
    simp only [JsonValue.fraction, show leadingDigits ('5' :: rest) = ['5'] from places]
    rfl
  have nearest : ofDecimal false 15 (-1) = decimal 15 (-1) := rfl
  rw [text]
  simp [readNumber, whole, fraction, exponent_of_ends ends, digitsValue, nearest]

theorem freshSnapshot_log_grows :
    let world := timedCalls.foldl (LogCall.after freshSnapshot) freshWorld
    freshSnapshot.directory = (SnapshotStore.mk ⟨"/", ["home"]⟩).directory freshSnapshot.id ∧
      freshSnapshot.originPath = .ok ⟨"/", ["src"]⟩ ∧
      freshWorld.tree.locate freshSnapshot.logFile = .ok ["home", "s", "deletion-log.json"] ∧
      freshWorld.tree.entry? ["home", "s", "deletion-log.json"] = none ∧
      freshWorld.tree.isDirectory ["home", "s"] = true ∧ (∀ call ∈ timedCalls, call.IsWritable) ∧
      LogCall.IsRead ⟨⟨"/", ["home"]⟩⟩ world.tree "s" (some
        { deletions := [loggedFile, loggedFunction]
          summary := [("seconds", .decimal 15 (-1)), ("files_deleted", .nat 1), ("functions_deleted", .nat 1),
            ("bytes_freed", .int 25)] }) ∧
      ((LogCall.write [] [] freshWorld.now).perform freshSnapshot world).map (fun _ => ()) = .error (.logExists "s") := by
  have writable : ∀ call ∈ timedCalls, call.IsWritable := by
    simp only [timedCalls, List.forall_mem_cons, List.not_mem_nil, false_implies, implies_true, and_true]
    have once : (["seconds", "files_deleted"] : List String).Nodup := by decide
    refine ⟨.object once ?_, trivial⟩
    simp only [List.forall_mem_cons, List.not_mem_nil, false_implies, implies_true, and_true]
    exact ⟨.decimal isSettled_oneAndHalf, .int _⟩
  have shallow : LogContents.isShallow ⟨[loggedFile], [("seconds", .decimal 15 (-1)), ("files_deleted", .int 7)]⟩ = true := by
    decide +kernel
  have first : LogContents.isShort ⟨[loggedFile], [("seconds", .decimal 15 (-1)), ("files_deleted", .int 7)]⟩ = true := by
    decide +kernel
  have second : (LogContents.add ⟨[loggedFile], [("seconds", .decimal 15 (-1)), ("files_deleted", .int 7)]⟩
      [loggedFunction]).isShort = true := by
    decide +kernel
  have grows := log_grows ⟨⟨"/", ["home"]⟩⟩ freshSnapshot freshWorld rfl rfl rfl rfl rfl timedCalls writable
  have held : timedCalls.foldl (LogCall.leave freshSnapshot.id) none = some
      { deletions := [loggedFile, loggedFunction]
        summary := [("seconds", .decimal 15 (-1)), ("files_deleted", .nat 1), ("functions_deleted", .nat 1),
          ("bytes_freed", .int 25)] } := by
    simp only [timedCalls, List.foldl_cons, List.foldl_nil, LogCall.leave, LogCall.next, Option.isSome_none,
      Bool.false_eq_true, if_false, shallow, Bool.not_true, first, if_true, Option.getD_some, second]
    rfl
  dsimp only at grows
  rw [held] at grows
  exact ⟨rfl, rfl, rfl, rfl, rfl, writable, grows.1,
    grows.2.2.1 (.write [] [] freshWorld.now) (.object List.nodup_nil (by simp))⟩

/-- A deletion whose sizes can be written, though not their difference. -/
def longDeletion : DeletionRecord :=
  { loggedFile with sizeBefore := 10 ^ 4300 - 1, sizeAfter := -(10 ^ 4300 - 1) }

/-- The first deletion is not logged if a total is too long. -/
theorem longDeletion_is_not_logged :
    longDeletion.toJson.isShort = true ∧
      (LogCall.append [longDeletion] freshWorld.now).perform freshSnapshot freshWorld = .error .logNotAppended := by
  have standing : LogCall.Stands freshSnapshot freshWorld.tree ["home", "s", "deletion-log.json"] none := ⟨rfl, rfl, rfl⟩
  have long : (LogContents.add {} [longDeletion]).isShort = false := by decide +kernel
  have obeyed : LogCall.Obeys freshSnapshot freshWorld ["home", "s", "deletion-log.json"] none
      (.append [longDeletion] freshWorld.now) := LogCall.obeys_append standing rfl _ _
  refine ⟨by decide +kernel, obeyed.fails _ ?_⟩
  simp only [LogCall.next, Option.getD_none, long, Bool.false_eq_true, if_false]

end SnapshotStore
end Deadwood
