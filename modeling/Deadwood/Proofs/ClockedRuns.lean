import Deadwood.Proofs.CleanupSafety
import Deadwood.Proofs.SnapshotTaking

/-!
# Cleanups while time goes by

A cleanup looks at the clock when it writes reports, takes its snapshot, deletes, logs, and removes old snapshots. The clock
may show another time at each of these. Where it stands still the run is that of a world with one time.
-/

set_option autoImplicit false
namespace Deadwood

open Files

namespace Clock

def set (clock : Clock) (glance : Glance) (world : World) : World :=
  { world with now := clock.shows glance }

/-- Time goes by as the clock shows it. -/
def around (clock : Clock) : Surroundings where
  time glance _ := clock.shows glance

@[simp] theorem later_around (clock : Clock) (glance : Glance) (world : World) :
    clock.around.later glance world = clock.set glance world := rfl

def still (now : Moment) (valid : now.isValid = true) : Clock where
  shows _ := now
  valid _ := valid

/-- The clock does not go backwards. -/
structure Advances (clock : Clock) : Prop where
  reports : (clock.shows .reports).toMicroseconds ≤ (clock.shows .snapshot).toMicroseconds
  snapshot : (clock.shows .snapshot).toMicroseconds ≤ (clock.shows .deletion).toMicroseconds
  deletion : (clock.shows .deletion).toMicroseconds ≤ (clock.shows .log).toMicroseconds
  log : (clock.shows .log).toMicroseconds ≤ (clock.shows .removal).toMicroseconds

end Clock

/-! ## A clock that stands still -/

namespace SnapshotStore

theorem now_of_writeLog {snapshot : Snapshot} {records : List DeletionRecord} {summary : List (String × JsonValue)}
    {world after : World} (written : writeLog snapshot records summary world = .ok after) : after.now = world.now := by
  obtain ⟨_, _, _, _, rfl⟩ := exists_save_of_writeLog written
  rfl

end SnapshotStore

namespace Cleanup

variable {cleanup : Cleanup} {outcome : CleanupOutcome} {plan : Plan} {snapshot : Snapshot} {world : World}

theorem validate_around (clock : Clock) (outcome : CleanupOutcome) (session : DeletionSession) (hint : String) (world : World) :
    cleanup.validate outcome session hint world clock.around = cleanup.validate outcome session hint world := rfl

section Still

theorem later_still {now : Moment} (valid : now.isValid = true) (here : world.now = now) (glance : Glance) :
    (Clock.still now valid).around.later glance world = world := by
  subst here
  rfl

theorem mutate_still (valid : world.now.isValid = true) :
    cleanup.mutate outcome plan snapshot world (Clock.still world.now valid).around =
      cleanup.mutate outcome plan snapshot world := by
  unfold mutate
  cases outcome.enter .mutating with
  | error error => rfl
  | ok outcome =>
      simp only [Surroundings.later_default]
      rw [later_still valid rfl]
      cases (cleanup.session world snapshot).guarded (·.carryOut plan) with
      | error error => rfl
      | ok worked =>
          obtain ⟨session, records⟩ := worked
          dsimp only
          rw [@later_still { world with tree := session.tree } world.now valid rfl]
          generalize written : SnapshotStore.writeLog snapshot records _ { world with tree := session.tree } = logged
          cases logged with
          | error error =>
              dsimp only
              rw [@later_still { world with tree := session.tree } world.now valid rfl, validate_around]
          | ok after =>
              have now := SnapshotStore.now_of_writeLog written
              dsimp only
              rw [later_still valid now, validate_around]

theorem backUp_still (valid : world.now.isValid = true) :
    cleanup.backUp outcome plan world (Clock.still world.now valid).around = cleanup.backUp outcome plan world := by
  unfold backUp
  cases outcome.enter .backingUp with
  | error error => rfl
  | ok outcome =>
      dsimp only
      rw [later_still valid rfl, Surroundings.later_default]
      cases created : cleanup.store.create cleanup.rootPath "cleanup" world with
      | mk made taken =>
          cases made with
          | error error => rfl
          | ok snapshot =>
              have now := SnapshotStore.now_of_create created
              dsimp only
              rw [← @mutate_still cleanup _ plan snapshot taken (now ▸ valid)]
              simp only [now]

theorem askFirst_still (valid : world.now.isValid = true) :
    cleanup.askFirst outcome plan world (Clock.still world.now valid).around = cleanup.askFirst outcome plan world := by
  unfold askFirst
  cases outcome.enter .awaitingConfirmation with
  | error error => rfl
  | ok outcome =>
      dsimp only
      cases cleanup.confirm (cleanup.describe plan) with
      | none => rfl
      | some confirmed =>
          cases confirmed with
          | true => exact backUp_still valid
          | false => rfl

theorem rehearse_still (valid : world.now.isValid = true) :
    cleanup.rehearse outcome plan world (Clock.still world.now valid).around = cleanup.rehearse outcome plan world := by
  rw [rehearse, rehearse, later_still valid rfl, Surroundings.later_default]

theorem decide_still (valid : world.now.isValid = true) :
    cleanup.decide outcome plan world (Clock.still world.now valid).around = cleanup.decide outcome plan world := by
  unfold decide
  simp only [rehearse_still valid, askFirst_still valid, backUp_still valid]

theorem report_still (valid : world.now.isValid = true) {analysis : Analysis} :
    cleanup.report outcome analysis world (Clock.still world.now valid).around = cleanup.report outcome analysis world := by
  have decided := fun (outcome : CleanupOutcome) (plan : Plan) (tree : Tree) =>
    @decide_still cleanup outcome plan { world with tree := tree } valid
  dsimp only at decided
  unfold report
  simp only [decide_still valid, decided]
  rfl

/-- Under a clock that stands still a run is that of a world with one time. -/
theorem runBy_still (valid : world.now.isValid = true) : cleanup.runBy (.still world.now valid) world = cleanup.run world := by
  change cleanup.run world (Clock.still world.now valid).around = cleanup.run world
  unfold run runFrom
  cases ({} : CleanupOutcome).enter .analyzing with
  | error error => rfl
  | ok outcome =>
      dsimp only
      have names : (Clock.still world.now valid).around.charNames = Text.asciiNames := rfl
      rw [names]
      cases analyzeTree cleanup.settings world.tree cleanup.root with
      | error error => rfl
      | ok analysis => exact report_still valid

end Still

end Cleanup

/-! ## Records under a snapshot -/

namespace DeletionSession

/-- The session works under a snapshot, and all that it has recorded names the snapshot. -/
structure Signed (id : String) (session : DeletionSession) : Prop where
  bound : session.snapshotId = some id
  named : ∀ record ∈ session.records, record.snapshotId = some id

variable {id : String} {session : DeletionSession}

theorem Signed.record (signed : Signed id session) {record : DeletionRecord} (named : record.snapshotId = some id) :
    Signed id (session.record record).1 where
  bound := signed.bound
  named other member := by
    rcases List.mem_append.mp member with old | new
    · exact signed.named other old
    · rw [List.mem_singleton.mp new]
      exact named

theorem Signed.deleteFile (signed : Signed id session) (path : String) : Signed id (session.deleteFile path).1 := by
  unfold DeletionSession.deleteFile
  split
  · exact ⟨signed.bound, signed.named⟩
  · refine Signed.record ?_ signed.bound
    exact ⟨signed.bound, signed.named⟩

theorem Signed.deleteFunction (signed : Signed id session) (path name : String) :
    Signed id (session.deleteFunction path name).1 := by
  unfold DeletionSession.deleteFunction
  split
  · exact ⟨signed.bound, signed.named⟩
  · rename_i location text _
    have noted : Signed id (if (session.pending.lookup path).isSome then session
        else { session with originals := putText path text session.originals }) := by
      split
      · exact signed
      · exact ⟨signed.bound, signed.named⟩
    generalize (if (session.pending.lookup path).isSome then session
      else { session with originals := putText path text session.originals }) = later at noted
    dsimp only
    split
    · exact ⟨noted.bound, noted.named⟩
    · split
      · exact ⟨noted.bound, noted.named⟩
      · refine Signed.record ?_ noted.bound
        exact ⟨noted.bound, noted.named⟩

theorem Signed.foldl {α : Type} {act : DeletionSession → α → DeletionSession}
    (step : ∀ session item, Signed id session → Signed id (act session item)) (items : List α)
    (signed : Signed id session) : Signed id (items.foldl act session) := by
  induction items generalizing session with
  | nil => exact signed
  | cons item rest inductionHypothesis => exact inductionHypothesis (step session item signed)

/-- Whatever a plan has a session delete is recorded under its snapshot. -/
theorem Signed.carryOut (signed : Signed id session) (plan : Plan) :
    ∀ record ∈ (session.carryOut plan).2, record.snapshotId = some id := by
  have cut := signed.foldl (fun session planned (before : Signed id session) =>
    before.deleteFunction planned.path planned.name) plan.functions
  have done := cut.foldl (fun session path (before : Signed id session) => before.deleteFile path) plan.files
  exact fun record member => done.named record (List.mem_of_mem_drop member)

end DeletionSession

namespace Cleanup

/-! ## Runs with a snapshot -/

/-- The course of a run that has taken a snapshot: it was taken, the plan was worked off under it, and then old snapshots
were removed, if it came to that. -/
structure Course (cleanup : Cleanup) (clock : Clock) (outcome : CleanupOutcome) (snapshot : Snapshot)
    (taking before worked after : World) : Prop where
  time : taking.now = clock.shows .snapshot
  wellFormed : taking.tree.WellFormed
  taken : cleanup.store.create cleanup.rootPath "cleanup" taking = (.ok snapshot, before)
  carriedOut : ∃ plan, Worked cleanup plan snapshot before.tree worked.tree
  signed : ∀ record ∈ outcome.records, record.snapshotId = some snapshot.id
  removalTime : worked.now = clock.shows .removal
  unpruned : outcome.stage ≠ .done ∨ cleanup.options.auto = false → after = worked
  pruned : outcome.stage = .done → cleanup.options.auto = true →
    cleanup.store.prune cleanup.settings.retentionDays worked.now false worked = (.ok outcome.pruned, after)

variable {cleanup : Cleanup} {clock : Clock} {outcome final : CleanupOutcome} {plan : Plan} {snapshot : Snapshot}
  {world after : World}

theorem of_enter {stage : Stage} (entered : outcome.enter stage = .ok final) :
    final = { outcome with stage := stage, history := outcome.history ++ [stage] } := by
  unfold CleanupOutcome.enter at entered
  split at entered
  · exact (Except.ok.inj entered).symm
  · cases entered

theorem of_close {session : DeletionSession} (ended : cleanup.close outcome session world = (.ok final, after)) :
    final.stage = .done ∧ final.snapshot = outcome.snapshot ∧ final.records = outcome.records ∧
      (cleanup.options.auto = false → after = world) ∧ (cleanup.options.auto = true →
        cleanup.store.prune cleanup.settings.retentionDays world.now false world = (.ok final.pruned, after)) := by
  unfold close at ended
  split at ended
  · rename_i automatic
    split at ended
    · cases ended
    · rename_i removed pruned ran
      obtain ⟨finished, rfl⟩ := Prod.mk.inj ended
      obtain rfl := of_enter finished
      refine ⟨rfl, rfl, rfl, fun manual => ?_, fun _ => ran⟩
      cases automatic.symm.trans manual
  · rename_i manual
    obtain ⟨finished, rfl⟩ := Prod.mk.inj ended
    obtain rfl := of_enter finished
    exact ⟨rfl, rfl, rfl, fun _ => rfl, fun automatic => absurd automatic manual⟩

/-- What a run ends with after deletion. -/
theorem of_validate {session : DeletionSession} {hint : String}
    (ended : cleanup.validate outcome session hint world = (.ok final, after)) :
    final.snapshot = outcome.snapshot ∧ final.records = outcome.records ∧
      (final.stage ≠ .done ∨ cleanup.options.auto = false → after = world) ∧
      (final.stage = .done → cleanup.options.auto = true →
        cleanup.store.prune cleanup.settings.retentionDays world.now false world = (.ok final.pruned, after)) := by
  unfold validate at ended
  split at ended
  · cases ended
  · rename_i entered between
    obtain rfl := of_enter between
    dsimp only at ended
    split at ended
    · cases ended
    · split at ended
      · obtain ⟨stage, snapshot, records, manual, automatic⟩ := of_close ended
        refine ⟨snapshot, records, fun kept => manual ?_, fun _ => automatic⟩
        exact kept.resolve_left (not_not_intro stage)
      · obtain ⟨aborted, rfl⟩ := Prod.mk.inj ended
        obtain rfl := of_enter aborted
        exact ⟨rfl, rfl, fun _ => rfl, fun stage => by cases stage⟩

theorem course_of_mutate {taking before : World}
    (ran : cleanup.mutate outcome plan snapshot before clock.around = (.ok final, after))
    (taken : cleanup.store.create cleanup.rootPath "cleanup" taking = (.ok snapshot, before))
    (wellFormed : taking.tree.WellFormed) (time : taking.now = clock.shows .snapshot)
    (saved : outcome.snapshot = some snapshot) :
    final.snapshot = some snapshot ∧ ∃ worked, Course cleanup clock final snapshot taking before worked after := by
  have wellFormedBefore := (SnapshotStore.taken_of_create wellFormed taken).wellFormed
  unfold mutate at ran
  split at ran
  · cases ran
  · rename_i entered between
    obtain rfl := of_enter between
    have allowed : (cleanup.session (clock.set .deletion before) snapshot).mayDelete = true := Bool.or_true _
    simp only [Clock.later_around, validate_around] at ran
    have follows := DeletionSession.follows_carryOut (cleanup.session (clock.set .deletion before) snapshot) plan
    have bound : DeletionSession.Signed snapshot.id (cleanup.session (clock.set .deletion before) snapshot) :=
      ⟨rfl, fun _ none => by cases none⟩
    have signed := bound.carryOut plan
    simp only [DeletionSession.guarded, allowed, if_true] at ran
    generalize (cleanup.session (clock.set .deletion before) snapshot).carryOut plan = carried at follows signed ran
    obtain ⟨session, records⟩ := carried
    have worked : Worked cleanup plan snapshot before.tree session.tree :=
      @worked_of_follows cleanup (clock.set .deletion before) plan snapshot session wellFormedBefore follows
    dsimp only [noteSession] at ran
    generalize written : SnapshotStore.writeLog snapshot records _ _ = logged at ran
    cases logged with
    | ok log =>
        have logged := @Worked.of_writeLog cleanup (clock.set .log { before with tree := session.tree }) plan snapshot
          before.tree log records _ worked written
        obtain ⟨sameSnapshot, sameRecords, manual, automatic⟩ := of_validate ran
        exact ⟨sameSnapshot.trans saved, clock.set .removal log, time, wellFormed, taken, ⟨plan, logged⟩,
          sameRecords ▸ signed, rfl, manual, automatic⟩
    | error error =>
        obtain ⟨sameSnapshot, sameRecords, manual, automatic⟩ := of_validate ran
        exact ⟨sameSnapshot.trans saved, _, time, wellFormed, taken, ⟨plan, worked⟩, sameRecords ▸ signed, rfl, manual,
          automatic⟩

theorem course_of_backUp (ran : cleanup.backUp outcome plan world clock.around = (.ok final, after))
    (wellFormed : world.tree.WellFormed) (unsaved : outcome.snapshot = none) (saved : final.snapshot = some snapshot) :
    ∃ taking before worked, Course cleanup clock final snapshot taking before worked after := by
  unfold backUp at ran
  split at ran
  · cases ran
  · rename_i entered between
    obtain rfl := of_enter between
    split at ran
    · obtain ⟨aborted, rfl⟩ := Prod.mk.inj ran
      obtain rfl := of_enter aborted
      cases unsaved.symm.trans saved
    · rename_i taken before created
      obtain ⟨noted, worked, course⟩ := course_of_mutate ran created wellFormed rfl rfl
      obtain rfl := Option.some.inj (noted.symm.trans saved)
      exact ⟨_, before, worked, course⟩

theorem course_of_decide (ran : cleanup.decide outcome plan world clock.around = (.ok final, after))
    (wellFormed : world.tree.WellFormed) (unsaved : outcome.snapshot = none) (saved : final.snapshot = some snapshot) :
    ∃ taking before worked, Course cleanup clock final snapshot taking before worked after := by
  unfold decide at ran
  dsimp only at ran
  split at ran
  · unfold rehearse at ran
    split at ran
    · cases ran
    · obtain ⟨finished, rfl⟩ := Prod.mk.inj ran
      obtain rfl := of_enter finished
      cases unsaved.symm.trans saved
  · split at ran
    · obtain ⟨finished, rfl⟩ := Prod.mk.inj ran
      obtain rfl := of_enter finished
      cases unsaved.symm.trans saved
    · split at ran
      · unfold askFirst at ran
        split at ran
        · cases ran
        · rename_i entered between
          obtain rfl := of_enter between
          dsimp only at ran
          split at ran
          · cases ran
          · exact course_of_backUp ran wellFormed unsaved saved
          · obtain ⟨aborted, rfl⟩ := Prod.mk.inj ran
            obtain rfl := of_enter aborted
            cases unsaved.symm.trans saved
      · exact course_of_backUp ran wellFormed unsaved saved

/-- A run whose outcome names a snapshot has taken it, worked under it, and removed old ones at most afterwards. -/
theorem course_of_runBy (wellFormed : world.tree.WellFormed) (ran : cleanup.runBy clock world = (.ok final, after))
    (saved : final.snapshot = some snapshot) :
    ∃ taking before worked, Course cleanup clock final snapshot taking before worked after := by
  change cleanup.runFrom {} world clock.around = _ at ran
  unfold runFrom at ran
  split at ran
  · cases ran
  · rename_i entered between
    obtain rfl := of_enter between
    split at ran
    · cases ran
    · rename_i analysis _
      unfold report at ran
      dsimp only at ran
      split at ran
      · cases ran
      · rename_i reporting between
        obtain rfl := of_enter between
        split at ran
        · exact course_of_decide ran wellFormed rfl saved
        · rename_i directory _
          generalize made : ({ analysis := analysis, assessment := _, root := _, validationCommand := _, generatedAt := _ } :
            Report) = report at ran
          have whole := Report.wellFormed_writeAll report directory wellFormed
          split at ran
          · cases ran
          · obtain ⟨aborted, rfl⟩ := Prod.mk.inj ran
            obtain rfl := of_enter aborted
            cases saved
          · rename_i paths tree wrote
            rw [wrote] at whole
            exact course_of_decide ran whole rfl saved

end Cleanup
end Deadwood
