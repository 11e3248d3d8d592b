import Deadwood.Proofs.SessionFrame

/-!
# Sessions stay below their root

A session is called to bind a snapshot, to delete a file or a function, and to carry out a plan, in any order and with any
paths. It touches nothing but the files below its root that the paths name; and before a snapshot is bound it refuses to delete,
and is then as it was.
-/

set_option autoImplicit false
namespace Deadwood

open Files

inductive SessionCall where
  | bind (id : String)
  | file (path : String)
  | function (path name : String)
  | carryOut (plan : Plan)

namespace SessionCall

def paths : SessionCall → List String
  | bind _ => []
  | file path => [path]
  | function path _ => [path]
  | carryOut plan => plan.paths

def isBind : SessionCall → Bool
  | bind _ => true
  | _ => false

/-- What a call makes of a session, if it is not refused. -/
def perform (session : DeletionSession) : SessionCall → Except SnapshotRequired DeletionSession
  | bind id => .ok { session with snapshotId := some id }
  | file path => (session.guarded (·.deleteFile path)).map Prod.fst
  | function path name => (session.guarded (·.deleteFunction path name)).map Prod.fst
  | carryOut plan => (session.guarded (·.carryOut plan)).map Prod.fst

/-- The session after a call; one that is refused leaves it. -/
def after (session : DeletionSession) (call : SessionCall) : DeletionSession :=
  match call.perform session with
  | .ok later => later
  | .error _ => session

variable {session later : DeletionSession} {paths : List String} {call : SessionCall} {calls : List SessionCall}

theorem perform_of_refused (mayNot : session.mayDelete = false) (noBind : call.isBind = false) :
    call.perform session = .error .noSnapshot := by
  have refuses : ∀ {α : Type} (act : DeletionSession → DeletionSession × α), session.guarded act = .error .noSnapshot := by
    intro α act
    rw [DeletionSession.guarded, mayNot]
    rfl
  cases call with
  | bind id => cases noBind
  | file path => rw [perform, refuses, Except.map]
  | function path name => rw [perform, refuses, Except.map]
  | carryOut plan => rw [perform, refuses, Except.map]

theorem after_of_refused (mayNot : session.mayDelete = false) (noBind : call.isBind = false) : after session call = session := by
  rw [after, perform_of_refused mayNot noBind]

theorem foldl_after_of_refused (mayNot : session.mayDelete = false) (noBind : ∀ call ∈ calls, call.isBind = false) :
    calls.foldl after session = session := by
  induction calls with
  | nil => rfl
  | cons call rest ih =>
      rw [List.foldl_cons, after_of_refused mayNot (noBind call List.mem_cons_self)]
      exact ih fun other member => noBind other (List.mem_cons_of_mem call member)

/-! ## What calls touch -/

end SessionCall

namespace DeletionSession

theorem Follows.mono {paths more : List String} {session later : DeletionSession} (follows : Follows paths session later)
    (within : ∀ path ∈ paths, path ∈ more) : Follows more session later :=
  { follows with
    changes := by
      intro wellFormed place
      rcases follows.changes wellFormed place with same | ⟨inside, path, named, here⟩
      · exact Or.inl same
      · exact Or.inr ⟨inside, path, within path named, here⟩ }

theorem follows_of_guarded {α : Type} {paths : List String} {session later : DeletionSession}
    {act : DeletionSession → DeletionSession × α} (performed : (session.guarded act).map Prod.fst = .ok later)
    (follows : Follows paths session (act session).1) : Follows paths session later := by
  unfold guarded at performed
  split at performed
  · obtain rfl := Except.ok.inj performed
    exact follows
  · cases performed

end DeletionSession

namespace SessionCall

open DeletionSession

variable {session later : DeletionSession} {paths : List String} {call : SessionCall} {calls : List SessionCall}

theorem follows_perform (performed : call.perform session = .ok later) : Follows call.paths session later := by
  cases call with
  | bind id =>
      obtain rfl := Except.ok.inj performed
      exact .of_tree_eq rfl rfl rfl
  | file path => exact follows_of_guarded performed (follows_deleteFile (List.mem_singleton_self path))
  | function path name => exact follows_of_guarded performed (follows_deleteFunction (List.mem_singleton_self path))
  | carryOut plan => exact follows_of_guarded performed (follows_carryOut session plan)

theorem follows_after (session : DeletionSession) (call : SessionCall) : Follows call.paths session (after session call) := by
  unfold after
  split
  · exact follows_perform ‹_›
  · exact .refl call.paths session

theorem follows_calls (session : DeletionSession) (calls : List SessionCall) :
    Follows (calls.flatMap SessionCall.paths) session (calls.foldl after session) := by
  refine follows_foldl (fun middle call member => ?_) session
  exact (follows_after middle call).mono fun path named => List.mem_flatMap.mpr ⟨call, member, named⟩

/-- A session that has been called a number of times. -/
structure Confined (session : DeletionSession) (calls : List SessionCall) (later : DeletionSession) : Prop where
  /-- What does not stand below the root is neither made nor changed nor taken away. -/
  outside : ∀ place, ¬ session.root <+: place → later.tree.entry? place = session.tree.entry? place
  /-- What is changed is what a path names. -/
  named : ∀ place, later.tree.entry? place ≠ session.tree.entry? place →
    ∃ call ∈ calls, ∃ path ∈ call.paths, place = placeOf session.root path
  directories : ∀ place, session.tree.entry? place = some .directory → later.tree.entry? place = some .directory
  rehearsed : session.dryRun = true → later.tree = session.tree
  /-- As long as no snapshot is bound, every call is refused and the session is as it was. -/
  refused : session.dryRun = false → session.snapshotId = none → ∀ earlier call rest, calls = earlier ++ call :: rest →
    (∀ other ∈ earlier, other.isBind = false) → call.isBind = false →
      call.perform (earlier.foldl after session) = .error .noSnapshot ∧
        after (earlier.foldl after session) call = session

/-- Whatever a session is called to do, it stays below its root, and deletes nothing before a snapshot is bound. -/
theorem calls_stay_below_root (session : DeletionSession) (wellFormed : session.tree.WellFormed) (calls : List SessionCall) :
    Confined session calls (calls.foldl after session) := by
  have follows := follows_calls session calls
  refine ⟨fun place outside => ?_, fun place changed => ?_, follows.directories wellFormed, follows.rehearsed,
    fun performs unbound earlier call rest _ noBind notBind => ?_⟩
  · rcases follows.changes wellFormed place with same | ⟨inside, _⟩
    · exact same
    · exact absurd inside outside
  · rcases follows.changes wellFormed place with same | ⟨_, path, listed, here⟩
    · exact absurd same changed
    · obtain ⟨call, member, named⟩ := List.mem_flatMap.mp listed
      exact ⟨call, member, path, named, here⟩
  · have mayNot : session.mayDelete = false := by
      rw [mayDelete, performs, unbound]
      rfl
    rw [foldl_after_of_refused mayNot noBind]
    exact ⟨perform_of_refused mayNot notBind, after_of_refused mayNot notBind⟩

/-- A session on a tree with a file below its root and a file beside it. -/
def besideRoot : DeletionSession where
  tree := ⟨[(["src"], .directory), (["src", "a.gs"], .file []), (["b.gs"], .file [])]⟩
  root := ["src"]
  now := ⟨2026, 1, 1, 12, 0, 0, 0⟩

/-- Calls before and after a snapshot is bound, with paths that lead out of the root and one that leads around. -/
def strayCalls : List SessionCall :=
  [.file "a.gs", .carryOut { files := ["../b.gs"] }, .bind "s", .file "../b.gs", .function "/b.gs" "f", .file "",
    .file "x/.././a.gs"]

/-- Of all these calls the last takes a file away, and that stands below the root. -/
theorem besideRoot_stays_below_root :
    besideRoot.tree.WellFormed ∧ besideRoot.dryRun = false ∧ besideRoot.snapshotId = none ∧
      (strayCalls.foldl after besideRoot).tree.rows = [(["src"], .directory), (["b.gs"], .file [])] ∧
      Confined besideRoot strayCalls (strayCalls.foldl after besideRoot) := by
  have wellFormed : besideRoot.tree.WellFormed := ⟨by decide, by decide, by decide⟩
  refine ⟨wellFormed, rfl, rfl, by decide, ?_⟩
  exact calls_stay_below_root besideRoot wellFormed strayCalls

end SessionCall
end Deadwood
