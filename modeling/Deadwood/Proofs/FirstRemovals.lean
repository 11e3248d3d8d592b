import Deadwood.Proofs.BuiltTables
import Deadwood.Proofs.LocatedDefinitions
import Deadwood.Proofs.Rehearsal
import Deadwood.Proofs.SweptAnalysis
import Deadwood.Proofs.TextBytes

/-!
# First removals

A plan made for the source files of a tree names functions by the definitions that were read off the files. When its first cut out
of a file comes, the file still holds what was read, and the first introducer of the name is there and no later than the
definition; so it is reported as not found only if the body behind that introducer is missing or does not close.
-/

set_option autoImplicit false
namespace Deadwood

open Files Source Text

/-! ## Texts read leniently -/

namespace Text

theorem map_of_charsOf {position : Nat} {pieces : List Piece} {text : List Char} (read : charsOf position pieces = .ok text) :
    (pieces.map fun
      | .char c _ => c
      | .bad _ _ => Char.ofNat 0xfffd) = text := by
  induction pieces generalizing position text with
  | nil => exact Except.ok.inj read
  | cons piece rest inductionHypothesis =>
      cases piece with
      | bad reason length => cases read
      | char c length =>
          rw [charsOf] at read
          cases readRest : charsOf (position + length) rest with
          | error fault =>
              rw [readRest] at read
              cases read
          | ok others =>
              rw [readRest] at read
              obtain rfl := Except.ok.inj read
              rw [List.map_cons, inductionHypothesis readRest]

theorem decodeLeniently_of_decode {bytes : Bytes} {text : List Char} (read : decode bytes = .ok text) :
    decodeLeniently bytes = text := by
  unfold decode at read
  split at read
  case h_1 chars spelled =>
    obtain rfl := Except.ok.inj read
    exact map_of_charsOf spelled
  case h_2 => cases read

end Text

theorem Files.readTextLeniently_of_readText {content : Bytes} {text : List Char} (read : readText content = .ok text) :
    readTextLeniently content = text := by
  unfold readText at read
  cases decoded : decode content with
  | error fault =>
      rw [decoded] at read
      cases read
  | ok chars =>
      rw [decoded] at read
      obtain rfl := Except.ok.inj read
      rw [readTextLeniently, decodeLeniently_of_decode decoded]

/-! ## Definitions of a file -/

def SourceFile.view (file : SourceFile) : List Char :=
  Removal.searchView (file.kind == .frontend) file.text

/-- Where a name is defined, the first introducer of it is found, and no later. -/
theorem Source.exists_nearest_of_mem_definitions {reading : Reading} {file : SourceFile} {definition : Definition}
    (member : definition ∈ (extract reading file).definitions) :
    ∃ hit, Removal.firstIntroducer? file.view definition.name = some hit ∧ IsNearest file.view definition.name hit ∧
      hit.value.start ≤ definition.position := by
  rw [definitions_extract (code_of_mem_definitions member), definitionsOf] at member
  obtain ⟨introduction, introduced, rfl⟩ := List.mem_map.mp member
  have identifier := isIdentifier_of_mem_introductions introduced
  obtain ⟨introducer, isOne, start, inside, success, succeeds, position⟩ := exists_success_of_mem_introductions introduced
  obtain ⟨hit, chosen, early⟩ := Removal.exists_firstIntroducer?_of_success identifier isOne inside succeeds
  exact ⟨hit, chosen, Removal.isNearest_of_firstIntroducer? identifier chosen, position ▸ early⟩

/-! ## Source files of a tree -/

section SourceFiles

variable {tree : Tree} {root : Location} {skipDirs : List String} {file : SourceFile}

theorem isPagePath_of_ofPath? {name : String} {kind : FileKind} (isKind : FileKind.ofPath? name = some kind) :
    isPagePath name = (kind == .frontend) := by
  unfold FileKind.ofPath? at isKind
  dsimp only at isKind
  have apart : ∀ found ∈ backendExtensions, found ∉ frontendExtensions := by decide
  unfold isPagePath
  split at isKind
  case isTrue isBackend =>
    obtain rfl := Option.some.inj isKind
    exact Bool.eq_false_iff.mpr fun isFrontend =>
      apart _ (List.contains_iff_mem.mp isBackend) (List.contains_iff_mem.mp isFrontend)
  case isFalse =>
    split at isKind
    case isTrue isFrontend =>
      obtain rfl := Option.some.inj isKind
      exact isFrontend
    case isFalse noFrontend =>
      rw [Bool.not_eq_true] at noFrontend
      split at isKind
      case isTrue =>
        obtain rfl := Option.some.inj isKind
        exact noFrontend
      case isFalse => cases isKind

/-- A source file is read off a file below the root, as a page just if its path is one's. -/
theorem exists_content_of_mem_sourceFiles (wellFormed : tree.WellFormed)
    (areNames : ∀ row ∈ tree.rows, ∀ name ∈ row.1, IsName name) (listed : file ∈ sourceFiles tree root skipDirs) :
    ∃ content, tree.entry? (DeletionSession.placeOf root file.path) = some (.file content) ∧
      root <+: DeletionSession.placeOf root file.path ∧ file.text = readTextLeniently content ∧
        isPagePath file.path = (file.kind == .frontend) := by
  obtain ⟨⟨location, entry⟩, below, isFile⟩ := List.mem_filterMap.mp listed
  obtain ⟨someName, held⟩ := wellFormed.mem_below_iff.mp below
  have named : ∀ name ∈ location, IsName name := fun name member =>
    areNames _ (Tree.mem_below_iff.mp below).2 name (List.mem_append_right root member)
  cases entry with
  | directory => cases isFile
  | file content =>
      unfold sourceFile? at isFile
      dsimp only at isFile
      split at isFile
      case isTrue => cases isFile
      case isFalse =>
        obtain ⟨kind, isKind, rfl⟩ := Option.map_eq_some_iff.mp isFile
        dsimp only
        have place := placeOf_relativePath someName named (wellFormed.no_parent_name held)
        have last : location.getLastD "" ∈ location := by
          rw [List.getLastD_eq_getLast?, List.getLast?_eq_some_getLast someName]
          exact List.getLast_mem someName
        have sameName : extensionOf (relativePath location) = extensionOf (location.getLastD "") := by
          rw [extensionOf, extensionOf, ofString_relativePath someName named, ofString_of_isName (named _ last)]
          rfl
        rw [place]
        refine ⟨content, held, List.prefix_append root location, rfl, ?_⟩
        have samePage : isPagePath (relativePath location) = isPagePath (location.getLastD "") := by
          rw [isPagePath, isPagePath, sameName]
        exact samePage.trans (isPagePath_of_ofPath? isKind)

end SourceFiles

/-! ## What a cut can come to -/

namespace DeletionSession

variable {session : DeletionSession} {path name other : String}

theorem deleteFunction_of_unwritten {resolved : Except DeletionFault Location} {location : Location} {text shorter : List Char}
    {span : FunctionSpan} {fault : DeletionFault}
    (read : session.textOf path resolved = .ok (location, text))
    (cut : Removal.remove? (isPagePath path) name text = some (shorter, span))
    (unwritten : (if session.dryRun then .ok session.tree
      else faultAt location (session.tree.write location (Text.encode shorter))) = .error fault) :
    (session.deleteFunction path name resolved).1 = (session.noteOriginal path text).fail path name fault := by
  rw [deleteFunction, read, noteOriginal]
  dsimp only
  rw [cut]
  dsimp only
  by_cases edited : (session.pending.lookup path).isSome = true
  · rw [if_pos edited, unwritten]
  · rw [if_neg edited, unwritten]

theorem exists_of_unwritten {location : Location} {content : Bytes} {fault : DeletionFault}
    (unwritten : (if session.dryRun then .ok session.tree
      else faultAt location (session.tree.write location content)) = .error fault) : ∃ reason, fault = .fileFault reason := by
  split at unwritten
  case isTrue => cases unwritten
  case isFalse =>
    cases result : session.tree.write location content with
    | ok tree =>
        rw [result] at unwritten
        cases unwritten
    | error reason =>
        rw [result] at unwritten
        exact ⟨_, (Except.error.inj unwritten).symm⟩

/-- A cut fails for want of a text, of a function or of a place to write to, or it is recorded. -/
theorem deleteFunction_cases (session : DeletionSession) (path name : String) :
    (∃ fault, session.textOf path = .error fault ∧
      (session.deleteFunction path name).1 = session.fail path name fault) ∨
    ∃ location text, session.textOf path = .ok (location, text) ∧
      (Removal.remove? (isPagePath path) name text = none ∧
          (session.deleteFunction path name).1 = (session.noteOriginal path text).fail path name .notFound ∨
        ∃ shorter span, Removal.remove? (isPagePath path) name text = some (shorter, span) ∧
          ((∃ fault, (session.deleteFunction path name).1 =
              (session.noteOriginal path text).fail path name (.fileFault fault)) ∨
            ∃ tree, (session.deleteFunction path name).1 =
              (session.noteOriginal path text).afterCut tree path name text shorter span)) := by
  cases read : session.textOf path with
  | error fault => exact Or.inl ⟨fault, rfl, deleteFunction_of_error read⟩
  | ok found =>
      obtain ⟨location, text⟩ := found
      refine Or.inr ⟨location, text, rfl, ?_⟩
      cases cut : Removal.remove? (isPagePath path) name text with
      | none => exact Or.inl ⟨rfl, deleteFunction_of_absent read cut⟩
      | some removed =>
          obtain ⟨shorter, span⟩ := removed
          refine Or.inr ⟨shorter, span, rfl, ?_⟩
          cases written : (if session.dryRun then .ok session.tree
              else faultAt location (session.tree.write location (Text.encode shorter)) : Except DeletionFault Tree) with
          | ok tree => exact Or.inr ⟨tree, deleteFunction_of_written read cut written⟩
          | error fault =>
              refine Or.inl ?_
              obtain ⟨reason, rfl⟩ := exists_of_unwritten written
              exact ⟨reason, deleteFunction_of_unwritten read cut written⟩

@[simp] theorem failures_noteOriginal (session : DeletionSession) (path : String) (text : List Char) :
    (session.noteOriginal path text).failures = session.failures := by
  unfold noteOriginal
  split <;> rfl

/-- A function is reported as not found only if the text could be read and no span of it is located there. -/
theorem absent_of_not_found
    (reported : (session.deleteFunction path name).1.failures = session.failures ++ [⟨path, some name, .notFound⟩])
    (reads : session.textOf path ≠ .error .notFound) :
    ∃ location text, session.textOf path = .ok (location, text) ∧ Removal.remove? (isPagePath path) name text = none := by
  rcases session.deleteFunction_cases path name with
    ⟨fault, failed, same⟩ | ⟨location, text, read, ⟨absent, _⟩ | ⟨shorter, span, _, ⟨fault, same⟩ | ⟨tree, same⟩⟩⟩
  · rw [same] at reported
    have sameFailure := List.append_cancel_left reported
    simp only [List.cons.injEq, DeletionFailure.mk.injEq, true_and, and_true] at sameFailure
    exact absurd (sameFailure ▸ failed) reads
  · exact ⟨location, text, read, absent⟩
  · rw [same, fail, failures_noteOriginal] at reported
    have sameFailure := List.append_cancel_left reported
    simp at sameFailure
  · rw [same, afterCut, failures_noteOriginal] at reported
    exact absurd (List.self_eq_append_right.mp reported) (List.cons_ne_nil _ _)

structure KnowsSame (path : String) (session later : DeletionSession) : Prop where
  pending : later.pending.lookup path = session.pending.lookup path
  removed : later.removed = session.removed

theorem KnowsSame.refl (path : String) (session : DeletionSession) : KnowsSame path session session :=
  ⟨rfl, rfl⟩

theorem KnowsSame.trans {middle later : DeletionSession} (first : KnowsSame path session middle)
    (second : KnowsSame path middle later) : KnowsSame path session later :=
  ⟨second.pending.trans first.pending, second.removed.trans first.removed⟩

theorem knowsSame_noteOriginal (path other : String) (text : List Char) :
    KnowsSame path session (session.noteOriginal other text) := by
  unfold noteOriginal
  split <;> exact ⟨rfl, rfl⟩

/-- A cut out of one file changes nothing of what the session knows of another. -/
theorem knowsSame_deleteFunction (apart : path ≠ other) (session : DeletionSession) (name : String) :
    KnowsSame path session (session.deleteFunction other name).1 := by
  rcases session.deleteFunction_cases other name with
    ⟨fault, _, same⟩ | ⟨location, text, _, ⟨_, same⟩ | ⟨shorter, span, _, ⟨fault, same⟩ | ⟨tree, same⟩⟩⟩
  all_goals rw [same]
  · exact ⟨rfl, rfl⟩
  · exact (knowsSame_noteOriginal path other text).trans ⟨rfl, rfl⟩
  · exact (knowsSame_noteOriginal path other text).trans ⟨rfl, rfl⟩
  · exact (knowsSame_noteOriginal path other text).trans ⟨by simp [afterCut, lookup_putText, apart], rfl⟩

/-- Makes planned cuts one after the other. -/
def cutAll (session : DeletionSession) (planned : List PlannedCut) : DeletionSession :=
  planned.foldl (fun session next => (session.deleteFunction next.path next.name).1) session

theorem knowsSame_cutAll {planned : List PlannedCut} (apart : path ∉ planned.map (·.path)) (session : DeletionSession) :
    KnowsSame path session (session.cutAll planned) := by
  induction planned generalizing session with
  | nil => exact .refl path session
  | cons next rest inductionHypothesis =>
      rw [List.map_cons, List.mem_cons, not_or] at apart
      exact (knowsSame_deleteFunction apart.1 session next.name).trans (inductionHypothesis apart.2 _)

theorem follows_cutAll (session : DeletionSession) (planned : List PlannedCut) :
    Follows (planned.map (·.path)) session (session.cutAll planned) :=
  follows_foldl (fun _ _ member => follows_deleteFunction (List.mem_map_of_mem member)) session

/-! ## The first cut out of a file -/

/-- A session below a root of a tree that has not done anything. -/
def fresh (tree : Tree) (root : Location) (now : Moment) (dryRun : Bool) (snapshotId : Option String) : DeletionSession :=
  { tree := tree, root := root, now := now, dryRun := dryRun, snapshotId := snapshotId }

variable {tree : Tree} {root : Location} {now : Moment} {dryRun : Bool} {snapshotId : Option String}

/-- Until a plan comes to a file, the file holds what it held. -/
theorem textOf_cutAll (now : Moment) (dryRun : Bool) (snapshotId : Option String) {plan : Plan}
    {earlier later : List PlannedCut} {planned : PlannedCut} {content : Bytes}
    (wellFormed : tree.WellFormed) (fits : plan.Fits tree root) (split : plan.functions = earlier ++ planned :: later)
    (isFirst : planned.path ∉ earlier.map (·.path)) (held : tree.entry? (placeOf root planned.path) = some (.file content))
    (below : root <+: placeOf root planned.path) :
    ((fresh tree root now dryRun snapshotId).cutAll earlier).textOf planned.path = match readText content with
      | .ok text => .ok (placeOf root planned.path, text)
      | .error error => .error (.notText error) := by
  have follows := follows_cutAll (fresh tree root now dryRun snapshotId) earlier
  have knows := knowsSame_cutAll isFirst (fresh tree root now dryRun snapshotId)
  have named : ∀ cut ∈ plan.functions, cut.path ∈ plan.paths := fun cut listed =>
    List.mem_append_left _ (List.mem_map_of_mem listed)
  refine textOf_of_file ?_ ?_ ?_ ?_
  · rw [resolve, follows.root]
    exact if_pos (List.isPrefixOf_iff_prefix.mpr below)
  · rw [knows.removed]
    exact List.not_mem_nil
  · rw [knows.pending]
    rfl
  · rcases follows.changes wellFormed (placeOf root planned.path) with same | ⟨_, path, isEarlier, samePlace⟩
    · exact same.trans held
    · obtain ⟨cut, cutEarlier, rfl⟩ := List.mem_map.mp isEarlier
      have samePath := fits.apart planned.path (named planned (by simp [split])) cut.path (named cut (by simp [split, cutEarlier]))
        samePlace
      exact absurd (samePath ▸ List.mem_map_of_mem cutEarlier) isFirst

end DeletionSession

namespace Plan

open DeletionSession

variable {reading : Reading} {files : List SourceFile} {roots : Roots} {analysis : Analysis} {policy : RiskPolicy}
  {threshold : RiskLevel}

/-- What is planned to be cut out of a file is defined there. -/
theorem exists_definition_of_mem_functions
    (run : Analysis.ofBuild (Build.ofExtractor (extract reading) files) roots = .ok analysis) {planned : PlannedCut}
    (listed : planned ∈ (ofAssessment threshold (Assessment.ofAnalysis policy analysis)).functions) :
    ∃ file ∈ files, file.path = planned.path ∧
      ∃ definition ∈ (extract reading file).definitions, definition.name = planned.name := by
  obtain ⟨symbol, unused, sameName, defining⟩ := mem_functions_ofAssessment listed
  obtain ⟨definition, defines, samePath⟩ := List.mem_map.mp (Text.mem_sortedSet.mp defining)
  obtain ⟨named, file, inFiles, readOff⟩ := (Analysis.mem_definitions_of_unused run unused).mp defines
  exact ⟨file, inFiles, (Source.path_of_mem_extract readOff).symm.trans samePath, definition, readOff, named.trans sameName⟩

end Plan

open DeletionSession in
/-- Every definition can be located: its name has an introducer that is no later than the definition, and unless the body behind
the nearest one does not end there is a span around it. So the first cut planned out of a file is reported as not found only if
the body behind the nearest introducer does not end. -/
theorem definitions_located_unless_unended (reading : Reading) :
    (∀ file : SourceFile, ∀ definition ∈ (extract reading file).definitions, ∃ hit,
      Removal.firstIntroducer? file.view definition.name = some hit ∧ IsNearest file.view definition.name hit ∧
        hit.value.start ≤ definition.position ∧
        (Removal.locate? (file.kind == .frontend) definition.name file.text = none ↔ Unended file.view hit.value.stop) ∧
        ∀ span, Removal.locate? (file.kind == .frontend) definition.name file.text = some span →
          span.start ≤ hit.value.start ∧ hit.value.stop ≤ span.stop) ∧
    ∀ (tree : Tree) (root : Location) (skipDirs : List String) (roots : Roots) (policy : RiskPolicy) (threshold : RiskLevel)
      (analysis : Analysis), tree.WellFormed → (∀ row ∈ tree.rows, ∀ name ∈ row.1, IsName name) →
      Analysis.ofBuild (Build.ofExtractor (extract reading) (sourceFiles tree root skipDirs)) roots = .ok analysis →
      ∀ earlier planned later,
        (Plan.ofAssessment threshold (Assessment.ofAnalysis policy analysis)).functions = earlier ++ planned :: later →
        planned.path ∉ earlier.map (·.path) → ∀ now dryRun snapshotId session,
          session = (fresh tree root now dryRun snapshotId).cutAll earlier →
          (session.deleteFunction planned.path planned.name).1.failures =
            session.failures ++ [⟨planned.path, planned.name, .notFound⟩] →
          ∃ file ∈ sourceFiles tree root skipDirs, file.path = planned.path ∧
            (∃ definition ∈ (extract reading file).definitions, definition.name = planned.name) ∧
            ∃ hit, Removal.firstIntroducer? file.view planned.name = some hit ∧ IsNearest file.view planned.name hit ∧
              Unended file.view hit.value.stop := by
  refine ⟨fun file definition defines => ?_, ?_⟩
  · obtain ⟨hit, chosen, nearest, early⟩ := exists_nearest_of_mem_definitions defines
    exact ⟨hit, chosen, nearest, early, Removal.locate?_of_firstIntroducer? chosen⟩
  · intro tree root skipDirs roots policy threshold analysis wellFormed areNames run earlier planned later split isFirst now
      dryRun snapshotId session isSession reported
    have listed : planned ∈ (Plan.ofAssessment threshold (Assessment.ofAnalysis policy analysis)).functions := by simp [split]
    obtain ⟨file, isOne, samePath, definition, defines, sameName⟩ := Plan.exists_definition_of_mem_functions run listed
    obtain ⟨hit, chosen, nearest, _⟩ := exists_nearest_of_mem_definitions defines
    rw [sameName] at chosen nearest
    refine ⟨file, isOne, samePath, ⟨definition, defines, sameName⟩, hit, chosen, nearest, ?_⟩
    obtain ⟨content, held, below, isText, isPage⟩ := exists_content_of_mem_sourceFiles wellFormed areNames isOne
    rw [samePath] at held below isPage
    have holds := textOf_cutAll now dryRun snapshotId wellFormed
      (Plan.fits_ofAssessment wellFormed areNames run) split isFirst held below
    rw [← isSession] at holds
    cases read : readText content with
    | error error =>
        rw [read] at holds
        obtain ⟨_, _, isRead, _⟩ := absent_of_not_found reported (by rw [holds]; simp)
        cases holds.symm.trans isRead
    | ok text =>
        rw [read] at holds
        obtain ⟨_, _, isRead, absent⟩ := absent_of_not_found reported (by rw [holds]; simp)
        obtain ⟨rfl, rfl⟩ := Prod.mk.inj (Except.ok.inj (holds.symm.trans isRead))
        rw [isPage, ← Files.readTextLeniently_of_readText read, ← isText] at absent
        exact (Removal.locate?_of_firstIntroducer? chosen).1.mp (Option.map_eq_none_iff.mp absent)

def unclosedText : List Char :=
  "function ab()\x7b\x7dfunction cd()\x7b".toList

def callingText : List Char :=
  "ab();".toList

def unclosedFile : SourceFile :=
  { path := "A.gs", kind := .backend, text := unclosedText, size := 29 }

def callingFile : SourceFile :=
  { path := "B.gs", kind := .backend, text := callingText, size := 5 }

/-- A root with the file of the two functions and the file of the call. -/
def unclosedTree : Tree :=
  ⟨[(["src"], .directory), (["src", "A.gs"], .file (Text.encode unclosedText)),
    (["src", "B.gs"], .file (Text.encode callingText))]⟩

def unclosedDefinition : Definition :=
  ⟨"A.gs", "cd", .function, 1, 1, 15, 29, 24⟩

def unclosedReading (file : SourceFile) : Extraction :=
  if file.path = "A.gs" then
    { path := "A.gs", definitions := [⟨"A.gs", "ab", .function, 1, 1, 0, 15, 9⟩, unclosedDefinition] }
  else { path := "B.gs", mentions := [⟨"ab", .call, 1, none⟩] }

theorem return_not_mem_unclosedText : '\r' ∉ unclosedText := by
  have none : unclosedText.contains '\r' = false := by decide +kernel
  simpa using none

theorem sourceFiles_unclosedTree : sourceFiles unclosedTree ["src"] [] = [unclosedFile, callingFile] := by
  have below : unclosedTree.below ["src"] = [(["A.gs"], .file (Text.encode unclosedText)),
      (["B.gs"], .file (Text.encode callingText))] :=
    List.mergeSort_of_pairwise (by decide)
  have kinds : ∀ name ∈ ["A.gs", "B.gs"], FileKind.ofPath? name = some .backend := by decide
  have unclosedSize : (Text.encode unclosedText).length = 29 := by decide +kernel
  have callingSize : (Text.encode callingText).length = 5 := by decide +kernel
  rw [sourceFiles, below]
  simp [sourceFile?, relativePath, unclosedFile, callingFile, kinds, unclosedSize, callingSize,
    Text.readTextLeniently_encode return_not_mem_unclosedText,
    Text.readTextLeniently_encode (show '\r' ∉ callingText by decide)]

theorem extract_unclosed :
    ∀ file ∈ [unclosedFile, callingFile], extract Plan.plainReading file = unclosedReading file := by
  simp only [List.forall_mem_cons]
  exact ⟨by decide +kernel, by decide +kernel, by simp⟩

theorem exists_analysis_unclosed : ∃ analysis,
    Analysis.ofBuild (Build.ofExtractor (extract Plan.plainReading) (sourceFiles unclosedTree ["src"] []))
      { files := ["B.gs"] } = .ok analysis ∧
    (Plan.ofAssessment .low (Assessment.ofAnalysis Plan.initPolicy analysis)).functions = [⟨"A.gs", "cd"⟩] := by
  rw [sourceFiles_unclosedTree, Build.ofExtractor_congr extract_unclosed]
  have planned : (Analysis.ofBuild (Build.ofExtractor unclosedReading [unclosedFile, callingFile]) { files := ["B.gs"] }).map
      (fun analysis => (Plan.ofAssessment .low (Assessment.ofAnalysis Plan.initPolicy analysis)).functions) =
        .ok [⟨"A.gs", "cd"⟩] := by
    cbv
  exact exists_of_map_eq_ok planned

namespace DeletionSession

def unclosedStart : DeletionSession :=
  fresh unclosedTree ["src"] ⟨2026, 1, 1, 12, 0, 0, 0⟩ false (some "20260101_120000_ab")

/-- The function is reported as not found: its body goes on to the end. -/
theorem failures_unclosedStart : (unclosedStart.deleteFunction "A.gs" "cd").1.failures =
    unclosedStart.failures ++ [⟨"A.gs", "cd", .notFound⟩] := by
  have place : unclosedStart.resolve "A.gs" = .ok ["src", "A.gs"] := rfl
  have held : unclosedStart.tree.entry? ["src", "A.gs"] = some (.file (Text.encode unclosedText)) := rfl
  have read : unclosedStart.textOf "A.gs" = .ok (["src", "A.gs"], unclosedText) := by
    rw [textOf_of_file place List.not_mem_nil rfl held, Text.readText_encode return_not_mem_unclosedText]
  have noPage : isPagePath "A.gs" = false := by decide
  have absent : Removal.remove? (isPagePath "A.gs") "cd" unclosedText = none := by
    rw [noPage]
    decide +kernel
  rw [deleteFunction_of_absent read absent, fail, failures_noteOriginal]

end DeletionSession

open DeletionSession in
theorem unclosed_reported_not_found :
    unclosedDefinition ∈ (extract Plan.plainReading unclosedFile).definitions ∧
    (∃ hit, Removal.firstIntroducer? unclosedFile.view unclosedDefinition.name = some hit ∧
      IsNearest unclosedFile.view unclosedDefinition.name hit ∧ hit.value.start ≤ unclosedDefinition.position) ∧
    unclosedTree.WellFormed ∧ (∀ row ∈ unclosedTree.rows, ∀ name ∈ row.1, IsName name) ∧
    ∃ analysis, Analysis.ofBuild (Build.ofExtractor (extract Plan.plainReading) (sourceFiles unclosedTree ["src"] []))
        { files := ["B.gs"] } = .ok analysis ∧
      (Plan.ofAssessment .low (Assessment.ofAnalysis Plan.initPolicy analysis)).functions = [] ++ ⟨"A.gs", "cd"⟩ :: [] ∧
      (unclosedStart.deleteFunction "A.gs" "cd").1.failures = unclosedStart.failures ++ [⟨"A.gs", "cd", .notFound⟩] ∧
        ∃ file ∈ sourceFiles unclosedTree ["src"] [], file.path = "A.gs" ∧
          (∃ definition ∈ (extract Plan.plainReading file).definitions, definition.name = "cd") ∧
          ∃ hit, Removal.firstIntroducer? file.view "cd" = some hit ∧ IsNearest file.view "cd" hit ∧
            Unended file.view hit.value.stop := by
  have defines : unclosedDefinition ∈ (extract Plan.plainReading unclosedFile).definitions := by
    rw [extract_unclosed _ List.mem_cons_self]
    exact List.mem_cons_of_mem _ List.mem_cons_self
  obtain ⟨located, reported⟩ := definitions_located_unless_unended Plan.plainReading
  obtain ⟨hit, chosen, nearest, early, _⟩ := located unclosedFile unclosedDefinition defines
  have wellFormed : unclosedTree.WellFormed := ⟨by decide, by decide, by decide⟩
  have areNames : ∀ row ∈ unclosedTree.rows, ∀ name ∈ row.1, IsName name := by
    have each : ∀ row ∈ unclosedTree.rows, ∀ name ∈ row.1, name.toList ≠ [] ∧ name.toList ≠ ['.'] ∧ '/' ∉ name.toList := by
      decide
    exact fun row listed name member =>
      have isName := each row listed name member
      ⟨isName.1, isName.2.1, isName.2.2⟩
  obtain ⟨analysis, run, planned⟩ := exists_analysis_unclosed
  have isFirst : "A.gs" ∉ ([] : List PlannedCut).map (·.path) := List.not_mem_nil
  have notCut : unclosedStart = (fresh unclosedTree ["src"] ⟨2026, 1, 1, 12, 0, 0, 0⟩ false
      (some "20260101_120000_ab")).cutAll [] := rfl
  have unended := reported unclosedTree ["src"] [] { files := ["B.gs"] } Plan.initPolicy .low analysis wellFormed areNames run []
    ⟨"A.gs", "cd"⟩ [] planned isFirst _ _ _ unclosedStart notCut
  dsimp only at unended
  exact ⟨defines, ⟨hit, chosen, nearest, early⟩, wellFormed, areNames, analysis, run, planned, failures_unclosedStart,
    unended failures_unclosedStart⟩

end Deadwood
