import Deadwood.Proofs.WidenedPlans

/-!
# Files that cannot be read off

A file whose reading fails stays in the analysis, with nothing read off it. So it is live if it is a root by its path or name, or
if a live file that was read includes it; what it defines and mentions itself does not count. Otherwise it is rated like any
other unused file, and as nothing refers to it, a small module of ordinary name is planned for deletion though nobody has
looked into it.
-/

set_option autoImplicit false
namespace Deadwood

open Source Files

/-! ## Failing readers -/

/-- What is read off a file: nothing but the failure, if reading it fails. -/
def Source.extractUnless (fails : SourceFile → Bool) (reading : Reading) (file : SourceFile) : Extraction :=
  if fails file then { path := file.path, failed := true } else extract reading file

namespace Source

variable {fails : SourceFile → Bool} {reading : Reading} {file : SourceFile}

theorem extractUnless_of_fails (failing : fails file = true) :
    extractUnless fails reading file = { path := file.path, failed := true } :=
  if_pos failing

theorem extractUnless_of_read (isRead : fails file = false) : extractUnless fails reading file = extract reading file :=
  if_neg (by simp [isRead])

/-- What is read off a file at all is what is read off it without failures. -/
theorem mem_extract_of_mem_extractUnless {definition : Definition}
    (defines : definition ∈ (extractUnless fails reading file).definitions) :
    definition ∈ (extract reading file).definitions := by
  cases failing : fails file with
  | true =>
      rw [extractUnless_of_fails failing] at defines
      cases defines
  | false => rwa [extractUnless_of_read failing] at defines

theorem failed_extract (reading : Reading) (file : SourceFile) : (extract reading file).failed = false := by
  unfold extract
  split <;> rfl

theorem failed_extractUnless : (extractUnless fails reading file).failed = fails file := by
  cases failing : fails file with
  | true => rw [extractUnless_of_fails failing]
  | false => rw [extractUnless_of_read failing, failed_extract]

end Source

/-! ## Files that define nothing -/

namespace Build

variable {extractor : SourceFile → Extraction} {files : List SourceFile}

/-- Files are led to by includes only. -/
theorem Linked.includes_of_dst {edge : Edge} (linked : Linked extractor files edge) {path : String}
    (leads : edge.dst = .file path) :
    ∃ file ∈ files, ∃ target ∈ (extractor file).includes, Answers path target ∧ file.path ≠ path ∧
      edge.src = .file file.path ∧ edge.kind = .includes := by
  cases linked with
  | includes listed _ includes answers differs =>
      obtain rfl := Node.file.inj leads
      exact ⟨_, listed, _, includes, answers, differs, rfl, rfl⟩
  | _ => cases leads

/-- Where something is defined, a file at that place defines it. -/
theorem Linked.defines_of_kind {edge : Edge} (linked : Linked extractor files edge) (kind : edge.kind = .defines)
    {path : String} (source : edge.src = .file path) :
    ∃ file ∈ files, file.path = path ∧ (extractor file).definitions ≠ [] := by
  cases linked with
  | defines listed defines => exact ⟨_, listed, Node.file.inj source, List.ne_nil_of_mem defines⟩
  | _ => cases kind

theorem failedFiles_foldl_enter (files : List SourceFile) (build : Build) :
    (files.foldl (enter extractor) build).failedFiles =
      build.failedFiles ++ (files.filter fun file => (extractor file).failed).map (·.path) := by
  induction files generalizing build with
  | nil => simp
  | cons file rest ih =>
      rw [List.foldl_cons, ih, enter, List.filter_cons]
      dsimp only
      split <;> simp

theorem failedFiles_foldl {α : Type} {step : Build → α → Build}
    (each : ∀ (build : Build) (item : α), (step build item).failedFiles = build.failedFiles) (items : List α) (build : Build) :
    (items.foldl step build).failedFiles = build.failedFiles := by
  induction items generalizing build with
  | nil => rfl
  | cons item rest ih => rw [List.foldl_cons, ih, each]

theorem failedFiles_resolve (files : List SourceFile) (build : Build) (file : SourceFile) :
    (resolve files build file).failedFiles = build.failedFiles := by
  unfold resolve
  split
  · rw [failedFiles_foldl, failedFiles_foldl]
    · intro build mention
      unfold resolveMention
      split
      · rfl
      · split <;> rfl
    · intro build target
      unfold resolveInclude
      split <;> rfl
  · rfl

theorem failedFiles_ofExtractor :
    (ofExtractor extractor files).failedFiles = (files.filter fun file => (extractor file).failed).map (·.path) := by
  rw [ofExtractor, failedFiles_foldl (failedFiles_resolve files), failedFiles_foldl_enter]
  exact List.nil_append _

end Build

namespace Graph

open Build

variable {extractor : SourceFile → Extraction} {files : List SourceFile} {roots : Roots} {file : SourceFile}

/-- A file that defines nothing is live if it is a root or if a live file includes it. -/
theorem reached_iff_of_bare (pathsDistinct : (files.map (·.path)).Nodup) (named : "" ∉ definedNames extractor files)
    (placed : ∀ file ∈ files, ∀ definition ∈ (extractor file).definitions, definition.path = file.path)
    (listed : file ∈ files) (bare : (extractor file).definitions = []) :
    (∃ mode, Reached (ofExtractor extractor files).graph roots (.file file.path) mode) ↔
      roots.matchesFile file.path = true ∨
        ∃ other ∈ files, (∃ mode, Reached (ofExtractor extractor files).graph roots (.file other.path) mode) ∧
          other.path ≠ file.path ∧ ∃ target ∈ (extractor other).includes, Answers file.path target := by
  have linked : ∀ {edge : Edge}, edge ∈ (ofExtractor extractor files).graph.edges → Linked extractor files edge :=
    fun leads => (mem_edges_ofExtractor pathsDistinct named).mp leads
  have nothingHere : ∀ other ∈ files, other.path = file.path → (extractor other).definitions = [] :=
    fun other otherListed same => (List.inj_on_of_nodup_map pathsDistinct otherListed listed same).symm ▸ bare
  constructor
  · rintro ⟨mode, live⟩
    generalize isFile : Node.file file.path = node at live
    cases live with
    | rootFile _ isRoot =>
        obtain rfl := Node.file.inj isFile
        exact Or.inl isRoot
    | rootOwner present _ defines =>
        obtain ⟨_, other, otherListed, readOff⟩ := (Analysis.mem_definitions_of_symbol? present).mp defines
        have here := (placed other otherListed _ readOff).symm.trans (Node.file.inj isFile).symm
        rw [nothingHere other otherListed here] at readOff
        cases readOff
    | rootSymbol => cases isFile
    | fromFile live leads source _ =>
        obtain ⟨other, otherListed, target, includes, answers, differs, start, _⟩ :=
          (linked leads).includes_of_dst isFile.symm
        obtain rfl := Node.file.inj (source.symm.trans start)
        exact Or.inr ⟨other, otherListed, ⟨_, live⟩, differs, target, includes, answers⟩
    | defined _ leads _ kind =>
        obtain ⟨_, _, _, _, _, _, _, isInclude⟩ := (linked leads).includes_of_dst isFile.symm
        cases kind.symm.trans isInclude
    | fromSymbol _ _ leads _ kind =>
        obtain ⟨_, _, _, _, _, _, _, isInclude⟩ := (linked leads).includes_of_dst isFile.symm
        cases kind.symm.trans isInclude
    | owner _ _ leads _ kind =>
        obtain ⟨other, otherListed, here, defines⟩ := (linked leads).defines_of_kind kind isFile.symm
        exact absurd (nothingHere other otherListed here) defines
  · rintro (isRoot | ⟨other, otherListed, ⟨mode, live⟩, differs, target, includes, answers⟩)
    · exact ⟨_, .rootFile (isSome_file?_ofExtractor.mpr (List.mem_map_of_mem listed)) isRoot⟩
    · have leads := (mem_edges_ofExtractor pathsDistinct named).mpr
        (Linked.includes otherListed listed includes answers differs)
      exact ⟨_, .fromFile live leads rfl (Or.inr rfl)⟩

end Graph

/-! ## Analyses with failing readers -/

/-- Analyses files, given what is read off each. -/
def analyzeWith (extractor : SourceFile → Extraction) (settings : Settings) (files : List SourceFile) :
    Except TreeError Analysis := do
  let build := Build.ofExtractor extractor files
  let roots ← match Roots.ofSettings settings build.triggerNames with
    | .ok roots => pure roots
    | .error error => throw (.pattern error)
  match Analysis.ofBuild build roots with
  | .ok analysis => return analysis
  | .error error => throw (.graph error)

section Analyses

variable {extractor : SourceFile → Extraction} {fails : SourceFile → Bool} {settings : Settings} {files : List SourceFile}

theorem analyzeFiles_eq_analyzeWith :
    analyzeFiles settings files = analyzeWith (extract settings.reading) settings files := rfl

theorem analyzeWith_of_unread {error : PatternError}
    (unread : settings.protectedPatterns.mapM Pattern.ofString = .error error) :
    analyzeWith extractor settings files = .error (.pattern error) := by
  have unnamed : settings.protectedPatterns.mapM (Pattern.ofNaming Text.asciiNames) = .error error := unread
  rw [analyzeWith, Roots.ofSettings, Roots.ofTexts, unnamed]
  rfl

theorem exists_analyzeWith_eq_ok {patterns : List Pattern}
    (read : settings.protectedPatterns.mapM Pattern.ofString = .ok patterns)
    (placed : ∀ file ∈ files, ∀ definition ∈ (extractor file).definitions, definition.path = file.path) :
    ∃ analysis roots, analyzeWith extractor settings files = .ok analysis ∧ roots.files = settings.rootFiles ∧
      Analysis.ofBuild (Build.ofExtractor extractor files) roots = .ok analysis := by
  obtain ⟨roots, rootsRun, rootFiles⟩ : ∃ roots : Roots,
      Roots.ofSettings settings (Build.ofExtractor extractor files).triggerNames = .ok roots ∧
        roots.files = settings.rootFiles := by
    have named : settings.protectedPatterns.mapM (Pattern.ofNaming Text.asciiNames) = .ok patterns := read
    rw [Roots.ofSettings, Roots.ofTexts, named]
    exact ⟨_, rfl, rfl⟩
  obtain ⟨analysis, run⟩ := Analysis.exists_ofBuild_eq_ok_of_placed placed roots
  refine ⟨analysis, roots, ?_, rootFiles, run⟩
  rw [analyzeWith, rootsRun]
  simp only [bind, Except.bind, pure, Except.pure, run]

/-- Neither the settings nor the files that are read keep a file, and it is a small module of ordinary name. -/
structure Forsaken (fails : SourceFile → Bool) (settings : Settings) (files : List SourceFile) (analysis : Analysis)
    (file : SourceFile) : Prop where
  noRoot : file.path ∉ settings.rootFiles ∧ lastPart file.path ∉ settings.rootFiles
  notIncluded : ∀ other ∈ files, other.path ∈ analysis.usedFiles → fails other = false →
    ∀ target ∈ (extract settings.reading other).includes, ¬ Build.Answers file.path target
  backend : file.kind = .backend
  ordinary : lastPart file.path ∉ settings.configFiles
  small : file.size ≤ settings.largeFileBytes

/-- A file that was not read is unused if it is no root and no used file that was read includes it. -/
theorem mem_unusedFiles_iff_of_fails {roots : Roots} {analysis : Analysis} (rootFiles : roots.files = settings.rootFiles)
    (run : Analysis.ofBuild (Build.ofExtractor (extractUnless fails settings.reading) files) roots = .ok analysis)
    (pathsDistinct : (files.map (·.path)).Nodup) {file : SourceFile} (listed : file ∈ files)
    (failing : fails file = true) :
    file.path ∈ analysis.unusedFiles.map (·.path) ↔
      (file.path ∉ settings.rootFiles ∧ lastPart file.path ∉ settings.rootFiles) ∧
        ∀ other ∈ files, other.path ∈ analysis.usedFiles → fails other = false →
          ∀ target ∈ (extract settings.reading other).includes, ¬ Build.Answers file.path target := by
  have divides := Analysis.divides_of_ofGraph_eq_ok run
  have named : "" ∉ Build.definedNames (extractUnless fails settings.reading) files := by
    rw [Build.mem_definedNames]
    rintro ⟨file, listed, definition, defines, empty⟩
    exact ne_empty_of_isProjectName (isProjectName_of_mem_definitions (mem_extract_of_mem_extractUnless defines)) empty
  have placed : ∀ file ∈ files, ∀ definition ∈ (extractUnless fails settings.reading file).definitions,
      definition.path = file.path :=
    fun _ _ _ defines => path_of_mem_extract (mem_extract_of_mem_extractUnless defines)
  have known : ∀ {other : SourceFile}, other ∈ files → ((Build.ofExtractor (extractUnless fails settings.reading)
      files).graph.file? other.path).isSome :=
    fun otherListed => Build.isSome_file?_ofExtractor.mpr (List.mem_map_of_mem otherListed)
  have bare : (extractUnless fails settings.reading file).definitions = [] := by rw [extractUnless_of_fails failing]
  have isRoot : roots.matchesFile file.path = true ↔
      file.path ∈ settings.rootFiles ∨ lastPart file.path ∈ settings.rootFiles := by
    rw [Roots.matchesFile, rootFiles, Bool.or_eq_true, List.contains_iff_mem, List.contains_iff_mem]
  rw [divides.mem_unusedFiles, and_iff_right (known listed),
    Graph.reached_iff_of_bare pathsDistinct named placed listed bare, not_or, isRoot, not_or]
  refine and_congr_right fun _ => ?_
  constructor
  · intro noInclude other otherListed used isRead target includes answers
    refine noInclude ⟨other, otherListed, ((divides.mem_usedFiles _).mp used).2, ?_, target, ?_, answers⟩
    · intro here
      rw [List.inj_on_of_nodup_map pathsDistinct otherListed listed here, failing] at isRead
      cases isRead
    · rwa [extractUnless_of_read isRead]
  · rintro noInclude ⟨other, otherListed, live, _, target, includes, answers⟩
    cases reading : fails other with
    | true =>
        rw [extractUnless_of_fails reading] at includes
        cases includes
    | false =>
        rw [extractUnless_of_read reading] at includes
        exact noInclude other otherListed ((divides.mem_usedFiles _).mpr ⟨known otherListed, live⟩) reading target includes
          answers

namespace Plan

/-- A file that was not read is planned for deletion unless something keeps it: not having been read does not. -/
theorem mem_files_iff_of_failed_reading (settings : Settings) (files : List SourceFile) (fails : SourceFile → Bool)
    (pathsDistinct : (files.map (·.path)).Nodup) :
    (∀ error, settings.protectedPatterns.mapM Pattern.ofString = .error error →
      analyzeWith (extractUnless fails settings.reading) settings files = .error (.pattern error)) ∧
    ∀ patterns, settings.protectedPatterns.mapM Pattern.ofString = .ok patterns →
      ∃ analysis plan, analyzeWith (extractUnless fails settings.reading) settings files = .ok analysis ∧
        plan = ofAssessment .low (Assessment.ofAnalysis settings.riskPolicy analysis) ∧
        (Build.ofExtractor (extractUnless fails settings.reading) files).failedFiles = (files.filter fails).map (·.path) ∧
        ∀ file ∈ files, fails file = true → (file.path ∈ plan.files ↔ Forsaken fails settings files analysis file) := by
  refine ⟨fun error unread => analyzeWith_of_unread unread, fun patterns read => ?_⟩
  have placed : ∀ file ∈ files, ∀ definition ∈ (extractUnless fails settings.reading file).definitions,
      definition.path = file.path :=
    fun _ _ _ defines => path_of_mem_extract (mem_extract_of_mem_extractUnless defines)
  obtain ⟨analysis, roots, run, rootFiles, built⟩ := exists_analyzeWith_eq_ok read placed
  refine ⟨analysis, _, run, rfl, ?_, ?_⟩
  · simp only [Build.failedFiles_ofExtractor, failed_extractUnless]
  · intro file listed failing
    have unusedIff := mem_unusedFiles_iff_of_fails rootFiles built pathsDistinct listed failing
    -- the only unused file at the path is the file itself, with its kind and size
    have same : ∀ unused ∈ analysis.unusedFiles, unused.path = file.path → unused.kind = file.kind ∧ unused.size = file.size := by
      intro unused unusedListed here
      obtain ⟨other, otherListed, samePath, sameKind, sameSize⟩ := Analysis.exists_file_of_unused built unusedListed
      obtain rfl := List.inj_on_of_nodup_map pathsDistinct otherListed listed (samePath.symm.trans here)
      exact ⟨sameKind, sameSize⟩
    rw [mem_files_ofAssessment]
    constructor
    · rintro ⟨unused, unusedListed, here, within⟩
      obtain ⟨sameKind, sameSize⟩ := same unused unusedListed here
      have plain := RiskPolicy.rateFile_eq_low_iff.mp (RiskLevel.within_low.mp within)
      obtain ⟨noRoot, notIncluded⟩ := unusedIff.mp (here ▸ List.mem_map_of_mem unusedListed)
      exact ⟨noRoot, notIncluded, sameKind ▸ plain.backend, here ▸ plain.ordinary, sameSize ▸ plain.small⟩
    · intro forsaken
      obtain ⟨unused, unusedListed, here⟩ := List.mem_map.mp (unusedIff.mpr ⟨forsaken.noRoot, forsaken.notIncluded⟩)
      obtain ⟨sameKind, sameSize⟩ := same unused unusedListed here
      refine ⟨unused, unusedListed, here, RiskLevel.within_low.mpr (RiskPolicy.rateFile_eq_low_iff.mpr ?_)⟩
      exact ⟨sameKind ▸ forsaken.backend, here ▸ forsaken.ordinary, sameSize ▸ forsaken.small⟩

/-- Two files that cannot be read, one of them a root. -/
theorem unread_initFile_is_planned :
    ([initFile, callerFile].map (·.path)).Nodup ∧
      ∃ analysis plan, analyzeWith (extractUnless (fun _ => true) plainReading)
          { entrySettings [] with rootFiles := ["B.gs"] } [initFile, callerFile] = .ok analysis ∧
        plan = ofAssessment .low (Assessment.ofAnalysis (entrySettings []).riskPolicy analysis) ∧
        initFile.path ∈ plan.files ∧ callerFile.path ∉ plan.files := by
  have pathsDistinct : ([initFile, callerFile].map (·.path)).Nodup := by decide
  obtain ⟨analysis, plan, run, isPlan, _, planned⟩ := (mem_files_iff_of_failed_reading
    { entrySettings [] with rootFiles := ["B.gs"] } [initFile, callerFile] (fun _ => true) pathsDistinct).2 [] rfl
  refine ⟨pathsDistinct, analysis, plan, run, isPlan, ?_, fun callerPlanned => ?_⟩
  · refine (planned initFile List.mem_cons_self rfl).mpr ⟨by decide, ?_, rfl, List.not_mem_nil, by decide⟩
    intro other _ _ isRead
    cases isRead
  · have forsaken := (planned callerFile (List.mem_cons_of_mem _ List.mem_cons_self) rfl).mp callerPlanned
    exact forsaken.noRoot.1 List.mem_cons_self

/-- A file with an entry point is planned for deletion if it cannot be read. -/
theorem unread_entry_file_is_planned :
    (analyzeWith (extractUnless (fun _ => true) plainReading) (entrySettings ["initX"]) [initFile]).map
      (fun analysis => ofAssessment .low (Assessment.ofAnalysis (entrySettings ["initX"]).riskPolicy analysis)) =
        .ok { files := [initFile.path] } ∧
    (analyzeWith (extract plainReading) (entrySettings ["initX"]) [initFile]).map
      (fun analysis => ofAssessment .low (Assessment.ofAnalysis (entrySettings ["initX"]).riskPolicy analysis)) =
        .ok {} := by
  constructor
  · cbv
  · have readings : ∀ file ∈ [initFile], extract plainReading file = largeReading file := by simp [extract_initFile]
    rw [analyzeWith, Build.ofExtractor_congr readings]
    cbv

end Plan
end Analyses
end Deadwood
