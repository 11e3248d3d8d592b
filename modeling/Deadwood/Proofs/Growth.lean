import Deadwood.Proofs.BuiltTables
import Deadwood.Proofs.RiskGate

/-!
# What another file changes

Another file only adds to a graph: it may define more, answer mentions and includes that nothing answered before, and set up
triggers. So what was live stays live. Of what stays unused a file is rated as before, and whatever spoke against deleting a
symbol still does.
-/

set_option autoImplicit false
namespace Deadwood

open Source

/-! ## Larger graphs -/

/-- What the first roots make live the second ones do too. -/
structure Roots.Within (first second : Roots) : Prop where
  names : first.names ⊆ second.names
  patterns : first.patterns ⊆ second.patterns
  files : first.files ⊆ second.files

namespace Roots.Within

variable {first second : Roots}

theorem matchesName (within : Within first second) {name : String} (isRoot : first.matchesName name = true) :
    second.matchesName name = true := by
  simp only [Roots.matchesName, Bool.or_eq_true, List.contains_iff_mem, List.any_eq_true] at isRoot ⊢
  rcases isRoot with named | ⟨pattern, listed, occurs⟩
  · exact Or.inl (within.names named)
  · exact Or.inr ⟨pattern, within.patterns listed, occurs⟩

theorem matchesFile (within : Within first second) {path : String} (isRoot : first.matchesFile path = true) :
    second.matchesFile path = true := by
  simp only [Roots.matchesFile, Bool.or_eq_true, List.contains_iff_mem] at isRoot ⊢
  exact isRoot.imp (fun listed => within.files listed) fun listed => within.files listed

end Roots.Within

namespace Graph

structure Within (first second : Graph) : Prop where
  files : ∀ path, (first.file? path).isSome → (second.file? path).isSome
  symbols : ∀ name, (first.symbol? name).isSome → (second.symbol? name).isSome
  definitions : ∀ name, first.definitionsOf name ⊆ second.definitionsOf name
  edges : first.edges ⊆ second.edges

variable {first second : Graph} {roots others : Roots}

theorem Within.exists_symbol? (within : Within first second) {symbol : Symbol} {definition : Definition}
    (found : first.symbol? symbol.name = some symbol) (defines : definition ∈ symbol.definitions) :
    ∃ other, other.name = symbol.name ∧ second.symbol? other.name = some other ∧ definition ∈ other.definitions := by
  have inSecond : definition ∈ second.definitionsOf symbol.name :=
    within.definitions _ (definitionsOf_of_symbol? found ▸ defines)
  obtain ⟨other, otherFound⟩ := Option.isSome_iff_exists.mp (isSome_symbol?_of_mem_definitionsOf inSecond)
  have sameName : other.name = symbol.name := symbol?_name otherFound
  exact ⟨other, sameName, sameName ▸ otherFound, definitionsOf_of_symbol? otherFound ▸ inSecond⟩

theorem rootPaths_subset (within : Within first second) : first.rootPaths roots ⊆ second.rootPaths roots := by
  intro path listed
  rcases mem_rootPaths.mp listed with ⟨present, isRoot⟩ | ⟨symbol, definition, found, isRoot, defines, rfl⟩
  · exact mem_rootPaths.mpr (Or.inl ⟨within.files path present, isRoot⟩)
  · obtain ⟨other, sameName, otherFound, otherDefines⟩ := within.exists_symbol? found defines
    exact mem_rootPaths.mpr (Or.inr ⟨other, definition, otherFound, sameName ▸ isRoot, otherDefines, rfl⟩)

theorem Reached.mono (within : Within first second) (rootsWithin : roots.Within others) {node : Node} {mode : Mode}
    (live : Reached first roots node mode) : Reached second others node mode := by
  induction live with
  | rootFile present isRoot => exact .rootFile (within.files _ present) (rootsWithin.matchesFile isRoot)
  | rootOwner found isRoot defines =>
      obtain ⟨other, sameName, otherFound, otherDefines⟩ := within.exists_symbol? found defines
      exact .rootOwner otherFound (sameName ▸ rootsWithin.matchesName isRoot) otherDefines
  | rootSymbol present isRoot => exact .rootSymbol (within.symbols _ present) (rootsWithin.matchesName isRoot)
  | fromFile _ leads source kind ih => exact .fromFile ih (within.edges leads) source kind
  | defined _ leads source kind ih => exact .defined ih (within.edges leads) source kind
  | fromSymbol _ noFile leads source kind ih => exact .fromSymbol ih noFile (within.edges leads) source kind
  | owner _ noFile leads target kind ih => exact .owner ih noFile (within.edges leads) target kind

end Graph

/-! ## Larger lists of files -/

namespace Build

variable {reading : Reading} {files more : List SourceFile}

theorem definedNames_subset {extractor : SourceFile → Extraction} (listed : files ⊆ more) :
    definedNames extractor files ⊆ definedNames extractor more := by
  intro name defined
  obtain ⟨file, member, definition⟩ := mem_definedNames.mp defined
  exact mem_definedNames.mpr ⟨file, listed member, definition⟩

/-- More files keep the edges: what stands around a mention is defined in its own file, so a mention keeps its source. -/
theorem linked_mono (listed : files ⊆ more) {edge : Edge} (linked : Linked (extract reading) files edge) :
    Linked (extract reading) more edge := by
  have defined : definedNames (extract reading) files ⊆ definedNames (extract reading) more := definedNames_subset listed
  cases linked with
  | defines member defines => exact .defines (listed member) defines
  | fromSymbol member mentions named around aroundNamed differs =>
      exact .fromSymbol (listed member) mentions (defined named) around (defined aroundNamed) differs
  | @fromFile file mention member mentions named outside =>
      refine .fromFile (listed member) mentions (defined named) fun name around => ?_
      obtain ⟨definition, defines, sameName⟩ := exists_definition_of_enclosing mentions around
      exact absurd (mem_definedNames.mpr ⟨file, member, definition, defines, sameName⟩) (outside name around)
  | includes member otherMember includes answers differs =>
      exact .includes (listed member) (listed otherMember) includes answers differs

theorem definitionsOf_sublist (reading : Reading) (sub : files.Sublist more) (name : String) :
    ((ofExtractor (extract reading) files).graph.definitionsOf name).Sublist
      ((ofExtractor (extract reading) more).graph.definitionsOf name) := by
  rw [definitionsOf_ofExtractor, definitionsOf_ofExtractor]
  exact sub.flatMap _

theorem graph_within (reading : Reading) (pathsDistinct : (more.map (·.path)).Nodup) (sub : files.Sublist more) :
    (ofExtractor (extract reading) files).graph.Within (ofExtractor (extract reading) more).graph where
  files path present := by
    rw [isSome_file?_ofExtractor] at present ⊢
    exact (sub.map _).subset present
  symbols name present := by
    rw [isSome_symbol?_ofExtractor] at present ⊢
    exact definedNames_subset sub.subset present
  definitions name := (definitionsOf_sublist reading sub name).subset
  edges edge leads := by
    have fewDistinct : (files.map (·.path)).Nodup := pathsDistinct.sublist (sub.map _)
    rw [mem_edges_ofExtractor fewDistinct (empty_not_mem_definedNames reading files)] at leads
    rw [mem_edges_ofExtractor pathsDistinct (empty_not_mem_definedNames reading more)]
    exact linked_mono sub.subset leads

theorem stringWords_subset (pathsDistinct : (more.map (·.path)).Nodup) (sub : files.Sublist more) :
    (ofExtractor (extract reading) files).stringWords ⊆ (ofExtractor (extract reading) more).stringWords := by
  intro word listed
  rw [mem_stringWords (pathsDistinct.sublist (sub.map _)) (empty_not_mem_definedNames reading files)] at listed
  rw [mem_stringWords pathsDistinct (empty_not_mem_definedNames reading more)]
  obtain ⟨file, member, inFile⟩ := listed
  exact ⟨file, sub.subset member, inFile⟩

theorem definitionsOf_ne_nil {extractor : SourceFile → Extraction} {name : String}
    (present : ((ofExtractor extractor files).graph.symbol? name).isSome) :
    (ofExtractor extractor files).graph.definitionsOf name ≠ [] := by
  rw [isSome_symbol?_ofExtractor] at present
  obtain ⟨file, listed, definition, defines, named⟩ := mem_definedNames.mp present
  refine List.ne_nil_of_mem (a := definition) ?_
  rw [definitionsOf_ofExtractor]
  exact List.mem_flatMap.mpr ⟨file, listed, List.mem_filter.mpr ⟨defines, decide_eq_true named⟩⟩

end Build

theorem rootsOf_within {settings : Settings} {files more : List SourceFile} (patterns : List Pattern)
    (pathsDistinct : (more.map (·.path)).Nodup) (sub : files.Sublist more) :
    (rootsOf settings patterns files).Within (rootsOf settings patterns more) where
  names name listed := by
    refine List.mem_append.mpr ((List.mem_append.mp listed).imp_right fun trigger => ?_)
    rw [Build.mem_triggerNames (pathsDistinct.sublist (sub.map _)) (empty_not_mem_definedNames _ files)] at trigger
    rw [Build.mem_triggerNames pathsDistinct (empty_not_mem_definedNames _ more)]
    obtain ⟨file, member, inFile⟩ := trigger
    exact ⟨file, sub.subset member, inFile⟩
  patterns := List.Subset.refl _
  files := List.Subset.refl _

/-! ## Ratings -/

namespace RiskPolicy

variable {policy : RiskPolicy}

theorem rateFile_congr (policy : RiskPolicy) {first second : UnusedFile} (path : first.path = second.path)
    (kind : first.kind = second.kind) (size : first.size = second.size) : policy.rateFile first = policy.rateFile second := by
  simp only [rateFile, path, kind, size]

/-- The second symbol has all that speaks against deleting the first. -/
structure Burdens (first second : UnusedSymbol) : Prop where
  name : second.name = first.name
  definitions : first.definitions.length ≤ second.definitions.length
  mentioned : first.mentionedInStrings = true → second.mentionedInStrings = true
  kinds : second.definitions.length ≤ 1 → ∀ owner, owner ∈ second.fileKinds ↔ owner ∈ first.fileKinds

theorem Suspect.mono {first second : UnusedSymbol} (burdens : Burdens first second) (suspect : policy.Suspect first) :
    policy.Suspect second := by
  cases suspect with
  | severalDefinitions several => exact .severalDefinitions (Nat.lt_of_lt_of_le several burdens.definitions)
  | protectedName listed named => exact .protectedName listed (burdens.name ▸ named)
  | mentioned inLiteral => exact .mentioned (burdens.mentioned inLiteral)
  | onPagesOnly somewhere pages =>
      -- a definition off the pages may come in, but then there are several
      by_cases several : 1 < second.definitions.length
      · exact .severalDefinitions several
      · have same := burdens.kinds (Nat.not_lt.mp several)
        obtain ⟨owner, member⟩ := List.exists_mem_of_ne_nil _ somewhere
        refine .onPagesOnly (List.ne_nil_of_mem ((same owner).mpr member)) fun other listed => ?_
        exact pages other ((same other).mp listed)

theorem rateSymbol_within_of_burdens {first second : UnusedSymbol} (burdens : Burdens first second) :
    (policy.rateSymbol first).level.within (policy.rateSymbol second).level = true := by
  cases level : (policy.rateSymbol first).level with
  | low => cases (policy.rateSymbol second).level <;> rfl
  | medium =>
      have suspect := Suspect.mono burdens (rateSymbol_eq_medium_iff.mp level)
      rw [rateSymbol_eq_medium_iff.mpr suspect]
      rfl
  | high => exact absurd level rateSymbol_ne_high

end RiskPolicy

/-! ## Two analyses -/

/-- What was used is used again, and what is unused both times is rated no lower the second time. -/
structure Assessment.Conserves (policy : RiskPolicy) (first second : Analysis) : Prop where
  usedFiles : first.usedFiles ⊆ second.usedFiles
  usedSymbols : first.usedSymbols ⊆ second.usedSymbols
  files : ∀ rated ∈ (Assessment.ofAnalysis policy first).files, ∀ again ∈ (Assessment.ofAnalysis policy second).files,
    again.file.path = rated.file.path → rated.rating.level.within again.rating.level = true
  symbols : ∀ rated ∈ (Assessment.ofAnalysis policy first).symbols,
    ∀ again ∈ (Assessment.ofAnalysis policy second).symbols,
      again.symbol.name = rated.symbol.name → rated.rating.level.within again.rating.level = true

namespace Analysis

variable {reading : Reading} {files more : List SourceFile} {roots others : Roots} {first second : Analysis}

theorem burdens_of_unused (pathsDistinct : (more.map (·.path)).Nodup) (sub : files.Sublist more)
    (firstRun : ofBuild (Build.ofExtractor (extract reading) files) roots = .ok first)
    (secondRun : ofBuild (Build.ofExtractor (extract reading) more) others = .ok second)
    {unused again : UnusedSymbol} (listed : unused ∈ first.unusedSymbols) (againListed : again ∈ second.unusedSymbols)
    (sameName : again.name = unused.name) : RiskPolicy.Burdens unused again := by
  have fewDistinct : (files.map (·.path)).Nodup := pathsDistinct.sublist (sub.map _)
  have few := perm_definitions_of_unused firstRun listed
  have many := perm_definitions_of_unused secondRun againListed
  have between := Build.definitionsOf_sublist reading sub unused.name
  rw [sameName] at many
  constructor
  case name => exact sameName
  case definitions =>
    rw [few.length_eq, many.length_eq]
    exact between.length_le
  case mentioned =>
    intro mentioned
    rw [mentionedInStrings_of_unused firstRun listed] at mentioned
    rw [mentionedInStrings_of_unused secondRun againListed, sameName]
    exact Build.stringWords_subset pathsDistinct sub mentioned
  case kinds =>
    -- a symbol has a definition, so if it has no more than one afterwards it is the one from before
    intro atMostOne owner
    have someDefinition : 0 < unused.definitions.length := by
      have present := (((divides_of_ofGraph_eq_ok firstRun).mem_unusedSymbols _).mp (List.mem_map_of_mem listed)).1
      rw [few.length_eq]
      exact List.length_pos_iff.mpr (Build.definitionsOf_ne_nil present)
    have same : (Build.ofExtractor (extract reading) files).graph.definitionsOf unused.name =
        (Build.ofExtractor (extract reading) more).graph.definitionsOf unused.name := by
      refine between.eq_of_length_le ?_
      rw [← few.length_eq, ← many.length_eq]
      omega
    have sameDefinitions : ∀ definition, definition ∈ again.definitions ↔ definition ∈ unused.definitions := by
      intro definition
      rw [few.mem_iff, many.mem_iff, same]
    simp only [mem_fileKinds_of_unused firstRun listed, mem_fileKinds_of_unused secondRun againListed, sameDefinitions,
      Build.file?_ofExtractor pathsDistinct, Build.file?_ofExtractor fewDistinct]
    constructor
    · rintro ⟨definition, defines, file, ⟨member, samePath⟩, rfl⟩
      obtain ⟨_, home, homeListed, readOff⟩ := (mem_definitions_of_unused firstRun listed).mp defines
      have atHome : file = home := List.inj_on_of_nodup_map pathsDistinct member (sub.subset homeListed)
        (samePath.trans (path_of_mem_extract readOff))
      exact ⟨definition, defines, file, ⟨atHome ▸ homeListed, samePath⟩, rfl⟩
    · rintro ⟨definition, defines, file, ⟨member, samePath⟩, rfl⟩
      exact ⟨definition, defines, file, ⟨sub.subset member, samePath⟩, rfl⟩

theorem conserves_of_sublist (policy : RiskPolicy) (pathsDistinct : (more.map (·.path)).Nodup) (sub : files.Sublist more)
    (within : roots.Within others)
    (firstRun : ofBuild (Build.ofExtractor (extract reading) files) roots = .ok first)
    (secondRun : ofBuild (Build.ofExtractor (extract reading) more) others = .ok second) :
    Assessment.Conserves policy first second := by
  have graphWithin := Build.graph_within reading pathsDistinct sub
  have firstDivides := divides_of_ofGraph_eq_ok firstRun
  have secondDivides := divides_of_ofGraph_eq_ok secondRun
  constructor
  case usedFiles =>
    intro path used
    obtain ⟨present, mode, live⟩ := (firstDivides.mem_usedFiles path).mp used
    exact (secondDivides.mem_usedFiles path).mpr ⟨graphWithin.files path present, mode, live.mono graphWithin within⟩
  case usedSymbols =>
    intro name used
    obtain ⟨present, mode, live⟩ := (firstDivides.mem_usedSymbols name).mp used
    exact (secondDivides.mem_usedSymbols name).mpr
      ⟨graphWithin.symbols name present, mode, live.mono graphWithin within⟩
  case files =>
    intro rated ratedListed again againListed samePath
    obtain ⟨unused, listed, rfl⟩ := List.mem_map.mp ratedListed
    obtain ⟨other, otherListed, rfl⟩ := List.mem_map.mp againListed
    obtain ⟨file, member, path, kind, size⟩ := exists_file_of_unused firstRun listed
    obtain ⟨home, homeMember, homePath, homeKind, homeSize⟩ := exists_file_of_unused secondRun otherListed
    have sameFile : home = file := List.inj_on_of_nodup_map pathsDistinct homeMember (sub.subset member)
      (homePath.symm.trans (samePath.trans path))
    subst sameFile
    have sameRating := RiskPolicy.rateFile_congr policy samePath (homeKind.trans kind.symm)
      (homeSize.trans size.symm)
    dsimp only
    rw [sameRating]
    exact decide_eq_true (Nat.le_refl _)
  case symbols =>
    intro rated ratedListed again againListed sameName
    obtain ⟨unused, listed, rfl⟩ := List.mem_map.mp ratedListed
    obtain ⟨other, otherListed, rfl⟩ := List.mem_map.mp againListed
    exact RiskPolicy.rateSymbol_within_of_burdens
      (burdens_of_unused pathsDistinct sub firstRun secondRun listed otherListed sameName)

end Analysis

/-- Another file keeps all that was used, and rates nothing lower that stays unused. Only a protected pattern that cannot be
read stops an analysis, and it stops both. -/
theorem analyzeFiles_conserves_with_another (settings : Settings) (before after : List SourceFile) (added : SourceFile)
    (pathsDistinct : ((before ++ added :: after).map (·.path)).Nodup) :
    (∀ error, settings.protectedPatterns.mapM Pattern.ofString = .error error →
      analyzeFiles settings (before ++ after) = .error (.pattern error) ∧
        analyzeFiles settings (before ++ added :: after) = .error (.pattern error)) ∧
    ∀ patterns, settings.protectedPatterns.mapM Pattern.ofString = .ok patterns →
      ∃ first second, analyzeFiles settings (before ++ after) = .ok first ∧
        analyzeFiles settings (before ++ added :: after) = .ok second ∧
          Assessment.Conserves settings.riskPolicy first second := by
  refine ⟨fun error unread => ⟨analyzeFiles_of_unread unread, analyzeFiles_of_unread unread⟩, fun patterns read => ?_⟩
  have sub : (before ++ after).Sublist (before ++ added :: after) := (List.sublist_cons_self added after).append_left before
  obtain ⟨first, firstRun, firstBuild⟩ := exists_analyzeFiles_eq_ok read (before ++ after)
  obtain ⟨second, secondRun, secondBuild⟩ := exists_analyzeFiles_eq_ok read (before ++ added :: after)
  exact ⟨first, second, firstRun, secondRun,
    Analysis.conserves_of_sublist _ pathsDistinct sub (rootsOf_within patterns pathsDistinct sub) firstBuild secondBuild⟩

/-- A page that calls the function of a protected name. -/
def callingPage : SourceFile :=
  { path := "Page.html", kind := .frontend, text := "<script>google.script.run.initX();</script>".toList, size := 43 }

theorem initFile_conserved_with_callingPage :
    ([Plan.initFile, callingPage].map (·.path)).Nodup ∧
      ∃ first second, analyzeFiles {} [Plan.initFile] = .ok first ∧
        analyzeFiles {} [Plan.initFile, callingPage] = .ok second ∧
          Assessment.Conserves ({} : Settings).riskPolicy first second := by
  have pathsDistinct : ([Plan.initFile, callingPage].map (·.path)).Nodup := by decide
  obtain ⟨patterns, read⟩ : ∃ patterns, ({} : Settings).protectedPatterns.mapM Pattern.ofString = .ok patterns :=
    ⟨_, rfl⟩
  exact ⟨pathsDistinct, (analyzeFiles_conserves_with_another {} [Plan.initFile] [] callingPage pathsDistinct).2 patterns read⟩

end Deadwood
