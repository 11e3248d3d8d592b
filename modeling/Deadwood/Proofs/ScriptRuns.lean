import Deadwood.Proofs.ItemRuns
import Deadwood.Proofs.PlainToolkits
import Deadwood.Proofs.ScriptWords
import Deadwood.Proofs.SweptAnalysis

/-!
# The run of a remediation script

A remediation script deletes what its plan names by one command for each item, all under the snapshot that it has taken, and ends
with the first command that does not end well. A session that carries out the plan notes what it cannot delete and goes on. So the
script leaves the tree that the session has when the first item fails, and the tree that it leaves in the end if none does.
-/

set_option autoImplicit false
namespace Deadwood

open Files

/-! ## The commands of a script -/

namespace Report

open Shell

def runsCommand (line : String) : Bool :=
  "sweep ".toList.isPrefixOf line.toList

theorem runsCommand_append {first : String} (command : runsCommand first = true) (rest : String) :
    runsCommand (first ++ rest) = true := by
  rw [runsCommand, List.isPrefixOf_iff_prefix] at command ⊢
  rw [String.toList_append]
  exact command.trans (List.prefix_append _ _)

theorem runsCommand_removeSymbolLine (planned : PlannedCut) : runsCommand (removeSymbolLine planned) = true := by
  have command : runsCommand "sweep remove-symbol \"$ROOT\" " = true := by decide
  exact runsCommand_append (runsCommand_append (runsCommand_append (runsCommand_append command _) _) _) _

theorem runsCommand_removeFileLine (path : String) : runsCommand (removeFileLine path) = true := by
  have command : runsCommand "sweep remove-file \"$ROOT\" " = true := by decide
  exact runsCommand_append (runsCommand_append command _) _

theorem head?_toList_append {first : String} {c : Char} (begins : first.toList.head? = some c) (rest : String) :
    (first ++ rest).toList.head? = some c := by
  rw [String.toList_append, List.head?_append, begins]
  rfl

theorem not_runsCommand_of_head {line : String} {c : Char} (begins : line.toList.head? = some c) (other : c ≠ 's') :
    runsCommand line = false := by
  obtain ⟨rest, chars⟩ := List.head?_eq_some_iff.mp begins
  rw [runsCommand, chars]
  exact Bool.eq_false_iff.mpr fun command => other (List.cons_prefix_cons.mp (List.isPrefixOf_iff_prefix.mp command)).1.symm

theorem filter_runsCommand_block (title : String) (lines : List String) (noCommand : runsCommand title = false)
    (commands : ∀ line ∈ lines, runsCommand line = true) : (block title lines).filter runsCommand = lines := by
  have noLine : runsCommand "" = false := by decide
  unfold block
  split
  · rename_i none
    rw [List.isEmpty_iff.mp none, List.filter_nil]
  · rw [List.cons_append, List.filter_cons_of_neg (by simp [noCommand]), List.filter_append,
      List.filter_eq_self.mpr commands, List.filter_cons_of_neg (by simp [noLine]), List.filter_nil, List.append_nil]

/-- The commands that a script runs in lines of their own are those that delete what is planned, in the order of the plan. -/
theorem exists_lines_script (report : Report) : ∃ lines, report.script = joinLines lines ∧
    lines.filter runsCommand = report.lowRiskPlan.items.map removalLine := by
  refine ⟨_, rfl, ?_⟩
  have generated (later : String) : runsCommand ("# Generated by sweepgraph " ++ version ++ " at " ++ later) = false :=
    not_runsCommand_of_head (head?_toList_append (head?_toList_append (head?_toList_append rfl _) _) _) (by decide)
  have root (later : String) : runsCommand ("ROOT=" ++ later) = false :=
    not_runsCommand_of_head (head?_toList_append rfl _) (by decide)
  have about (files functions : String) : runsCommand ("echo \"About to delete " ++ files ++ " low-risk file(s) and "
      ++ functions ++ " low-risk function(s) under $ROOT\"") = false :=
    not_runsCommand_of_head (head?_toList_append (head?_toList_append (head?_toList_append (head?_toList_append rfl _) _) _) _)
      (by decide)
  have validation (command : String) : runsCommand ("if " ++ command ++ "; then") = false :=
    not_runsCommand_of_head (head?_toList_append (head?_toList_append rfl _) _) (by decide)
  have review (items : List String) :
      ∀ line ∈ items.map fun item => "echo " ++ quote ("  " ++ item), runsCommand line = false :=
    List.forall_mem_map.mpr fun item _ => not_runsCommand_of_head (head?_toList_append rfl _) (by decide)
  have none {lines : List String} (silent : ∀ line ∈ lines, runsCommand line = false) : lines.filter runsCommand = [] :=
    List.filter_eq_nil_iff.mpr fun line listed => Bool.eq_false_iff.mp (silent line listed)
  have functions := filter_runsCommand_block "# low-risk functions" (report.lowRiskPlan.functions.map removeSymbolLine)
    (by decide) (List.forall_mem_map.mpr fun planned _ => runsCommand_removeSymbolLine planned)
  have files := filter_runsCommand_block "# low-risk files" (report.lowRiskPlan.files.map removeFileLine)
    (by decide) (List.forall_mem_map.mpr fun path _ => runsCommand_removeFileLine path)
  rw [map_removalLine]
  simp only [List.filter_append, functions, files]
  rw [none, none, none, none, none]
  · simp only [List.nil_append, List.append_nil]
  · decide +kernel
  · split
    · exact fun line listed => absurd listed List.not_mem_nil
    · exact List.forall_mem_cons.mpr ⟨by decide +kernel, review _⟩
  · exact List.forall_mem_cons.mpr ⟨validation _, by decide +kernel⟩
  · split <;> decide +kernel
  · simp only [List.forall_mem_cons]
    exact ⟨by decide +kernel, generated _, by decide +kernel, by decide +kernel, by decide +kernel, root _, about _ _,
      by decide +kernel⟩

end Report

/-! ## What a plan names -/

namespace Source

theorem not_mem_of_isIdentifier {text : List Char} (identifier : IsIdentifier text) {c : Char}
    (noPart : isIdentifierPart c = false) : c ∉ text := by
  intro member
  cases noPart.symm.trans (identifier.isIdentifierPart c member)

end Source

namespace Plan

open CommandLine DeletionSession Source

variable {tree : Tree} {root : Location} {reading : Reading} {skipDirs : List String} {roots : Roots} {analysis : Analysis}
  {policy : RiskPolicy} {threshold : RiskLevel}

theorem ofPath?_of_mem_sourceFiles (wellFormed : tree.WellFormed) (areNames : ∀ row ∈ tree.rows, ∀ name ∈ row.1, IsName name)
    {file : SourceFile} (listed : file ∈ sourceFiles tree root skipDirs) :
    FileKind.ofPath? ((placeOf root file.path).getLastD "") ≠ none := by
  obtain ⟨⟨location, entry⟩, below, isFile⟩ := List.mem_filterMap.mp listed
  obtain ⟨someName, held⟩ := wellFormed.mem_below_iff.mp below
  have named : ∀ name ∈ location, IsName name := fun name member =>
    areNames _ (Tree.mem_below_iff.mp below).2 name (List.mem_append_right root member)
  cases entry with
  | directory => cases isFile
  | file content =>
      unfold sourceFile? at isFile
      dsimp only at isFile
      split at isFile
      · cases isFile
      · obtain ⟨kind, isKind, rfl⟩ := Option.map_eq_some_iff.mp isFile
        have last : (root ++ location).getLastD "" = location.getLastD "" := by
          rw [List.getLastD_eq_getLast?, List.getLastD_eq_getLast?, List.getLast?_append_of_ne_nil root someName]
        dsimp only
        rw [placeOf_relativePath someName named (wellFormed.no_parent_name held), last, isKind]
        exact Option.some_ne_none kind

/-- The paths of a plan for the source files of a tree name source files below the root, each one its own. -/
theorem nameSources_ofAssessment (wellFormed : tree.WellFormed)
    (areNames : ∀ row ∈ tree.rows, ∀ name ∈ row.1, IsName name)
    (run : Analysis.ofBuild (Build.ofExtractor (extract reading) (sourceFiles tree root skipDirs)) roots = .ok analysis) :
    NameSources root (ofAssessment threshold (Assessment.ofAnalysis policy analysis)).paths where
  below path named := by
    obtain ⟨file, listed, rfl⟩ := exists_file_of_mem_paths run named
    obtain ⟨location, _, _, place, _⟩ := exists_of_mem_sourceFiles wellFormed areNames listed
    rw [place]
    exact List.prefix_append root location
  source path named := by
    obtain ⟨file, listed, rfl⟩ := exists_file_of_mem_paths run named
    exact ofPath?_of_mem_sourceFiles wellFormed areNames listed
  apart := (fits_ofAssessment wellFormed areNames run).apart

theorem isIdentifier_of_mem_functions {files : List SourceFile}
    (run : Analysis.ofBuild (Build.ofExtractor (extract reading) files) roots = .ok analysis) {planned : PlannedCut}
    (listed : planned ∈ (ofAssessment threshold (Assessment.ofAnalysis policy analysis)).functions) :
    IsIdentifier planned.name.toList := by
  obtain ⟨symbol, unused, named, defining⟩ := mem_functions_ofAssessment listed
  obtain ⟨definition, defines, _⟩ := List.mem_map.mp (Text.mem_sortedSet.mp defining)
  obtain ⟨sameName, file, _, readOff⟩ := (Analysis.mem_definitions_of_unused run unused).mp defines
  rw [← named, ← sameName]
  exact isIdentifier_of_mem_definitions readOff

theorem exists_planned_of_name {plan : Plan} {item : DeletionItem} {name : String} (listed : item ∈ plan.items)
    (named : name ∈ item.name?) : ∃ planned ∈ plan.functions, planned.name = name := by
  rcases List.mem_append.mp listed with function | file
  · obtain ⟨planned, member, rfl⟩ := List.mem_map.mp function
    exact ⟨planned, member, Option.some.inj named⟩
  · obtain ⟨path, _, rfl⟩ := List.mem_map.mp file
    cases named

/-- The command line takes the words of what is planned, if it takes the paths and what is said of the items can be shown. -/
theorem commandable_of_mem_items {toolkit : Toolkit} {files : List SourceFile}
    (run : Analysis.ofBuild (Build.ofExtractor (extract reading) files) roots = .ok analysis) {plan : Plan}
    (isPlan : plan = ofAssessment threshold (Assessment.ofAnalysis policy analysis)) (words : ∀ path ∈ plan.paths, IsWord path)
    {item : DeletionItem} (listed : item ∈ plan.items)
    (shown : ∀ record, ∃ line, toolkit.shown ("[green]✓[/green] " ++ deletedLine record item) = .ok line) :
    Commandable toolkit item where
  pathWord := words _ (path_mem_paths listed)
  nameWord name named := by
    obtain ⟨planned, member, rfl⟩ := exists_planned_of_name listed named
    have noDash : isIdentifierPart '-' = false := by cbv
    intro begins
    exact not_mem_of_isIdentifier (isIdentifier_of_mem_functions run (isPlan ▸ member)) noDash (List.mem_of_head? begins)
  shown := shown

end Plan

/-! ## The root of a script -/

namespace Files

theorem toList_toString_anchored (location : Location) :
    (⟨"/", location⟩ : Path).toString.toList = '/' :: "/".toList.intercalate (location.map String.toList) := by
  have written : (⟨"/", location⟩ : Path).toString = Location.toString location := rfl
  rw [written, Location.toString, String.toList_append, String.toList_intercalate]
  rfl

theorem ofString_toString_anchored {location : Location} (areNames : ∀ name ∈ location, IsName name) :
    Path.ofString (⟨"/", location⟩ : Path).toString = ⟨"/", location⟩ := by
  have text := toList_toString_anchored location
  have slashes : (⟨"/", location⟩ : Path).toString.toList.takeWhile (· == '/') = ['/'] := by
    rw [text, List.takeWhile_cons_of_pos (by rfl)]
    cases location with
    | nil => rfl
    | cons name rest =>
        have isName := areNames name List.mem_cons_self
        obtain ⟨c, others, chars⟩ := List.exists_cons_of_ne_nil isName.someChars
        have noSlash : c ≠ '/' := fun same => isName.noSlash (by simp [chars, same])
        rw [List.map_cons, chars]
        cases rest with
        | nil => simp [noSlash]
        | cons next more => simp [List.intercalate_cons_cons, noSlash]
  have names : splitNames [] (⟨"/", location⟩ : Path).toString.toList = location := by
    rw [text]
    exact (if_pos (beq_self_eq_true '/')).trans (splitNames_intercalate areNames)
  unfold Path.ofString
  dsimp only
  rw [slashes, names]
  rfl

end Files

/-! ## The run -/

namespace CommandLine

open DeletionLog DeletionSession Report SnapshotStore

/-- A report of the source files of a tree, and a snapshot that is taken of the tree for its script, where the commands of the
script find it. No path of the plan is an option, and what is said of the items that are deleted can be shown. -/
structure Prepared (toolkit : Toolkit) (places : Places) (settings : Settings) (report : Report) (world started : World)
    (snapshot : Snapshot) : Prop where
  wellFormed : world.tree.WellFormed
  areNames : ∀ row ∈ world.tree.rows, ∀ name ∈ row.1, IsName name
  resolved : report.root = ⟨"/", report.root.resolve⟩
  analysed : ∃ reading skipDirs roots, Analysis.ofBuild (Build.ofExtractor (Source.extract reading)
    (sourceFiles world.tree report.root.resolve skipDirs)) roots = .ok report.analysis
  rated : ∃ policy, report.assessment = Assessment.ofAnalysis policy report.analysis
  handles : toolkit.Handles
  words : ∀ path ∈ report.lowRiskPlan.paths, IsWord path
  shown : ∀ item ∈ report.lowRiskPlan.items, ∀ record,
    ∃ line, toolkit.shown ("[green]✓[/green] " ++ deletedLine record item) = .ok line
  countable : Countable world.tree report.root.resolve
  created : ∃ purpose, (storeOf places settings).create report.root purpose world = (.ok snapshot, started)
  loaded : Settings.load places started.tree (some report.root) none toolkit.tables = .ok settings

namespace Prepared

variable {toolkit : Toolkit} {places : Places} {settings : Settings} {report : Report} {world started : World}
  {snapshot : Snapshot} (prepared : Prepared toolkit places settings report world started snapshot)

include prepared

theorem isName_of_mem_root : ∀ name ∈ report.root.resolve, IsName name := by
  obtain ⟨purpose, created⟩ := prepared.created
  have isDirectory := (taken_of_create prepared.wellFormed created).isDirectory
  intro name member
  have someName : report.root.resolve ≠ [] := List.ne_nil_of_mem member
  have listed := prepared.wellFormed.mem_rows_iff.mpr ⟨someName, isDirectory⟩
  exact prepared.areNames _ listed name member

theorem underway : Underway toolkit places settings report.root.resolve report.lowRiskPlan.paths world.now snapshot world.tree
    started (realStart world.tree report.root.resolve world.now snapshot.id) := by
  obtain ⟨purpose, created⟩ := prepared.created
  have wellFormed := prepared.wellFormed
  have taken := taken_of_create wellFormed created
  have noParent : ".." ∉ report.root.resolve := no_parent_resolve report.root
  refine ⟨now_of_create created, ?_, ?_, holds_of_create wellFormed prepared.countable created,
    followed_of_create wellFormed created, Or.inl ?_, .start _ wellFormed taken.wellFormed taken.source_eq _ _⟩
  · rw [Tree.isDirectoryAt, Tree.locate_of_no_parent _ noParent]
    dsimp only
    rw [resolve_of_no_parent noParent, Tree.isDirectory_iff, taken.source_eq _ (List.prefix_refl _)]
    exact taken.isDirectory
  · rw [← prepared.resolved]
    exact prepared.loaded
  · have noLog := no_log_of_create wellFormed created
    rwa [taken.resolved, List.append_assoc, List.singleton_append] at noLog

/-- The commands for the items of the plan leave the tree that a session has when the first item fails. -/
theorem entry?_runCommands (place : Location) (below : report.root.resolve <+: place) :
    (runCommands toolkit places (report.lowRiskPlan.items.map (·.arguments report.root.toString snapshot.id))
        started).tree.entry? place =
      ((realStart world.tree report.root.resolve world.now snapshot.id).untilFailure
        report.lowRiskPlan.items).tree.entry? place := by
  obtain ⟨reading, skipDirs, roots, run⟩ := prepared.analysed
  obtain ⟨policy, rated⟩ := prepared.rated
  have isPlan : report.lowRiskPlan = Plan.ofAssessment .low (Assessment.ofAnalysis policy report.analysis) := by
    rw [← rated]
    rfl
  have sources : NameSources report.root.resolve report.lowRiskPlan.paths :=
    isPlan ▸ Plan.nameSources_ofAssessment prepared.wellFormed prepared.areNames run
  have rootWord : IsWord report.root.toString := by
    rw [prepared.resolved, IsWord, toList_toString_anchored, List.head?_cons]
    decide
  have read : Path.ofString report.root.toString = ⟨"/", report.root.resolve⟩ := by
    rw [prepared.resolved, resolve_of_no_parent (no_parent_resolve report.root)]
    exact ofString_toString_anchored prepared.isName_of_mem_root
  have ended := prepared.underway.run_items prepared.handles sources (no_parent_resolve report.root) rootWord read
    (fun item listed => Plan.path_mem_paths listed)
    (fun item listed => Plan.commandable_of_mem_items run isPlan prepared.words listed (prepared.shown item listed))
  exact ended.resumes.same place below

/-- The commands of a script leave the tree that a session has when the first item fails, or, if none does, the tree that the
session leaves in the end. -/
theorem script_leaves_tree_until_failure :
    let plan : Plan := report.lowRiskPlan
    let session := realStart world.tree report.root.resolve world.now snapshot.id
    let after := runCommands toolkit places (plan.items.map (·.arguments report.root.toString snapshot.id)) started
    (∃ lines, report.script = joinLines lines ∧ (lines.filter runsCommand).map Shell.words =
      plan.items.map fun item => .ok ("sweep" :: item.arguments "$ROOT" "$SNAPSHOT_ID")) ∧
    (∀ place, report.root.resolve <+: place →
      after.tree.entry? place = (session.untilFailure plan.items).tree.entry? place) ∧
    ((session.carryOut plan).1.failures = [] → ∀ place, report.root.resolve <+: place →
      after.tree.entry? place = (session.carryOut plan).1.tree.entry? place) := by
  intro plan session after
  refine ⟨?_, prepared.entry?_runCommands, fun noFailure place below => ?_⟩
  · obtain ⟨lines, isScript, commands⟩ := exists_lines_script report
    refine ⟨lines, isScript, ?_⟩
    rw [commands, List.map_map]
    exact List.map_congr_left fun item _ => words_removalLine item
  · have same : after.tree.entry? place = (session.untilFailure plan.items).tree.entry? place :=
      prepared.entry?_runCommands place below
    rw [carryOut_eq_foldl] at noFailure ⊢
    rw [same, untilFailure_eq_foldl noFailure]

end Prepared

/-! ## A function inside of another -/

def enclosingText : List Char :=
  "function ab()\x7b\x7dfunction cd()\x7bfunction ef()\x7b\x7d\x7d".toList

def openedText : List Char :=
  "function ab()\x7b\x7d\n".toList

def openingText : List Char :=
  "function onOpen()\x7bab()\x7d".toList

/-- A root with the two, and with a file that nothing needs. -/
def enclosing : World where
  tree := ⟨[(["src"], .directory), (["src", "A.gs"], .file (Text.encode enclosingText)),
    (["src", "B.gs"], .file (Text.encode openingText)), (["src", "C.gs"], .file [])]⟩
  now := ⟨2026, 1, 1, 12, 0, 0, 0⟩

/-- Where nothing stands yet. -/
def emptyPlaces : Places :=
  ⟨⟨"/", ["sweep"]⟩, ⟨"/", ["home"]⟩⟩

def enclosingFiles : List SourceFile :=
  [⟨"A.gs", .backend, enclosingText, 45⟩, ⟨"B.gs", .backend, openingText, 23⟩, ⟨"C.gs", .backend, [], 0⟩]

def outerDefinition : Source.Definition :=
  ⟨"A.gs", "cd", .function, 1, 1, 15, 45, 24⟩

def innerDefinition : Source.Definition :=
  ⟨"A.gs", "ef", .function, 1, 1, 29, 44, 38⟩

def enclosingReading (file : SourceFile) : Source.Extraction :=
  if file.path = "A.gs" then
    { path := "A.gs", definitions := [⟨"A.gs", "ab", .function, 1, 1, 0, 15, 9⟩, outerDefinition, innerDefinition] }
  else if file.path = "B.gs" then
    { path := "B.gs"
      definitions := [⟨"B.gs", "onOpen", .function, 1, 1, 0, 23, 9⟩]
      mentions := [⟨"ab", .call, 1, some "onOpen"⟩] }
  else { path := "C.gs" }

def enclosingGraph : Graph where
  files := enclosingFiles
  symbols := [⟨"ab", [⟨"A.gs", "ab", .function, 1, 1, 0, 15, 9⟩]⟩, ⟨"cd", [outerDefinition]⟩, ⟨"ef", [innerDefinition]⟩,
    ⟨"onOpen", [⟨"B.gs", "onOpen", .function, 1, 1, 0, 23, 9⟩]⟩]
  edges := [⟨.file "A.gs", .symbol "ab", .defines⟩, ⟨.file "A.gs", .symbol "cd", .defines⟩,
    ⟨.file "A.gs", .symbol "ef", .defines⟩, ⟨.file "B.gs", .symbol "onOpen", .defines⟩,
    ⟨.symbol "onOpen", .symbol "ab", .references⟩]

/-- The outer function and the inner one, and the file. -/
def enclosingPlan : Plan :=
  { files := ["C.gs"], functions := [⟨"A.gs", "cd"⟩, ⟨"A.gs", "ef"⟩] }

/-- The report of an analysis under the settings that hold if none are given. -/
def enclosingReport (analysis : Analysis) : Report where
  analysis := analysis
  assessment := Assessment.ofAnalysis ({} : Settings).riskPolicy analysis
  root := ⟨"/", ["src"]⟩
  validationCommand := none
  generatedAt := enclosing.now.toString

theorem return_not_mem_enclosingText : '\r' ∉ enclosingText := by
  have none : enclosingText.contains '\r' = false := by cbv
  simpa using none

theorem return_not_mem_openingText : '\r' ∉ openingText := by
  have none : openingText.contains '\r' = false := by cbv
  simpa using none

theorem below_enclosing : enclosing.tree.below ["src"] = [(["A.gs"], .file (Text.encode enclosingText)),
    (["B.gs"], .file (Text.encode openingText)), (["C.gs"], .file [])] :=
  List.mergeSort_of_pairwise (by decide)

theorem sourceFiles_enclosing : sourceFiles enclosing.tree ["src"] ({} : Settings).skipDirs = enclosingFiles := by
  have kinds : ∀ name ∈ ["A.gs", "B.gs", "C.gs"], FileKind.ofPath? name = some .backend := by decide
  have enclosingSize : (Text.encode enclosingText).length = 45 := by cbv
  have openingSize : (Text.encode openingText).length = 23 := by cbv
  have noText : readTextLeniently [] = [] := rfl
  rw [sourceFiles, below_enclosing]
  simp [sourceFile?, relativePath, enclosingFiles, kinds, enclosingSize, openingSize, noText,
    Text.readTextLeniently_encode return_not_mem_enclosingText, Text.readTextLeniently_encode return_not_mem_openingText]

theorem extract_enclosing :
    ∀ file ∈ enclosingFiles, Source.extract ({} : Settings).reading file = enclosingReading file := by
  simp only [enclosingFiles, List.forall_mem_cons]
  exact ⟨by decide +kernel, by decide +kernel, by decide +kernel, by simp⟩

/-- Of what there is, only the function that runs on opening is a root. -/
theorem exists_roots_enclosing : ∃ roots, Roots.ofSettings {} [] = .ok roots ∧
    ["ab", "cd", "ef", "onOpen"].filter roots.matchesName = ["onOpen"] ∧
      ["A.gs", "B.gs", "C.gs"].filter roots.matchesFile = [] := by
  have matching : (Roots.ofSettings {} []).map (fun roots => (["ab", "cd", "ef", "onOpen"].filter roots.matchesName,
      ["A.gs", "B.gs", "C.gs"].filter roots.matchesFile)) = .ok (["onOpen"], []) := by
    cbv
  obtain ⟨roots, read, both⟩ := exists_of_map_eq_ok matching
  obtain ⟨names, files⟩ := Prod.mk.inj both
  exact ⟨roots, read, names, files⟩

theorem unused_enclosing {roots : Roots} (names : ["ab", "cd", "ef", "onOpen"].filter roots.matchesName = ["onOpen"])
    (files : ["A.gs", "B.gs", "C.gs"].filter roots.matchesFile = []) :
    (Analysis.ofGraph enclosingGraph roots [] []).map (fun analysis => (analysis.unusedFiles, analysis.unusedSymbols)) =
      .ok ([⟨"C.gs", .backend, 0, [], []⟩],
        [⟨"cd", [outerDefinition], [("A.gs", .backend)], false⟩, ⟨"ef", [innerDefinition], [("A.gs", .backend)], false⟩]) := by
  have allNames : enclosingGraph.names = ["ab", "cd", "ef", "onOpen"] := by cbv
  have allPaths : enclosingGraph.paths = ["A.gs", "B.gs", "C.gs"] := by cbv
  have rootNames : enclosingGraph.rootNames roots = ["onOpen"] := by rw [Graph.rootNames, allNames, names]
  have rootPaths : enclosingGraph.rootPaths roots = ["B.gs"] := by
    rw [Graph.rootPaths, rootNames, allPaths, files]
    cbv
  have marked : enclosingGraph.mark roots = [.file "A.gs", .symbol "ab", .symbol "onOpen", .file "B.gs"] := by
    rw [Graph.mark, Graph.allVisits, Graph.rootVisits, rootNames, rootPaths]
    cbv
  rw [Analysis.ofGraph, rootNames, rootPaths, marked, allPaths, allNames]
  cbv

theorem ofAssessment_enclosing {analysis : Analysis} (files : analysis.unusedFiles = [⟨"C.gs", .backend, 0, [], []⟩])
    (symbols : analysis.unusedSymbols =
      [⟨"cd", [outerDefinition], [("A.gs", .backend)], false⟩, ⟨"ef", [innerDefinition], [("A.gs", .backend)], false⟩]) :
    (enclosingReport analysis).lowRiskPlan = enclosingPlan := by
  have rateFile : ({} : Settings).riskPolicy.rateFile ⟨"C.gs", .backend, 0, [], []⟩ = ⟨.low, "No references found"⟩ := by
    decide +kernel
  have rateOuter : ({} : Settings).riskPolicy.rateSymbol ⟨"cd", [outerDefinition], [("A.gs", .backend)], false⟩ =
      ⟨.low, "No references found"⟩ := by
    decide +kernel
  have rateInner : ({} : Settings).riskPolicy.rateSymbol ⟨"ef", [innerDefinition], [("A.gs", .backend)], false⟩ =
      ⟨.low, "No references found"⟩ := by
    decide +kernel
  rw [Report.lowRiskPlan, enclosingReport, Assessment.ofAnalysis, files, symbols]
  simp only [List.map_cons, List.map_nil, rateFile, rateOuter, rateInner]
  cbv

theorem exists_analysis_enclosing : ∃ analysis roots, analyzeTree {} enclosing.tree ["src"] = .ok analysis ∧
    Analysis.ofBuild (Build.ofExtractor (Source.extract ({} : Settings).reading)
      (sourceFiles enclosing.tree ["src"] ({} : Settings).skipDirs)) roots = .ok analysis ∧
    (enclosingReport analysis).lowRiskPlan = enclosingPlan := by
  obtain ⟨roots, read, names, files⟩ := exists_roots_enclosing
  have unused := unused_enclosing names files
  have graph : (Build.ofExtractor enclosingReading enclosingFiles).graph = enclosingGraph := by cbv
  have words : (Build.ofExtractor enclosingReading enclosingFiles).stringWords = [] := by cbv
  have unresolved : (Build.ofExtractor enclosingReading enclosingFiles).unresolved = [] := by cbv
  have triggers : (Build.ofExtractor enclosingReading enclosingFiles).triggerNames = [] := by cbv
  have build := Build.ofExtractor_congr extract_enclosing
  obtain ⟨analysis, run, both⟩ := exists_of_map_eq_ok unused
  obtain ⟨files, symbols⟩ := Prod.mk.inj both
  have ofBuild : Analysis.ofBuild (Build.ofExtractor enclosingReading enclosingFiles) roots = .ok analysis := by
    rw [Analysis.ofBuild, graph, words, unresolved, run]
  refine ⟨analysis, roots, ?_, ?_, ofAssessment_enclosing files symbols⟩
  · rw [analyzeTree, sourceFiles_enclosing, analyzeFiles, build, triggers, read]
    simp only [bind, Except.bind, pure, Except.pure, ofBuild]
  · rw [sourceFiles_enclosing, build, ofBuild]

theorem wellFormed_enclosing : enclosing.tree.WellFormed :=
  ⟨by decide, by decide, by decide⟩

theorem areNames_enclosing : ∀ row ∈ enclosing.tree.rows, ∀ name ∈ row.1, IsName name := by
  have each : ∀ row ∈ enclosing.tree.rows, ∀ name ∈ row.1, name.toList ≠ [] ∧ name.toList ≠ ['.'] ∧ '/' ∉ name.toList := by
    decide
  intro row listed name member
  obtain ⟨someChars, noDot, noSlash⟩ := each row listed name member
  exact ⟨someChars, noDot, noSlash⟩

theorem countable_enclosing : SnapshotStore.Countable enclosing.tree ["src"] := by
  have few : Snapshot.countFiles (Snapshot.savedEntries enclosing.tree ["src"]) = 3 := by
    rw [Snapshot.savedEntries, below_enclosing]
    rfl
  have oneDigit : 3 < 10 ^ 1 := by decide
  rw [SnapshotStore.Countable, few]
  exact oneDigit.trans_le (Nat.pow_le_pow_right (by decide) (by decide))

/-- Where no file gives settings, they are those that hold if none are given. -/
theorem load_of_no_file {places : Places} {tree : Tree} {root : Path} (noGlobal : tree.isFileAt places.globalFile = false)
    (noneInside : tree.isFileAt (root.join ⟨"", [Settings.projectFileName]⟩) = false)
    (noneBeside : tree.isFileAt (root.parent.join ⟨"", [Settings.projectFileName]⟩) = false) :
    Settings.load places tree (some root) none = .ok {} := by
  have noProject : Settings.projectFile? tree root = none := by
    simp [Settings.projectFile?, noneInside, noneBeside]
  simp [Settings.load, noGlobal, noProject, pure, Except.pure, bind, Except.bind]

/-- Taking a snapshot makes no file outside of its directory. -/
theorem not_isFileAt_of_create {store : SnapshotStore} {source : Path} {purpose : String} {world world' : World}
    {snapshot : Snapshot} (wellFormed : world.tree.WellFormed)
    (created : store.create source purpose world = (.ok snapshot, world')) {path : Path} (noParent : ".." ∉ path.names)
    (outside : ¬ snapshot.directory.resolve <+: path.resolve) (absent : world.tree.entry? path.resolve = none) :
    world'.tree.isFileAt path = false := by
  have held := entry?_of_create wellFormed created path.resolve outside
  rw [Tree.isFileAt, Tree.locate_of_no_parent _ noParent]
  dsimp only
  rw [Tree.isFile, held, absent]
  by_cases onWay : path.resolve <+: snapshot.directory.resolve
  · rw [if_pos onWay]
  · rw [if_neg onWay]

/-- A script for the tree finds the snapshot that is taken for it. -/
theorem exists_prepared_enclosing : ∃ analysis started snapshot,
    analyzeTree {} enclosing.tree ["src"] = .ok analysis ∧ (enclosingReport analysis).lowRiskPlan = enclosingPlan ∧
      Prepared .plain emptyPlaces {} (enclosingReport analysis) enclosing started snapshot := by
  obtain ⟨analysis, roots, analyzed, run, planned⟩ := exists_analysis_enclosing
  have noStore : ∀ place, place <+: ["sweep", "backups"] → ∀ content, enclosing.tree.entry? place ≠ some (.file content) := by
    have noFile : ∀ place ∈ ["sweep", "backups"].inits, enclosing.tree.isFile place = false := by decide
    intro place onWay content held
    have isFile := noFile place ((List.mem_inits place _).mpr onWay)
    rw [Tree.isFile, held] at isFile
    cases isFile
  obtain ⟨tree, created⟩ := @SnapshotStore.exists_create (storeOf emptyPlaces {}) enclosing ⟨"/", ["src"]⟩ wellFormed_enclosing
    rfl (by decide) rfl noStore (by decide) "remediation-script"
  have noFile (names : List String) (noParent : ".." ∉ names)
      (outside : ¬ ((storeOf emptyPlaces {}).drawn ["src"] "remediation-script" enclosing).directory.resolve <+:
        (⟨"/", names⟩ : Path).resolve) (absent : enclosing.tree.entry? (⟨"/", names⟩ : Path).resolve = none) :
      tree.isFileAt ⟨"/", names⟩ = false :=
    not_isFileAt_of_create wellFormed_enclosing created noParent outside absent
  refine ⟨analysis, _, _, analyzed, planned, wellFormed_enclosing, areNames_enclosing, rfl, ⟨_, _, _, run⟩, ⟨_, rfl⟩, handles_plain,
    ?_, ?_, countable_enclosing, ⟨_, created⟩, ?_⟩
  · rw [planned]
    unfold IsWord
    decide
  · rw [planned]
    intro item listed
    have plain : ∀ item ∈ enclosingPlan.items, '[' ∉ item.path.toList ∧ ∀ name ∈ item.name?, '[' ∉ name.toList := by decide
    exact exists_shown_plain (Text.Styled.closesNoTag_of_not_mem (plain item listed).1) (plain item listed).2
  · exact load_of_no_file (noFile ["sweep", "config.toml"] (by decide) (by decide) rfl)
      (noFile ["src", "sweepgraph.toml"] (by decide) (by decide) rfl)
      (noFile ["sweepgraph.toml"] (by decide) (by decide) rfl)

/-- A session for the tree that has done nothing yet. -/
def enclosingStart (id : String) : DeletionSession :=
  realStart enclosing.tree ["src"] enclosing.now id

theorem exists_write_openedText (id : String) :
    ∃ tree, (enclosingStart id).tree.write ["src", "A.gs"] (Text.encode openedText) = .ok tree ∧ tree.WellFormed ∧
      tree.entry? ["src", "C.gs"] = some (.file []) := by
  obtain ⟨tree, written⟩ : ∃ tree, enclosing.tree.write ["src", "A.gs"] (Text.encode openedText) = .ok tree := ⟨_, rfl⟩
  refine ⟨tree, written, wellFormed_enclosing.write (by decide) written, ?_⟩
  rw [Tree.entry?_write written, if_neg (by decide)]
  rfl

/-- The outer function is cut out, and the inner one is gone with it. -/
theorem step_enclosing (id : String) : ∃ outer inner : DeletionSession,
    (enclosingStart id).step (.function "A.gs" "cd") = outer ∧
      ((DeletionItem.function "A.gs" "cd").deleteIn (enclosingStart id)).2.isSome = true ∧
      outer.step (.function "A.gs" "ef") = inner ∧ ¬ ((DeletionItem.function "A.gs" "ef").deleteIn outer).2.isSome = true ∧
      inner.root = ["src"] ∧ inner.removed = [] ∧ inner.dryRun = false ∧ inner.tree.WellFormed ∧
      inner.tree.entry? ["src", "C.gs"] = some (.file []) := by
  obtain ⟨tree, written, wellFormed, held⟩ := exists_write_openedText id
  have performs : (enclosingStart id).dryRun = false := rfl
  have place : (enclosingStart id).resolve "A.gs" = .ok ["src", "A.gs"] := rfl
  have read : (enclosingStart id).textOf "A.gs" = .ok (["src", "A.gs"], enclosingText) := by
    rw [textOf_of_file place List.not_mem_nil rfl rfl, Text.readText_encode return_not_mem_enclosingText]
  have noPage : isPagePath "A.gs" = false := by decide
  have cut : Removal.remove? (isPagePath "A.gs") "cd" enclosingText = some (openedText, ⟨"cd", 15, 45, 1, 1⟩) := by
    rw [noPage]
    decide +kernel
  have absent : Removal.remove? (isPagePath "A.gs") "ef" openedText = none := by
    rw [noPage]
    decide +kernel
  generalize isOuter : ((enclosingStart id).noteOriginal "A.gs" enclosingText).afterCut tree "A.gs" "cd" enclosingText openedText
    ⟨"cd", 15, 45, 1, 1⟩ = outer
  have readAgain : outer.textOf "A.gs" = .ok (["src", "A.gs"], openedText) := by
    rw [← isOuter]
    exact textOf_of_pending rfl List.not_mem_nil rfl
  refine ⟨outer, (outer.noteOriginal "A.gs" openedText).fail "A.gs" "ef" .notFound, ?_, ?_, ?_, ?_, ?_⟩
  · have done : (if (enclosingStart id).dryRun then .ok (enclosingStart id).tree
        else faultAt ["src", "A.gs"] ((enclosingStart id).tree.write ["src", "A.gs"] (Text.encode openedText))) = .ok tree := by
      rw [performs, written]
      rfl
    rw [step, DeletionItem.deleteIn, deleteFunction_of_written read cut done, isOuter]
  · rw [DeletionItem.deleteIn, record_of_written read cut performs written]
    exact Option.isSome_some
  · rw [step, DeletionItem.deleteIn, deleteFunction_of_absent readAgain absent]
  · rw [DeletionItem.deleteIn, record_of_absent readAgain absent]
    exact Bool.false_ne_true
  · rw [← isOuter]
    exact ⟨rfl, rfl, rfl, wellFormed, held⟩

/-- Only a session that goes on comes to the file. -/
theorem entry?_of_enclosingPlan (id : String) :
    ((enclosingStart id).untilFailure enclosingPlan.items).tree.entry? ["src", "C.gs"] = some (.file []) ∧
      ((enclosingStart id).carryOut enclosingPlan).1.tree.entry? ["src", "C.gs"] = none := by
  have items : enclosingPlan.items = [.function "A.gs" "cd", .function "A.gs" "ef", .file "C.gs"] := rfl
  obtain ⟨outer, inner, first, deleted, second, kept, root, noneRemoved, performs, wellFormed, held⟩ := step_enclosing id
  constructor
  · rw [items, untilFailure_cons, if_pos deleted, first, untilFailure_cons, if_neg kept, second, held]
  · have place : inner.resolve "C.gs" = .ok ["src", "C.gs"] := by
      rw [resolve, root]
      rfl
    have present : "C.gs" ∉ inner.removed := by
      rw [noneRemoved]
      exact List.not_mem_nil
    obtain ⟨later, removed⟩ : ∃ later, inner.tree.remove ["src", "C.gs"] = .ok later := by
      rw [Tree.remove, held]
      exact ⟨_, rfl⟩
    have taken : (if inner.dryRun then .ok inner.tree
        else faultAt ["src", "C.gs"] (inner.tree.remove ["src", "C.gs"])) = .ok later := by
      rw [performs, removed]
      rfl
    have third : (inner.step (.file "C.gs")).tree = later :=
      congrArg DeletionSession.tree (deleteFile_of_removed (target_of_file place present held) present taken)
    rw [carryOut_eq_foldl, items, List.foldl_cons, first, List.foldl_cons, second, List.foldl_cons, List.foldl_nil, third,
      Tree.entry?_remove wellFormed removed, if_pos rfl]

/-- The script for the tree leaves it as a session does that stops at the inner function. -/
theorem enclosingScript_leaves_tree_until_failure : ∃ analysis started snapshot,
    analyzeTree {} enclosing.tree ["src"] = .ok analysis ∧
      Prepared .plain emptyPlaces {} (enclosingReport analysis) enclosing started snapshot ∧
      (∃ lines, (enclosingReport analysis).script = joinLines lines ∧ (lines.filter runsCommand).map Shell.words =
        enclosingPlan.items.map fun item => .ok ("sweep" :: item.arguments "$ROOT" "$SNAPSHOT_ID")) ∧
      ∀ place, ["src"] <+: place →
        (runCommands .plain emptyPlaces (enclosingPlan.items.map (·.arguments (enclosingReport analysis).root.toString snapshot.id))
          started).tree.entry? place =
            ((enclosingStart snapshot.id).untilFailure enclosingPlan.items).tree.entry? place := by
  obtain ⟨analysis, started, snapshot, analyzed, planned, prepared⟩ := exists_prepared_enclosing
  obtain ⟨commands, left, _⟩ := prepared.script_leaves_tree_until_failure
  rw [planned] at commands left
  exact ⟨analysis, started, snapshot, analyzed, prepared, commands, left⟩

/-- The commands end with the inner function, and leave the file that a session deletes. -/
theorem enclosingScript_keeps_file_that_session_deletes : ∃ analysis started snapshot,
    analyzeTree {} enclosing.tree ["src"] = .ok analysis ∧ (enclosingReport analysis).lowRiskPlan = enclosingPlan ∧
      Prepared .plain emptyPlaces {} (enclosingReport analysis) enclosing started snapshot ∧
        (runCommands .plain emptyPlaces (enclosingPlan.items.map (·.arguments (enclosingReport analysis).root.toString snapshot.id))
          started).tree.entry? ["src", "C.gs"] = some (.file []) ∧
        ((enclosingStart snapshot.id).carryOut enclosingPlan).1.tree.entry? ["src", "C.gs"] = none := by
  obtain ⟨analysis, started, snapshot, analyzed, planned, prepared⟩ := exists_prepared_enclosing
  have left := prepared.entry?_runCommands ["src", "C.gs"] (List.prefix_append ["src"] ["C.gs"])
  rw [planned] at left
  obtain ⟨kept, deleted⟩ := entry?_of_enclosingPlan snapshot.id
  exact ⟨analysis, started, snapshot, analyzed, planned, prepared, left.trans kept, deleted⟩

end CommandLine
end Deadwood
