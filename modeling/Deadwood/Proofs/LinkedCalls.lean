import Deadwood.Proofs.BuiltTables
import Deadwood.Proofs.RiskGate

/-!
# Calls in a built graph

Every call of a name that the project defines becomes an edge to its symbol, from the innermost definition around the call or
from the file when there is none. Names that the language, the platform or the settings provide are left out on purpose: the
project may define one of them, but no mention of it is taken for one of the project's.
-/

set_option autoImplicit false
namespace Deadwood

open Source Text

namespace Source

/-- What a mention at an offset counts for: the innermost definition around it, or the file if there is none. -/
inductive MentionSource (definitions : List Definition) (path : String) (offset : Nat) : Node → Prop
  | within {around : Definition} (innermost : Innermost definitions offset around) :
      MentionSource definitions path offset (.symbol around.name)
  | outside (none : ∀ definition ∈ definitions, definition.contains offset = false) :
      MentionSource definitions path offset (.file path)

variable {reading : Reading} {file : SourceFile}

theorem inOrder_definitions (reading : Reading) (file : SourceFile) : InOrder (extract reading file).definitions := by
  by_cases isCode : file.kind = .config
  · rw [extract, if_pos (by simpa using isCode)]
    exact List.Pairwise.nil
  · rw [definitions_extract isCode]
    exact inOrder_definitionsOf _ _ _

/-- Every mention counts for something, and for one thing only. -/
theorem exists_mentionSource (reading : Reading) (file : SourceFile) (offset : Nat) :
    ∃ source, MentionSource (extract reading file).definitions file.path offset source := by
  rcases enclosing?_cases (inOrder_definitions reading file) offset with ⟨_, none⟩ | ⟨around, innermost, _⟩
  · exact ⟨_, .outside none⟩
  · exact ⟨_, .within innermost⟩

theorem isProjectName_of_not_mem {provided : List String} {name : String} (projectName : isProjectName [] name = true)
    (free : name ∉ provided) : isProjectName provided name = true := by
  simp only [isProjectName, Bool.and_eq_true, Bool.not_eq_true', List.contains_eq_mem, decide_eq_false_iff_not] at projectName ⊢
  exact ⟨projectName.1, free⟩

theorem mem_mentions_of_mem_callsOf (isCode : file.kind ≠ .config) {found : Mentioned}
    (listed : found ∈ callsOf (mask .code (codeOf file.kind file.text))
      ((definitionsOf file.path (codeOf file.kind file.text) (mask .code (codeOf file.kind file.text))).map (·.position)))
    (projectName : isProjectName (builtinNames ++ reading.extraProvided) found.name = true) :
    (⟨found.name, found.kind, lineOf (codeOf file.kind file.text) found.position,
      enclosing? (extract reading file).definitions found.position⟩ : Mention) ∈ (extract reading file).mentions := by
  rw [definitions_extract isCode, extract, if_neg (by simpa using isCode)]
  refine List.mem_map.mpr ⟨found, List.mem_filter.mpr ⟨?_, projectName⟩, rfl⟩
  exact List.mem_append_left _ (List.mem_append_left _ listed)

theorem exists_mention_of_callSite (isCode : file.kind ≠ .config) {name : String} (identifier : IsIdentifier name.toList)
    (projectName : isProjectName (builtinNames ++ reading.extraProvided) name = true)
    (site : CallSite (mask .code (codeOf file.kind file.text)) name)
    (noDefinition : ∀ definition ∈ (extract reading file).definitions, definition.position ≠ site.offset) :
    ∃ mention ∈ (extract reading file).mentions, mention.name = name ∧
      mention.enclosing = enclosing? (extract reading file).definitions site.offset := by
  have apart : site.offset ∉ (extract reading file).definitions.map (·.position) := by
    intro member
    obtain ⟨definition, defines, samePlace⟩ := List.mem_map.mp member
    exact noDefinition definition defines samePlace
  rw [definitions_extract isCode] at apart
  obtain ⟨kind, listed⟩ := site.exists_mem_callsOf identifier apart
  exact ⟨_, mem_mentions_of_mem_callsOf isCode listed projectName, rfl, rfl⟩

theorem isProjectName_of_mem_mentions {mention : Mention} (member : mention ∈ (extract reading file).mentions) :
    isProjectName (builtinNames ++ reading.extraProvided) mention.name = true := by
  unfold extract at member
  split at member
  case isTrue => cases member
  case isFalse =>
    obtain ⟨found, listed, rfl⟩ := List.mem_map.mp member
    exact (List.mem_filter.mp listed).2

end Source

namespace Build

variable {reading : Reading} {files : List SourceFile}

theorem linked_of_mentionSource {file : SourceFile} {mention : Mention} {offset : Nat} {source : Node}
    (listed : file ∈ files) (mentions : mention ∈ (extract reading file).mentions)
    (defined : mention.name ∈ definedNames (extract reading) files)
    (encloses : mention.enclosing = enclosing? (extract reading file).definitions offset)
    (counts : MentionSource (extract reading file).definitions file.path offset source)
    (differs : source ≠ .symbol mention.name) :
    Linked (extract reading) files ⟨source, .symbol mention.name, .references⟩ := by
  have inOrder := inOrder_definitions reading file
  rcases enclosing?_cases inOrder offset with ⟨noName, none⟩ | ⟨innermostDefinition, isInnermost, name⟩
  · cases counts with
    | within innermost =>
        have contains := innermost.contains
        rw [none _ innermost.member] at contains
        cases contains
    | outside =>
        refine .fromFile listed mentions defined fun name around => ?_
        rw [encloses, noName] at around
        cases around
  · cases counts with
    | within innermost =>
        obtain rfl := innermost.eq inOrder isInnermost
        refine .fromSymbol listed mentions defined (encloses.trans name) ?_ fun same => differs (congrArg Node.symbol same)
        exact mem_definedNames.mpr ⟨file, listed, _, innermost.member, rfl⟩
    | outside none =>
        have contains := isInnermost.contains
        rw [none _ isInnermost.member] at contains
        cases contains

theorem eq_defines_of_provided (pathsDistinct : (files.map (·.path)).Nodup) {name : String}
    (provided : name ∈ builtinNames ++ reading.extraProvided) {edge : Edge}
    (leads : edge ∈ (ofExtractor (extract reading) files).graph.edges) (target : edge.dst = .symbol name) :
    edge.kind = .defines := by
  have unprovided : ∀ {mention : Mention} {file : SourceFile}, mention ∈ (extract reading file).mentions →
      mention.name ≠ name := by
    rintro mention file mentions rfl
    have projectName := isProjectName_of_mem_mentions mentions
    simp only [isProjectName, Bool.and_eq_true, Bool.not_eq_true', List.contains_eq_mem, decide_eq_false_iff_not] at projectName
    exact projectName.2 provided
  cases ((isExact_extract reading pathsDistinct).edges _).mp leads with
  | defines => rfl
  | fromSymbol _ mentions => exact absurd (Node.symbol.inj target) (unprovided mentions)
  | fromFile _ mentions => exact absurd (Node.symbol.inj target) (unprovided mentions)
  | includes => cases target

/-- Every call of a defined name that is not provided is an edge from what it counts for, other than from the name itself.
Nothing but a definition leads to a provided name. -/
theorem links_calls_of_unprovided_names (reading : Reading) (files : List SourceFile)
    (pathsDistinct : (files.map (·.path)).Nodup) :
    (∀ file ∈ files, file.kind ≠ .config →
      ∀ name, ((ofExtractor (extract reading) files).graph.symbol? name).isSome →
        name ∉ builtinNames ++ reading.extraProvided →
          ∀ site : CallSite (mask .code (codeOf file.kind file.text)) name,
            (∀ definition ∈ (extract reading file).definitions, definition.position ≠ site.offset) →
              (∃ source, MentionSource (extract reading file).definitions file.path site.offset source) ∧
                ∀ source, MentionSource (extract reading file).definitions file.path site.offset source →
                  source ≠ .symbol name →
                    ⟨source, .symbol name, .references⟩ ∈ (ofExtractor (extract reading) files).graph.edges) ∧
      ∀ name ∈ builtinNames ++ reading.extraProvided, ∀ edge ∈ (ofExtractor (extract reading) files).graph.edges,
        edge.dst = .symbol name → edge.kind = .defines := by
  refine ⟨fun file listed isCode name present free site noDefinition => ⟨exists_mentionSource reading file _, ?_⟩,
    fun name provided edge leads target => eq_defines_of_provided pathsDistinct provided leads target⟩
  intro source counts differs
  rw [isSome_symbol?_ofExtractor] at present
  obtain ⟨_, _, definition, defines, named⟩ := mem_definedNames.mp present
  have identifier : IsIdentifier name.toList := named ▸ isIdentifier_of_mem_definitions defines
  have projectName := isProjectName_of_not_mem (named ▸ isProjectName_of_mem_definitions defines) free
  obtain ⟨mention, mentions, rfl, encloses⟩ := exists_mention_of_callSite isCode identifier projectName site noDefinition
  exact ((isExact_extract reading pathsDistinct).edges _).mpr
    (linked_of_mentionSource listed mentions present encloses counts differs)

/-- A file that defines a function of a provided name, and one of another name. -/
def providingFile : SourceFile :=
  { path := "A.gs", kind := .backend, text := "function fetch()\x7b\x7d function save()\x7b\x7d".toList, size := 35 }

/-- A file that calls both. -/
def askingFile : SourceFile :=
  { path := "B.gs", kind := .backend, text := "fetch();save();".toList, size := 15 }

theorem askingFile_defines_nothing (reading : Reading) : (extract reading askingFile).definitions = [] := by
  have shown : mask .code askingFile.text = askingFile.text := mask_eq_self (by simp [askingFile]) _
  have code : codeOf askingFile.kind askingFile.text = askingFile.text := rfl
  rw [definitions_extract (by decide), code, shown]
  decide +kernel

theorem providingFile_defines (reading : Reading) :
    (extract reading providingFile).definitions.map (·.name) = ["fetch", "save"] := by
  have shown : mask .code providingFile.text = providingFile.text := mask_eq_self (by simp [providingFile]) _
  have code : codeOf providingFile.kind providingFile.text = providingFile.text := rfl
  rw [definitions_extract (by decide), code, shown]
  decide +kernel

theorem mem_definedNames_providingFile (reading : Reading) {name : String} (defines : name ∈ ["fetch", "save"]) :
    name ∈ definedNames (extract reading) [providingFile, askingFile] := by
  rw [← providingFile_defines reading] at defines
  exact List.mem_flatMap.mpr ⟨providingFile, List.mem_cons_self, defines⟩

def askingSite (name : String) (before after : List Char)
    (split : askingFile.text = before ++ (name.toList ++ '(' :: after))
    (apart : before.getLast?.any isIdentifierPart = false) :
    CallSite (mask .code (codeOf askingFile.kind askingFile.text)) name where
  before := before
  blanks := []
  after := after
  split := by
    have shown : mask .code askingFile.text = askingFile.text := mask_eq_self (by simp [askingFile]) _
    exact shown.trans split
  apart := apart
  blank := by simp

theorem saveCall_is_linked :
    ([providingFile, askingFile].map (·.path)).Nodup ∧
      ⟨.file "B.gs", .symbol "save", .references⟩ ∈
        (ofExtractor (extract Plan.plainReading) [providingFile, askingFile]).graph.edges := by
  have pathsDistinct : ([providingFile, askingFile].map (·.path)).Nodup := by decide
  have defined : ((ofExtractor (extract Plan.plainReading) [providingFile, askingFile]).graph.symbol? "save").isSome :=
    isSome_symbol?_ofExtractor.mpr (mem_definedNames_providingFile _ (by simp))
  have unprovided : "save" ∉ builtinNames ++ Plan.plainReading.extraProvided := by
    have absent : (builtinNames ++ Plan.plainReading.extraProvided).contains "save" = false := by decide +kernel
    simpa only [List.contains_eq_mem, decide_eq_false_iff_not] using absent
  have linked := (links_calls_of_unprovided_names Plan.plainReading [providingFile, askingFile] pathsDistinct).1
    askingFile (List.mem_cons_of_mem _ List.mem_cons_self) (by decide) "save" defined unprovided
    (askingSite "save" "fetch();".toList ");".toList (by decide) (by decide))
  rw [askingFile_defines_nothing] at linked
  exact ⟨pathsDistinct, (linked (by simp)).2 (.file "B.gs") (.outside (by simp)) Node.noConfusion⟩

/-- The call of the provided name counts for its file, and is no edge. -/
theorem fetchCall_is_not_linked :
    ([providingFile, askingFile].map (·.path)).Nodup ∧
      ((ofExtractor (extract Plan.plainReading) [providingFile, askingFile]).graph.symbol? "fetch").isSome ∧
        ∃ site : CallSite (mask .code (codeOf askingFile.kind askingFile.text)) "fetch",
          (∀ definition ∈ (extract Plan.plainReading askingFile).definitions, definition.position ≠ site.offset) ∧
            MentionSource (extract Plan.plainReading askingFile).definitions "B.gs" site.offset (.file "B.gs") ∧
              ⟨.file "B.gs", .symbol "fetch", .references⟩ ∉
                (ofExtractor (extract Plan.plainReading) [providingFile, askingFile]).graph.edges := by
  have pathsDistinct : ([providingFile, askingFile].map (·.path)).Nodup := by decide
  have defined : ((ofExtractor (extract Plan.plainReading) [providingFile, askingFile]).graph.symbol? "fetch").isSome :=
    isSome_symbol?_ofExtractor.mpr (mem_definedNames_providingFile _ (by simp))
  have provided : "fetch" ∈ builtinNames ++ Plan.plainReading.extraProvided := by
    have present : (builtinNames ++ Plan.plainReading.extraProvided).contains "fetch" = true := by decide +kernel
    exact List.contains_iff_mem.mp present
  refine ⟨pathsDistinct, defined, askingSite "fetch" [] ");save();".toList (by decide) rfl, ?_, ?_, fun linked => ?_⟩
  · simp [askingFile_defines_nothing]
  · exact .outside (by simp [askingFile_defines_nothing])
  · have defines := eq_defines_of_provided pathsDistinct provided linked rfl
    cases defines

end Build

end Deadwood
