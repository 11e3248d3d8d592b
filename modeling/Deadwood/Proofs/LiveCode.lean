import Mathlib.Data.List.Nodup
import Deadwood.Proofs.BuiltEdges
import Deadwood.Proofs.RiskGate
import Deadwood.Proofs.SpanBounds
import Deadwood.Proofs.SplicedIntroductions

/-!
# What a plan does to live code

A file that defines a live symbol is live, so no plan deletes it. A cut is made for the name of a dead symbol, and takes away
all that stands between the introducer of the name and the end of its body. A definition of a live symbol goes along exactly
if it stands there, inside the definition of a dead one.
-/

set_option autoImplicit false
namespace Deadwood

open Files Source Text

namespace Removal

/-! ## What a span holds -/

/-- From the first introducer of a name to the end of its body. -/
def extent? (isPage : Bool) (name : String) (text : List Char) : Option Stretch :=
  (firstIntroducer? (searchView isPage text) name).bind fun hit =>
    (bodyAfter (searchView isPage text) hit.value.stop).stop.map fun bodyEnd => ⟨hit.start, bodyEnd⟩

/-- Nothing but white space and separators stands from one offset up to another. -/
def Quiet (text : List Char) (start stop : Nat) : Prop :=
  ∀ place c, start ≤ place → place < stop → text[place]? = some c → isSpace c = true ∨ c = ';' ∨ c = ','

variable {text view : List Char} {start middle stop : Nat}

theorem Quiet.append (first : Quiet text start middle) (second : Quiet text middle stop) : Quiet text start stop := by
  intro place c after before present
  by_cases early : place < middle
  · exact first place c after early present
  · exact second place c (Nat.le_of_not_lt early) before present

theorem quiet_self : Quiet text start start := by
  intro place c after before
  omega

theorem Quiet.of_shows (quiet : Quiet text start stop) (shows : Shows view text) : Quiet view start stop := by
  intro place c after before shown
  cases visible : isSpace c with
  | true => exact Or.inl rfl
  | false =>
      have present := shows.getElem?_of_visible shown visible
      rcases quiet place c after before present with space | separator
      · cases visible.symm.trans space
      · exact Or.inr separator

def SpaceWithin (text : List Char) (start stop : Nat) : Prop :=
  ∀ place c, start ≤ place → place < stop → text[place]? = some c → isSpace c = true

theorem SpaceWithin.quiet (spaces : SpaceWithin text start stop) : Quiet text start stop :=
  fun place c after before present => Or.inl (spaces place c after before present)

theorem spaceWithin_of_slice (allSpace : isAllSpace (slice text start stop) = true) : SpaceWithin text start stop := by
  intro place c after before present
  have inSlice : (slice text start stop)[place - start]? = some c := by
    rw [slice, List.getElem?_drop, List.getElem?_take, if_pos (by omega), Nat.add_sub_cancel' after]
    exact present
  exact List.all_eq_true.mp allSpace c (List.mem_of_getElem? inSlice)

theorem spaceWithin_toLineStart (text : List Char) (offset : Nat) : SpaceWithin text (toLineStart text offset) offset := by
  unfold toLineStart
  dsimp only
  split
  case isTrue allSpace => exact spaceWithin_of_slice allSpace
  case isFalse =>
    intro place c after before
    omega

theorem isSpace_of_isBlank {c : Char} (isBlank : isBlank c = true) : isSpace c = true := by
  simp only [Text.isBlank, Bool.or_eq_true, beq_iff_eq] at isBlank
  rcases isBlank with ((rfl | rfl) | rfl) | rfl <;> decide

/-- Blanks stand above an offset down to where something else ends. -/
theorem spaceWithin_of_dropWhile_blank (text : List Char) (start : Nat) :
    SpaceWithin text ((text.take start).reverse.dropWhile isBlank).length start := by
  intro place c after before present
  have inside : place < (text.take start).length := by
    obtain ⟨inText, _⟩ := List.getElem?_eq_some_iff.mp present
    rw [List.length_take]
    omega
  have shown : (text.take start)[place]? = some c := by
    rw [List.getElem?_take, if_pos before]
    exact present
  have split := List.takeWhile_append_dropWhile (p := isBlank) (l := (text.take start).reverse)
  have lengths := congrArg List.length split
  rw [List.length_append, List.length_reverse] at lengths
  have fromEnd : (text.take start).reverse[(text.take start).length - 1 - place]? = some c := by
    rw [List.getElem?_reverse (by omega), ← shown]
    congr 1
    omega
  rw [← split, List.getElem?_append_left (by omega)] at fromEnd
  exact isSpace_of_isBlank (List.mem_takeWhile_imp (List.mem_of_getElem? fromEnd))

/-- The doc comment that a span takes along: what is between the last opening of a comment and its end directly above, if that
opens a doc comment and the masked view shows nothing of it. -/
def docCommentAbove? (text masked : List Char) (start : Nat) : Option Stretch :=
  let above := (text.take start).reverse.dropWhile isBlank
  let commentEnd := above.length
  if ['/', '*'].isPrefixOf above && (slice text commentEnd start).count '\n' ≤ 1 then
    (lastIndexOf? ['/', '*'] (text.take (commentEnd - 2))).bind fun opener =>
      if ['/', '*', '*'].isPrefixOf (text.drop opener) && isAllSpace (slice masked opener commentEnd) then
        some ⟨opener, commentEnd⟩
      else none
  else none

/-- A doc comment stands directly above an offset, with no more than white space and one line end in between, and the masked
view shows nothing of it. -/
structure IsDocCommentAbove (text masked : List Char) (start : Nat) (comment : Stretch) : Prop where
  begins : ['/', '*', '*'] <+: text.drop comment.start
  ends : ['*', '/'] <:+ text.take comment.stop
  hidden : isAllSpace (slice masked comment.start comment.stop) = true
  above : comment.stop ≤ start
  blanks : SpaceWithin text comment.stop start
  near : (slice text comment.stop start).count '\n' ≤ 1

theorem isDocCommentAbove {masked : List Char} {comment : Stretch}
    (found : docCommentAbove? text masked start = some comment) : IsDocCommentAbove text masked start comment := by
  unfold docCommentAbove? at found
  dsimp only at found
  split at found
  case isFalse => cases found
  case isTrue isComment =>
    obtain ⟨opener, last, found⟩ := Option.bind_eq_some_iff.mp found
    split at found
    case isFalse => cases found
    case isTrue isDoc =>
      obtain rfl := Option.some.inj found
      rw [Bool.and_eq_true, decide_eq_true_eq] at isComment
      rw [Bool.and_eq_true] at isDoc
      have suffix := List.dropWhile_suffix (p := isBlank) (l := (text.take start).reverse)
      have fits := suffix.length_le
      rw [List.length_reverse, List.length_take] at fits
      refine ⟨List.isPrefixOf_iff_prefix.mp isDoc.1, ?_, isDoc.2, by dsimp only; omega,
        spaceWithin_of_dropWhile_blank text start, isComment.2⟩
      have closes := List.reverse_suffix.mpr (List.isPrefixOf_iff_prefix.mp isComment.1)
      have upTo := List.prefix_iff_eq_take.mp (List.reverse_prefix.mpr suffix)
      rw [List.reverse_reverse, List.length_reverse, List.take_take, Nat.min_eq_left (by omega)] at upTo
      rwa [upTo] at closes

theorem overDocComment_eq (text masked : List Char) (start : Nat) :
    overDocComment text masked start =
      (docCommentAbove? text masked start).elim start fun comment => toLineStart text comment.start := by
  unfold overDocComment docCommentAbove?
  dsimp only
  cases isComment : ['/', '*'].isPrefixOf ((text.take start).reverse.dropWhile isBlank) with
  | false => rfl
  | true =>
      by_cases near : 1 < (slice text ((text.take start).reverse.dropWhile isBlank).length start).count '\n'
      · simp [near, Nat.not_le.mpr near]
      · cases lastIndexOf? ['/', '*'] (text.take (((text.take start).reverse.dropWhile isBlank).length - 2)) with
        | none => simp [near]
        | some opener =>
            simp only [Bool.not_true, near, Nat.not_lt.mp near, Option.bind_some]
            cases ['/', '*', '*'].isPrefixOf (text.drop opener) with
            | false => rfl
            | true =>
                cases isAllSpace (slice masked opener ((text.take start).reverse.dropWhile isBlank).length) <;> rfl

theorem quiet_overDocComment (shows : Shows view text) (start : Nat) :
    Quiet view (overDocComment text view start) start := by
  rw [overDocComment_eq]
  cases found : docCommentAbove? text view start with
  | none => exact quiet_self
  | some comment =>
      have isDoc := isDocCommentAbove found
      have above := (spaceWithin_toLineStart text comment.start).quiet.of_shows shows
      have hidden := (spaceWithin_of_slice isDoc.hidden).quiet
      exact (above.append hidden).append (isDoc.blanks.quiet.of_shows shows)

/-- What is passed over after an offset, and what is left. -/
theorem mem_of_drop_eq {passed rest : List Char} (split : text.drop start = passed ++ rest) {place : Nat} {c : Char}
    (after : start ≤ place) (before : place < text.length - rest.length) (present : text[place]? = some c) : c ∈ passed := by
  have lengths := congrArg List.length split
  rw [List.length_drop, List.length_append] at lengths
  have inDrop : (text.drop start)[place - start]? = some c := by
    rw [List.getElem?_drop, Nat.add_sub_cancel' after]
    exact present
  rw [split, List.getElem?_append_left (by omega)] at inDrop
  exact List.mem_of_getElem? inDrop

theorem quiet_overTerminator (text : List Char) (stop : Nat) : Quiet text stop (overTerminator text stop) := by
  rcases goesOn_overTerminator text stop with same | ⟨passed, rest, parts, quiet, reaches⟩
  · rw [same]
    exact quiet_self
  · rw [reaches]
    exact fun place c after before present => quiet c (mem_of_drop_eq parts after before present)

/-- All that shows in the span of a function but separators stands between its introducer and the end of its body. -/
theorem exists_extent_of_locate? {isPage : Bool} {name : String} {span : FunctionSpan}
    (located : locate? isPage name text = some span) :
    ∃ extent, extent? isPage name text = some extent ∧ ∀ place c, span.start ≤ place → place < span.stop →
      (searchView isPage text)[place]? = some c → isSpace c = true ∨ c = ';' ∨ c = ',' ∨ extent.contains place = true := by
  unfold locate? at located
  obtain ⟨hit, first, rest⟩ := Option.bind_eq_some_iff.mp located
  obtain ⟨bodyEnd, ends, rfl⟩ := Option.map_eq_some_iff.mp rest
  have shows := shows_searchView isPage text
  refine ⟨⟨hit.start, bodyEnd⟩, ?_, fun place c after before shown => ?_⟩
  · rw [extent?, first, Option.bind_some, ends, Option.map_some]
  have above : Quiet (searchView isPage text)
      (overDocComment text (searchView isPage text) (toLineStart text hit.start)) hit.start :=
    (quiet_overDocComment shows _).append ((spaceWithin_toLineStart text hit.start).quiet.of_shows shows)
  have below := (quiet_overTerminator text bodyEnd).of_shows shows
  by_cases early : place < hit.start
  · rcases above place c after early shown with space | semicolon | comma
    · exact Or.inl space
    · exact Or.inr (Or.inl semicolon)
    · exact Or.inr (Or.inr (Or.inl comma))
  · by_cases late : bodyEnd ≤ place
    · rcases below place c late before shown with space | semicolon | comma
      · exact Or.inl space
      · exact Or.inr (Or.inl semicolon)
      · exact Or.inr (Or.inr (Or.inl comma))
    · refine Or.inr (Or.inr (Or.inr ?_))
      simp only [Stretch.contains, Bool.and_eq_true, decide_eq_true_eq]
      omega

end Removal

/-! ## Live files -/

namespace Source

/-- The name of a definition stands in the text that it is read off. -/
theorem exists_start_of_mem_definitions {reading : Reading} {file : SourceFile} {definition : Definition}
    (member : definition ∈ (extract reading file).definitions) :
    ∃ c, file.text[definition.position]? = some c ∧ isIdentifierStart c = true := by
  have isCode : file.kind ≠ .config := by
    intro isConfig
    rw [extract, if_pos (by simpa using isConfig)] at member
    cases member
  rw [definitions_extract isCode, definitionsOf] at member
  obtain ⟨introduction, introduced, rfl⟩ := List.mem_map.mp member
  obtain ⟨c, shown, start⟩ := start_of_mem_introductions introduced
  have visible := isSpace_of_isIdentifierStart start
  have inCode := (shows_mask .code (codeOf file.kind file.text)).getElem?_of_visible shown visible
  refine ⟨c, ?_, start⟩
  unfold codeOf at inCode
  split at inCode
  · exact (shows_showOnly _ 0 file.text).getElem?_of_visible inCode visible
  · exact inCode

end Source

namespace Analysis

variable {reading : Reading} {files : List SourceFile} {roots : Roots} {analysis : Analysis}

/-- A file that defines a live symbol is live. -/
theorem not_mem_unusedFiles_of_used
    (run : ofBuild (Build.ofExtractor (extract reading) files) roots = .ok analysis) {file : SourceFile}
    (listed : file ∈ files) {definition : Definition} (defines : definition ∈ (extract reading file).definitions)
    (used : definition.name ∈ analysis.usedSymbols) : file.path ∉ analysis.unusedFiles.map (·.path) := by
  intro unused
  have divides := divides_of_ofGraph_eq_ok run
  obtain ⟨_, mode, live⟩ := (divides.mem_usedSymbols _).mp used
  have dead := ((divides.mem_unusedFiles _).mp unused).2
  have leads : (⟨.file file.path, .symbol definition.name, .defines⟩ : Edge) ∈
      (Build.ofExtractor (extract reading) files).graph.edges := Build.defines_mem_edges listed defines
  exact dead ⟨.owner, live.owner rfl leads rfl rfl⟩

theorem name_not_unused_of_used (run : ofBuild (Build.ofExtractor (extract reading) files) roots = .ok analysis)
    {name : String} (used : name ∈ analysis.usedSymbols) : name ∉ analysis.unusedSymbols.map (·.name) := by
  intro unused
  have divides := divides_of_ofGraph_eq_ok run
  exact ((divides.mem_unusedSymbols _).mp unused).2 ((divides.mem_usedSymbols _).mp used).2

end Analysis

/-! ## What a plan takes along -/

namespace Plan

variable {policy : RiskPolicy} {analysis : Analysis} {threshold : RiskLevel} {path : String} {text : List Char}

theorem mem_functions_ofAssessment {planned : PlannedCut}
    (listed : planned ∈ (ofAssessment threshold (Assessment.ofAnalysis policy analysis)).functions) :
    ∃ symbol ∈ analysis.unusedSymbols, symbol.name = planned.name ∧ planned.path ∈ symbol.definedIn := by
  rw [ofAssessment, List.mem_mergeSort] at listed
  obtain ⟨rated, inThreshold, inPaths⟩ := List.mem_flatMap.mp listed
  obtain ⟨symbol, isUnused, rfl⟩ := List.mem_map.mp (List.mem_filter.mp inThreshold).1
  obtain ⟨path, defining, rfl⟩ := List.mem_map.mp inPaths
  exact ⟨symbol, isUnused, rfl, (List.mem_filter.mp defining).1⟩

/-- A cut planned for the function of one of the dead names takes an offset along: when its turn comes, the offset is at a
place in its span. If what stood at the offset shows there, the place is between the introducer of the dead name and the end
of its body. -/
def TakesAlong (dead : List String) (path : String) (planned : List PlannedCut) (text : List Char) (offset : Nat) : Prop :=
  ∃ earlier next later, planned = earlier ++ next :: later ∧ next.name ∈ dead ∧
    ∃ place span extent, placeAfter path earlier text offset = some place ∧
      spanOf? path (earlier.foldl (cutOne path) text) next = some span ∧ span.start ≤ place ∧ place < span.stop ∧
      Removal.extent? (isPagePath path) next.name (earlier.foldl (cutOne path) text) = some extent ∧
      ((Removal.searchView (isPagePath path) (earlier.foldl (cutOne path) text))[place]? = text[offset]? →
        extent.contains place = true)

theorem exists_extent_of_spanOf? {planned : PlannedCut} {span : FunctionSpan}
    (located : spanOf? path text planned = some span) :
    ∃ extent, Removal.extent? (isPagePath path) planned.name text = some extent ∧ ∀ place c,
      span.start ≤ place → place < span.stop → (Removal.searchView (isPagePath path) text)[place]? = some c →
        isSpace c = true ∨ c = ';' ∨ c = ',' ∨ extent.contains place = true := by
  unfold spanOf? at located
  split at located
  case isTrue same =>
    rw [same] at located
    exact Removal.exists_extent_of_locate? located
  case isFalse => cases located

theorem not_separator_of_isIdentifierStart {c : Char} (start : isIdentifierStart c = true) : c ≠ ';' ∧ c ≠ ',' := by
  constructor
  · rintro rfl
    cases start
  · rintro rfl
    cases start

theorem takesAlong_iff {dead : List String} {planned : List PlannedCut} (allDead : ∀ cut ∈ planned, cut.name ∈ dead)
    {offset : Nat} {c : Char} (present : text[offset]? = some c) (start : isIdentifierStart c = true) :
    TakesAlong dead path planned text offset ↔ placeAfter path planned text offset = none := by
  rw [placeAfter_eq_none_iff]
  constructor
  · rintro ⟨earlier, next, later, same, -, place, span, extent, kept, located, after, before, -⟩
    exact ⟨earlier, next, later, same, place, span, kept, located, after, before⟩
  · rintro ⟨earlier, next, later, same, place, span, kept, located, after, before⟩
    obtain ⟨extent, found, shown⟩ := exists_extent_of_spanOf? located
    refine ⟨earlier, next, later, same, ?_, place, span, extent, kept, located, after, before, found, ?_⟩
    · exact allDead next (same ▸ List.mem_append_right _ List.mem_cons_self)
    · intro shows
      rw [present] at shows
      have visible := isSpace_of_isIdentifierStart start
      have noSeparator := not_separator_of_isIdentifierStart start
      rcases shown place c after before shows with space | semicolon | comma | inside
      · cases visible.symm.trans space
      · exact absurd semicolon noSeparator.1
      · exact absurd comma noSeparator.2
      · exact inside

/-- No plan deletes a file that defines a live symbol or cuts a live name. Still it removes a definition of a live symbol
just in this case: the definition stands in the function of a dead symbol that is cut out of the same file. -/
theorem removes_live_iff (reading : Reading) (files : List SourceFile) (roots : Roots) (policy : RiskPolicy)
    (threshold : RiskLevel) (pathsDistinct : (files.map (·.path)).Nodup) :
    ∃ analysis, Analysis.ofBuild (Build.ofExtractor (extract reading) files) roots = .ok analysis ∧
      ∀ plan, plan = ofAssessment threshold (Assessment.ofAnalysis policy analysis) →
        ∀ file ∈ files, ∀ definition ∈ (extract reading file).definitions, definition.name ∈ analysis.usedSymbols →
          definition.path ∉ plan.files ∧ definition.name ∉ plan.functions.map (·.name) ∧
            (plan.Removes files definition ↔
              TakesAlong (analysis.unusedSymbols.map (·.name)) file.path plan.functions file.text definition.position) := by
  obtain ⟨analysis, run⟩ := Analysis.exists_ofBuild_eq_ok reading files roots
  refine ⟨analysis, run, ?_⟩
  rintro plan rfl file listed definition defines used
  have samePath : definition.path = file.path := path_of_mem_extract defines
  have allDead : ∀ cut ∈ (ofAssessment threshold (Assessment.ofAnalysis policy analysis)).functions,
      cut.name ∈ analysis.unusedSymbols.map (·.name) := by
    intro cut planned
    obtain ⟨symbol, isUnused, named, -⟩ := mem_functions_ofAssessment planned
    exact List.mem_map.mpr ⟨symbol, isUnused, named⟩
  have stays : definition.path ∉ (ofAssessment threshold (Assessment.ofAnalysis policy analysis)).files := by
    intro planned
    obtain ⟨unused, isUnused, here, -⟩ := mem_files_ofAssessment.mp planned
    exact Analysis.not_mem_unusedFiles_of_used run listed defines used
      (List.mem_map.mpr ⟨unused, isUnused, here.trans samePath⟩)
  obtain ⟨c, present, start⟩ := exists_start_of_mem_definitions defines
  refine ⟨stays, ?_, ?_⟩
  · intro planned
    obtain ⟨cut, inPlan, named⟩ := List.mem_map.mp planned
    exact Analysis.name_not_unused_of_used run used (named ▸ allDead cut inPlan)
  · rw [takesAlong_iff allDead present start]
    constructor
    · rintro (whole | ⟨other, otherListed, here, gone⟩)
      · exact absurd whole stays
      · obtain rfl := List.inj_on_of_nodup_map pathsDistinct otherListed listed (here.trans samePath)
        exact gone
    · intro gone
      exact Or.inr ⟨file, listed, samePath.symm, gone⟩

def nestedFile : SourceFile :=
  { path := "A.gs", kind := .backend, text := "function ab()\x7bfunction cd()\x7b\x7d\x7d".toList, size := 30 }

def callerFile : SourceFile :=
  { path := "B.gs", kind := .backend, text := "cd();".toList, size := 5 }

def innerDefinition : Definition :=
  { path := "A.gs", name := "cd", kind := .function, startLine := 1, endLine := 1
    startOffset := 14, endOffset := 29, position := 23 }

def nestedReading (file : SourceFile) : Extraction :=
  if file.path = "A.gs" then
    { path := "A.gs"
      definitions := [⟨"A.gs", "ab", .function, 1, 1, 0, 30, 9⟩, innerDefinition] }
  else { path := "B.gs", mentions := [⟨"cd", .call, 1, none⟩] }

theorem extract_nestedFile : extract plainReading nestedFile = nestedReading nestedFile := by
  decide +kernel

theorem extract_callerFile : extract plainReading callerFile = nestedReading callerFile := by
  decide +kernel

/-- The graph of the two files, with the calling file as the only root. -/
theorem ofBuild_nested :
    ∃ analysis, Analysis.ofBuild (Build.ofExtractor (extract plainReading) [nestedFile, callerFile])
        { files := ["B.gs"] } = .ok analysis ∧ analysis.usedSymbols = ["cd"] ∧
      ofAssessment .low (Assessment.ofAnalysis initPolicy analysis) = { functions := [⟨"A.gs", "ab"⟩] } := by
  have readings : ∀ file ∈ [nestedFile, callerFile], extract plainReading file = nestedReading file := by
    intro file listed
    rcases List.mem_cons.mp listed with rfl | listed
    · exact extract_nestedFile
    · rw [List.mem_singleton.mp listed]
      exact extract_callerFile
  rw [Build.ofExtractor_congr readings]
  have used : (Analysis.ofBuild (Build.ofExtractor nestedReading [nestedFile, callerFile]) { files := ["B.gs"] }).map
      (·.usedSymbols) = .ok ["cd"] := by
    cbv
  have planned : (Analysis.ofBuild (Build.ofExtractor nestedReading [nestedFile, callerFile]) { files := ["B.gs"] }).map
      (fun analysis => ofAssessment .low (Assessment.ofAnalysis initPolicy analysis)) =
        .ok { functions := [⟨"A.gs", "ab"⟩] } := by
    cbv
  obtain ⟨analysis, run, isUsed⟩ := exists_of_map_eq_ok used
  rw [run] at planned
  exact ⟨analysis, run, isUsed, Except.ok.inj planned⟩

theorem spanOf?_nestedFile :
    spanOf? nestedFile.path nestedFile.text ⟨"A.gs", "ab"⟩ = some ⟨"ab", 0, 30, 1, 1⟩ := by
  decide +kernel

/-- The inner function is live and goes with the outer one. -/
theorem nestedFile_loses_its_live_function :
    ∃ analysis, Analysis.ofBuild (Build.ofExtractor (extract plainReading) [nestedFile, callerFile])
        { files := ["B.gs"] } = .ok analysis ∧
      innerDefinition ∈ (extract plainReading nestedFile).definitions ∧
        innerDefinition.name ∈ analysis.usedSymbols ∧
          (ofAssessment .low (Assessment.ofAnalysis initPolicy analysis)).Removes [nestedFile, callerFile]
            innerDefinition := by
  obtain ⟨analysis, run, used, planned⟩ := ofBuild_nested
  refine ⟨analysis, run, ?_, ?_, Or.inr ⟨nestedFile, List.mem_cons_self, rfl, ?_⟩⟩
  · rw [extract_nestedFile]
    exact List.mem_cons_of_mem _ List.mem_cons_self
  · rw [used]
    exact List.mem_cons_self
  · rw [planned]
    exact placeAfter_eq_none_iff.mpr
      ⟨[], ⟨"A.gs", "ab"⟩, [], rfl, 23, ⟨"ab", 0, 30, 1, 1⟩, rfl, spanOf?_nestedFile, Nat.zero_le _, by decide⟩

theorem nestedFile_removes_live_iff :
    ([nestedFile, callerFile].map (·.path)).Nodup ∧
      ∃ analysis, Analysis.ofBuild (Build.ofExtractor (extract plainReading) [nestedFile, callerFile])
          { files := ["B.gs"] } = .ok analysis ∧
        ∀ plan, plan = ofAssessment .low (Assessment.ofAnalysis initPolicy analysis) →
          ∀ file ∈ [nestedFile, callerFile], ∀ definition ∈ (extract plainReading file).definitions,
            definition.name ∈ analysis.usedSymbols →
              definition.path ∉ plan.files ∧ definition.name ∉ plan.functions.map (·.name) ∧
                (plan.Removes [nestedFile, callerFile] definition ↔
                  TakesAlong (analysis.unusedSymbols.map (·.name)) file.path plan.functions file.text
                    definition.position) := by
  have pathsDistinct : ([nestedFile, callerFile].map (·.path)).Nodup := by decide
  exact ⟨pathsDistinct,
    removes_live_iff plainReading [nestedFile, callerFile] { files := ["B.gs"] } initPolicy .low pathsDistinct⟩

end Plan
end Deadwood
