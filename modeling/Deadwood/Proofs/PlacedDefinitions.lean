import Deadwood.Proofs.LinkedCalls
import Deadwood.Proofs.LocatedDefinitions
import Deadwood.Proofs.ShownWords

/-!
# The places of definitions

Definitions are read off a view of a file in which comments, literals and, on a page, markup are blanked. A view has the length
and the lines of its text, and the names it shows stand in the text. So offsets and lines of a definition are those of the file.
-/

set_option autoImplicit false
namespace Deadwood.Source

open Deadwood.Text Scan

/-! ## Lines of a view -/

theorem blank_beq_newline (c : Char) : (blank c == '\n') = (c == '\n') := by
  unfold blank
  split
  · rfl
  · rename_i noLineEnd
    rw [Bool.not_eq_true, Bool.or_eq_false_iff] at noLineEnd
    rw [noLineEnd.1]
    rfl

theorem Shows.count_newline {view text : List Char} (shows : Shows view text) : view.count '\n' = text.count '\n' := by
  induction shows with
  | nil => rfl
  | @cons image c view text same _ inductionHypothesis =>
      have alike : (image == '\n') = (c == '\n') := by
        rcases same with rfl | rfl
        · rfl
        · exact blank_beq_newline c
      rw [List.count_cons, List.count_cons, inductionHypothesis, alike]

theorem Shows.lineOf_eq {view text : List Char} (shows : Shows view text) (offset : Nat) :
    lineOf view offset = lineOf text offset := by
  rw [lineOf, lineOf, (shows.take offset).count_newline]

theorem lineOf_mono (text : List Char) {first second : Nat} (ordered : first ≤ second) : lineOf text first ≤ lineOf text second :=
  Nat.succ_le_succ ((List.take_sublist_take_left ordered).count_le '\n')

theorem shows_codeOf (kind : FileKind) (text : List Char) : Shows (codeOf kind text) text := by
  unfold codeOf
  split
  · exact shows_showOnly _ 0 text
  · exact List.forall₂_same.mpr fun _ _ => Or.inl rfl

/-! ## Definitions of a view -/

/-- The name of an introduction stands where the introduction says, behind the beginning of the introducer. -/
theorem named_of_mem_introductions {view : List Char} {introduction : Introduction} (member : introduction ∈ introductions view) :
    introduction.start ≤ introduction.position ∧ introduction.name.toList <+: view.drop introduction.position := by
  constructor
  · rw [introductions_eq] at member
    obtain ⟨listed, _⟩ := List.mem_filter.mp (mem_of_mem_claims member)
    obtain ⟨anatomy, -, inAnatomy⟩ := List.mem_flatMap.mp listed
    obtain ⟨sighting, -, rfl⟩ := List.mem_map.mp inAnatomy
    exact Nat.le_add_right _ _
  · obtain ⟨kind, anatomy, _, start, _, lead, introduces, position⟩ := exists_introduces_of_mem_introductions member
    have named := introduces.named
    rwa [Cursor.after_advance, List.drop_drop, ← position] at named

/-- A definition points into a text: at the name, at the line of the name and at offsets and lines of the text around it. The
last line is that of the last character, so a line feed at the end of the text begins no line. -/
structure Definition.PointsInto (text : List Char) (definition : Definition) : Prop where
  begins : definition.startOffset ≤ definition.position
  named : definition.name.toList <+: text.drop definition.position
  ends : definition.position + definition.name.length ≤ definition.endOffset
  inside : definition.endOffset ≤ text.length
  startLine : definition.startLine = lineOf text definition.position
  ordered : definition.startLine ≤ definition.endLine
  endLine : definition.endLine ≤ lineOf text (text.length - 1)

/-- A definition of a view that shows words whole and lines as they are points into the text. -/
theorem pointsInto_of_mem_definitionsOf {path : String} {code masked text : List Char} {definition : Definition}
    (member : definition ∈ definitionsOf path code masked) (lines : Shows code text) (shows : Shows masked text)
    (words : ShowsWords masked text) : definition.PointsInto text := by
  have identifier := isIdentifier_of_mem_definitionsOf member
  have some : 0 < definition.name.length := length_pos_of_isIdentifier identifier
  obtain ⟨introduction, introduced, rfl⟩ := List.mem_map.mp member
  obtain ⟨begins, inView⟩ := named_of_mem_introductions introduced
  have nameInside : introduction.position + introduction.name.length ≤ text.length := by
    have fits := inView.length_le
    rw [List.length_drop, shows.length_eq] at fits
    dsimp only at some
    simp only [String.length_toList] at fits
    omega
  have stop : introduction.position + introduction.name.length ≤
        (bodyAfter masked (introduction.position + introduction.name.length)).stop.getD masked.length ∧
      (bodyAfter masked (introduction.position + introduction.name.length)).stop.getD masked.length ≤ text.length := by
    cases ends : (bodyAfter masked (introduction.position + introduction.name.length)).stop with
    | none => exact ⟨by rwa [Option.getD_none, shows.length_eq], Nat.le_of_eq shows.length_eq⟩
    | some stop =>
        obtain ⟨behindName, inside⟩ := bodyFrom_bounds ends
        rw [List.length_drop, shows.length_eq] at inside
        exact ⟨behindName, by rw [Option.getD_some]; omega⟩
  dsimp only at some
  exact
    { begins := begins
      named := words.prefix_drop identifier inView
      ends := stop.1
      inside := stop.2
      startLine := lines.lineOf_eq _
      ordered := lineOf_mono code (Nat.le_max_right _ _)
      endLine := by
        dsimp only
        rw [lines.lineOf_eq]
        exact lineOf_mono text (by omega) }

/-! ## Definitions and calls of a file -/

/-- What a file mentions, with the places where it does. -/
def mentionedIn (reading : Reading) (file : SourceFile) : List Mentioned :=
  if file.kind == .config then []
  else
    let code := codeOf file.kind file.text
    let masked := mask .code code
    let literal := mask .literal code
    (callsOf masked ((extract reading file).definitions.map (·.position))
      ++ bridgeMentions reading.bridge masked literal ++ evaluatedMentions literal).filter
        fun found => isProjectName (builtinNames ++ reading.extraProvided) found.name

/-- A mention as the file lists it: with the line of its place and the definition around it. -/
def listedMention (reading : Reading) (file : SourceFile) (found : Mentioned) : Mention :=
  ⟨found.name, found.kind, lineOf file.text found.position, enclosing? (extract reading file).definitions found.position⟩

theorem mentions_extract (reading : Reading) (file : SourceFile) :
    (extract reading file).mentions = (mentionedIn reading file).map (listedMention reading file) := by
  unfold mentionedIn
  by_cases isConfig : file.kind = .config
  · rw [extract, if_pos (by simpa using isConfig), if_pos (by simpa using isConfig)]
    rfl
  · rw [if_neg (by simpa using isConfig), definitions_extract isConfig, extract, if_neg (by simpa using isConfig)]
    refine List.map_congr_left fun found _ => ?_
    rw [listedMention, definitions_extract isConfig, (shows_codeOf file.kind file.text).lineOf_eq]

def MentionKind.IsCall (kind : MentionKind) : Prop :=
  kind = .call ∨ kind = .memberCall

theorem not_isCall_of_mem_chainMentions {modifiers : List String} {literal : List Char} {total : Nat} {text : List Char}
    {found : Mentioned} (member : found ∈ chainMentions modifiers literal total text) : ¬ found.kind.IsCall := by
  have bridge : ¬ MentionKind.bridge.IsCall := by simp [MentionKind.IsCall]
  have handler : ¬ MentionKind.handler.IsCall := by simp [MentionKind.IsCall]
  fun_induction chainMentions modifiers literal total text
  case case1 =>
    obtain rfl := List.mem_singleton.mp member
    exact bridge
  case case4 handlers inductionHypothesis =>
    rcases List.mem_append.mp member with isHandler | later
    · unfold handlers at isHandler
      split at isHandler
      · obtain rfl := List.mem_singleton.mp isHandler
        exact handler
      · cases isHandler
    · exact inductionHypothesis later
  case case5 =>
    obtain rfl := List.mem_singleton.mp member
    exact bridge
  all_goals cases member

theorem position_of_mem_callsOf {masked : List Char} {definedAt : List Nat} {found : Mentioned}
    (member : found ∈ callsOf masked definedAt) : found.position ∉ definedAt := by
  obtain ⟨hit, _, reported⟩ := List.mem_filterMap.mp member
  split at reported
  · cases reported
  · rename_i free
    obtain rfl := Option.some.inj reported
    rwa [List.contains_iff_mem] at free

/-- No call is mentioned where the name of a definition stands. -/
theorem position_of_mem_mentionedIn {reading : Reading} {file : SourceFile} {found : Mentioned}
    (member : found ∈ mentionedIn reading file) (isCall : found.kind.IsCall) :
    found.position ∉ (extract reading file).definitions.map (·.position) := by
  unfold mentionedIn at member
  split at member
  · cases member
  · rcases List.mem_append.mp (List.mem_filter.mp member).1 with early | evaluated
    · rcases List.mem_append.mp early with call | remote
      · exact position_of_mem_callsOf call
      · obtain ⟨object, _, remote⟩ := List.mem_flatMap.mp remote
        obtain ⟨hit, _, remote⟩ := List.mem_flatMap.mp remote
        exact absurd isCall (not_isCall_of_mem_chainMentions remote)
    · obtain ⟨hit, _, rfl⟩ := List.mem_map.mp evaluated
      simp [MentionKind.IsCall] at isCall

/-- Every definition that is read off a file points into its text, definitions come in the order of their names' places, no two
at one place, and no call is listed where the name of a definition stands. -/
theorem definitions_point_into_text (reading : Reading) (file : SourceFile) :
    (∀ definition ∈ (extract reading file).definitions, definition.PointsInto file.text) ∧
      ((extract reading file).definitions.Pairwise fun earlier later => earlier.position < later.position) ∧
      (extract reading file).mentions = (mentionedIn reading file).map (listedMention reading file) ∧
      ∀ found ∈ mentionedIn reading file, found.kind.IsCall →
        ∀ definition ∈ (extract reading file).definitions, found.position ≠ definition.position := by
  refine ⟨fun definition member => ?_, inOrder_definitions reading file, mentions_extract reading file,
    fun found member isCall definition defines samePlace => ?_⟩
  · by_cases isConfig : file.kind = .config
    · rw [extract, if_pos (by simpa using isConfig)] at member
      cases member
    · rw [definitions_extract isConfig] at member
      have lines := shows_codeOf file.kind file.text
      exact pointsInto_of_mem_definitionsOf member lines ((shows_mask .code _).trans lines) (showsWords_mask_codeOf .code _ _)
  · exact position_of_mem_mentionedIn member isCall (samePlace ▸ List.mem_map_of_mem defines)

end Deadwood.Source
