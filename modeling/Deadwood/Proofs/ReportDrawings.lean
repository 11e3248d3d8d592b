import Deadwood.Proofs.ReportReading

/-!
# The tree and the drawing

Both show what an analysis found unused without its levels: the tree behind crosses, with the sizes of its lists in their
headings, the drawing as dashed nodes. An identifier of the drawing is read back from its quotes whatever it holds.
-/

set_option autoImplicit false
namespace Deadwood.Report

theorem mapM_eq_some_iff {α β : Type} {f : α → Option β} {items : List α} {results : List β} :
    items.mapM f = some results ↔ items.map f = results.map some := by
  induction items generalizing results with
  | nil => cases results <;> simp
  | cons item rest ih =>
      rw [List.mapM_cons, List.map_cons]
      cases first : f item with
      | none => cases results <;> simp
      | some result =>
          cases results with
          | nil => simp [Option.bind_eq_some_iff]
          | cons other results =>
              simp only [Option.pure_def, Option.bind_eq_bind, Option.bind_some, List.map_cons, List.cons.injEq, Option.some.injEq,
                ← @ih results]
              cases rest.mapM f <;> simp

variable {report : Report} {used : List (List String)}

/-! ## The tree -/

def HasUsed (report : Report) (used : List (List String)) : Prop :=
  report.analysis.usedFiles.map (usedFileLines? report.analysis.graph) = used.map some

theorem tree?_eq_some_iff {text : String} : report.tree? = some text ↔ ∃ used, HasUsed report used ∧ report.treeOf used = text := by
  rw [tree?, Option.map_eq_some_iff]
  simp only [mapM_eq_some_iff, HasUsed]

def usedLines (report : Report) (used : List (List String)) : List String :=
  ["", "Used files (" ++ toString report.analysis.usedFiles.length ++ "):"] ++ used.flatten

def entryLines (report : Report) : List String :=
  ["Dependency tree for " ++ report.root.toString, "", "Entry points:"]
    ++ if report.analysis.rootNames.isEmpty then ["  (none)"] else report.analysis.rootNames.map ("  * " ++ ·)

def unusedFileLines (report : Report) : List String :=
  ("Unused files (" ++ toString report.analysis.unusedFiles.length ++ "):")
    :: report.analysis.unusedFiles.map fun file => "  x " ++ file.path

def unusedSymbolLines (report : Report) : List String :=
  ("Unused symbols (" ++ toString report.analysis.unusedSymbols.length ++ "):")
    :: report.analysis.unusedSymbols.map unusedSymbolLine

def treeLines (report : Report) (used : List (List String)) : List String :=
  report.entryLines ++ report.usedLines used ++ "" :: report.unusedFileLines ++ "" :: report.unusedSymbolLines ++ [""]

theorem treeOf_eq (report : Report) (used : List (List String)) : report.treeOf used = joinLines (report.treeLines used) := by
  rw [treeOf, treeLines, entryLines, usedLines, unusedFileLines, unusedSymbolLines]
  simp only [List.append_assoc, List.cons_append, List.nil_append]

theorem textLines_treeOf (whole : ∀ line ∈ report.treeLines used, '\n' ∉ line.toList) :
    textLines (report.treeOf used) = (report.treeLines used).map String.toList := by
  rw [treeOf_eq]
  exact textLines_joinLines (by simp [treeLines]) whole

theorem avoids_of_head {heading : String} {lines : List String} {c : Char} {rest : List Char}
    (begins : heading.toList = c :: rest) (otherwise : ∀ line ∈ lines, line.toList.head? ≠ some c) :
    Avoids heading lines := by
  intro line isIn
  have other := otherwise line isIn
  cases shown : line.toList with
  | nil =>
      rw [begins]
      rfl
  | cons first others =>
      rw [shown, List.head?_cons] at other
      have differs : c ≠ first := fun same => other (congrArg some same.symm)
      rw [begins, List.isPrefixOf, beq_false_of_ne differs, Bool.false_and]

theorem head?_append {start : String} {c : Char} {others : List Char} (begins : start.toList = c :: others) (rest : String) :
    (start ++ rest).toList.head? = some c := by
  rw [String.toList_append, begins]
  rfl

theorem head?_of_mem_usedFileLines {path kind line : String} {links : FileLinks}
    (isIn : line ∈ usedFileLines path kind links) : line.toList.head? = some ' ' := by
  unfold usedFileLines at isIn
  simp only [List.mem_append, List.mem_singleton, List.mem_map] at isIn
  rcases isIn with ((rfl | defines) | ⟨other, _, rfl⟩) | ⟨other, _, rfl⟩
  · simp only [String.append_assoc]
    exact head?_append rfl _
  · split at defines
    · cases defines
    · rw [List.mem_singleton] at defines
      rw [defines]
      exact head?_append rfl _
  · exact head?_append rfl _
  · exact head?_append rfl _

theorem usedFileLines?_eq_some_iff {graph : Graph} {path : String} {lines : List String} :
    usedFileLines? (some graph) path = some lines ↔ ∃ file links, graph.file? path = some file ∧
      fileLinks? graph path = some links ∧ usedFileLines path file.kind.label links = lines := by
  simp [usedFileLines?, Option.bind_eq_some_iff]

theorem HasUsed.exists_of_mem {line : String} (hasUsed : HasUsed report used) (isIn : line ∈ used.flatten) :
    ∃ path ∈ report.analysis.usedFiles, ∃ lines, usedFileLines? report.analysis.graph path = some lines ∧ line ∈ lines := by
  obtain ⟨lines, listed, isLine⟩ := List.mem_flatten.mp isIn
  have made : some lines ∈ report.analysis.usedFiles.map (usedFileLines? report.analysis.graph) := by
    rw [hasUsed]
    exact List.mem_map_of_mem listed
  obtain ⟨path, isUsed, is⟩ := List.mem_map.mp made
  exact ⟨path, isUsed, lines, is, isLine⟩

theorem HasUsed.head? {line : String} (hasUsed : HasUsed report used) (isIn : line ∈ used.flatten) :
    line.toList.head? = some ' ' := by
  obtain ⟨path, _, lines, is, isLine⟩ := hasUsed.exists_of_mem isIn
  cases drawn : report.analysis.graph with
  | none =>
      rw [drawn] at is
      obtain rfl := Option.some.inj is
      exact head?_of_mem_usedFileLines isLine
  | some graph =>
      rw [drawn] at is
      obtain ⟨file, links, _, _, rfl⟩ := usedFileLines?_eq_some_iff.mp is
      exact head?_of_mem_usedFileLines isLine

theorem avoids_entryLines {heading : String} {rest : List Char} (begins : heading.toList = 'U' :: rest) :
    Avoids heading report.entryLines := by
  have blank : ∀ line ∈ (if report.analysis.rootNames.isEmpty then ["  (none)"]
      else report.analysis.rootNames.map ("  * " ++ ·)), line.toList.head? = some ' ' := by
    intro line isIn
    split at isIn
    · rw [List.mem_singleton.mp isIn]
      rfl
    · obtain ⟨name, _, rfl⟩ := List.mem_map.mp isIn
      exact head?_append rfl _
  apply avoids_of_head begins
  intro line isIn
  rw [entryLines, List.mem_append] at isIn
  rcases isIn with above | listed
  · simp only [List.mem_cons, List.not_mem_nil, or_false] at above
    rcases above with rfl | rfl | rfl
    · rw [head?_append rfl]
      decide
    · decide
    · decide
  · rw [blank line listed]
    decide

theorem avoids_usedLines (hasUsed : HasUsed report used) {heading : String} {rest : List Char}
    (begins : heading.toList = 'U' :: 'n' :: rest) : Avoids heading (report.usedLines used) := by
  apply Avoids.append
  · intro line isIn
    simp only [List.mem_cons, List.not_mem_nil, or_false] at isIn
    rcases isIn with rfl | rfl
    · rw [begins]
      rfl
    · simp only [begins, String.append_assoc, String.toList_append]
      rfl
  · apply avoids_of_head begins
    intro line isIn
    rw [hasUsed.head? isIn]
    decide

def aboveFiles (report : Report) (used : List (List String)) : List String :=
  report.entryLines ++ report.usedLines used ++ [""]

theorem avoids_aboveFiles (hasUsed : HasUsed report used) {heading : String} {rest : List Char}
    (begins : heading.toList = 'U' :: 'n' :: rest) : Avoids heading (report.aboveFiles used) := by
  refine ((avoids_entryLines begins).append (avoids_usedLines hasUsed begins)).append ?_
  exact avoids_of_head begins (by simp)

def aboveSymbols (report : Report) (used : List (List String)) : List String :=
  report.aboveFiles used ++ report.unusedFileLines ++ [""]

theorem avoids_aboveSymbols (hasUsed : HasUsed report used) : Avoids "Unused symbols (" (report.aboveSymbols used) := by
  refine ((avoids_aboveFiles hasUsed rfl).append ?_).append (by simp [Avoids])
  intro line isIn
  rcases List.mem_cons.mp isIn with rfl | listed
  · simp only [String.append_assoc, String.toList_append]
    rfl
  · obtain ⟨file, _, rfl⟩ := List.mem_map.mp listed
    rw [String.toList_append]
    rfl

theorem crossed?_append (rest : String) : crossed? ("  x " ++ rest).toList = some rest.toList := by
  rw [crossed?, String.toList_append, dropPrefix?_append]

theorem crossed?_unusedSymbolLine (symbol : UnusedSymbol) :
    ∃ rest, crossed? (unusedSymbolLine symbol).toList = some (symbol.name.toList ++ ' ' :: rest) := by
  let places := ", ".intercalate (symbol.definitions.map fun definition =>
    definition.path ++ ":" ++ toString definition.startLine ++ "-" ++ toString definition.endLine)
  have shape : unusedSymbolLine symbol = "  x " ++ (symbol.name ++ (" (" ++ (places ++ ")"))) := by
    simp only [unusedSymbolLine, String.append_assoc, places]
  refine ⟨'(' :: (places ++ ")").toList, ?_⟩
  rw [shape, crossed?_append, String.toList_append, String.toList_append]
  rfl

theorem treeFiles_eq (hasUsed : HasUsed report used) (whole : ∀ line ∈ report.treeLines used, '\n' ∉ line.toList) :
    treeFiles (report.treeOf used) = report.analysis.unusedFiles.map (·.path) := by
  have shape : report.treeLines used = report.aboveFiles used ++
      ("Unused files (" ++ (toString report.analysis.unusedFiles.length ++ "):")) :: ([] ++
        ((report.analysis.unusedFiles.map fun file => "  x " ++ file.path) ++ "" :: (report.unusedSymbolLines ++ [""]))) := by
    simp [treeLines, aboveFiles, unusedFileLines, String.append_assoc]
  have shown : ∀ line ∈ report.analysis.unusedFiles.map (fun file => "  x " ++ file.path), line ≠ "" := by
    intro line isIn
    obtain ⟨file, _, rfl⟩ := List.mem_map.mp isIn
    simp
  have noGap : ([] : List String).length = 0 := rfl
  rw [treeFiles, textLines_treeOf whole, shape, linesBelow_eq (avoids_aboveFiles hasUsed rfl) noGap shown, List.map_map]
  apply filterMap_eq_map
  intro file _
  rw [Function.comp_apply, crossed?_append, Option.map_some, String.ofList_toList]

theorem treeSymbols_eq (hasUsed : HasUsed report used) (whole : ∀ line ∈ report.treeLines used, '\n' ∉ line.toList)
    (plain : ∀ symbol ∈ report.analysis.unusedSymbols, ' ' ∉ symbol.name.toList) :
    treeSymbols (report.treeOf used) = report.analysis.unusedSymbols.map (·.name) := by
  have shape : report.treeLines used = report.aboveSymbols used ++
      ("Unused symbols (" ++ (toString report.analysis.unusedSymbols.length ++ "):")) :: ([] ++
        (report.analysis.unusedSymbols.map unusedSymbolLine ++ "" :: [])) := by
    simp [treeLines, aboveSymbols, aboveFiles, unusedSymbolLines, String.append_assoc]
  have shown : ∀ line ∈ report.analysis.unusedSymbols.map unusedSymbolLine, line ≠ "" := by
    intro line isIn
    obtain ⟨symbol, _, rfl⟩ := List.mem_map.mp isIn
    simp [unusedSymbolLine]
  have noGap : ([] : List String).length = 0 := rfl
  rw [treeSymbols, textLines_treeOf whole, shape, linesBelow_eq (avoids_aboveSymbols hasUsed) noGap shown, List.map_map]
  apply filterMap_eq_map
  intro symbol isIn
  obtain ⟨rest, is⟩ := crossed?_unusedSymbolLine symbol
  rw [Function.comp_apply, is, Option.map_some, upToFirst_append (plain symbol isIn), String.ofList_toList]

structure TreeCounts (report : Report) (text : String) : Prop where
  usedFiles : numberAfter? "Used files (" (textLines text) = some report.analysis.usedFiles.length
  unusedFiles : numberAfter? "Unused files (" (textLines text) = some report.analysis.unusedFiles.length
  unusedSymbols : numberAfter? "Unused symbols (" (textLines text) = some report.analysis.unusedSymbols.length

theorem treeCounts (hasUsed : HasUsed report used) (whole : ∀ line ∈ report.treeLines used, '\n' ∉ line.toList) :
    TreeCounts report (report.treeOf used) := by
  have stops : ∀ c ∈ "):".toList.head?, c.isDigit = false := by simp
  constructor
  · have avoids : Avoids "Used files (" (report.entryLines ++ [""]) :=
      (avoids_entryLines rfl).append (by simp [Avoids])
    have shape : report.treeLines used = (report.entryLines ++ [""]) ++
        ("Used files (" ++ toString report.analysis.usedFiles.length ++ "):") ::
          (used.flatten ++ "" :: report.unusedFileLines ++ "" ::
            report.unusedSymbolLines ++ [""]) := by
      simp [treeLines, usedLines]
    rw [textLines_treeOf whole, shape]
    exact numberAfter?_eq avoids stops
  · have shape : report.treeLines used = report.aboveFiles used ++
        ("Unused files (" ++ toString report.analysis.unusedFiles.length ++ "):") ::
          ((report.analysis.unusedFiles.map fun file => "  x " ++ file.path) ++ "" :: report.unusedSymbolLines ++ [""]) := by
      simp [treeLines, aboveFiles, unusedFileLines]
    rw [textLines_treeOf whole, shape]
    exact numberAfter?_eq (avoids_aboveFiles hasUsed rfl) stops
  · have shape : report.treeLines used = report.aboveSymbols used ++
        ("Unused symbols (" ++ toString report.analysis.unusedSymbols.length ++ "):") ::
          (report.analysis.unusedSymbols.map unusedSymbolLine ++ [""]) := by
      simp [treeLines, aboveSymbols, aboveFiles, unusedSymbolLines]
    rw [textLines_treeOf whole, shape]
    exact numberAfter?_eq (avoids_aboveSymbols hasUsed) stops

/-! ## The drawing -/

def drawn (report : Report) : Graph :=
  report.analysis.graph.getD {}

def dotLines (report : Report) : List String :=
  ["digraph SweepGraph \x7b", "  rankdir=LR;"]
    ++ report.drawn.nodes.map (dotNodeLine (unusedNodes report.analysis))
    ++ report.drawn.sortedEdges.map dotEdgeLine
    ++ ["\x7d", ""]

theorem textLines_dot (whole : ∀ line ∈ report.dotLines, '\n' ∉ line.toList) :
    textLines report.dot = report.dotLines.map String.toList :=
  textLines_joinLines (by simp) whole

theorem ofText_text {node : Node} (known : ∀ text, node ≠ .other text) : Node.ofText node.text = node := by
  cases node with
  | file path =>
      have chars : ("file:" ++ path).toList = 'f' :: 'i' :: 'l' :: 'e' :: ':' :: path.toList := by
        rw [String.toList_append]
        rfl
      simp [Node.ofText, Node.text, chars]
  | symbol name =>
      have chars : ("symbol:" ++ name).toList = 's' :: 'y' :: 'm' :: 'b' :: 'o' :: 'l' :: ':' :: name.toList := by
        rw [String.toList_append]
        rfl
      simp [Node.ofText, Node.text, chars]
  | other text => exact absurd rfl (known text)

theorem dashedNode?_quoted (identifier rest : String) :
    dashedNode? ("  " ++ dotQuoted identifier ++ rest).toList =
      if dashedEndings.contains rest.toList then some (Node.ofText identifier) else none := by
  have chars : ("  " ++ dotQuoted identifier ++ rest).toList =
      "  \"".toList ++ (dotEscape identifier.toList ++ '"' :: rest.toList) := by
    simp [dotQuoted]
  rw [dashedNode?, chars, dropPrefix?_append, Option.bind_eq_bind, Option.bind_some, readQuoted_dotEscape,
    Option.bind_eq_bind, Option.bind_some]
  simp only [List.reverse_nil, List.nil_append, String.ofList_toList]

def nodeEnding (box dashed : Bool) : String :=
  " [shape=" ++ ((if box then "box" else "ellipse") ++ ((if dashed then ", style=\"dashed\", color=\"red\"" else "") ++ "];"))

theorem contains_nodeEnding : ∀ box dashed, dashedEndings.contains (nodeEnding box dashed).toList = dashed := by
  decide

theorem dotNodeLine_eq (unused : List Node) (node : Node) :
    dotNodeLine unused node = "  " ++ dotQuoted node.text ++ nodeEnding node.isFile (unused.contains node) := by
  simp only [dotNodeLine, nodeEnding, String.append_assoc]

theorem dashedNode?_dotNodeLine (unused : List Node) {node : Node} (known : ∀ text, node ≠ .other text) :
    dashedNode? (dotNodeLine unused node).toList = if unused.contains node then some node else none := by
  rw [dotNodeLine_eq, dashedNode?_quoted, contains_nodeEnding, ofText_text known]

theorem dashedNode?_dotEdgeLine (edge : Edge) : dashedNode? (dotEdgeLine edge).toList = none := by
  let ending := " -> " ++ (dotQuoted edge.dst.text ++ (" [label=\"" ++ (edge.kind.label ++ "\"];")))
  have shape : dotEdgeLine edge = "  " ++ dotQuoted edge.src.text ++ ending := by
    simp only [dotEdgeLine, String.append_assoc, ending]
  have solid : dashedEndings.contains ending.toList = false := by
    simp [dashedEndings, ending]
  rw [shape, dashedNode?_quoted, solid]
  rfl

theorem mem_nodes_iff {graph : Graph} {node : Node} :
    node ∈ graph.nodes ↔ (∃ path, node = .file path ∧ (graph.file? path).isSome) ∨
      ∃ name, node = .symbol name ∧ (graph.symbol? name).isSome := by
  simp only [Graph.nodes, List.mem_mergeSort, List.mem_append, List.mem_map, Graph.file?, Graph.symbol?, Keyed.isSome_find?]
  constructor
  · rintro (⟨file, isIn, rfl⟩ | ⟨symbol, isIn, rfl⟩)
    · exact .inl ⟨file.path, rfl, file, isIn, rfl⟩
    · exact .inr ⟨symbol.name, rfl, symbol, isIn, rfl⟩
  · rintro (⟨_, rfl, file, isIn, rfl⟩ | ⟨_, rfl, symbol, isIn, rfl⟩)
    · exact .inl ⟨file, isIn, rfl⟩
    · exact .inr ⟨symbol, isIn, rfl⟩

theorem ne_other_of_mem_nodes {graph : Graph} {node : Node} (isIn : node ∈ graph.nodes) (text : String) :
    node ≠ .other text := by
  rcases mem_nodes_iff.mp isIn with ⟨path, rfl, _⟩ | ⟨name, rfl, _⟩ <;> exact Node.noConfusion

theorem dashedNodes_eq (whole : ∀ line ∈ report.dotLines, '\n' ∉ line.toList) :
    dashedNodes report.dot = report.drawn.nodes.filter ((unusedNodes report.analysis).contains ·) := by
  have nodes : (report.drawn.nodes.map (dotNodeLine (unusedNodes report.analysis))).filterMap (dashedNode? ·.toList) =
      report.drawn.nodes.filter ((unusedNodes report.analysis).contains ·) := by
    rw [List.filterMap_map, ← List.filterMap_eq_filter]
    apply List.filterMap_congr
    intro node isIn
    exact dashedNode?_dotNodeLine _ (ne_other_of_mem_nodes isIn)
  have edges : (report.drawn.sortedEdges.map dotEdgeLine).filterMap (dashedNode? ·.toList) = [] :=
    filterMap_eq_nil fun edge _ => dashedNode?_dotEdgeLine edge
  have head : ["digraph SweepGraph \x7b", "  rankdir=LR;"].filterMap (dashedNode? ·.toList) = [] := by decide
  have foot : ["\x7d", ""].filterMap (dashedNode? ·.toList) = [] := by decide
  have read : dashedNode? ∘ String.toList = (dashedNode? ·.toList) := rfl
  rw [dashedNodes, textLines_dot whole, List.filterMap_map, read, dotLines, List.filterMap_append, List.filterMap_append,
    List.filterMap_append, head, nodes, edges, foot, List.nil_append, List.append_nil, List.append_nil]

end Deadwood.Report
