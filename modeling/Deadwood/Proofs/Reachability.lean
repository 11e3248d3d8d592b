import Deadwood.Graph.Reach

/-!
# The search finds what is reached

The search keeps a queue of visits to make. What is made is closed up to the queue: each visit that a made visit
leads to waits in the queue or is covered, and a visit is covered once it or the direct visit of its node is made.
When the queue is empty, what is made covers the least relation, and nothing else has been made.
-/

set_option autoImplicit false
namespace Deadwood
namespace Graph

variable {graph : Graph} {roots : Roots}

/-! ## Where a visit leads -/

theorem mem_next_file {path : String} {mode : Mode} {following : Visit} :
    following ∈ graph.next (.file path, mode) ↔
      ∃ edge ∈ graph.edges, edge.src = .file path ∧ (edge.kind ≠ .defines ∨ mode = .direct) ∧
        following = (edge.dst, .direct) := by
  simp only [next, List.mem_filterMap, mem_edgesFrom]
  constructor
  · rintro ⟨edge, ⟨member, source⟩, leads⟩
    split at leads
    · rename_i allowed
      refine ⟨edge, member, source, by simpa using allowed, ?_⟩
      exact (Option.some.inj leads).symm
    · cases leads
  · rintro ⟨edge, member, source, allowed, rfl⟩
    refine ⟨edge, ⟨member, source⟩, ?_⟩
    rw [if_pos (by simpa using allowed)]

theorem mem_next_of_not_file {node : Node} {mode : Mode} {following : Visit} (noFile : node.isFile = false) :
    following ∈ graph.next (node, mode) ↔
      (∃ edge ∈ graph.edges, edge.src = node ∧ edge.kind = .references ∧ following = (edge.dst, .direct)) ∨
        ∃ edge ∈ graph.edges, edge.dst = node ∧ edge.kind = .defines ∧ following = (edge.src, .owner) := by
  have shape : graph.next (node, mode) =
      (graph.successors node [.references]).map (·, .direct)
        ++ (graph.predecessors node [.defines]).map (·, .owner) := by
    cases node with
    | file path => cases noFile
    | symbol name => rfl
    | other text => rfl
  rw [shape, List.mem_append, List.mem_map, List.mem_map]
  apply or_congr
  · constructor
    · rintro ⟨target, member, rfl⟩
      obtain ⟨edge, present, source, kind, rfl⟩ := mem_successors.mp member
      exact ⟨edge, present, source, by simpa using kind, rfl⟩
    · rintro ⟨edge, present, source, kind, rfl⟩
      exact ⟨edge.dst, mem_successors.mpr ⟨edge, present, source, by simp [kind], rfl⟩, rfl⟩
  · constructor
    · rintro ⟨origin, member, rfl⟩
      obtain ⟨edge, present, target, kind, rfl⟩ := mem_predecessors.mp member
      exact ⟨edge, present, target, by simpa using kind, rfl⟩
    · rintro ⟨edge, present, target, kind, rfl⟩
      exact ⟨edge.src, mem_predecessors.mpr ⟨edge, present, target, by simp [kind], rfl⟩, rfl⟩

/-- A direct visit leads wherever a visit as an owner does. -/
theorem next_owner_subset_next_direct {node : Node} {following : Visit}
    (leads : following ∈ graph.next (node, .owner)) : following ∈ graph.next (node, .direct) := by
  cases node with
  | file path =>
      obtain ⟨edge, member, source, allowed, target⟩ := mem_next_file.mp leads
      exact mem_next_file.mpr ⟨edge, member, source, Or.inr rfl, target⟩
  | symbol name => exact leads
  | other text => exact leads

/-- Where a visit leads is an end of an edge. -/
theorem mem_ends_of_mem_next {visit following : Visit} (leads : following ∈ graph.next visit) :
    following.1 ∈ graph.edges.flatMap fun edge => [edge.src, edge.dst] := by
  obtain ⟨node, mode⟩ := visit
  rw [List.mem_flatMap]
  cases kind : node.isFile with
  | true =>
      obtain ⟨path, rfl⟩ : ∃ path, node = .file path := by
        cases node <;> simp_all [Node.isFile]
      obtain ⟨edge, member, _, _, rfl⟩ := mem_next_file.mp leads
      exact ⟨edge, member, by simp⟩
  | false =>
      rcases (mem_next_of_not_file kind).mp leads with ⟨edge, member, _, _, rfl⟩ | ⟨edge, member, _, _, rfl⟩
      · exact ⟨edge, member, by simp⟩
      · exact ⟨edge, member, by simp⟩

theorem Reached.next {node : Node} {mode : Mode} {following : Visit} (live : Reached graph roots node mode)
    (leads : following ∈ graph.next (node, mode)) : Reached graph roots following.1 following.2 := by
  cases kind : node.isFile with
  | true =>
      obtain ⟨path, rfl⟩ : ∃ path, node = .file path := by
        cases node <;> simp_all [Node.isFile]
      obtain ⟨edge, member, source, allowed, rfl⟩ := mem_next_file.mp leads
      cases edgeKind : edge.kind with
      | defines =>
          have direct : mode = .direct := allowed.resolve_left (by simp [edgeKind])
          subst direct
          exact .defined live member source edgeKind
      | references => exact .fromFile live member source (Or.inl edgeKind)
      | includes => exact .fromFile live member source (Or.inr edgeKind)
  | false =>
      rcases (mem_next_of_not_file kind).mp leads with
        ⟨edge, member, source, edgeKind, rfl⟩ | ⟨edge, member, target, edgeKind, rfl⟩
      · exact .fromSymbol live kind member source edgeKind
      · exact .owner live kind member target edgeKind

/-! ## The roots of a graph -/

theorem mem_rootNames {name : String} :
    name ∈ graph.rootNames roots ↔ (graph.symbol? name).isSome ∧ roots.matchesName name = true := by
  rw [rootNames, List.mem_filter, mem_names]

theorem mem_rootPaths {path : String} :
    path ∈ graph.rootPaths roots ↔
      ((graph.file? path).isSome ∧ roots.matchesFile path = true) ∨
        ∃ symbol definition, graph.symbol? symbol.name = some symbol ∧ roots.matchesName symbol.name = true ∧
          definition ∈ symbol.definitions ∧ definition.path = path := by
  rw [rootPaths, Text.mem_sortedSet, List.mem_append, List.mem_filter, mem_paths, List.mem_flatMap]
  apply or_congr Iff.rfl
  constructor
  · rintro ⟨name, member, defines⟩
    obtain ⟨present, isRoot⟩ := mem_rootNames.mp member
    obtain ⟨symbol, found⟩ := Option.isSome_iff_exists.mp present
    have sameName : symbol.name = name := symbol?_name found
    subst sameName
    simp only [found, Option.map_some, Option.getD_some] at defines
    obtain ⟨definition, memberDefinition, samePath⟩ := Symbol.mem_definingFiles.mp defines
    exact ⟨symbol, definition, found, isRoot, memberDefinition, samePath⟩
  · rintro ⟨symbol, definition, found, isRoot, memberDefinition, samePath⟩
    refine ⟨symbol.name, mem_rootNames.mpr ⟨by simp [found], isRoot⟩, ?_⟩
    simp only [found, Option.map_some, Option.getD_some]
    exact Symbol.mem_definingFiles.mpr ⟨definition, memberDefinition, samePath⟩

theorem Reached.of_rootVisits {visit : Visit} (isRoot : visit ∈ graph.rootVisits roots) :
    Reached graph roots visit.1 visit.2 := by
  rcases List.mem_append.mp isRoot with fileRoot | symbolRoot
  · obtain ⟨path, member, rfl⟩ := List.mem_map.mp fileRoot
    rcases mem_rootPaths.mp member with ⟨present, matched⟩ | ⟨symbol, definition, found, matched, defines, rfl⟩
    · exact .rootFile present matched
    · exact .rootOwner found matched defines
  · obtain ⟨name, member, rfl⟩ := List.mem_map.mp symbolRoot
    obtain ⟨present, matched⟩ := mem_rootNames.mp member
    exact .rootSymbol present matched

/-! ## The search -/

/-- A visit is covered by those made: it is one of them, or its node has been visited directly. -/
def Covers (made : List Visit) (visit : Visit) : Prop :=
  visit ∈ made ∨ (visit.1, Mode.direct) ∈ made

theorem Covers.cons {made : List Visit} {visit : Visit} (latest : Visit) (covered : Covers made visit) :
    Covers (latest :: made) visit :=
  covered.imp (List.mem_cons_of_mem latest) (List.mem_cons_of_mem latest)

/-- What holds all through a search from some first visits: a visit that may still be made is not forgotten, and
each first visit and each visit that a made one leads to is covered or waits in the queue. -/
structure Searching (graph : Graph) (possible first unseen made queue : List Visit) : Prop where
  queued : ∀ visit ∈ queue, visit ∈ possible
  unmade : ∀ visit ∈ possible, visit ∉ made → visit ∈ unseen
  started : ∀ visit ∈ first, Covers made visit ∨ visit ∈ queue
  closed : ∀ visit ∈ made, ∀ following ∈ graph.next visit, Covers made following ∨ following ∈ queue

theorem Searching.make {possible first unseen made queue : List Visit} {visit : Visit}
    (searching : Searching graph possible first unseen made (visit :: queue))
    (leadsInside : ∀ following ∈ graph.next visit, following ∈ possible) :
    Searching graph possible first (unseen.erase visit) (visit :: made) (queue ++ graph.next visit) where
  queued := by
    intro other member
    rcases List.mem_append.mp member with waiting | following
    · exact searching.queued other (List.mem_cons_of_mem visit waiting)
    · exact leadsInside other following
  unmade := by
    intro other member unmade
    have differs : other ≠ visit := fun same => unmade (same ▸ List.mem_cons_self)
    have stillUnseen := searching.unmade other member fun made => unmade (List.mem_cons_of_mem visit made)
    exact (List.mem_erase_of_ne differs).mpr stillUnseen
  started := by
    intro other member
    rcases searching.started other member with covered | waiting
    · exact Or.inl (covered.cons visit)
    · rcases List.mem_cons.mp waiting with rfl | waiting
      · exact Or.inl (Or.inl List.mem_cons_self)
      · exact Or.inr (List.mem_append_left _ waiting)
  closed := by
    intro earlier member following leads
    rcases List.mem_cons.mp member with rfl | member
    · exact Or.inr (List.mem_append_right _ leads)
    · rcases searching.closed earlier member following leads with covered | waiting
      · exact Or.inl (covered.cons visit)
      · rcases List.mem_cons.mp waiting with rfl | waiting
        · exact Or.inl (Or.inl List.mem_cons_self)
        · exact Or.inr (List.mem_append_left _ waiting)

theorem Searching.skip {possible first unseen made queue : List Visit} {visit : Visit}
    (searching : Searching graph possible first unseen made (visit :: queue))
    (covered : Covers made visit) : Searching graph possible first unseen made queue where
  queued other member := searching.queued other (List.mem_cons_of_mem visit member)
  unmade := searching.unmade
  started := by
    intro other member
    rcases searching.started other member with done | waiting
    · exact Or.inl done
    · rcases List.mem_cons.mp waiting with rfl | waiting
      · exact Or.inl covered
      · exact Or.inr waiting
  closed := by
    intro earlier member following leads
    rcases searching.closed earlier member following leads with done | waiting
    · exact Or.inl done
    · rcases List.mem_cons.mp waiting with rfl | waiting
      · exact Or.inl covered
      · exact Or.inr waiting

/-- A search ends with an empty queue: all that it had to cover is covered. -/
theorem Searching.search {possible first unseen made queue : List Visit}
    (leadsInside : ∀ visit ∈ possible, ∀ following ∈ graph.next visit, following ∈ possible)
    (searching : Searching graph possible first unseen made queue) :
    ∃ left, Searching graph possible first left (graph.search unseen made queue) [] := by
  fun_induction Graph.search graph unseen made queue with
  | case1 unseen made => exact ⟨unseen, searching⟩
  | case2 unseen made visit queue _ inductionHypothesis =>
      exact inductionHypothesis
        (searching.make (leadsInside visit (searching.queued visit List.mem_cons_self)))
  | case3 unseen made visit queue skipped inductionHypothesis =>
      apply inductionHypothesis
      apply searching.skip
      by_cases direct : (visit.1, Mode.direct) ∈ made
      · exact Or.inr direct
      · refine Or.inl (Classical.byContradiction fun unmade => skipped ⟨?_, direct⟩)
        exact searching.unmade visit (searching.queued visit List.mem_cons_self) unmade

/-- A search makes only visits with a property that the queue has and that visits pass on. -/
theorem search_induction {holds : Visit → Prop} {unseen made queue : List Visit}
    (passedOn : ∀ visit, holds visit → ∀ following ∈ graph.next visit, holds following)
    (madeHold : ∀ visit ∈ made, holds visit) (queueHolds : ∀ visit ∈ queue, holds visit) :
    ∀ visit ∈ graph.search unseen made queue, holds visit := by
  fun_induction Graph.search graph unseen made queue with
  | case1 unseen made => exact madeHold
  | case2 unseen made visit queue _ inductionHypothesis =>
      have visitHolds := queueHolds visit List.mem_cons_self
      apply inductionHypothesis
      · intro other member
        rcases List.mem_cons.mp member with rfl | member
        · exact visitHolds
        · exact madeHold other member
      · intro other member
        rcases List.mem_append.mp member with waiting | following
        · exact queueHolds other (List.mem_cons_of_mem visit waiting)
        · exact passedOn visit visitHolds other following
  | case3 unseen made visit queue _ inductionHypothesis =>
      exact inductionHypothesis madeHold fun other member => queueHolds other (List.mem_cons_of_mem visit member)

/-! ## The marked nodes -/

theorem mem_allVisits {visit : Visit} :
    visit ∈ graph.allVisits roots ↔
      (∃ root ∈ graph.rootVisits roots, root.1 = visit.1) ∨
        visit.1 ∈ graph.edges.flatMap fun edge => [edge.src, edge.dst] := by
  obtain ⟨node, mode⟩ := visit
  cases mode <;> simp only [allVisits, List.mem_append, List.mem_map, List.mem_eraseDups, Prod.exists, exists_and_right,
    exists_eq_right, List.mem_flatMap, List.mem_cons, List.not_mem_nil, Prod.mk.injEq, reduceCtorEq, and_true, and_false,
    exists_const, or_false, false_or]

theorem searching_first :
    Searching graph (graph.allVisits roots) (graph.rootVisits roots) (graph.allVisits roots) []
      (graph.rootVisits roots) where
  queued visit member := mem_allVisits.mpr (Or.inl ⟨visit, member, rfl⟩)
  unmade _ member _ := member
  started _ member := Or.inr member
  closed _ member := absurd member List.not_mem_nil

def visits (graph : Graph) (roots : Roots) : List Visit :=
  graph.search (graph.allVisits roots) [] (graph.rootVisits roots)

theorem searching_visits (graph : Graph) (roots : Roots) :
    ∃ left, Searching graph (graph.allVisits roots) (graph.rootVisits roots) left (graph.visits roots) [] :=
  searching_first.search fun _ _ _ leads => mem_allVisits.mpr (Or.inr (mem_ends_of_mem_next leads))

theorem reached_of_mem_visits {visit : Visit} (member : visit ∈ graph.visits roots) :
    Reached graph roots visit.1 visit.2 := by
  let live : Visit → Prop := fun visit => Reached graph roots visit.1 visit.2
  have passedOn : ∀ visit, live visit → ∀ following ∈ graph.next visit, live following := by
    intro earlier earlierLive following leads
    exact earlierLive.next leads
  have madeLive : ∀ visit ∈ ([] : List Visit), live visit := by
    intro earlier none
    exact absurd none List.not_mem_nil
  exact search_induction passedOn madeLive (fun root isRoot => Reached.of_rootVisits isRoot) visit member

/-- The visits made cover what a covered visit leads to: a direct visit leads wherever one as an owner does. -/
theorem Covers.next {left : List Visit} {visit following : Visit}
    (searching : Searching graph (graph.allVisits roots) (graph.rootVisits roots) left (graph.visits roots) [])
    (covered : Covers (graph.visits roots) visit) (leads : following ∈ graph.next visit) :
    Covers (graph.visits roots) following := by
  obtain ⟨node, mode⟩ := visit
  have fromMade : ∀ made ∈ graph.visits roots, following ∈ graph.next made →
      Covers (graph.visits roots) following := by
    intro made member leadsThere
    exact (searching.closed made member following leadsThere).resolve_right List.not_mem_nil
  rcases covered with made | direct
  · exact fromMade _ made leads
  · refine fromMade _ direct ?_
    cases mode with
    | direct => exact leads
    | owner => exact next_owner_subset_next_direct leads

theorem covers_of_reached {node : Node} {mode : Mode} (live : Reached graph roots node mode) :
    Covers (graph.visits roots) (node, mode) := by
  obtain ⟨left, searching⟩ := searching_visits graph roots
  have rootCovered : ∀ visit ∈ graph.rootVisits roots, Covers (graph.visits roots) visit := by
    intro visit isRoot
    exact (searching.started visit isRoot).resolve_right List.not_mem_nil
  induction live with
  | rootFile present matched =>
      apply rootCovered
      exact List.mem_append_left _ (List.mem_map.mpr ⟨_, mem_rootPaths.mpr (Or.inl ⟨present, matched⟩), rfl⟩)
  | rootOwner found matched defines =>
      apply rootCovered
      exact List.mem_append_left _
        (List.mem_map.mpr ⟨_, mem_rootPaths.mpr (Or.inr ⟨_, _, found, matched, defines, rfl⟩), rfl⟩)
  | rootSymbol present matched =>
      apply rootCovered
      exact List.mem_append_right _ (List.mem_map.mpr ⟨_, mem_rootNames.mpr ⟨present, matched⟩, rfl⟩)
  | @fromFile path mode edge _ member source kind inductionHypothesis =>
      apply inductionHypothesis.next searching
      refine mem_next_file.mpr ⟨edge, member, source, Or.inl ?_, rfl⟩
      rcases kind with kind | kind <;> simp [kind]
  | @defined path edge _ member source _ inductionHypothesis =>
      exact inductionHypothesis.next searching (mem_next_file.mpr ⟨edge, member, source, Or.inr rfl, rfl⟩)
  | @fromSymbol node mode edge _ noFile member source kind inductionHypothesis =>
      exact inductionHypothesis.next searching
        ((mem_next_of_not_file noFile).mpr (Or.inl ⟨edge, member, source, kind, rfl⟩))
  | @owner node mode edge _ noFile member target kind inductionHypothesis =>
      exact inductionHypothesis.next searching
        ((mem_next_of_not_file noFile).mpr (Or.inr ⟨edge, member, target, kind, rfl⟩))

/-- The marked nodes are those that are reached in one way or the other. -/
theorem mem_mark_iff_reached {node : Node} :
    node ∈ graph.mark roots ↔ ∃ mode, Reached graph roots node mode := by
  rw [mark, List.mem_eraseDups, List.mem_map]
  constructor
  · rintro ⟨visit, member, rfl⟩
    exact ⟨visit.2, reached_of_mem_visits member⟩
  · rintro ⟨mode, live⟩
    rcases covers_of_reached live with made | direct
    · exact ⟨(node, mode), made, rfl⟩
    · exact ⟨(node, .direct), direct, rfl⟩

theorem not_reached_of_no_roots {node : Node} {mode : Mode} : ¬ Reached graph {} node mode := by
  intro live
  induction live with
  | rootFile _ matched => simp [Roots.matchesFile] at matched
  | rootOwner _ matched _ => simp [Roots.matchesName] at matched
  | rootSymbol _ matched => simp [Roots.matchesName] at matched
  | fromFile _ _ _ _ inductionHypothesis => exact inductionHypothesis
  | defined _ _ _ _ inductionHypothesis => exact inductionHypothesis
  | fromSymbol _ _ _ _ _ inductionHypothesis => exact inductionHypothesis
  | owner _ _ _ _ _ inductionHypothesis => exact inductionHypothesis

end Graph
end Deadwood
