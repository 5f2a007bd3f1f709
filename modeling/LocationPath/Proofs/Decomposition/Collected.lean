import LocationPath.Proofs.Decomposition.Walk

/-! # What the walk collects

The walk through a tree finds the steps inside an expression before the expression itself, and
throws them away when it comes to the expression. What is left in the end are the outermost steps.

Main definition: `Collection.Adds`. Main results: `Node.adds_of_walked` and
`PathInfo.parse_outermost`. -/

namespace LocationPath

namespace Collection

/-! ## Adding one step -/

/-- What is waiting has been found in front of a position. -/
def EndsBefore (found : Collection) (position : Nat) : Prop :=
  ∀ candidate ∈ found.waiting,
    candidate.span.start < candidate.span.stop ∧ candidate.span.stop ≤ position

/-- What the walk has found since a collection: the steps of some nodes, which are waiting behind
those of the collection. -/
def Adds (found found' : Collection) (source : Text) (nodes : List Node) : Prop :=
  ∃ candidates, nodes.mapM (Node.candidate? source) = .ok candidates ∧
    found'.waiting = candidates.reverse ++ found.waiting

/-- Without any nodes nothing is added. -/
theorem adds_nil (found : Collection) (source : Text) : found.Adds found source [] :=
  ⟨[], rfl, rfl⟩

/-- What is added in two turns. -/
theorem Adds.append {found middle found' : Collection} {source : Text} {nodes nodes' : List Node}
    (h : found.Adds middle source nodes) (h' : middle.Adds found' source nodes') :
    found.Adds found' source (nodes ++ nodes') := by
  obtain ⟨candidates, eq, waiting⟩ := h
  obtain ⟨candidates', eq', waiting'⟩ := h'
  refine ⟨candidates ++ candidates', ?_, ?_⟩
  · rw [List.mapM_append, eq, eq']
    rfl
  · rw [waiting', waiting, List.reverse_append, List.append_assoc]

/-- What is added inside a span leaves the collection in front of what is behind the span. -/
theorem Adds.endsBefore {found found' : Collection} {source : Text} {nodes : List Node}
    {tokens : List Token} {outer : Span} {position : Nat} (h : found.Adds found' source nodes)
    (row : Node.Row nodes tokens) (inside : ∀ node ∈ nodes, node.span.within outer = true)
    (before : found.EndsBefore outer.start) (le : outer.start ≤ outer.stop)
    (le' : outer.stop ≤ position) : found'.EndsBefore position := by
  obtain ⟨candidates, eq, waiting⟩ := h
  intro candidate mem
  rw [waiting] at mem
  obtain mem | mem := List.mem_append.1 mem
  · obtain ⟨node, node_mem, span_eq⟩ := Node.exists_span_eq_of_mem eq (List.mem_reverse.1 mem)
    -- What waits is older, or it belongs to one of the nodes inside the span.
    have lt := (row.nested node node_mem).root.start_lt_stop
    have within := inside node node_mem
    rw [Span.within_iff] at within
    rw [← span_eq]
    omega
  · have := before candidate mem
    omega

/-- A step takes the place of the waiting ones inside it and leaves those in front of it. -/
theorem waiting_push {found : Collection} {candidate : Candidate} {inner old : List Candidate}
    (eq : found.waiting = inner ++ old)
    (inside : ∀ other ∈ inner, other.span.within candidate.span = true)
    (before : ∀ other ∈ old,
      other.span.start < other.span.stop ∧ other.span.stop ≤ candidate.span.start) :
    (found.push candidate).waiting = candidate :: old := by
  rw [push, eq, List.dropWhile_append_of_pos inside]
  cases old with
  | nil => rfl
  | cons other old =>
    have := before other (by simp)
    rw [List.dropWhile_cons_of_neg]
    rw [Span.within_iff]
    omega

/-- What is waiting after a turn of the loop is what is waiting once the step has been added. -/
theorem exists_add_of_note {found found' : Collection} {source : Text} {node : Node}
    (h : found.note source node = .ok found') :
    ∃ added, found.add source node.span (node.ownText source) node.ownPredicates = .ok added ∧
      found'.waiting = added.waiting := by
  obtain ⟨added, add, h⟩ := bind_eq_ok_iff.1 h
  refine ⟨added, add, ?_⟩
  -- An attribute step is noted beside the waiting ones.
  split at h
  · rw [← Except.ok.inj h]
  · rw [Except.ok.inj h]

/-- What is found inside a node is thrown away when the step of the node is added. -/
theorem Adds.of_note {found middle found' : Collection} {source : Text} {inner : List Node}
    (h : found.Adds middle source inner) (node : Node)
    (inside : ∀ part ∈ inner, part.span.within node.span = true)
    (before : found.EndsBefore node.span.start)
    (last : [node].foldlM (note source) middle = .ok found') :
    found.Adds found' source [node] := by
  rw [foldlM_note_singleton] at last
  obtain ⟨candidates, eq, waiting⟩ := h
  obtain ⟨added, add, kept⟩ := exists_add_of_note last
  obtain ⟨step, made, pushed⟩ := bind_eq_ok_iff.1 add
  obtain rfl := Except.ok.inj pushed
  -- The step of the node takes the place of all that was found inside it.
  refine ⟨[⟨step, node.span⟩], ?_, ?_⟩
  · rw [List.mapM_cons, Node.candidate?, made]
    rfl
  · refine kept.trans (waiting_push waiting (fun other mem => ?_) before)
    obtain ⟨part, part_mem, span_eq⟩ := Node.exists_span_eq_of_mem eq (List.mem_reverse.1 mem)
    rw [← span_eq]
    exact inside part part_mem

/-- What ends before a position ends before any later one. -/
theorem EndsBefore.mono {found : Collection} {position position' : Nat}
    (h : found.EndsBefore position) (le : position ≤ position') : found.EndsBefore position' := by
  intro candidate mem
  have := h candidate mem
  omega

end Collection

namespace Node

/-! ## The walk -/

/-- What is found before a tree is found before its children. -/
theorem Nested.endsBefore {node child : Node} {tokens : List Token} {found : Collection}
    (h : node.Nested tokens) (before : found.EndsBefore node.span.start)
    (mem : child ∈ node.children) : found.EndsBefore child.span.start := by
  have within := h.root.inside child mem
  rw [Span.within_iff] at within
  exact before.mono within.1

/-- The outermost steps of children are inside the node. -/
theorem within_of_mem_flatMap_outermost {node : Node} {trees : List Node} {tokens : List Token}
    (h : node.Nested tokens) (subset : trees ⊆ node.children) :
    ∀ part ∈ trees.flatMap outermost, part.span.within node.span = true := by
  intro part mem
  obtain ⟨tree, tree_mem, mem⟩ := List.mem_flatMap.1 mem
  exact Span.within_trans
    (within_of_mem_outermost (h.row.nested tree (subset tree_mem)) part mem)
    (h.root.inside tree (subset tree_mem))

mutual

/-- The loop over a tree adds the outermost steps of the tree. -/
theorem adds_of_walked {source : Text} {tokens : List Token} : (tree : Node) → tree.Nested tokens →
    {found found' : Collection} → found.EndsBefore tree.span.start →
      tree.walked.foldlM (Collection.note source) found = .ok found' →
        found.Adds found' source tree.outermost
  | .unary span op operand, nested, found, found', before, h => by
    have mem : operand ∈ (unary span op operand).children := by simp [children]
    exact adds_of_walked operand (nested.row.nested operand mem) (nested.endsBefore before mem) h
  | .binary span left op right, nested, found, found', before, h => by
    have left_mem : left ∈ (binary span left op right).children := by simp [children]
    have right_mem : right ∈ (binary span left op right).children := by simp [children]
    have left_nested := nested.row.nested left left_mem
    have apart : left.span.stop ≤ right.span.start := by
      simpa [children] using nested.root.ordered
    obtain ⟨middle, first, second⟩ := Collection.foldlM_note_append.1 h
    have adds := adds_of_walked left left_nested (nested.endsBefore before left_mem) first
    refine adds.append (adds_of_walked right (nested.row.nested right right_mem) ?_ second)
    exact adds.endsBefore (outermost_row left_nested) (within_of_mem_outermost left_nested)
      (nested.endsBefore before left_mem) (Nat.le_of_lt left_nested.root.start_lt_stop) apart
  | .filter span base predicates, nested, found, found', before, h => by
    have mem : base ∈ (filter span base predicates).children := by simp [children]
    have base_nested := nested.row.nested base mem
    obtain ⟨middle, first, second⟩ := Collection.foldlM_note_append.1 h
    have adds := adds_of_walked base base_nested (nested.endsBefore before mem) first
    refine adds.of_note (.filter span base predicates) (fun part part_mem => ?_) before second
    exact Span.within_trans (within_of_mem_outermost base_nested part part_mem)
      (nested.root.inside base mem)
  | .absolute span op relative, nested, found, found', before, h => by
    have mem : relative ∈ (absolute span op relative).children := by simp [children]
    exact adds_of_walked relative (nested.row.nested relative mem) (nested.endsBefore before mem) h
  | .call span qualifier name arguments, nested, found, found', before, h => by
    obtain ⟨middle, first, second⟩ := Collection.foldlM_note_append.1 h
    have adds := adds_of_walkedOfAll arguments nested.row
      (fun tree mem => nested.endsBefore before mem) first
    exact adds.of_note (.call span qualifier name arguments)
      (within_of_mem_flatMap_outermost nested (List.Subset.refl _)) before second
  | .sequence span items, nested, found, found', before, h => by
    obtain ⟨middle, first, second⟩ := Collection.foldlM_note_append.1 h
    have adds := adds_of_walkedOfAll items nested.row
      (fun tree mem => nested.endsBefore before mem) first
    exact adds.of_note (.sequence span items)
      (within_of_mem_flatMap_outermost nested (List.Subset.refl _)) before second
  | .predicate _ _, _, found, found', before, h | .root _ _, _, found, found', before, h
  | .nodeTest _, _, found, found', before, h => by
    obtain rfl := Except.ok.inj h
    exact found.adds_nil source
  | .step span axis test predicates, _, found, found', before, h =>
    (found.adds_nil source).of_note (.step span axis test predicates) (by simp) before h
  | .dots span abbreviation predicates, _, found, found', before, h =>
    (found.adds_nil source).of_note (.dots span abbreviation predicates) (by simp) before h
  | .variable span qualifier name, _, found, found', before, h =>
    (found.adds_nil source).of_note (.variable span qualifier name) (by simp) before h
  | .literal span value, _, found, found', before, h =>
    (found.adds_nil source).of_note (.literal span value) (by simp) before h

/-- The loop over several trees adds the outermost steps of each. -/
theorem adds_of_walkedOfAll {source : Text} {tokens : List Token} : (trees : List Node) →
    Row trees tokens → {found found' : Collection} →
      (∀ tree ∈ trees, found.EndsBefore tree.span.start) →
        (walkedOfAll trees).foldlM (Collection.note source) found = .ok found' →
          found.Adds found' source (trees.flatMap outermost)
  | [], row, found, found', before, h => by
    obtain rfl := Except.ok.inj h
    exact found.adds_nil source
  | tree :: trees, row, found, found', before, h => by
    obtain ⟨cross, ordered⟩ := List.pairwise_cons.1 row.ordered
    have nested := row.nested tree (by simp)
    have tree_before := before tree (by simp)
    obtain ⟨middle, first, second⟩ := Collection.foldlM_note_append.1 h
    have adds := adds_of_walked tree nested tree_before first
    -- What the first tree adds ends in front of the others.
    have rest := adds_of_walkedOfAll trees
      ⟨fun node mem => row.nested node (List.mem_cons_of_mem _ mem), ordered⟩
      (fun other mem => adds.endsBefore (outermost_row nested) (within_of_mem_outermost nested)
        tree_before (Nat.le_of_lt nested.root.start_lt_stop) (cross other mem)) second
    rw [List.flatMap_cons]
    exact adds.append rest

end

end Node

/-! ## Paths -/

/-- What the walk has collected in the end are the steps of the outermost nodes. -/
theorem PathInfo.exists_found {text : Text} (derivation : Derivation .expression) {info : PathInfo}
    (tokenized : Tokenized false 0 text derivation.tokens) (h : PathInfo.parse text = .ok info) :
    ∃ found : Collection, Node.collect text .empty derivation.value = .ok found ∧
      (Node.outermost derivation.value).mapM (Node.candidate? text) = .ok found.candidates ∧
      info.locationSteps = found.candidates.map (·.step) := by
  obtain ⟨tree, parsed, h⟩ := bind_eq_ok_iff.1 h
  obtain rfl : derivation.value = tree :=
    Except.ok.inj ((Node.parse_eq_ok_iff_exists.2 ⟨derivation, tokenized, rfl⟩).symm.trans parsed)
  obtain ⟨found, collected, h⟩ := bind_eq_ok_iff.1 h
  obtain rfl := Except.ok.inj h
  have loop := (Node.collect_eq_foldlM text derivation.guarded .empty).symm.trans collected
  obtain ⟨candidates, eq, waiting⟩ := Node.adds_of_walked _ (derivation.nests tokenized.inOrder).2
    (by simp [Collection.EndsBefore, Collection.empty]) loop
  have candidates_eq : found.candidates = candidates := by
    rw [Collection.candidates, waiting]
    simp [Collection.empty]
  exact ⟨found, collected, candidates_eq ▸ eq, rfl⟩

/-- **The steps of a path are the outermost ones of its tree**, in the order of the text: what the
walk has collected in the end are the steps of exactly these nodes, and no two of them overlap. -/
theorem PathInfo.parse_outermost {text : Text} {info : PathInfo}
    (h : PathInfo.parse text = .ok info) :
    ∃ tree found, Node.parse text = .ok tree ∧ tree.collect text .empty = .ok found ∧
      tree.outermost.mapM (Node.candidate? text) = .ok found.candidates ∧
      info.locationSteps = found.candidates.map (·.step) ∧
      (∀ candidate ∈ found.candidates, candidate.span.start < candidate.span.stop) ∧
      found.candidates.Pairwise fun first second => first.span.stop ≤ second.span.start := by
  obtain ⟨tree, parsed, -⟩ := bind_eq_ok_iff.1 h
  obtain ⟨derivation, tokenized, rfl⟩ := Node.parse_eq_ok_iff_exists.1 parsed
  obtain ⟨found, collected, eq, steps⟩ := PathInfo.exists_found derivation tokenized h
  have spans := Node.span_of_mapM_candidate? eq
  have row := Node.outermost_row (derivation.nests tokenized.inOrder).2
  refine ⟨_, found, parsed, collected, eq, steps, fun candidate mem => ?_, ?_⟩
  · obtain ⟨node, node_mem, span_eq⟩ := Node.exists_span_eq_of_mem eq mem
    rw [← span_eq]
    exact (row.nested node node_mem).root.start_lt_stop
  · have ordered : (derivation.value.outermost.map Node.span).Pairwise
        fun first second => first.stop ≤ second.start := List.pairwise_map.2 row.ordered
    rw [← spans] at ordered
    exact List.pairwise_map.1 ordered

/-- The steps inside a filter expression are not steps of the path. -/
theorem PathInfo.parse_outermost_of_filter : ∃ info tree found,
    PathInfo.parse "(a[b]/c)[1]/d".toList = .ok info ∧
      info.locationSteps.map Step.toText = ["(a[b]/c)[1]".toList, "d".toList] ∧
      Node.parse "(a[b]/c)[1]/d".toList = .ok tree ∧
      tree.collect "(a[b]/c)[1]/d".toList .empty = .ok found ∧
      tree.outermost.mapM (Node.candidate? "(a[b]/c)[1]/d".toList) = .ok found.candidates ∧
      info.locationSteps = found.candidates.map (·.step) := by
  have steps : (PathInfo.parse "(a[b]/c)[1]/d".toList).map (·.locationSteps.map Step.toText) =
      .ok ["(a[b]/c)[1]".toList, "d".toList] := by decide +kernel
  cases h : PathInfo.parse "(a[b]/c)[1]/d".toList with
  | error error =>
    rw [h] at steps
    contradiction
  | ok info =>
    rw [h] at steps
    obtain ⟨tree, found, parsed, collected, eq, steps_eq, -⟩ := PathInfo.parse_outermost h
    exact ⟨info, tree, found, rfl, Except.ok.inj steps, parsed, collected, eq, steps_eq⟩

end LocationPath
