import LocationPath.Proofs.Decomposition.Outermost
import LocationPath.Proofs.Grammar.Move
import LocationPath.Proofs.Lexing.Edges

/-! # Steps cut out of other texts

The step of a node is cut out of the source at places inside the node. So it does not matter what
stands behind the node, nor, if the node goes along, what stands in front of it.

Main definition: `Node.ownSpan`. Main results: `Node.candidate?_append`, `Node.candidate?_shift` and
the same for several nodes. -/

namespace LocationPath

/-! ## Slices of other texts -/

namespace Text

/-- What is behind a slice does not matter to it. -/
theorem slice_append_of_le {front behind : Text} (start : Nat) {stop : Nat}
    (le : stop ≤ front.length) : (front ++ behind).slice start stop = front.slice start stop := by
  rw [slice, List.take_append_of_le_length le, slice]

/-- What is in front of a slice only moves it. -/
theorem slice_shift (front front' behind : Text) {start stop : Nat} (le : front.length ≤ start)
    (le' : front.length ≤ stop) :
    (front' ++ behind).slice (start + front'.length - front.length)
        (stop + front'.length - front.length) = (front ++ behind).slice start stop := by
  obtain ⟨start, rfl⟩ := Nat.exists_eq_add_of_le le
  obtain ⟨stop, rfl⟩ := Nat.exists_eq_add_of_le le'
  have moved : ∀ position, front.length + position + front'.length - front.length =
      front'.length + position := fun position => by omega
  rw [moved, moved, slice_length_add_append, slice_length_add_append]

end Text

/-- What is in front of brackets only moves what is between them. -/
theorem Span.cutInside_shift (front front' behind : Text) {span : Span}
    (le : front.length ≤ span.start) (lt : span.start < span.stop) :
    (span.shift front.length front'.length).cutInside (front' ++ behind) =
      span.cutInside (front ++ behind) := by
  have start_le : front.length ≤ span.start + 1 := by omega
  have stop_le : front.length ≤ span.stop - 1 := by omega
  have moved := Text.slice_shift front front' behind start_le stop_le
  rw [cutInside, cutInside, ← moved, shift]
  congr 1 <;> (dsimp only; omega)

namespace Node

/-- The place of the text of a step without its predicates. -/
def ownSpan : Node → Span
  | .step span _ test _ => ⟨span.start, test.span.stop⟩
  | .filter _ base _ => base.span
  | node => node.span

/-- The dots that a step is written as. -/
def abbreviation? : Node → Option Text
  | .dots _ abbreviation _ => some abbreviation
  | _ => none

/-- The own text of a step is cut out of its own place, except for dots. -/
theorem ownText_eq (source : Text) (node : Node) :
    node.ownText source = node.abbreviation?.getD (node.ownSpan.cut source) := by
  cases node <;> rfl

/-- The own place of a step is inside it and not empty. -/
theorem Nested.ownSpan {node : Node} {tokens : List Token} (h : node.Nested tokens) :
    node.ownSpan.within node.span = true ∧ node.ownSpan.start < node.ownSpan.stop := by
  cases node with
  | step span axis test predicates =>
    have mem : nodeTest test ∈ (step span axis test predicates).children := by simp [children]
    have inside : test.span.within span = true := h.root.inside _ mem
    have lt : test.span.start < test.span.stop := (h.row.nested _ mem).root.start_lt_stop
    rw [Span.within_iff] at inside
    have lt' : span.start < test.span.stop := by omega
    simp [Span.within, Node.ownSpan, Node.span, inside.2, lt']
  | filter span base predicates =>
    have mem : base ∈ (filter span base predicates).children := by simp [children]
    exact ⟨h.root.inside base mem, (h.row.nested base mem).root.start_lt_stop⟩
  | _ => exact ⟨Span.within_self _, h.root.start_lt_stop⟩

/-- The predicates of a step are among its children, in their order. -/
theorem ownPredicates_sublist (node : Node) : node.ownPredicates.Sublist node.children := by
  cases node with
  | step | filter => exact List.sublist_cons_self _ _
  | dots => exact List.Sublist.refl _
  | _ => exact List.nil_sublist _

/-- The predicates of a step are a row. -/
theorem Nested.ownPredicates_row {node : Node} {tokens : List Token} (h : node.Nested tokens) :
    Row node.ownPredicates tokens :=
  ⟨fun predicate mem => h.row.nested predicate (node.ownPredicates_sublist.subset mem),
    h.row.ordered.sublist node.ownPredicates_sublist⟩

/-- **What is behind a node does not matter to its step.** -/
theorem candidate?_append {front behind : Text} {node : Node} {tokens : List Token}
    (nested : node.Nested tokens) (le : node.span.stop ≤ front.length) :
    candidate? (front ++ behind) node = candidate? front node := by
  have le_of_within : ∀ {span : Span}, span.within node.span = true →
      span.stop ≤ front.length := fun within => by
    rw [Span.within_iff] at within
    omega
  have own : node.ownText (front ++ behind) = node.ownText front := by
    rw [ownText_eq, ownText_eq, Span.cut, Span.cut,
      Text.slice_append_of_le _ (le_of_within nested.ownSpan.1)]
  have predicates : (node.ownPredicates.map fun predicate =>
      predicate.span.cutInside (front ++ behind)) =
        node.ownPredicates.map fun predicate => predicate.span.cutInside front := by
    refine List.map_congr_left fun predicate mem => ?_
    have := le_of_within (nested.root.inside predicate (node.ownPredicates_sublist.subset mem))
    exact Text.slice_append_of_le _ (by omega)
  rw [candidate?, candidate?, own, predicates]

/-- The own place of a step goes with it. -/
theorem ownSpan_mapSpan (old new : Nat) (node : Node) :
    (node.mapSpan (Span.shift old new)).ownSpan = node.ownSpan.shift old new := by
  cases node with
  | step span axis test predicates =>
    simp [mapSpan, ownSpan, Span.shift, NodeTest.span_mapSpan]
  | filter span base predicates => exact span_mapSpan _ base
  | nodeTest test => exact span_mapSpan _ (nodeTest test)
  | _ => rfl

/-- Dots are the same at all places. -/
@[simp] theorem abbreviation?_mapSpan (f : Span → Span) (node : Node) :
    (node.mapSpan f).abbreviation? = node.abbreviation? := by
  cases node <;> rfl

/-- The predicates of a step go with it. -/
theorem ownPredicates_mapSpan (f : Span → Span) (node : Node) :
    (node.mapSpan f).ownPredicates = node.ownPredicates.map (mapSpan f) := by
  cases node <;> simp [mapSpan, ownPredicates, mapSpanAll_eq_map]

/-- **What is in front of a node only moves its step.** -/
theorem candidate?_shift {front : Text} (front' behind : Text) {node : Node} {tokens : List Token}
    (nested : node.Nested tokens) (le : front.length ≤ node.span.start) :
    candidate? (front' ++ behind) (node.mapSpan (Span.shift front.length front'.length)) =
      (candidate? (front ++ behind) node).map fun candidate =>
        { candidate with span := candidate.span.shift front.length front'.length } := by
  have own : (node.mapSpan (Span.shift front.length front'.length)).ownText (front' ++ behind) =
      node.ownText (front ++ behind) := by
    obtain ⟨within, lt⟩ := nested.ownSpan
    rw [Span.within_iff] at within
    rw [ownText_eq, ownText_eq, ownSpan_mapSpan, abbreviation?_mapSpan, Span.cut, Span.cut]
    exact congrArg node.abbreviation?.getD
      (Text.slice_shift front front' behind (by omega) (by omega))
  -- The predicates lie inside the node, so they move with it.
  have predicates : ((node.mapSpan (Span.shift front.length front'.length)).ownPredicates.map
      fun predicate => predicate.span.cutInside (front' ++ behind)) =
        node.ownPredicates.map fun predicate => predicate.span.cutInside (front ++ behind) := by
    rw [ownPredicates_mapSpan, List.map_map]
    refine List.map_congr_left fun predicate mem => ?_
    have mem := node.ownPredicates_sublist.subset mem
    have lt := (nested.row.nested predicate mem).root.start_lt_stop
    have within := nested.root.inside predicate mem
    rw [Span.within_iff] at within
    rw [Function.comp_apply, span_mapSpan, Span.cutInside_shift front front' behind (by omega) lt]
  rw [candidate?, candidate?, own, predicates, span_mapSpan]
  cases Step.of? (node.ownText (front ++ behind)) _ <;> rfl

/-- The steps of some nodes are those in front of one node, its own one and those behind it. -/
theorem exists_split_of_mapM {source : Text} {earlier later : List Node} {node : Node}
    {candidates : List Candidate}
    (h : (earlier ++ node :: later).mapM (candidate? source) = .ok candidates) :
    ∃ firsts candidate lasts, earlier.mapM (candidate? source) = .ok firsts ∧
      candidate? source node = .ok candidate ∧ later.mapM (candidate? source) = .ok lasts ∧
      candidates = firsts ++ candidate :: lasts := by
  rw [List.mapM_append] at h
  obtain ⟨firsts, firsts_made, h⟩ := bind_eq_ok_iff.1 h
  obtain ⟨others, others_made, h⟩ := bind_eq_ok_iff.1 h
  rw [List.mapM_cons] at others_made
  obtain ⟨candidate, made, others_made⟩ := bind_eq_ok_iff.1 others_made
  obtain ⟨lasts, lasts_made, others_made⟩ := bind_eq_ok_iff.1 others_made
  obtain rfl := Except.ok.inj others_made
  exact ⟨firsts, candidate, lasts, firsts_made, made, lasts_made, (Except.ok.inj h).symm⟩

/-- What is behind some nodes does not matter to their steps. -/
theorem mapM_candidate?_append {front behind : Text} {nodes : List Node} {tokens : List Token}
    (nested : ∀ node ∈ nodes, node.Nested tokens)
    (le : ∀ node ∈ nodes, node.span.stop ≤ front.length) :
    nodes.mapM (candidate? (front ++ behind)) = nodes.mapM (candidate? front) := by
  induction nodes with
  | nil => rfl
  | cons node nodes ih =>
    rw [List.forall_mem_cons] at nested le
    rw [List.mapM_cons, List.mapM_cons, candidate?_append nested.1 le.1, ih nested.2 le.2]

/-- What is in front of some nodes only moves their steps. -/
theorem mapM_candidate?_shift {front behind : Text} (front' : Text) {nodes : List Node}
    {tokens : List Token} (nested : ∀ node ∈ nodes, node.Nested tokens)
    (le : ∀ node ∈ nodes, front.length ≤ node.span.start) {candidates : List Candidate}
    (made : nodes.mapM (candidate? (front ++ behind)) = .ok candidates) :
    ∃ moved, (nodes.map (mapSpan (Span.shift front.length front'.length))).mapM
        (candidate? (front' ++ behind)) = .ok moved ∧
      moved.map (·.step) = candidates.map (·.step) := by
  induction nodes generalizing candidates with
  | nil =>
    obtain rfl := Except.ok.inj made
    exact ⟨[], rfl, rfl⟩
  | cons node nodes ih =>
    rw [List.forall_mem_cons] at nested le
    rw [List.mapM_cons] at made
    obtain ⟨first, first_made, made⟩ := bind_eq_ok_iff.1 made
    obtain ⟨others, others_made, made⟩ := bind_eq_ok_iff.1 made
    obtain rfl := Except.ok.inj made
    obtain ⟨moved, moved_made, steps_eq⟩ := ih nested.2 le.2 others_made
    have first_moved := candidate?_shift front' behind nested.1 le.1
    rw [first_made] at first_moved
    refine ⟨{ first with span := first.span.shift front.length front'.length } :: moved, ?_, ?_⟩
    · rw [List.map_cons, List.mapM_cons, first_moved, moved_made]
      rfl
    · rw [List.map_cons, List.map_cons, steps_eq]

end Node

end LocationPath
