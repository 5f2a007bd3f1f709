import LocationPath.Proofs.Decomposition.Front
import LocationPath.Proofs.Decomposition.Walk
import Mathlib.Data.List.Basic

/-! # Predicates in the place of others

A step of an expression may get other predicates, and one of some predicates may be another one: what
stands in front stays, and what stands behind moves.

Main definitions: `Derivation.StepAt` and `Derivation.PredicateAt`. Main results:
`Derivation.hasStepsAt` and `Derivation.exists_predicateAt`. -/

namespace LocationPath

namespace Node

/-- The outermost steps of a tree go with it. -/
theorem outermost_mapSpan (f : Span → Span) (tree : Node) :
    (tree.mapSpan f).outermost = tree.outermost.map (mapSpan f) := by
  fun_induction outermost tree with
  | case1 _ _ _ ih | case3 _ _ _ ih => exact ih
  | case2 span left op right ihl ihr => rw [mapSpan, outermost, ihl, ihr, List.map_append]
  | case4 | case5 | case6 => rfl
  | _ => rfl

mutual

/-- The steps that the walk comes to go with the tree. -/
theorem walked_mapSpan (f : Span → Span) : (tree : Node) →
    (tree.mapSpan f).walked = tree.walked.map (mapSpan f)
  | .unary _ _ operand | .absolute _ _ operand => operand.walked_mapSpan f
  | .binary _ left _ right => by
    rw [mapSpan, walked, walked, left.walked_mapSpan f, right.walked_mapSpan f, List.map_append]
  | .filter _ base _ => by
    rw [mapSpan, walked, walked, base.walked_mapSpan f, List.map_append]
    rfl
  | .call _ _ _ trees | .sequence _ trees => by
    rw [mapSpan, walked, walked, walkedOfAll_mapSpanAll f trees, List.map_append]
    rfl
  | .predicate _ _ | .root _ _ | .nodeTest _ | .step _ _ _ _ | .dots _ _ _ | .variable _ _ _
  | .literal _ _ => rfl

/-- The steps that the walk comes to in several trees go with the trees. -/
theorem walkedOfAll_mapSpanAll (f : Span → Span) : (trees : List Node) →
    walkedOfAll (mapSpanAll f trees) = (walkedOfAll trees).map (mapSpan f)
  | [] => rfl
  | tree :: rest => by
    rw [mapSpanAll, walkedOfAll, walkedOfAll, tree.walked_mapSpan f, walkedOfAll_mapSpanAll f rest,
      List.map_append]

end

end Node

namespace Derivation

/-! ## A step with other predicates -/

/-- One of the outermost steps of an expression is a front with predicates, between other steps. It
may get other predicates, and then the steps behind it are moved. -/
structure StepAt {level : Level} (derivation : Derivation (.level level)) (earlier later : List Node)
    (front : Front) (conditions : Derivation .predicates) (before behind : List Token) : Prop where
  tokens_eq : derivation.tokens = before ++ ((front.step conditions).tokens ++ behind)
  /-- The front may have other predicates. -/
  exists_refilled (starts stops : Nat → Nat) (conditions' : Derivation .predicates) :
    ∃ refilled : Derivation (.level level),
      refilled.tokens = before ++ ((front.step conditions').tokens ++
        behind.map (Token.move starts stops)) ∧
      Node.outermost refilled.value = earlier ++
        (front.step conditions').value :: later.map (Node.mapSpan (Span.move starts stops))

/-- What `hasStepsAt` says of one derivation. -/
def HasStepsAt : {phrase : Phrase} → Derivation phrase → Prop
  | .level _, derivation => ∀ earlier node later,
    Node.outermost derivation.value = earlier ++ node :: later →
      ∃ front conditions before behind, (front.step conditions).value = node ∧
        derivation.StepAt earlier later front conditions before behind
  | _, _ => True

/-- A step inside a part of an expression is one of the expression if nothing else is around the
part but some tokens in front of it. -/
private theorem HasStepsAt.of_part {part whole : Level} {inner : Derivation (.level part)}
    {derivation : Derivation (.level whole)} (h : inner.HasStepsAt) (front : List Token)
    (wrap : Derivation (.level part) → Derivation (.level whole))
    (eq : derivation = wrap inner)
    (tokens_wrap : ∀ other, (wrap other).tokens = front ++ other.tokens)
    (outermost_wrap : ∀ other, Node.outermost (wrap other).value = Node.outermost other.value) :
    derivation.HasStepsAt := by
  subst eq
  intro earlier node later outermost_eq
  rw [outermost_wrap] at outermost_eq
  obtain ⟨head, conditions, before, behind, value_eq, tokens_eq, refill⟩ :=
    h earlier node later outermost_eq
  -- The part is refilled and put back behind the same tokens.
  refine ⟨head, conditions, front ++ before, behind, value_eq, ?_, fun starts stops conditions' => ?_⟩
  · rw [tokens_wrap, tokens_eq, List.append_assoc]
  · obtain ⟨refilled, refilled_tokens, refilled_outermost⟩ := refill starts stops conditions'
    refine ⟨wrap refilled, ?_, ?_⟩
    · rw [tokens_wrap, refilled_tokens, List.append_assoc]
    · rw [outermost_wrap, refilled_outermost]

/-- A single step is the only one. -/
private theorem hasStepsAt_step (derivation : Derivation (.level .step)) :
    derivation.HasStepsAt := by
  intro earlier node later outermost_eq
  obtain ⟨front, conditions, rfl⟩ := Front.exists_step derivation
  rw [Front.outermost_step] at outermost_eq
  obtain ⟨rfl, rfl, rfl⟩ : earlier = [] ∧ node = (front.step conditions).value ∧ later = [] := by
    cases earlier with
    | nil =>
      obtain ⟨eq, empty⟩ := List.cons.inj outermost_eq
      exact ⟨rfl, eq.symm, empty.symm⟩
    | cons first rest => simp at outermost_eq
  refine ⟨front, conditions, [], [], rfl, by simp, fun starts stops conditions' =>
    ⟨front.step conditions', by simp, ?_⟩⟩
  rw [Front.outermost_step]
  rfl

/-- What is a step of the last operand is one of the chain. -/
private theorem StepAt.right {chain : Chain} {left : Derivation (.level (.chain chain))} {op : Token}
    {joins : chain.joins op.lexeme = true} {right : Derivation (.level chain.operand)}
    {earlier later : List Node} {front : Front} {conditions : Derivation .predicates}
    {before behind : List Token} (h : right.StepAt earlier later front conditions before behind) :
    (link left op joins right).StepAt (Node.outermost left.value ++ earlier) later front conditions
      (left.tokens ++ op :: before) behind := by
  refine ⟨?_, fun starts stops conditions' => ?_⟩
  · rw [tokens, h.tokens_eq]
    simp
  · obtain ⟨refilled, tokens_eq, outermost_eq⟩ := h.exists_refilled starts stops conditions'
    refine ⟨.link left op joins refilled, ?_, ?_⟩
    · rw [tokens, tokens_eq]
      simp
    · rw [value, Node.outermost, outermost_eq, List.append_assoc]

/-- What is a step in front of the last operand is one of the chain, and the last operand moves. -/
private theorem StepAt.left {chain : Chain} {left : Derivation (.level (.chain chain))} {op : Token}
    {joins : chain.joins op.lexeme = true} {right : Derivation (.level chain.operand)}
    {earlier later : List Node} {front : Front} {conditions : Derivation .predicates}
    {before behind : List Token} (h : left.StepAt earlier later front conditions before behind) :
    (link left op joins right).StepAt earlier (later ++ Node.outermost right.value) front conditions
      before (behind ++ op :: right.tokens) := by
  refine ⟨?_, fun starts stops conditions' => ?_⟩
  · rw [tokens, h.tokens_eq]
    simp
  · obtain ⟨refilled, tokens_eq, outermost_eq⟩ := h.exists_refilled starts stops conditions'
    refine ⟨.link refilled (op.move starts stops) joins (right.move starts stops), ?_, ?_⟩
    · show refilled.tokens ++ op.move starts stops :: (right.move starts stops).tokens = _
      rw [tokens_eq, tokens_move]
      simp
    · show Node.outermost refilled.value ++ Node.outermost (right.move starts stops).value = _
      rw [outermost_eq, value_move_level, Node.outermost_mapSpan]
      simp

/-- Every step of an expression may get other predicates. -/
theorem hasStepsAt {phrase : Phrase} (derivation : Derivation phrase) : derivation.HasStepsAt := by
  induction derivation with
  | operand only ih => exact ih.of_part [] .operand rfl (fun _ => rfl) fun _ => rfl
  | unnegated only ih => exact ih.of_part [] .unnegated rfl (fun _ => rfl) fun _ => rfl
  | relative only ih => exact ih.of_part [] .relative rfl (fun _ => rfl) fun _ => rfl
  | negated minus only ih =>
    exact ih.of_part [⟨.minus, minus⟩] (.negated minus) rfl (fun _ => rfl) fun _ => rfl
  | absolute slash only ih =>
    exact ih.of_part [⟨.slash, slash⟩] (.absolute slash) rfl (fun _ => rfl) fun _ => rfl
  | anywhere slashes only ih =>
    exact ih.of_part [⟨.slashes, slashes⟩] (.anywhere slashes) rfl (fun _ => rfl) fun _ => rfl
  | link left op joins right ihl ihr =>
    intro earlier node later outermost_eq
    replace outermost_eq : Node.outermost left.value ++ Node.outermost right.value =
      earlier ++ node :: later := outermost_eq
    -- The node is a step of the last operand, or else the last operand is moved as a whole.
    obtain ⟨earlier', rfl, right_eq⟩ | ⟨rest, left_eq, rest_eq⟩ :=
      List.append_eq_append_iff.1 outermost_eq
    · obtain ⟨front, conditions, before, behind, value_eq, at_right⟩ := ihr earlier' node later right_eq
      exact ⟨front, conditions, _, _, value_eq, at_right.right⟩
    · cases rest with
      | nil =>
        obtain ⟨front, conditions, before, behind, value_eq, at_right⟩ := ihr [] node later rest_eq.symm
        have inside : (link left op joins right).StepAt _ _ _ _ _ _ := at_right.right
        rw [left_eq, List.append_nil, List.append_nil] at inside
        exact ⟨front, conditions, _, _, value_eq, inside⟩
      | cons first later' =>
        obtain ⟨rfl, rfl⟩ := List.cons.inj rest_eq
        obtain ⟨front, conditions, before, behind, value_eq, at_left⟩ := ihl earlier node later' left_eq
        exact ⟨front, conditions, _, _, value_eq, at_left.left⟩
  | root slash => exact fun earlier node later eq => absurd eq (by simp [value, Node.outermost])
  | axisStep step | filterStep step => exact hasStepsAt_step _
  | _ => trivial

/-! ## Another predicate among others -/

/-- One of some predicates stands behind a list of others. There may be another one in its place, and
then the predicates behind it are moved. -/
structure PredicateAt (conditions : Derivation .predicates) (earlier later : List Node)
    (preceding : Derivation .predicates) (predicate : Derivation .predicate)
    (behind : List Token) : Prop where
  preceding_eq : preceding.value = earlier
  tokens_eq : conditions.tokens = preceding.tokens ++ (predicate.tokens ++ behind)
  /-- There may be another predicate. -/
  exists_replaced (starts stops : Nat → Nat) (predicate' : Derivation .predicate) :
    ∃ replaced : Derivation .predicates,
      replaced.tokens = preceding.tokens ++ (predicate'.tokens ++
        behind.map (Token.move starts stops)) ∧
      replaced.value = earlier ++ predicate'.value :: later.map (Node.mapSpan (Span.move starts stops))

/-- Every predicate stands behind a list of others. -/
theorem exists_predicateAt : (conditions : Derivation .predicates) →
    ∀ earlier node later, conditions.value = earlier ++ node :: later →
      ∃ preceding predicate behind, Derivation.value predicate = node ∧
        conditions.PredicateAt earlier later preceding predicate behind
  | .noPredicate, earlier, node, later, eq => absurd eq (by simp [value])
  | .morePredicates first last, earlier, node, later, eq => by
    replace eq : first.value ++ [last.value] = earlier ++ node :: later := eq
    -- The grammar adds predicates at the end, so the cases are whether the node is the last one.
    rcases List.eq_nil_or_concat' later with rfl | ⟨later, final, rfl⟩
    · obtain ⟨first_eq, last_eq⟩ := List.append_inj' eq rfl
      refine ⟨first, last, [], List.singleton_inj.1 last_eq, first_eq, by simp [tokens],
        fun starts stops predicate' => ⟨.morePredicates first predicate', by simp [tokens], ?_⟩⟩
      rw [value, first_eq]
      rfl
    · rw [← List.cons_append, ← List.append_assoc] at eq
      obtain ⟨first_eq, last_eq⟩ := List.append_inj' eq rfl
      obtain ⟨preceding, predicate, behind, value_eq, at_first⟩ :=
        first.exists_predicateAt earlier node later first_eq
      refine ⟨preceding, predicate, behind ++ last.tokens, value_eq, at_first.preceding_eq, ?_,
        fun starts stops predicate' => ?_⟩
      · rw [tokens, at_first.tokens_eq]
        simp
      · obtain ⟨replaced, tokens_eq, value_eq⟩ := at_first.exists_replaced starts stops predicate'
        refine ⟨.morePredicates replaced (last.move starts stops), ?_, ?_⟩
        · rw [tokens, tokens_eq, tokens_move]
          simp
        · have moved := last.value_move starts stops
          rw [value, value_eq, moved, ← List.singleton_inj.1 last_eq]
          simp [Phrase.moveValue]

end Derivation

end LocationPath
