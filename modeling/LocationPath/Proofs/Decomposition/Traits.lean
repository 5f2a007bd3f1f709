import LocationPath.Proofs.Decomposition.LastAttribute
import LocationPath.Proofs.Decomposition.Refilling
import Mathlib.Data.List.DropRight

/-! # What does not depend on predicates

Whether an accepted text can be taken apart, and what is recorded of its attribute, depends on little
of the outermost steps: not on their texts, nor on their places, nor on their predicates.

Main definition: `Node.traits`. Main results: `Front.traits_step` (predicates do not matter) and
`PathInfo.exists_parse_of_traits_eq` (nothing but the traits matters). -/

namespace LocationPath

namespace Node

/-- What the walk through a node takes note of besides steps. -/
structure Traits where
  /-- Whether the walk comes to a name of Ogham spaces. -/
  holdsOgham : Bool
  /-- Whether the node itself is an attribute step. -/
  isAttributeStep : Bool
  /-- The names of the attribute steps that the walk comes to. -/
  names : List Text

/-- The name that is noted of an attribute step. -/
def attributeName? (node : Node) : Option Text := node.attributeStep?.map (·.name)

/-- What the walk through a node takes note of besides steps. -/
def traits (node : Node) : Traits :=
  ⟨node.walked.any isOghamStep, node.isAttributeStep, node.attributeSteps.filterMap attributeName?⟩

/-! ## Other places -/

/-- The name of an attribute step is the same at all places. -/
@[simp] theorem attributeName?_mapSpan (f : Span → Span) (node : Node) :
    (node.mapSpan f).attributeName? = node.attributeName? := by
  cases node with
  | step span axis test predicates =>
    cases axis <;> simp [mapSpan, attributeName?, attributeStep?]
  | _ => rfl

/-- A step is an attribute step if its name is noted. -/
theorem isAttributeStep_eq (node : Node) : node.isAttributeStep = node.attributeName?.isSome := by
  rw [isAttributeStep, attributeName?, Option.isSome_map]

/-- An attribute step is one at all places. -/
@[simp] theorem isAttributeStep_mapSpan (f : Span → Span) (node : Node) :
    (node.mapSpan f).isAttributeStep = node.isAttributeStep := by
  rw [isAttributeStep_eq, attributeName?_mapSpan, ← isAttributeStep_eq]

/-- A name of Ogham spaces is one at all places. -/
@[simp] theorem isOghamStep_mapSpan (f : Span → Span) (node : Node) :
    (node.mapSpan f).isOghamStep = node.isOghamStep := by
  cases node with
  | step span axis test predicates =>
    cases test with
    | name place qualifier name => cases axis <;> cases qualifier <;> rfl
    | type => cases axis <;> rfl
  | _ => rfl

/-- **The place of a node does not matter.** -/
@[simp] theorem traits_mapSpan (f : Span → Span) (node : Node) :
    (node.mapSpan f).traits = node.traits := by
  have ogham : isOghamStep ∘ mapSpan f = isOghamStep := funext (isOghamStep_mapSpan f)
  have signed : isAttributeStep ∘ mapSpan f = isAttributeStep := funext (isAttributeStep_mapSpan f)
  have named : attributeName? ∘ mapSpan f = attributeName? := funext (attributeName?_mapSpan f)
  rw [traits, traits, attributeSteps, attributeSteps, walked_mapSpan, List.any_map, List.filter_map,
    List.filterMap_map, isAttributeStep_mapSpan, ogham, signed, named]

end Node

/-! ## Other predicates -/

/-- The traits of a step with a primary expression as its front. -/
private theorem Front.traits_step_primary (base : Derivation .primary)
    (conditions : Derivation .predicates) :
    Node.traits ((Front.primary base).step conditions).value =
      ⟨(Node.walked base.value).any Node.isOghamStep, false,
        (Node.attributeSteps base.value).filterMap Node.attributeName?⟩ := by
  simp only [step, Derivation.value]
  -- Without predicates the node is the base itself; the walk comes to the same steps in both cases.
  split
  · cases base <;> rfl
  · simp [Node.traits, Node.attributeSteps, Node.walked, Node.isOghamStep, Node.isAttributeStep,
      Node.attributeStep?]

/-- **The predicates of a step do not matter.** -/
theorem Front.traits_step (front : Front) (conditions conditions' : Derivation .predicates) :
    Node.traits (front.step conditions).value = Node.traits (front.step conditions').value := by
  cases front with
  | primary base => rw [traits_step_primary, traits_step_primary]
  | unwritten test =>
    cases test with
    | nameTest name => cases name <;> rfl
    | _ => rfl
  | _ => rfl

/-! ## What is recorded -/

namespace PathInfo

/-- An accepted text can be taken apart if no outermost step holds a name of Ogham spaces. -/
theorem exists_parse_iff {text : Text} {tree : Node} (parsed : Node.parse text = .ok tree) :
    (∃ info, parse text = .ok info) ↔
      ∀ traits ∈ tree.outermost.map Node.traits, traits.holdsOgham = false := by
  have walked : (∀ node ∈ tree.walked, node.isOghamStep = false) ↔
      ∀ traits ∈ tree.outermost.map Node.traits, traits.holdsOgham = false := by
    rw [Node.walked_eq_flatMap]
    simp only [List.mem_flatMap, List.forall_mem_map, Node.traits, List.any_eq_false]
    grind
  rw [← walked]
  obtain ⟨⟨node, mem, ogham⟩, failed⟩ | ⟨clear, info, taken⟩ := parse_cases parsed
  · refine ⟨fun ⟨info, taken⟩ => ?_, fun clear => ?_⟩
    · rw [failed] at taken
      contradiction
    · rw [clear node mem] at ogham
      contradiction
  · exact ⟨fun _ => clear, fun _ => ⟨info, taken⟩⟩

/-- What is dropped at the end of a list does not matter to what is dropped in front of it. -/
theorem rdropWhile_append_of_all {α : Type} {p : α → Bool} {front behind : List α}
    (all : ∀ a ∈ behind, p a = true) : (front ++ behind).rdropWhile p = front.rdropWhile p := by
  rw [List.rdropWhile, List.reverse_append,
    List.dropWhile_append_of_pos fun a mem => all a (List.mem_reverse.1 mem), List.rdropWhile]

/-- The traits of some nodes up to the last one with an attribute step. -/
def upToAttribute (traits : List Node.Traits) : List Node.Traits :=
  traits.rdropWhile (·.names.isEmpty)

/-- **What is recorded of the attribute is read off the traits** up to the last attribute step. -/
theorem Records.eq_of_traits {info : PathInfo} {text : Text} {nodes : List Node}
    (h : info.Records text nodes) {traits : List Node.Traits}
    (eq : upToAttribute (nodes.map Node.traits) = traits) :
    info.attributeName = traits.getLast?.bind (·.names.getLast?) ∧
      info.attributeIndex = traits.getLast?.bind fun last =>
        if last.isAttributeStep then some ((traits.length - 1 : Nat) : Int) else none := by
  have empty : ∀ {others : List Node}, (∀ other ∈ others, other.attributeSteps = []) →
      ∀ traits ∈ others.map Node.traits, traits.names.isEmpty = true := by
    intro others none_there
    refine List.forall_mem_map.2 fun other mem => ?_
    rw [Node.traits, none_there other mem]
    rfl
  cases h with
  | nothing none_found name index path =>
    rw [upToAttribute, List.rdropWhile_eq_nil_iff.2 (empty none_found)] at eq
    subst eq
    exact ⟨name, index⟩
  | @last earlier later node last latest nodes_eq none_later last_eq noted name index path =>
    obtain ⟨front, steps_eq⟩ := List.getLast?_eq_some_iff.1 last_eq
    have names : node.traits.names = front.filterMap Node.attributeName? ++ [latest.name] := by
      rw [Node.traits, steps_eq, List.filterMap_append]
      simp [Node.attributeName?, noted]
    obtain rfl : traits = earlier.map Node.traits ++ [node.traits] := by
      rw [← eq, nodes_eq, List.map_append, List.map_cons, List.append_cons, upToAttribute,
        rdropWhile_append_of_all (empty none_later), List.rdropWhile_concat_neg]
      simp [names]
    rw [List.getLast?_concat, Option.bind_some, Option.bind_some, names, List.getLast?_concat]
    refine ⟨name, ?_⟩
    rw [index]
    simp [Node.traits]

/-- **Nothing but the traits matters.** If the outermost steps of two accepted texts have the same
traits, then the second text can be taken apart if the first one can, and the same is recorded of
its attribute. -/
theorem exists_parse_of_traits_eq {text text' : Text} {tree tree' : Node} {info : PathInfo}
    (parsed : Node.parse text = .ok tree) (parsed' : Node.parse text' = .ok tree')
    (h : parse text = .ok info)
    (same : tree'.outermost.map Node.traits = tree.outermost.map Node.traits) :
    ∃ info', parse text' = .ok info' ∧ info'.attributeName = info.attributeName ∧
      info'.attributeIndex = info.attributeIndex := by
  have clear := (exists_parse_iff parsed).1 ⟨info, h⟩
  obtain ⟨info', h'⟩ := (exists_parse_iff parsed').2 (same ▸ clear)
  obtain ⟨derivation, tokenized, rfl⟩ := Node.parse_eq_ok_iff_exists.1 parsed
  obtain ⟨derivation', tokenized', rfl⟩ := Node.parse_eq_ok_iff_exists.1 parsed'
  obtain ⟨name, index⟩ := (records derivation tokenized h).eq_of_traits rfl
  obtain ⟨name', index'⟩ := (records derivation' tokenized' h').eq_of_traits
    (congrArg upToAttribute same)
  exact ⟨info', h', name'.trans name.symm, index'.trans index.symm⟩

end PathInfo

end LocationPath
