import LocationPath.Proofs.Decomposition.Joined
import Mathlib.Data.Char
import Mathlib.Data.List.Lex
import Mathlib.Data.Prod.Lex

/-! # Equality and order of steps

Steps are equivalent exactly if their keys are the same, so equivalence does not look at the order of
predicates. The order of steps does: it compares the predicates as they are written, brackets and
all. It is a linear order of what steps are written as, but it fits to the equivalence only where
equivalent steps, and no others, are written alike.

Main definitions: `Step.orderKey`, `Step.WrittenAlike` and `ExactlyOne`. Main results:
`Step.isEquivalent_equivalence`, `Step.comparisons_agree_iff` and `Step.Readable.eq_of_writtenAlike`
(of the steps of accepted texts only equal ones are written alike). -/

namespace LocationPath

/-- One of three statements holds, and the other two do not. -/
def ExactlyOne (p q r : Prop) : Prop := p ∧ ¬q ∧ ¬r ∨ ¬p ∧ q ∧ ¬r ∨ ¬p ∧ ¬q ∧ r

namespace Step

variable {a b : Step}

/-! ## Equality -/

/-- Steps have the same key when their texts are the same and their predicates are a permutation of
each other. -/
theorem key_eq_iff : a.key = b.key ↔ a.text = b.text ∧ a.predicates.Perm b.predicates := by
  rw [key, key, Prod.mk.injEq, Text.sorted_eq_iff_perm]

/-- The key tells a step but for equivalence. -/
theorem isEquivalent_iff_key_eq : a.isEquivalent b = true ↔ a.key = b.key :=
  isEquivalent_iff.trans key_eq_iff.symm

/-- Equivalence goes both ways. -/
theorem isEquivalent_comm : a.isEquivalent b = true ↔ b.isEquivalent a = true := by
  rw [isEquivalent_iff_key_eq, isEquivalent_iff_key_eq]
  exact eq_comm

/-- **Steps are equivalent exactly if their texts are the same and the predicates of one are a
permutation of those of the other.** This is an equivalence relation, and the key of a step is a
canonical form for it. -/
theorem isEquivalent_equivalence :
    (∀ a b : Step, a.isEquivalent b = true ↔
      a.text = b.text ∧ a.predicates.Perm b.predicates) ∧
    Equivalence (fun a b : Step => a.isEquivalent b = true) ∧
    ∀ a b : Step, a.isEquivalent b = true ↔ a.key = b.key := by
  refine ⟨fun _ _ => isEquivalent_iff, ⟨isEquivalent_self, isEquivalent_comm.1, ?_⟩,
    fun _ _ => isEquivalent_iff_key_eq⟩
  intro a b c ab bc
  -- Through the keys, what is left is that equality is transitive.
  rw [isEquivalent_iff_key_eq] at ab bc ⊢
  exact ab.trans bc

/-! ## Order -/

/-- What the order of steps compares: the text, and then the text of the predicates. -/
def orderKey (step : Step) : Text ×ₗ Text := toLex (step.text, step.predicateText)

/-- Two steps have the same text and the same text of the predicates. -/
def WrittenAlike (a b : Step) : Prop := a.text = b.text ∧ a.predicateText = b.predicateText

/-- A step goes before another one if its text does, or the text of its predicates where the texts
are the same. -/
theorem precedes_iff : a.precedes b = true ↔ a.orderKey < b.orderKey := by
  rw [orderKey, orderKey, Prod.Lex.toLex_lt_toLex]
  simp only [precedes, Bool.or_eq_true, Bool.and_eq_true, decide_eq_true_eq, beq_iff_eq]

/-- Steps that are written alike are not told apart by the order. -/
theorem writtenAlike_iff : a.WrittenAlike b ↔ a.orderKey = b.orderKey := by
  unfold WrittenAlike orderKey
  rw [toLex_inj, Prod.mk.injEq]

/-- **Of two steps one goes before the other, or they are written alike.** -/
theorem precedes_trichotomy (a b : Step) :
    ExactlyOne (a.precedes b = true) (a.WrittenAlike b) (b.precedes a = true) := by
  rw [precedes_iff, precedes_iff, writtenAlike_iff]
  rcases lt_trichotomy a.orderKey b.orderKey with before | same | behind
  · exact .inl ⟨before, before.ne, before.not_gt⟩
  · exact .inr (.inl ⟨same.not_lt, same, same.not_gt⟩)
  · exact .inr (.inr ⟨behind.not_gt, behind.ne', behind⟩)

/-- A step is at most another one if it goes before it or is equivalent to it. -/
theorem isAtMost_iff : a.isAtMost b = true ↔ a.precedes b = true ∨ a.isEquivalent b = true := by
  rw [isAtMost, Bool.or_eq_true]

/-- A step is at least another one if it does not go before it. -/
theorem isAtLeast_iff : a.isAtLeast b = true ↔ ¬a.precedes b = true := by
  rw [isAtLeast, Bool.not_eq_true', Bool.not_eq_true]

/-- A step follows another one if it neither goes before it nor is equivalent to it. -/
theorem follows_iff :
    a.follows b = true ↔ ¬a.precedes b = true ∧ ¬a.isEquivalent b = true := by
  rw [follows, Bool.and_eq_true, Bool.not_eq_true', Bool.not_eq_true', Bool.not_eq_true,
    Bool.not_eq_true]

/-! ## Where order and equivalence fit together -/

/-- A step goes before another one, is equivalent to it or goes behind it, and only one of these,
exactly if equivalence does not differ from being written alike. -/
theorem exactlyOne_iff :
    ExactlyOne (a.precedes b = true) (a.isEquivalent b = true) (b.precedes a = true) ↔
      (a.isEquivalent b = true ↔ a.WrittenAlike b) := by
  unfold ExactlyOne
  -- Where one step goes before the other they must not be equivalent, and else they must be.
  obtain ⟨before, alike, behind⟩ | ⟨before, alike, behind⟩ | ⟨before, alike, behind⟩ :=
    precedes_trichotomy a b
  all_goals simp [before, alike, behind]

/-- To follow a step is to go behind it, for both of two steps, exactly if equivalence does not
differ from being written alike. -/
theorem follows_iff_precedes_iff :
    (a.follows b = true ↔ b.precedes a = true) ∧ (b.follows a = true ↔ a.precedes b = true) ↔
      (a.isEquivalent b = true ↔ a.WrittenAlike b) := by
  rw [follows_iff, follows_iff, @isEquivalent_comm b a]
  obtain ⟨before, alike, behind⟩ | ⟨before, alike, behind⟩ | ⟨before, alike, behind⟩ :=
    precedes_trichotomy a b
  all_goals simp [before, alike, behind]

/-- Each of two steps is at most the other one if this is at least it, exactly if equivalence does not
differ from being written alike. -/
theorem isAtMost_iff_isAtLeast_iff :
    (a.isAtMost b = true ↔ b.isAtLeast a = true) ∧
        (b.isAtMost a = true ↔ a.isAtLeast b = true) ↔
      (a.isEquivalent b = true ↔ a.WrittenAlike b) := by
  rw [isAtMost_iff, isAtMost_iff, isAtLeast_iff, isAtLeast_iff, @isEquivalent_comm b a]
  obtain ⟨before, alike, behind⟩ | ⟨before, alike, behind⟩ | ⟨before, alike, behind⟩ :=
    precedes_trichotomy a b
  all_goals simp [before, alike, behind]

/-- Steps are at most each other exactly if they are equivalent. -/
theorem isAtMost_antisymm_iff :
    a.isAtMost b = true ∧ b.isAtMost a = true ↔ a.isEquivalent b = true := by
  rw [isAtMost_iff, isAtMost_iff, @isEquivalent_comm b a, ← and_or_right, or_iff_right_iff_imp]
  rintro ⟨before, behind⟩
  exact absurd (precedes_iff.1 behind) (precedes_iff.1 before).not_gt

/-- **Two steps compare as in a linear order exactly if they are equivalent and written alike, or
neither.** In any case one goes before the other or they are written alike, and they are at most each
other if they are equivalent. But that one of them goes before the other or they are equivalent, and
only one of these, that the one which goes behind follows, and that one is at most the other if this
is at least it, are all the same condition. -/
theorem comparisons_agree_iff (a b : Step) :
    ExactlyOne (a.precedes b = true) (a.WrittenAlike b) (b.precedes a = true) ∧
    (ExactlyOne (a.precedes b = true) (a.isEquivalent b = true) (b.precedes a = true) ↔
      (a.isEquivalent b = true ↔ a.WrittenAlike b)) ∧
    ((a.follows b = true ↔ b.precedes a = true) ∧ (b.follows a = true ↔ a.precedes b = true) ↔
      (a.isEquivalent b = true ↔ a.WrittenAlike b)) ∧
    ((a.isAtMost b = true ↔ b.isAtLeast a = true) ∧
        (b.isAtMost a = true ↔ a.isAtLeast b = true) ↔
      (a.isEquivalent b = true ↔ a.WrittenAlike b)) ∧
    (a.isAtMost b = true ∧ b.isAtMost a = true ↔ a.isEquivalent b = true) :=
  ⟨precedes_trichotomy a b, exactlyOne_iff, follows_iff_precedes_iff, isAtMost_iff_isAtLeast_iff,
    isAtMost_antisymm_iff⟩

/-- Steps with the same predicates in different order are equivalent although one of them goes before
the other, so that the other one does not follow it. -/
theorem precedes_of_reordered : ∃ a b : Step, a.text = "a".toList ∧ b.text = "a".toList ∧
    a.predicates = ["x".toList, "y".toList] ∧ b.predicates = ["y".toList, "x".toList] ∧
      a.isEquivalent b = true ∧ a.precedes b = true ∧
      ¬ExactlyOne (a.precedes b = true) (a.isEquivalent b = true) (b.precedes a = true) ∧
      ¬(b.follows a = true ↔ a.precedes b = true) ∧
      ¬(b.isAtMost a = true ↔ a.isAtLeast b = true) := by
  let a : Step := ⟨"a".toList, ["x".toList, "y".toList], by decide +kernel, by decide⟩
  let b : Step := ⟨"a".toList, ["y".toList, "x".toList], by decide +kernel, by decide⟩
  -- Sorted, the predicates are the same; as they are written, `[x][y]` goes before `[y][x]`.
  have equivalent : a.isEquivalent b = true := by decide
  have before : a.precedes b = true := by decide
  refine ⟨a, b, rfl, rfl, rfl, rfl, equivalent, before, ?_, by decide, by decide⟩
  simp [ExactlyOne, equivalent, before]

/-- Predicates with brackets can be written like others that they are not equivalent to. -/
example : ∃ a b : Step, a.predicates = ["x][y".toList] ∧ b.predicates = ["x".toList, "y".toList] ∧
    a.WrittenAlike b ∧ a.isEquivalent b = false :=
  ⟨⟨"a".toList, ["x][y".toList], by decide +kernel, by decide⟩,
    ⟨"a".toList, ["x".toList, "y".toList], by decide +kernel, by decide⟩,
    rfl, rfl, ⟨rfl, rfl⟩, by decide⟩

/-! ## Steps of accepted texts -/

/-- **Readable steps that are written alike are equal**: their brackets can be told apart. -/
theorem Readable.eq_of_writtenAlike (readable : a.Readable) (readable' : b.Readable)
    (alike : a.WrittenAlike b) : a = b := by
  have text_eq : a.toText = b.toText := by rw [toText, toText, alike.1, alike.2]
  -- Alone, a readable step is a path with this one step, so that its text tells the step.
  have read : ∀ step : Step, step.Readable → Path.steps step.toText = .ok [step] := by
    intro step readable
    have := Path.steps_intercalate (List.cons_ne_nil step []) (by simpa using readable)
    simpa [List.intercalate] using this
  have both := (read a readable).symm.trans (text_eq ▸ read b readable')
  exact List.head_eq_of_cons_eq (Except.ok.inj both)

/-- **The comparisons of steps of accepted texts agree** exactly for steps that do not have the same
predicates in different order. -/
theorem Readable.exactlyOne_iff (readable : a.Readable) (readable' : b.Readable) :
    ExactlyOne (a.precedes b = true) (a.isEquivalent b = true) (b.precedes a = true) ↔
      (a.isEquivalent b = true → a = b) := by
  rw [Step.exactlyOne_iff]
  constructor
  · intro agree equivalent
    exact readable.eq_of_writtenAlike readable' (agree.1 equivalent)
  · intro equal
    constructor
    · intro equivalent
      rw [equal equivalent]
      exact ⟨rfl, rfl⟩
    · intro alike
      rw [readable.eq_of_writtenAlike readable' alike]
      exact isEquivalent_self b

end Step

end LocationPath
