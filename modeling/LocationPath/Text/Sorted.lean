import LocationPath.Text

/-! # Texts in ascending order

Lists of texts are sorted by insertion, so that closed lists can be sorted by evaluation in a proof.
Texts are compared by their characters, and these by their code points. No two different texts are
equally great, so lists with the same texts in any order are sorted to the same list.

Main definition: `Text.sorted`. Main result: `Text.sorted_eq_iff_perm`. -/

namespace LocationPath

namespace Text

variable {text : Text} {texts others : List Text}

/-- A list in ascending order with a further text at its place. -/
def insertInOrder (text : Text) : List Text → List Text
  | [] => [text]
  | other :: rest => if other < text then other :: insertInOrder text rest else text :: other :: rest

/-- The texts of a list in ascending order, each as often as before. -/
def sorted : List Text → List Text
  | [] => []
  | text :: rest => insertInOrder text (sorted rest)

/-- No text of a list stands in front of a lesser one. -/
def Ascending (texts : List Text) : Prop := texts.Pairwise fun text later => ¬later < text

/-- Insertion adds the text and nothing else. -/
theorem insertInOrder_perm (text : Text) (texts : List Text) :
    (insertInOrder text texts).Perm (text :: texts) := by
  induction texts with
  | nil => exact .refl _
  | cons other rest ih =>
    rw [insertInOrder]
    split
    · exact (ih.cons other).trans (.swap text other rest)
    · exact .refl _

/-- Insertion keeps the order. -/
theorem Ascending.insertInOrder (h : Ascending texts) : Ascending (insertInOrder text texts) := by
  unfold Ascending at *
  induction h with
  | nil => exact List.pairwise_singleton _ _
  | @cons other rest least ordered ih =>
    rw [Text.insertInOrder]
    split
    · rename_i lt
      refine .cons (fun further mem => ?_) ih
      obtain rfl | mem := List.mem_cons.1 ((insertInOrder_perm text rest).mem_iff.1 mem)
      · exact List.lt_asymm lt
      · exact least further mem
    · rename_i not_lt
      refine .cons (fun further mem => ?_) (.cons least ordered)
      obtain rfl | mem := List.mem_cons.1 mem
      · exact not_lt
      · exact List.not_lt.2 (List.le_trans (List.not_lt.1 not_lt) (List.not_lt.1 (least _ mem)))

/-- Sorting keeps all texts. -/
theorem sorted_perm (texts : List Text) : (sorted texts).Perm texts := by
  induction texts with
  | nil => exact .nil
  | cons text rest ih => exact (insertInOrder_perm text (sorted rest)).trans (ih.cons text)

/-- A sorted list is in order. -/
theorem ascending_sorted (texts : List Text) : Ascending (sorted texts) := by
  induction texts with
  | nil => exact .nil
  | cons text rest ih => exact ih.insertInOrder

/-- **Lists are sorted alike exactly if they hold the same texts equally often.** -/
theorem sorted_eq_iff_perm : sorted texts = sorted others ↔ texts.Perm others := by
  constructor
  · intro eq
    exact (sorted_perm texts).symm.trans (eq ▸ sorted_perm others)
  · intro perm
    have both : (sorted texts).Perm (sorted others) :=
      (sorted_perm texts).trans (perm.trans (sorted_perm others).symm)
    -- Both sorted lists are in order, and of two texts one is less unless they are the same.
    refine both.eq_of_pairwise (fun text other _ _ le ge => ?_) (ascending_sorted texts)
      (ascending_sorted others)
    exact List.le_antisymm (List.not_lt.1 le) (List.not_lt.1 ge)

end Text

end LocationPath
