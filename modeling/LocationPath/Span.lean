import LocationPath.Text

/-! # Spans

Where something stands in a text: from the position of its first character up to, but not including,
the position `stop`. -/

namespace LocationPath

/-- A place in a text. -/
structure Span where
  /-- The position of the first character. -/
  start : Nat
  /-- The position just past the last character. -/
  stop : Nat
  deriving DecidableEq, Repr, Inhabited

namespace Span

/-- The span from the start of the first to the end of the second. -/
def through (first last : Span) : Span := ⟨first.start, last.stop⟩

@[simp] theorem through_start (first last : Span) : (first.through last).start = first.start := rfl

@[simp] theorem through_stop (first last : Span) : (first.through last).stop = last.stop := rfl

/-- Whether the first span lies inside the second. -/
def within (inner outer : Span) : Bool := outer.start ≤ inner.start && inner.stop ≤ outer.stop

/-- A span is inside another one if it starts no earlier and ends no later. -/
theorem within_iff {inner outer : Span} :
    inner.within outer = true ↔ outer.start ≤ inner.start ∧ inner.stop ≤ outer.stop := by
  simp [within]

/-- Every span lies inside itself. -/
@[simp] theorem within_self (span : Span) : span.within span = true := by simp [within]

/-- A span inside a second one that is inside a third one is inside the third. -/
theorem within_trans {a b c : Span} (ab : a.within b = true) (bc : b.within c = true) :
    a.within c = true := by
  rw [within_iff] at *
  omega

/-- The characters of a text in a span. -/
def cut (span : Span) (text : Text) : Text := text.slice span.start span.stop

/-- The characters of a text in a span, without the first and the last one of the span. -/
def cutInside (span : Span) (text : Text) : Text := text.slice (span.start + 1) (span.stop - 1)

end Span

end LocationPath
