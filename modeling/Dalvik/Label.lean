/-!
# Labels

A label is a symbolic position in a method that is being edited.  It remembers the draft that
issued it, so a label of another draft is recognised, and its number among the labels of that
draft.
-/

namespace Dalvik

/-- A symbolic position in a draft. -/
structure Label where
  /-- Identity of the draft that issued the label. -/
  draft : Nat
  /-- Number of the label; a draft numbers its labels from zero. -/
  number : Nat
  deriving DecidableEq, Inhabited

/-- How a label is written. -/
def Label.name (label : Label) : String := "l" ++ toString label.number

end Dalvik
