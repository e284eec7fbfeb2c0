/-!
# Attachments

Most positions in a method carry no label and no debug item, so what is attached to a position is
either absent or a nonempty sequence.  Every operation keeps the two apart: a sequence that runs
empty becomes absent, hence two attachments are equal exactly if they hold the same items.
-/

namespace Dalvik

/-- Items attached to a position. -/
structure Attached (α : Type) where
  /-- The items, if there are any. -/
  items? : Option (Array α)
  deriving DecidableEq

namespace Attached

variable {α : Type}

/-- Nothing attached. -/
def empty : Attached α := ⟨none⟩

instance : Inhabited (Attached α) := ⟨empty⟩

instance : EmptyCollection (Attached α) := ⟨empty⟩

/-- The items in order. -/
def toList : Attached α → List α
  | ⟨none⟩ => []
  | ⟨some items⟩ => items.toList

/-- Number of items. -/
def size : Attached α → Nat
  | ⟨none⟩ => 0
  | ⟨some items⟩ => items.size

/-- Whether nothing is attached. -/
def isEmpty (a : Attached α) : Bool := a.size == 0

/-- Attaches an item behind the others. -/
def push : Attached α → α → Attached α
  | ⟨none⟩, x => ⟨some #[x]⟩
  | ⟨some items⟩, x => ⟨some (items.push x)⟩

/-- Keeps the items that satisfy a predicate. -/
def retain (keep : α → Bool) : Attached α → Attached α
  | ⟨none⟩ => ∅
  | ⟨some items⟩ =>
    let kept := items.filter keep
    if kept.isEmpty then ∅ else ⟨some kept⟩

/-- Detaches all items. -/
def take (a : Attached α) : List α × Attached α := (a.toList, ∅)

/-- Moves the items of `source` in front of those of `target`.  Gives back what is left of `source`,
which is nothing, and the new `target`. -/
def mergeInto (source target : Attached α) : Attached α × Attached α :=
  match source, target with
  | ⟨none⟩, _ => (∅, target)
  | ⟨some items⟩, ⟨none⟩ => (∅, ⟨some items⟩)
  | ⟨some items⟩, ⟨some behind⟩ => (∅, ⟨some (items ++ behind)⟩)

/-! ### What the operations do to the items -/

@[simp] theorem length_toList (a : Attached α) : a.toList.length = a.size := by
  rcases a with ⟨_ | items⟩ <;> rfl

@[simp] theorem toList_push (a : Attached α) (x : α) : (a.push x).toList = a.toList ++ [x] := by
  rcases a with ⟨_ | items⟩ <;> simp [push, toList]

@[simp] theorem toList_retain (a : Attached α) (keep : α → Bool) :
    (a.retain keep).toList = a.toList.filter keep := by
  rcases a with ⟨_ | items⟩
  · rfl
  · have kept : (⟨some items⟩ : Attached α).toList.filter keep = (items.filter keep).toList := by
      simp [toList]
    rw [kept]
    by_cases h : (items.filter keep).isEmpty
    · rw [Array.isEmpty_iff.1 h, retain, if_pos h]
      rfl
    · simp only [retain, h, if_false, toList, Bool.false_eq_true]

@[simp] theorem toList_mergeInto (source target : Attached α) :
    (source.mergeInto target).2.toList = source.toList ++ target.toList := by
  rcases source with ⟨_ | items⟩ <;> rcases target with ⟨_ | behind⟩ <;> simp [mergeInto, toList]

end Attached

end Dalvik
