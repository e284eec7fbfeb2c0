import Mathlib.Logic.Function.Basic
import Dalvik.Attached
import Dalvik.Proofs.Outcome

/-!
# Attachments as lists

Nothing attached has one representation only: the operations make no sequence of items that is
there but empty.  Whatever is done to a family of attachments, in any order and across its members,
they therefore hold what lists hold to which the same is done, and comparing them is comparing their
items.
-/

namespace Dalvik

namespace Attached

variable {α ι : Type}

/-! ### The normal form -/

/-- A sequence of items that is there has an item. -/
def Canonical (a : Attached α) : Prop := a.items? ≠ some #[]

instance [DecidableEq α] (a : Attached α) : Decidable a.Canonical :=
  inferInstanceAs (Decidable (_ ≠ _))

theorem canonical_empty : (∅ : Attached α).Canonical := nofun

theorem canonical_some_iff {items : Array α} :
    Canonical ⟨some items⟩ ↔ items ≠ #[] := by
  simp [Canonical]

/-- Items in the normal form determine their representation. -/
theorem Canonical.eq_iff {a b : Attached α} (ha : a.Canonical) (hb : b.Canonical) :
    a = b ↔ a.toList = b.toList := by
  refine ⟨congrArg toList, fun h => ?_⟩
  rcases a with ⟨_ | items⟩ <;> rcases b with ⟨_ | items'⟩
  · rfl
  · exact absurd (Array.toList_eq_nil_iff.1 h.symm) (canonical_some_iff.1 hb)
  · exact absurd (Array.toList_eq_nil_iff.1 h) (canonical_some_iff.1 ha)
  · rw [Array.ext' (show items.toList = items'.toList from h)]

/-- Nothing is attached exactly if there are no items. -/
theorem Canonical.eq_empty_iff {a : Attached α} (h : a.Canonical) : a = ∅ ↔ a.toList = [] :=
  h.eq_iff canonical_empty

theorem canonical_push (a : Attached α) (x : α) : (a.push x).Canonical := by
  rcases a with ⟨_ | items⟩ <;> simp [push, Canonical]

/-- The items that are kept are in the normal form even if those before were not. -/
theorem canonical_retain (a : Attached α) (keep : α → Bool) : (a.retain keep).Canonical := by
  rcases a with ⟨_ | items⟩
  · exact canonical_empty
  · rw [retain]
    by_cases h : (items.filter keep).isEmpty
    · rw [if_pos h]
      exact canonical_empty
    · rw [if_neg h, canonical_some_iff]
      exact fun hnone => h (Array.isEmpty_iff.2 hnone)

theorem Canonical.mergeInto {source target : Attached α} (hs : source.Canonical)
    (ht : target.Canonical) : (source.mergeInto target).2.Canonical := by
  rcases source with ⟨_ | items⟩ <;> rcases target with ⟨_ | behind⟩
  · exact canonical_empty
  · exact ht
  · exact hs
  · rw [canonical_some_iff] at hs
    exact canonical_some_iff.2 fun h => hs (Array.append_eq_empty_iff.1 h).1

@[simp] theorem mergeInto_fst (source target : Attached α) :
    (source.mergeInto target).1 = ∅ := by
  rcases source with ⟨_ | items⟩ <;> rcases target with ⟨_ | behind⟩ <;> rfl

/-! ### Operations on a family -/

/-- What can be done to the members of a family. -/
inductive Action (ι α : Type)
  /-- An item is attached. -/
  | push (k : ι) (x : α)
  /-- Only some items are kept. -/
  | retain (k : ι) (keep : α → Bool)
  /-- All items are detached. -/
  | take (k : ι)
  /-- The items of one member move to another one. -/
  | mergeInto (source target : ι) (distinct : source ≠ target)

section Families

variable [DecidableEq ι]

open Function (update)

/-- Carries out an action on attachments.  Gives back the items that were detached. -/
def Action.run : Action ι α → EStateM Empty (ι → Attached α) (List α)
  | push k x, family => .ok [] (update family k ((family k).push x))
  | retain k keep, family => .ok [] (update family k ((family k).retain keep))
  | take k, family => .ok (family k).take.1 (update family k (family k).take.2)
  | mergeInto source target _, family =>
    let merged := (family source).mergeInto (family target)
    .ok [] (update (update family source merged.1) target merged.2)

/-- Carries out an action on lists. -/
def Action.runList : Action ι α → EStateM Empty (ι → List α) (List α)
  | push k x, family => .ok [] (update family k (family k ++ [x]))
  | retain k keep, family => .ok [] (update family k ((family k).filter keep))
  | take k, family => .ok (family k) (update family k [])
  | mergeInto source target _, family =>
    .ok [] fun k =>
      if k = source then [] else if k = target then family source ++ family target else family k

/-- The attachments of a family are in the normal form and hold the items of the lists of another
family. -/
def Holds (family : ι → Attached α) (lists : ι → List α) : Prop :=
  ∀ k, (family k).Canonical ∧ (family k).toList = lists k

/-- A member may be replaced together with its list. -/
theorem Holds.update {family : ι → Attached α} {lists : ι → List α} (h : Holds family lists)
    (k : ι) {a : Attached α} (ha : a.Canonical) :
    Holds (update family k a) (update lists k a.toList) := by
  intro j
  by_cases hj : j = k
  · subst hj
    simp only [Function.update_self]
    exact ⟨ha, trivial⟩
  · rw [Function.update_of_ne hj, Function.update_of_ne hj]
    exact h j

/-- An action does the same to attachments as to lists. -/
theorem simulates_run (action : Action ι α) :
    Simulates Holds action.run action.runList := by
  intro family lists h
  obtain rfl : (fun k => (family k).toList) = lists := funext fun k => (h k).2
  cases action with
  | push k x =>
    have hend := h.update k (canonical_push (family k) x)
    rw [toList_push] at hend
    exact .ok [] hend
  | retain k keep =>
    have hend := h.update k (canonical_retain (family k) keep)
    rw [toList_retain] at hend
    exact .ok [] hend
  | take k => exact .ok (family k).toList (h.update k canonical_empty)
  | mergeInto source target distinct =>
    have hend := (h.update source canonical_empty).update target
      ((h source).1.mergeInto (h target).1)
    refine .ok [] fun k => ?_
    rw [mergeInto_fst]
    refine ⟨(hend k).1, (hend k).2.trans ?_⟩
    by_cases htarget : k = target
    · subst htarget
      rw [Function.update_self, toList_mergeInto, if_neg distinct.symm, if_pos rfl]
    · rw [Function.update_of_ne htarget, if_neg htarget, Function.update_apply]
      rfl

/-- After the actions, the attachments of a family are as good as lists to which the same has been
done. -/
structure ActsAsLists (family : ι → Attached α) (actions : List (Action ι α)) : Prop where
  /-- The same items have been detached. -/
  detached : (transcript Action.run actions family).1 =
    (transcript Action.runList actions fun k => (family k).toList).1
  /-- The same items are attached, in the same order. -/
  items (k : ι) : ((transcript Action.run actions family).2 k).toList =
    (transcript Action.runList actions fun k => (family k).toList).2 k
  /-- As many as the list has. -/
  size (k : ι) : ((transcript Action.run actions family).2 k).size =
    ((transcript Action.runList actions fun k => (family k).toList).2 k).length
  /-- No sequence is there but empty. -/
  canonical (k : ι) : ((transcript Action.run actions family).2 k).items? ≠ some #[]
  /-- An attachment is like a new one if its list is empty. -/
  eq_empty_iff (k : ι) : (transcript Action.run actions family).2 k = ∅ ↔
    (transcript Action.runList actions fun k => (family k).toList).2 k = []
  /-- Attachments are equal if their lists are. -/
  eq_iff (j k : ι) :
    (transcript Action.run actions family).2 j = (transcript Action.run actions family).2 k ↔
      (transcript Action.runList actions fun k => (family k).toList).2 j =
        (transcript Action.runList actions fun k => (family k).toList).2 k

/-- Attachments in the normal form act as lists, whatever is done to them. -/
theorem actsAsLists {family : ι → Attached α} (h : ∀ k, (family k).Canonical)
    (actions : List (Action ι α)) : ActsAsLists family actions := by
  obtain ⟨hdetached, hend⟩ := transcript_of_simulates simulates_run actions
    (show Holds family fun k => (family k).toList from fun k => ⟨h k, rfl⟩)
  refine ⟨hdetached, fun k => (hend k).2, fun k => ?_, fun k => (hend k).1, fun k => ?_,
    fun j k => ?_⟩
  · rw [← length_toList, (hend k).2]
  · rw [← (hend k).2]
    exact (hend k).1.eq_empty_iff
  · rw [← (hend j).2, ← (hend k).2]
    exact (hend j).1.eq_iff (hend k).1

end Families

/-- Two attachments, of which one is new. -/
theorem actsAsLists_merged :
    (∀ k, (cond k (⟨some #[1, 2, 3]⟩ : Attached Nat) ∅).Canonical) ∧
      ActsAsLists (fun k => cond k (⟨some #[1, 2, 3]⟩ : Attached Nat) ∅)
        [.retain true (· % 2 == 1), .push false 4, .mergeInto true false nofun, .take true,
          .retain false fun _ => false] :=
  ⟨by decide, actsAsLists (by decide) _⟩

end Attached

end Dalvik
