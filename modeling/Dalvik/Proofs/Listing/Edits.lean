import Dalvik.Proofs.Code.Address

/-!
# What an edit does to a listing

A listing is seen as two lists, its instructions and its points.  For every edit one lemma says what
becomes of each of the two; nothing else is needed to reason about edits.

Positions are renumbered by an edit: `shiftUp` says where a position goes when something is added in
front of it, `shiftDown` where it goes when an instruction is removed.  What is attached to a removed
position ends up at the position that takes its place, so both maps are defined everywhere.
-/

namespace Dalvik

/-! ### Renumbering -/

/-- Where a position goes when something is added in front of position `k`. -/
def shiftUp (k j : Nat) : Nat := if k ≤ j then j + 1 else j

/-- Where a position goes when the instruction at position `k` is removed. -/
def shiftDown (k j : Nat) : Nat := if k < j then j - 1 else j

theorem shiftUp_of_le {k j : Nat} (h : k ≤ j) : shiftUp k j = j + 1 := if_pos h

theorem shiftUp_of_lt {k j : Nat} (h : j < k) : shiftUp k j = j := if_neg (Nat.not_le_of_lt h)

theorem shiftDown_of_lt {k j : Nat} (h : k < j) : shiftDown k j = j - 1 := if_pos h

theorem shiftDown_of_le {k j : Nat} (h : j ≤ k) : shiftDown k j = j := if_neg (Nat.not_lt_of_le h)

theorem shiftUp_ne (k j : Nat) : shiftUp k j ≠ k := by
  unfold shiftUp
  split <;> omega

@[simp] theorem shiftDown_shiftUp (k j : Nat) : shiftDown k (shiftUp k j) = j := by
  unfold shiftUp shiftDown
  split <;> split <;> omega

theorem shiftUp_shiftDown {k j : Nat} (hj : j ≠ k) : shiftUp k (shiftDown k j) = j := by
  unfold shiftUp shiftDown
  split <;> split <;> omega

theorem shiftUp_injective (k : Nat) : Function.Injective (shiftUp k) := by
  intro i j h
  unfold shiftUp at h
  split at h <;> split at h <;> omega

/-- Apart from the removed position, no two positions are identified. -/
theorem shiftDown_inj {k i j : Nat} (hi : i ≠ k) (hj : j ≠ k) (h : shiftDown k i = shiftDown k j) :
    i = j := by
  unfold shiftDown at h
  split at h <;> split at h <;> omega

theorem insertIdx_eq_take_append {α : Type} {l : List α} {k : Nat} (hk : k ≤ l.length) (a : α) :
    l.insertIdx k a = l.take k ++ a :: l.drop k := by
  induction l generalizing k with
  | nil => obtain rfl : k = 0 := by simpa using hk
           rfl
  | cons x rest ih =>
    cases k with
    | zero => rfl
    | succ k => simp [ih (Nat.le_of_succ_le_succ hk)]

theorem getElem?_insertIdx_shiftUp {α : Type} (l : List α) (a : α) (k j : Nat) :
    (l.insertIdx k a)[shiftUp k j]? = l[j]? := by
  rcases Nat.lt_or_ge j k with h | h
  · rw [shiftUp_of_lt h, List.getElem?_insertIdx_of_lt h]
  · rw [shiftUp_of_le h, List.getElem?_insertIdx_of_gt (Nat.lt_succ_of_le h)]
    rfl

theorem getElem?_eraseIdx_shiftDown {α : Type} (l : List α) {k j : Nat} (hj : j ≠ k) :
    (l.eraseIdx k)[shiftDown k j]? = l[j]? := by
  rcases Nat.lt_or_gt_of_ne hj with h | h
  · rw [shiftDown_of_le (Nat.le_of_lt h), List.getElem?_eraseIdx_of_lt h]
  · rw [shiftDown_of_lt h, List.getElem?_eraseIdx_of_ge (by omega)]
    congr 1
    omega

/-! ### Lists -/

section Lists

variable {α β : Type} {f : α → β} {g : α → α}

/-- A change at one position, seen through a function. -/
theorem map_modify_of_comm {h : β → β} (hfg : ∀ x, f (g x) = h (f x)) (xs : List α) (k : Nat) :
    (xs.modify k g).map f = (xs.map f).modify k h := by
  induction xs generalizing k with
  | nil => simp
  | cons x rest ih => cases k <;> simp [hfg, ih]

/-- A change at one position which a function does not see. -/
theorem map_modify_of_eq (hfg : ∀ x, f (g x) = f x) (xs : List α) (k : Nat) :
    (xs.modify k g).map f = xs.map f := by
  rw [map_modify_of_comm (h := id) hfg, List.modify_id]

/-- A change at one position, after which a function gives a certain value there. -/
theorem map_modify_const {b : β} (hfg : ∀ x, f (g x) = b) (xs : List α) (k : Nat) :
    (xs.modify k g).map f = (xs.map f).set k b := by
  rw [map_modify_of_comm (h := fun _ => b) hfg, List.set_eq_modify]

/-- What is inserted in front of the end of a list is inserted in front of what follows. -/
theorem insertIdx_append_of_le {xs : List α} {k : Nat} (hk : k ≤ xs.length) (ys : List α) (x : α) :
    (xs ++ ys).insertIdx k x = xs.insertIdx k x ++ ys := by
  rw [insertIdx_eq_take_append hk, insertIdx_eq_take_append (by simp; omega),
    List.take_append_of_le_length hk, List.drop_append_of_le_length hk, List.append_assoc,
    List.cons_append]

end Lists

namespace Listing

/-! ### Instructions -/

/-- There is an instruction in front of the end. -/
theorem exists_instruction? (l : Listing) {k : Nat} (hk : k < l.size) :
    ∃ i, l.instruction? k = some i := by
  rw [← length_instructions] at hk
  exact ⟨_, (l.getElem?_instructions k).symm.trans (List.getElem?_eq_getElem hk)⟩

@[simp] theorem instructions_modifyPoint (l : Listing) (k : Nat) (f : Point → Point) :
    (l.modifyPoint k f).instructions = l.instructions := by
  unfold modifyPoint
  split
  · rw [instructions, Array.toList_modify]
    exact map_modify_of_eq (g := fun slot : Slot => { slot with point := f slot.point })
      (fun _ => rfl) _ _
  · rfl

@[simp] theorem size_modifyPoint (l : Listing) (k : Nat) (f : Point → Point) :
    (l.modifyPoint k f).size = l.size := by
  rw [← length_instructions, instructions_modifyPoint, length_instructions]

/-- Up to the end, adding an instruction in front of a position does just that. -/
theorem instructions_insertAt (l : Listing) {k : Nat} (hk : k ≤ l.size) (i : Instruction Label) :
    (l.insertAt k i).instructions = l.instructions.insertIdx k i := by
  unfold insertAt
  split
  · next h =>
    simp only [instructions, Array.insertIdxIfInBounds, dif_pos (Nat.le_of_lt h),
      Array.toList_insertIdx, List.map_insertIdx]
  · next h =>
    have hend : k = l.instructions.length := by
      rw [length_instructions]
      exact Nat.le_antisymm hk (Nat.le_of_not_lt h)
    rw [instructions_append, hend, List.insertIdx_length_self]

@[simp] theorem instructions_replaceAt (l : Listing) (k : Nat) (i : Instruction Label) :
    (l.replaceAt k i).instructions = l.instructions.set k i := by
  rw [replaceAt, instructions, Array.toList_modify]
  exact map_modify_const (g := fun slot : Slot => { slot with instruction := i }) (fun _ => rfl) _ _

@[simp] theorem instructions_removeAt (l : Listing) (k : Nat) :
    (l.removeAt k).instructions = l.instructions.eraseIdx k := by
  unfold removeAt
  split
  · next h =>
    have hk : l.instructions.length ≤ k := by
      rw [length_instructions]
      exact Array.getElem?_eq_none_iff.1 h
    rw [List.eraseIdx_of_length_le hk]
  · next removed h =>
    rw [instructions_modifyPoint]
    have hk : k < l.slots.size := (Array.getElem?_eq_some_iff.1 h).1
    simp only [instructions, Array.eraseIdxIfInBounds, dif_pos hk, Array.toList_eraseIdx,
      List.eraseIdx_map]

@[simp] theorem size_replaceAt (l : Listing) (k : Nat) (i : Instruction Label) :
    (l.replaceAt k i).size = l.size := by
  rw [← length_instructions, instructions_replaceAt, List.length_set, length_instructions]

theorem size_insertAt (l : Listing) {k : Nat} (hk : k ≤ l.size) (i : Instruction Label) :
    (l.insertAt k i).size = l.size + 1 := by
  rw [← length_instructions, instructions_insertAt l hk, List.length_insertIdx_of_le_length,
    length_instructions]
  simpa using hk

theorem size_removeAt (l : Listing) {k : Nat} (hk : k < l.size) :
    (l.removeAt k).size = l.size - 1 := by
  rw [← length_instructions, instructions_removeAt, List.length_eraseIdx_of_lt, length_instructions]
  simpa using hk

/-! ### Points -/

theorem getElem?_points (l : Listing) {k : Nat} (hk : k ≤ l.size) :
    l.points[k]? = some (l.point k) := by
  unfold points point
  rcases Nat.lt_or_ge k l.slots.size with h | h
  · rw [List.getElem?_append_left (by simpa using h)]
    simp [h]
  · have hend : k = (l.slots.toList.map (·.point)).length := by
      simpa [size] using Nat.le_antisymm hk h
    have hnone : l.slots[k]? = none := Array.getElem?_eq_none h
    rw [hnone, hend, List.getElem?_concat_length]

/-- Changing what is attached to a position changes one point. -/
theorem points_modifyPoint (l : Listing) {k : Nat} (hk : k ≤ l.size) (f : Point → Point) :
    (l.modifyPoint k f).points = l.points.modify k f := by
  unfold modifyPoint
  split
  · next h =>
    have hlen : k < (l.slots.toList.map (·.point)).length := by simpa using h
    simp only [points, Array.toList_modify]
    apply List.ext_getElem?
    intro j
    simp only [List.getElem?_append, List.getElem?_modify, List.getElem?_map, List.length_map,
      List.length_modify]
    rcases Decidable.eq_or_ne k j with rfl | hne
    · simp [h]
    · simp [hne]
  · next h =>
    have hend : k = (l.slots.toList.map (·.point)).length := by
      simpa [size] using Nat.le_antisymm hk (Nat.le_of_not_lt h)
    simp only [points, hend]
    rw [List.modify_eq_take_cons_drop (by simp)]
    simp

theorem points_insertAt (l : Listing) {k : Nat} (hk : k < l.size) (i : Instruction Label) :
    (l.insertAt k i).points = l.points.insertIdx k ∅ := by
  have hk' : k < l.slots.size := hk
  have hlen : k ≤ (l.slots.toList.map (·.point)).length := by simpa using Nat.le_of_lt hk'
  simp only [insertAt, if_pos hk', points, Array.insertIdxIfInBounds,
    dif_pos (Nat.le_of_lt hk'), Array.toList_insertIdx, List.map_insertIdx]
  rw [insertIdx_append_of_le hlen]

@[simp] theorem points_replaceAt (l : Listing) (k : Nat) (i : Instruction Label) :
    (l.replaceAt k i).points = l.points := by
  have hslots := map_modify_of_eq (f := (·.point))
    (g := fun slot : Slot => { slot with instruction := i }) (fun _ => rfl) l.slots.toList k
  rw [replaceAt, points, Array.toList_modify, hslots, points]

/-- The point of a removed instruction is merged into the next one. -/
theorem points_removeAt (l : Listing) {k : Nat} (hk : k < l.size) :
    (l.removeAt k).points = (l.points.eraseIdx k).modify k (l.point k).mergeInto := by
  have hk' : k < l.slots.size := hk
  have hslot : l.slots[k]? = some l.slots[k] := Array.getElem?_eq_getElem hk'
  have hpoint : l.point k = l.slots[k].point := by simp [point, hslot]
  have hsize : k ≤ (l.slots.eraseIdxIfInBounds k).size := by
    simp only [Array.eraseIdxIfInBounds, dif_pos hk', Array.size_eraseIdx]
    omega
  simp only [removeAt, hslot]
  rw [points_modifyPoint _ hsize, hpoint]
  congr 1
  simp only [points, Array.eraseIdxIfInBounds, dif_pos hk', Array.toList_eraseIdx]
  rw [List.eraseIdx_append_of_lt_length (by simpa using hk'), List.eraseIdx_map]

@[simp] theorem issued_modifyPoint (l : Listing) (k : Nat) (f : Point → Point) :
    (l.modifyPoint k f).issued = l.issued := by
  unfold modifyPoint
  split <;> rfl

@[simp] theorem issued_insertAt (l : Listing) (k : Nat) (i : Instruction Label) :
    (l.insertAt k i).issued = l.issued := by
  unfold insertAt
  split <;> rfl

@[simp] theorem issued_replaceAt (l : Listing) (k : Nat) (i : Instruction Label) :
    (l.replaceAt k i).issued = l.issued := rfl

@[simp] theorem issued_removeAt (l : Listing) (k : Nat) : (l.removeAt k).issued = l.issued := by
  unfold removeAt
  split
  · rfl
  · rw [issued_modifyPoint]

end Listing

end Dalvik
