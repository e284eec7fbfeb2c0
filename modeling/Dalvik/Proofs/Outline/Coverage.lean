import Dalvik.Proofs.Code.Address
import Dalvik.Outline.OfMethod

/-!
# Addresses in a finished method

The instructions of a finished method are laid out one behind the other, so the offset of an element
of the layout is an address in the sense of `Code.address`.  Conversely the address of a position is
looked up as that position, the end included (`Coverage.position_address`).
-/

namespace Dalvik

variable {τ : Type} {code : List (Instruction τ)}

/-! ### Layouts of instructions -/

namespace Layout

/-- A layout holds the instructions with their addresses, and its width is the address of the end. -/
theorem entries_ofList (code : List (Instruction τ)) :
    (ofList code).entries.toList = code.zipIdx.map (fun p => (Code.address code p.2, p.1)) ∧
      (ofList code).width = Code.address code code.length := toList_entries code

theorem getElem?_entries_ofList (code : List (Instruction τ)) (k : Nat) :
    (ofList code).entries[k]? = code[k]?.map fun i => (Code.address code k, i) :=
  getElem?_entries code k

/-- The offset of an instruction in a layout is its address. -/
theorem offset_ofList (code : List (Instruction τ)) (k : Nat) :
    (ofList code).offset k = Code.address code k := by
  rw [offset, getElem?_entries_ofList]
  cases hk : code[k]? with
  | some i => rfl
  | none =>
    have hlength : code.length ≤ k := List.getElem?_eq_none_iff.1 hk
    rw [Code.address_of_length_le hlength]
    exact (entries_ofList code).2

theorem toList_ofList (code : List (Instruction τ)) :
    (ofList code).toList = code.zipIdx.map fun p => (Code.address code p.2, p.2, p.1) := by
  rw [toList, (entries_ofList code).1]
  apply List.ext_getElem?
  intro k
  simp only [List.getElem?_map, List.getElem?_zipIdx, Option.map_map, Nat.zero_add]
  cases code[k]? <;> simp

end Layout

/-! ### Looking up addresses -/

namespace Coverage

/-- Every position is repeated as often as its instruction has units, starting at its address. -/
private theorem getElem?_positions (code : List (Instruction τ)) (n : Nat) {k : Nat}
    (hk : k ≤ code.length) :
    ((code.zipIdx n).flatMap fun (i, k) => List.replicate i.units k)[Code.address code k]? =
      code[k]?.map fun _ => n + k := by
  induction code generalizing n k with
  | nil => simp
  | cons i rest ih =>
    rw [List.zipIdx_cons, List.flatMap_cons]
    cases k with
    | zero =>
      rw [Code.address_zero, List.getElem?_append_left (by simpa using i.units_pos)]
      simp [i.units_pos]
    | succ k =>
      rw [Code.address_cons_succ, List.getElem?_append_right (by simp), List.length_replicate,
        Nat.add_sub_cancel_left, ih (n + 1) (Nat.le_of_succ_le_succ hk), List.getElem?_cons_succ]
      cases rest[k]? with
      | none => rfl
      | some j => simp only [Option.map_some, Option.some.injEq]; omega

/-- The address of a position is looked up as that position. -/
theorem position_address (code : List (Instruction τ)) {k : Nat} (hk : k ≤ code.length) :
    (ofInstructions code).position (Code.address code k) = .ok k := by
  have hlookup := getElem?_positions code 0 hk
  rw [position, if_neg (by omega), Int.toNat_natCast]
  congr 1
  rw [Array.getD_eq_getD_getElem?]
  simp only [ofInstructions, List.getElem?_toArray]
  rw [hlookup]
  rcases Nat.lt_or_eq_of_le hk with hlt | rfl
  · simp [hlt]
  · simp

/-- Whatever is looked up is the position of an instruction or the end. -/
theorem le_of_position {code : List (Instruction τ)} {a : Int} {k : Nat}
    (h : (ofInstructions code).position a = .ok k) : k ≤ code.length := by
  unfold position at h
  split at h
  · simp at h
  · have hk := Except.ok.inj h
    rw [Array.getD_eq_getD_getElem?] at hk
    cases hlookup : (ofInstructions code).positions[a.toNat]? with
    | none =>
      rw [hlookup, Option.getD_none] at hk
      exact Nat.le_of_eq hk.symm
    | some j =>
      rw [hlookup, Option.getD_some] at hk
      have hmem : j ∈ (code.zipIdx.flatMap fun (i, k) => List.replicate i.units k) := by
        simpa [ofInstructions] using Array.mem_of_getElem? hlookup
      obtain ⟨p, hp, hj⟩ := List.mem_flatMap.1 hmem
      have hlt : p.2 < code.length := by simpa using List.snd_lt_of_mem_zipIdx hp
      rw [← hk, (List.mem_replicate.1 hj).2]
      exact Nat.le_of_lt hlt

end Coverage

end Dalvik
