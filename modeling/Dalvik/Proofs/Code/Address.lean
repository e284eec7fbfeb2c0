import Dalvik.Listing.Basic
import Dalvik.Method
import Dalvik.Proofs.Layout
import Mathlib.Data.List.InsertIdx
import Mathlib.Algebra.GroupWithZero.Nat

/-!
# Addresses

The address of an instruction is the room taken up by the instructions before it.  `Code.address`
says this for a list of instructions with targets of any kind, and for every position up to the end
of the list.  The tables of a listing and of a layout, which are filled by running sums, hold nothing
else (`Listing.getElem?_addresses`).
-/

namespace Dalvik

namespace Code

variable {τ σ : Type}

/-- The address of the instruction at a position; positions past the last one are at the end. -/
def address (code : List (Instruction τ)) (k : Nat) : Nat :=
  ((code.take k).map Instruction.units).sum

@[simp] theorem address_zero (code : List (Instruction τ)) : address code 0 = 0 := rfl

@[simp] theorem address_cons_succ (i : Instruction τ) (code : List (Instruction τ)) (k : Nat) :
    address (i :: code) (k + 1) = i.units + address code k := Layout.start_cons_succ i code k

/-- The instruction at a position ends where the next one starts. -/
theorem address_succ {code : List (Instruction τ)} {k : Nat} {i : Instruction τ}
    (hi : code[k]? = some i) : address code (k + 1) = address code k + i.units :=
  Layout.start_succ hi

/-- Positions past the last one are at the end. -/
theorem address_of_length_le {code : List (Instruction τ)} {k : Nat} (hk : code.length ≤ k) :
    address code k = address code code.length := Layout.start_of_length_le hk

/-- What comes behind a position does not matter for its address. -/
theorem address_congr {code code' : List (Instruction τ)} {k : Nat}
    (h : code.take k = code'.take k) : address code k = address code' k := by
  rw [address, address, h]

/-- Addresses depend on the sizes of the instructions only. -/
theorem address_eq_of_units_eq {code : List (Instruction τ)} {code' : List (Instruction σ)}
    (h : code.map Instruction.units = code'.map Instruction.units) (k : Nat) :
    address code k = address code' k := by
  rw [address, address, List.map_take, List.map_take, h]

/-- Addresses do not decrease with the position. -/
theorem address_mono (code : List (Instruction τ)) {j k : Nat} (h : j ≤ k) :
    address code j ≤ address code k := Layout.start_mono code h

/-- Up to the end of the code, addresses strictly increase. -/
theorem address_lt_address {code : List (Instruction τ)} {j k : Nat} (hjk : j < k)
    (hj : j < code.length) : address code j < address code k := by
  have hsucc : address code (j + 1) = address code j + code[j].units :=
    address_succ (List.getElem?_eq_getElem hj)
  have hpos : 0 < code[j].units := Instruction.units_pos _
  have hmono : address code (j + 1) ≤ address code k := address_mono code hjk
  omega

/-- No two positions up to the end of the code have the same address. -/
theorem address_inj {code : List (Instruction τ)} {j k : Nat} (hj : j ≤ code.length)
    (hk : k ≤ code.length) (h : address code j = address code k) : j = k := by
  rcases Nat.lt_trichotomy j k with hlt | heq | hgt
  · exact absurd h (Nat.ne_of_lt (address_lt_address hlt (by omega)))
  · exact heq
  · exact absurd h.symm (Nat.ne_of_lt (address_lt_address hgt (by omega)))

/-- Every address up to the end of the code is one of an instruction. -/
theorem exists_address_le {code : List (Instruction τ)} {a : Nat} (h : a < address code code.length) :
    ∃ k i, code[k]? = some i ∧ address code k ≤ a ∧ a < address code (k + 1) := by
  obtain ⟨k, i, hi, hle, hlt⟩ := Layout.exists_contains h
  exact ⟨k, i, hi, hle, hlt⟩

/-! ### What edits do to addresses

An edit moves only what is behind it. -/

theorem address_insertIdx_of_le (code : List (Instruction τ)) (i : Instruction τ) {j k : Nat}
    (h : j ≤ k) : address (code.insertIdx k i) j = address code j :=
  address_congr (List.take_insertIdx_eq_take_of_le _ _ _ _ h)

theorem address_eraseIdx_of_le (code : List (Instruction τ)) {j k : Nat} (h : j ≤ k) :
    address (code.eraseIdx k) j = address code j := by
  refine address_congr ?_
  rw [List.eraseIdx_eq_take_drop_succ, List.take_append, List.take_take, Nat.min_eq_left h]
  rcases Nat.le_total code.length k with hk | hk
  · simp [List.drop_eq_nil_of_le (Nat.le_succ_of_le hk)]
  · simp [Nat.min_eq_left hk, Nat.sub_eq_zero_of_le h]

theorem address_set_of_le (code : List (Instruction τ)) (i : Instruction τ) {j k : Nat}
    (h : j ≤ k) : address (code.set k i) j = address code j :=
  address_congr (List.take_set_of_le h)

end Code

/-! ### The tables of a listing -/

namespace Listing

/-- Running sums, started from any address and any table. -/
private theorem foldl_addresses (slots : List Slot) (starts : Array Nat) (base : Nat) :
    slots.foldl (fun (starts, address) slot =>
        (starts.push address, address + slot.instruction.units)) (starts, base) =
      (starts ++ ((List.range slots.length).map fun k =>
          base + Code.address (slots.map (·.instruction)) k).toArray,
        base + Code.address (slots.map (·.instruction)) slots.length) := by
  induction slots generalizing starts base with
  | nil => simp
  | cons slot rest ih =>
    simp only [List.foldl_cons, ih, List.length_cons, List.range_succ_eq_map, List.map_cons,
      List.map_map, Code.address_cons_succ, Code.address_zero, Nat.add_assoc]
    refine Prod.ext ?_ rfl
    apply Array.ext'
    simp [Function.comp_def]

/-- The table of addresses holds the address of every position up to the end. -/
theorem addresses_eq (l : Listing) :
    l.addresses = ((List.range (l.size + 1)).map (Code.address l.instructions)).toArray := by
  have hfold := foldl_addresses l.slots.toList #[] 0
  rw [Array.foldl_toList] at hfold
  unfold addresses
  rw [hfold]
  simp [List.range_succ, instructions, size]

theorem getElem?_addresses (l : Listing) {k : Nat} (hk : k ≤ l.size) :
    l.addresses[k]? = some (Code.address l.instructions k) := by
  simp [addresses_eq, Nat.lt_succ_of_le hk]

/-- The size of a listing is the address of its end. -/
theorem units_eq (l : Listing) : l.units = Code.address l.instructions l.size := by
  have hfold : ∀ (slots : List Slot) (base : Nat),
      slots.foldl (fun sum slot => sum + slot.instruction.units) base =
        base + ((slots.map (·.instruction)).map Instruction.units).sum := by
    intro slots
    induction slots with
    | nil => simp
    | cons slot rest ih => intro base; simp [ih, Nat.add_assoc]
  rw [units, ← Array.foldl_toList, hfold, Nat.zero_add, Code.address, List.take_of_length_le]
  · rfl
  · simp

end Listing

end Dalvik
