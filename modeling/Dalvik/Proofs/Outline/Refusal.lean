import Dalvik.Proofs.Code.Overflow
import Dalvik.Proofs.Outline.Spelling

/-!
# When an outline cannot be spelled out

As long as all distances are within 32 bits there is code that spells out an outline
(`Code.exists_spells`), and turning the outline into a method fails exactly where encoding that code
would: at the first offset that is too far for its field (`Outline.toMethod_eq_error_iff`).
-/

namespace Dalvik

namespace Code

variable {places : List (Instruction Nat)} {code : List (Instruction Int32)} {base : Nat → Nat}

/-- No two places in code are farther apart than the code is long. -/
theorem exists_offset (hsize : address places places.length < 2 ^ 31) (p q : Nat) :
    ∃ offset : Int32, offset.toInt = (address places p : Int) - address places q := by
  have hle : ∀ k, address places k ≤ address places places.length := by
    intro k
    rcases Nat.le_total k places.length with hk | hk
    · exact address_mono places hk
    · exact Nat.le_of_eq (address_of_length_le hk)
  have hp := hle p
  have hq := hle q
  refine ⟨.ofInt (address places p - address places q), ?_⟩
  rw [Int32.toInt_ofInt_of_le (by omega) (by omega)]

/-- If code is not too long, the positions in it can be spelled out as offsets. -/
theorem exists_spells (hsize : address places places.length < 2 ^ 31)
    (hplaces : ∀ i ∈ places, ∀ p ∈ i.targets, p ≤ places.length) (base : Nat → Nat) :
    ∃ code, Spells base places code := by
  -- one instruction after the other, each with the offsets from its own base
  let convert : Instruction Nat × Nat → Except Error (Instruction Int32) := fun entry =>
    entry.1.mapTargetsM fun p =>
      branchOffset entry.2 entry.1.opcode (address places (base entry.2)) (address places p)
  obtain ⟨code, hcode⟩ : ∃ code, places.zipIdx.mapM convert = .ok code := by
    refine exists_mapM_eq_ok fun entry _ => Instruction.exists_mapTargetsM_eq_ok fun p _ => ?_
    obtain ⟨offset, hoffset⟩ := exists_offset hsize p (base entry.2)
    exact ⟨offset, branchOffset_eq_ok_iff.2 hoffset⟩
  obtain ⟨hlength, hconvert⟩ := forall₂_iff_getElem?.1 (mapM_eq_ok_iff.1 hcode)
  rw [List.length_zipIdx] at hlength
  have hspelled : ∀ (k : Nat) i j, places[k]? = some i → code[k]? = some j →
      j.shape = i.shape ∧ List.Forall₂ (fun p offset => offset.toInt =
        (address places p : Int) - address places (base k)) i.targets j.targets := by
    intro k i j hi hj
    have hmap : convert (i, k) = .ok j := hconvert k _ j (by simp [List.getElem?_zipIdx, hi]) hj
    obtain ⟨hshape, htargets⟩ := Instruction.mapTargetsM_eq_ok_iff.1 hmap
    exact ⟨hshape, htargets.imp fun p offset => branchOffset_eq_ok_iff.1⟩
  have hshape : code.map Instruction.shape = places.map Instruction.shape := by
    refine List.ext_getElem (by simp [hlength]) fun k hk hk' => ?_
    rw [List.length_map] at hk hk'
    rw [List.getElem_map, List.getElem_map]
    exact (hspelled k _ _ (List.getElem?_eq_getElem hk') (List.getElem?_eq_getElem hk)).1
  refine ⟨code, hshape, fun k i j hi hj => ?_⟩
  obtain ⟨hlen, hdistances⟩ := forall₂_iff_getElem?.1 (hspelled k i j hi hj).2
  refine forall₂_iff_getElem?.2 ⟨hlen.symm, fun n offset p hoffset hp => ?_⟩
  have hdistance := hdistances n p offset hp hoffset
  rw [follow_eq_some_iff, ← hlength, address_eq_of_shape_eq hshape, address_eq_of_shape_eq hshape]
  exact ⟨hplaces i (List.mem_of_getElem? hi) p (List.mem_of_getElem? hp), by omega⟩

end Code

namespace Outline

open Code

variable {o : Outline} {owner? : Nat → Option Nat} {code : List (Instruction Int32)}

/-- If an instruction has been spelled out, the outcome depends on nothing but whether its offset
fits. -/
theorem emitInstruction_of_spells {places : List (Instruction Nat)}
    (hspells : Spells (base owner?) places code) {k : Nat} {i : Instruction Nat}
    {j : Instruction Int32} (hi : places[k]? = some i) (hj : code[k]? = some j) :
    emitInstruction (.ofList places) owner? (address places k) k i =
      match j.overlong? with
      | some offset => .error (.branchOffsetOverflow k i.opcode offset.toInt)
      | none => .ok j := by
  have hshape : j.shape = i.shape := by
    obtain ⟨j', hj', hij⟩ := getElem?_of_shape_eq hspells.shape hi
    rwa [Option.some.inj (hj.symm.trans hj')]
  have hmap : (i.mapTargetsM fun p => branchOffset k i.opcode (address places (base owner? k))
      (address places p)) = .ok j := by
    refine Instruction.mapTargetsM_eq_ok_iff.2 ⟨hshape, (hspells.targets k i j hi hj).flip.imp ?_⟩
    intro p offset hfollow
    have hdistance := (follow_eq_some_iff.1 hfollow).2
    rw [address_eq_of_shape_eq hspells.shape, address_eq_of_shape_eq hspells.shape] at hdistance
    rw [branchOffset_eq_ok_iff]
    omega
  unfold emitInstruction
  unfold base at hmap
  cases howner : owner? k
  all_goals
    rw [howner] at hmap
    simp only [Layout.offset_ofList]
    simp only [Option.getD] at hmap
    rw [hmap]
    rfl

/-- Turning an outline into a method fails at the first offset that is too far for its field, and the
error says where that is, which instruction it is, and how far its target is. -/
theorem toMethod_eq_error_iff (hspells : Spells (base owner?) o.instructions code) {e : Error} :
    o.toMethod owner? = .error e ↔ ∃ k opcode offset, FirstOverlong code k opcode offset ∧
      e = .branchOffsetOverflow k opcode offset.toInt := by
  unfold toMethod
  rw [bind_pure_eq_error_iff, mapM_eq_error_iff, Layout.toList_ofList]
  simp only [List.getElem?_map, List.getElem?_zipIdx, Option.map_eq_some_iff, Nat.zero_add]
  have hcode : ∀ {k : Nat} {i : Instruction Nat}, o.instructions[k]? = some i →
      ∃ j, code[k]? = some j ∧ j.shape = i.shape := fun hi => getElem?_of_shape_eq hspells.shape hi
  constructor
  · rintro ⟨k, _, ⟨_, ⟨i, hi, rfl⟩, rfl⟩, herror, hbefore⟩
    obtain ⟨j, hj, hij⟩ := hcode hi
    rw [emitInstruction_of_spells hspells hi hj] at herror
    cases hoverlong : j.overlong? with
    | none =>
      rw [hoverlong] at herror
      cases herror
    | some offset =>
      rw [hoverlong] at herror
      cases herror
      have hopcode : j.opcode = i.opcode := by
        rw [← Instruction.opcode_shape j, hij, Instruction.opcode_shape]
      refine ⟨k, i.opcode, offset, ⟨⟨j, hj, hopcode, hoverlong⟩, fun n hn j' hj' => ?_⟩, rfl⟩
      obtain ⟨i', hi', -⟩ := getElem?_of_shape_eq hspells.shape.symm hj'
      obtain ⟨z, hz⟩ := hbefore n hn (address o.instructions n, n, i') (by simp [hi'])
      dsimp only at hz
      rw [emitInstruction_of_spells hspells hi' hj'] at hz
      cases hoverlong' : j'.overlong? with
      | none => rfl
      | some offset' =>
        rw [hoverlong'] at hz
        cases hz
  · rintro ⟨k, opcode, offset, ⟨⟨j, hj, rfl, hoverlong⟩, hbefore⟩, rfl⟩
    obtain ⟨i, hi, hij⟩ := getElem?_of_shape_eq hspells.shape.symm hj
    have hopcode : i.opcode = j.opcode := by
      rw [← Instruction.opcode_shape i, hij, Instruction.opcode_shape]
    refine ⟨k, _, ⟨_, ⟨i, hi, rfl⟩, rfl⟩, ?_, fun n hn entry hentry => ?_⟩
    · dsimp only
      rw [emitInstruction_of_spells hspells hi hj, hoverlong, hopcode]
    · simp only [Option.mem_def, Option.map_eq_some_iff] at hentry
      obtain ⟨_, ⟨i', hi', rfl⟩, rfl⟩ := hentry
      obtain ⟨j', hj', -⟩ := hcode hi'
      dsimp only
      rw [emitInstruction_of_spells hspells hi' hj', hbefore n hn j' hj']
      exact ⟨j', rfl⟩

end Outline

end Dalvik
