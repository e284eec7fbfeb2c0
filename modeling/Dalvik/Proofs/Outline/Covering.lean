import Dalvik.Proofs.Outline.Coverage

/-!
# Which instruction covers an address

Every address that is not negative is covered by one position: by that of the instruction which
starts there or before and ends behind it, or by the end if the address is not within the code.  This is
the position as which the address is looked up (`Coverage.position_eq_ok_iff`).
-/

namespace Dalvik

namespace Code

variable {τ : Type} {code : List (Instruction τ)} {a : Int} {k k' : Nat}

/-- The address `a` is within the instruction at position `k`, or `k` is the end, and `a` is there or
behind. -/
def Covers (code : List (Instruction τ)) (a : Int) (k : Nat) : Prop :=
  k ≤ code.length ∧ (address code k : Int) ≤ a ∧ (k < code.length → a < address code (k + 1))

instance (code : List (Instruction τ)) (a : Int) (k : Nat) : Decidable (Covers code a k) :=
  inferInstanceAs (Decidable (_ ∧ _))

theorem Covers.nonneg (h : Covers code a k) : 0 ≤ a := by
  have hle := h.2.1
  omega

theorem Covers.le_of_lt_address (h : Covers code a k) (ha : a < address code (k' + 1)) :
    k ≤ k' := by
  refine Nat.le_of_not_lt fun hlt => ?_
  have hmono : address code (k' + 1) ≤ address code k := address_mono code hlt
  have hle := h.2.1
  omega

/-- No address is covered twice. -/
theorem Covers.unique (h : Covers code a k) (h' : Covers code a k') : k = k' := by
  have hle : ∀ {j j'}, Covers code a j → Covers code a j' → j ≤ j' := by
    intro j j' hj hj'
    rcases Nat.lt_or_ge j' code.length with hlt | hge
    · exact hj.le_of_lt_address (hj'.2.2 hlt)
    · exact Nat.le_trans hj.1 hge
  exact Nat.le_antisymm (hle h h') (hle h' h)

/-- The end covers an address of the code only if that is its own. -/
theorem Covers.eq_length_iff (h : Covers code a k) (ha : a ≤ address code code.length) :
    k = code.length ↔ a = address code code.length := by
  obtain ⟨hle, hstart, hstop⟩ := h
  constructor
  · rintro rfl
    omega
  · intro hend
    refine Nat.le_antisymm hle (Nat.le_of_not_lt fun hlt => ?_)
    have hmono : address code (k + 1) ≤ address code code.length := address_mono code hlt
    have hstop := hstop hlt
    omega

/-- What is in front of an address is left out of account by leaving out the first instruction. -/
theorem covers_cons_succ_iff {i : Instruction τ} {rest : List (Instruction τ)} :
    Covers (i :: rest) a (k + 1) ↔ Covers rest (a - i.units) k := by
  unfold Covers
  simp only [List.length_cons, address_cons_succ, Nat.add_le_add_iff_right,
    Nat.add_lt_add_iff_right]
  constructor
  · rintro ⟨hk, hle, hlt⟩
    exact ⟨hk, by omega, fun hk' => by have := hlt hk'; omega⟩
  · rintro ⟨hk, hle, hlt⟩
    exact ⟨hk, by omega, fun hk' => by have := hlt hk'; omega⟩

/-- Every address that is not negative is covered. -/
theorem exists_covers (ha : 0 ≤ a) : ∃ k, Covers code a k := by
  obtain ⟨n, rfl⟩ := Int.eq_ofNat_of_zero_le ha
  rcases Nat.lt_or_ge n (address code code.length) with hlt | hge
  · obtain ⟨k, i, hi, hle, hlt⟩ := exists_address_le hlt
    have hk := (List.getElem?_eq_some_iff.1 hi).1
    exact ⟨k, Nat.le_of_lt hk, Int.ofNat_le.2 hle, fun _ => Int.ofNat_lt.2 hlt⟩
  · exact ⟨code.length, Nat.le_refl _, Int.ofNat_le.2 hge, fun h => absurd h (Nat.lt_irrefl _)⟩

/-- An instruction covers the addresses at which it is found in the layout. -/
theorem covers_iff_locate {a : Nat} : k < code.length ∧ Covers code a k ↔
    (∃ i, (Layout.ofList code).locate a = .start k i) ∨
      (Layout.ofList code).locate a = .inside k := by
  have hpos : ∀ i ∈ code, 0 < HasWidth.width i := fun i _ => i.units_pos
  simp only [Layout.locate_eq_start_iff hpos, Layout.locate_eq_inside_iff hpos]
  change k < code.length ∧ k ≤ code.length ∧ (address code k : Int) ≤ a ∧
      (k < code.length → (a : Int) < address code (k + 1)) ↔
    (∃ i, code[k]? = some i ∧ address code k = a) ∨
      k < code.length ∧ address code k < a ∧ a < address code (k + 1)
  constructor
  · rintro ⟨hk, -, hle, hlt⟩
    have hlt := hlt hk
    rcases Nat.lt_or_eq_of_le (Int.ofNat_le.1 hle) with hstart | hstart
    · exact .inr ⟨hk, hstart, by omega⟩
    · exact .inl ⟨code[k], List.getElem?_eq_getElem hk, hstart⟩
  · rintro (⟨i, hi, rfl⟩ | ⟨hk, hstart, hend⟩)
    · have hk := (List.getElem?_eq_some_iff.1 hi).1
      have hlt := address_lt_address (Nat.lt_succ_self k) hk
      exact ⟨hk, Nat.le_of_lt hk, Int.le_refl _, fun _ => Int.ofNat_lt.2 hlt⟩
    · exact ⟨hk, Nat.le_of_lt hk, by omega, fun _ => by omega⟩

/-- The end covers the addresses that are past the layout. -/
theorem covers_length_iff_locate {a : Nat} :
    Covers code a code.length ↔ (Layout.ofList code).locate a = .past := by
  have hpos : ∀ i ∈ code, 0 < HasWidth.width i := fun i _ => i.units_pos
  rw [Layout.locate_eq_past_iff hpos]
  change _ ↔ address code code.length ≤ a
  refine ⟨fun h => Int.ofNat_le.1 h.2.1, fun h => ⟨Nat.le_refl _, Int.ofNat_le.2 h, fun hlt => ?_⟩⟩
  exact absurd hlt (Nat.lt_irrefl _)

end Code

namespace Coverage

open Code

variable {τ : Type} {code : List (Instruction τ)} {a : Int} {k : Nat}

/-- In the table of positions every address of the code is found under the position that covers it;
addresses that are not in the table are at the end. -/
theorem getD_positions (n : Nat) (h : Covers code a k) :
    (((code.zipIdx n).flatMap fun (i, k) => List.replicate i.units k)[a.toNat]?).getD
      (n + code.length) = n + k := by
  induction code generalizing n a k with
  | nil =>
    obtain rfl := Nat.le_zero.1 h.1
    rfl
  | cons i rest ih =>
    have hnonneg := h.nonneg
    rw [List.zipIdx_cons, List.flatMap_cons]
    cases k with
    | zero =>
      have hlt := h.2.2 (Nat.succ_pos _)
      rw [address_cons_succ, address_zero] at hlt
      have hroom : a.toNat < i.units := by omega
      rw [List.getElem?_append_left (by simpa using hroom)]
      simp [hroom]
    | succ k =>
      have hrest := covers_cons_succ_iff.1 h
      have hle := hrest.nonneg
      have htoNat : a.toNat - i.units = (a - i.units).toNat := by omega
      rw [List.getElem?_append_right (by simp; omega), List.length_replicate, htoNat,
        List.length_cons, ← Nat.add_assoc, Nat.add_right_comm, ih (n + 1) hrest]
      omega

/-- The table has as many entries as there are code units. -/
theorem size_positions (code : List (Instruction τ)) :
    (ofInstructions code).positions.size = address code code.length := by
  have hsizes : (code.zipIdx.map fun p => (List.replicate p.1.units p.2).length) =
      code.map Instruction.units := by
    refine List.ext_getElem? fun k => ?_
    rw [List.getElem?_map, List.getElem?_map, List.getElem?_zipIdx]
    cases code[k]? <;> simp
  unfold ofInstructions address
  rw [List.size_toArray, List.length_flatMap, hsizes, List.take_length]

/-- An address is looked up as the position that covers it. -/
theorem position_eq_ok_iff : (ofInstructions code).position a = .ok k ↔ Covers code a k := by
  have hposition : ∀ {k}, Covers code a k → (ofInstructions code).position a = .ok k := by
    intro k h
    have hnonneg := h.nonneg
    have htable := getD_positions 0 h
    rw [Nat.zero_add, Nat.zero_add] at htable
    unfold position
    rw [if_neg (Int.not_lt.2 hnonneg), Array.getD_eq_getD_getElem?]
    simp only [ofInstructions, List.getElem?_toArray]
    rw [htable]
  constructor
  · intro h
    have hnonneg : 0 ≤ a := by
      refine Int.not_lt.1 fun hneg => ?_
      rw [position, if_pos hneg] at h
      cases h
    obtain ⟨k', hk'⟩ : ∃ k', Covers code a k' := exists_covers hnonneg
    rwa [Except.ok.inj (h.symm.trans (hposition hk'))]
  · exact hposition

/-- Only a negative address is refused. -/
theorem exists_position_iff : (∃ k, (ofInstructions code).position a = .ok k) ↔ 0 ≤ a := by
  simp only [position_eq_ok_iff]
  exact ⟨fun ⟨_, h⟩ => h.nonneg, exists_covers⟩

end Coverage

end Dalvik
