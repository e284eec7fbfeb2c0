import Dalvik.Proofs.Relaxation.Preservation
import Dalvik.Proofs.Relaxation.Settling

/-!
# The least widening

In code without data nothing can be repaired but jumps, and these get longer where they stand, so that
labels and positions stay as they are (`Listing.Lengthened`).  A jump gets longer only if it falls
short of its target, and then it gets the shortest form that reaches it.  It needs at least this form
in any longer code as well, since distances grow with the sizes of the instructions between.  Hence
what comes out is the least of all codes in which every jump reaches its target and none is shorter
than it was (`Bound.widens_settle`).
-/

namespace Dalvik

/-! ### Distances -/

namespace Reach

/-- Forms of the same size are the same. -/
theorem eq_of_units_eq {r r' : Reach} (h : r.units = r'.units) : r = r' := by
  cases r <;> cases r' <;> first | rfl | cases h

/-- A form that reaches a target reaches whatever is nearer on the same side. -/
theorem fits_of_nearer {r : Reach} {near far : Int} (hfar : r.fits far = true)
    (h : 0 ≤ near ∧ near ≤ far ∨ far ≤ near ∧ near ≤ 0) : r.fits near = true := by
  cases r with
  | long => rfl
  | _ =>
    simp only [fits, Bool.and_eq_true, decide_eq_true_eq] at hfar ⊢
    omega

end Reach

namespace Instruction

variable {τ : Type} {i j : Instruction τ}

theorem units_goto (r : Reach) (t : τ) : (goto r t).units = r.units := by cases r <;> rfl

theorem Widened.refl (i : Instruction τ) : i.Widened i := Or.inl rfl

/-- A jump that may have become longer is not shorter. -/
theorem Widened.units_le (h : i.Widened j) : i.units ≤ j.units := by
  rcases h with rfl | ⟨r, wider, t, rfl, rfl, hlt⟩
  · exact Nat.le_refl _
  · rw [units_goto, units_goto]
    exact Nat.le_of_lt hlt

theorem Widened.isPayload_eq (h : i.Widened j) : j.isPayload = i.isPayload := by
  rcases h with rfl | ⟨r, wider, t, rfl, rfl, -⟩
  · rfl
  · rfl

/-- What a jump can have become is a jump that is not shorter. -/
theorem widened_goto_iff {r : Reach} {t : τ} :
    (goto r t).Widened j ↔ ∃ wider, j = goto wider t ∧ r.units ≤ wider.units := by
  constructor
  · rintro (rfl | ⟨r', wider, t', hgoto, rfl, hlt⟩)
    · exact ⟨r, rfl, Nat.le_refl _⟩
    · obtain ⟨-, hjump⟩ := op.inj hgoto
      obtain ⟨rfl, rfl⟩ := Operands.jump.inj hjump
      exact ⟨wider, rfl, Nat.le_of_lt hlt⟩
  · rintro ⟨wider, rfl, hle⟩
    rcases Nat.lt_or_eq_of_le hle with hlt | heq
    · exact Or.inr ⟨r, wider, t, rfl, rfl, hlt⟩
    · rw [Reach.eq_of_units_eq heq]
      exact Or.inl rfl

end Instruction

namespace Code

variable {τ : Type} {code code' : List (Instruction τ)} {j k : Nat}

/-- Every jump reaches its target, if `stands` tells where targets stand. -/
def JumpsReach (stands : τ → Nat → Prop) (code : List (Instruction τ)) : Prop :=
  ∀ k r t stop, code[k]? = some (Instruction.goto r t) → stands t stop →
    r.fits ((address code stop : Int) - address code k) = true

/-- Where jumps get longer, so do distances. -/
theorem address_add_le_of_widened (h : List.Forall₂ Instruction.Widened code code') (hjk : j ≤ k) :
    address code k + address code' j ≤ address code' k + address code j := by
  induction h generalizing j k with
  | nil => simp [address]
  | @cons i i' code code' hi _ ih =>
    have hunits := hi.units_le
    cases k with
    | zero =>
      obtain rfl := Nat.le_zero.1 hjk
      exact Nat.le_refl _
    | succ k =>
      cases j with
      | zero =>
        have hrest := ih (Nat.zero_le k)
        simp only [address_cons_succ, address_zero] at hrest ⊢
        omega
      | succ j =>
        have hrest := ih (Nat.le_of_succ_le_succ hjk)
        simp only [address_cons_succ]
        omega

/-- What is reached in longer code is reached in shorter code. -/
theorem fits_of_widened (h : List.Forall₂ Instruction.Widened code code') {r : Reach}
    (hfits : r.fits ((address code' j : Int) - address code' k) = true) :
    r.fits ((address code j : Int) - address code k) = true := by
  refine Reach.fits_of_nearer hfits ?_
  rcases Nat.le_total k j with hle | hle
  · have hmono := address_mono code hle
    have hdistance := address_add_le_of_widened h hle
    left
    omega
  · have hmono := address_mono code hle
    have hdistance := address_add_le_of_widened h hle
    right
    omega

/-- If a jump falls short of its target, and gets the shortest form that reaches it, it gets no longer
than it is in longer code where it reaches its target. -/
theorem forall₂_widened_set {stands : τ → Nat → Prop} (hreach : JumpsReach stands code')
    (h : List.Forall₂ Instruction.Widened code code') {r : Reach} {t : τ}
    (hk : code[k]? = some (.goto r t)) (hj : stands t j) :
    List.Forall₂ Instruction.Widened
      (code.set k (.goto (.least ((address code j : Int) - address code k)) t)) code' := by
  rw [forall₂_iff_getElem?, List.length_set]
  refine ⟨h.length_eq, fun n x y hx hy => ?_⟩
  have hpoint := (forall₂_iff_getElem?.1 h).2
  rcases Decidable.eq_or_ne k n with rfl | hne
  · rw [List.getElem?_set_self (List.getElem?_eq_some_iff.1 hk).1] at hx
    obtain rfl := Option.some.inj hx
    obtain ⟨wider, rfl, -⟩ := Instruction.widened_goto_iff.1 (hpoint k _ y hk hy)
    have hfits := fits_of_widened h (hreach k wider t j hy hj)
    exact Instruction.widened_goto_iff.2 ⟨wider, rfl, Reach.units_least_le_of_fits hfits⟩
  · rw [List.getElem?_set_ne hne] at hx
    exact hpoint n x y hx hy

end Code

/-! ### Settling -/

namespace Listing

variable {l l' : Listing}

/-- Nothing but the length of jumps differs. -/
structure Lengthened (l l' : Listing) : Prop where
  /-- The same is attached to all positions. -/
  points : l'.points = l.points
  /-- The same labels have been issued. -/
  issued : l'.issued = l.issued
  /-- The instructions are the same, but jumps may have become longer. -/
  instructions : List.Forall₂ Instruction.Widened l.instructions l'.instructions

namespace Lengthened

theorem refl (l : Listing) : l.Lengthened l :=
  ⟨rfl, rfl, List.forall₂_same.2 fun i _ => .refl i⟩

theorem size_eq (h : l.Lengthened l') : l'.size = l.size := by
  rw [← length_instructions, ← length_instructions, h.instructions.length_eq]

theorem positions_eq (h : l.Lengthened l') : l'.positions = l.positions := by
  rw [positions, positions, h.points, h.issued]

theorem isPayload_eq_false (h : l.Lengthened l')
    (hcode : ∀ i ∈ l.instructions, i.isPayload = false) {i : Instruction Label}
    (hi : i ∈ l'.instructions) : i.isPayload = false := by
  obtain ⟨i', hmem, hwidened⟩ := forall₂_exists_left h.instructions hi
  rw [hwidened.isPayload_eq, hcode i' hmem]

/-- A jump can get longer. -/
theorem replaceAt (h : l.Lengthened l') {k : Nat} {r wider : Reach} {label : Label}
    (hi : l'.instructions[k]? = some (.goto r label)) (hle : r.units ≤ wider.units) :
    l.Lengthened (l'.replaceAt k (.goto wider label)) where
  points := by rw [points_replaceAt, h.points]
  issued := by rw [issued_replaceAt, h.issued]
  instructions := by
    refine forall₂_widened_trans h.instructions ?_
    rw [instructions_replaceAt, forall₂_iff_getElem?, List.length_set]
    refine ⟨rfl, fun n x y hx hy => ?_⟩
    rcases Decidable.eq_or_ne k n with rfl | hne
    · rw [List.getElem?_set_self (List.getElem?_eq_some_iff.1 hi).1] at hy
      obtain rfl := Option.some.inj hy
      obtain rfl := Option.some.inj (hx.symm.trans hi)
      exact Instruction.widened_goto_iff.2 ⟨wider, rfl, hle⟩
    · rw [List.getElem?_set_ne hne] at hy
      obtain rfl := Option.some.inj (hx.symm.trans hy)
      exact .refl x

end Lengthened

end Listing

namespace Bound

variable {b b' : Bound} {draft : Nat}

/-- What every repair keeps is kept by a sweep. -/
theorem sweepFrom_induction {p : Bound → Prop}
    (hrepair : ∀ b k action, p b → b.Diagnosis k action → p (b.repair k action).1) (left : Nat)
    {index : Nat} (hsize : b.listing.size = index + left) (h : p b) :
    p (b.sweepFrom b.listing.survey left index).1 := by
  induction left generalizing b index with
  | zero => exact h
  | succ left ih =>
    have hdiagnosis := b.diagnosis (k := index) (by omega)
    by_cases hkeep : b.repairAt b.listing.survey index = .keep
    · rw [sweepFrom_of_keep hkeep]
      exact ih (by omega) h
    · rw [sweepFrom_of_ne_keep hkeep]
      exact ih (hdiagnosis.size_repair hsize) (hrepair _ _ _ h hdiagnosis)

/-- What every repair keeps is kept by settling. -/
theorem settle_induction {p : Bound → Prop}
    (hrepair : ∀ b k action, p b → b.Diagnosis k action → p (b.repair k action).1) (h : p b) :
    p b.settle := by
  rw [settle]
  generalize b.sweepLimit = limit
  induction limit generalizing b with
  | zero => exact h
  | succ limit ih =>
    have hsweep : p b.sweep.1 := sweepFrom_induction hrepair _ (Nat.zero_add _).symm h
    rw [settleWithin_succ]
    split
    · exact ih hsweep
    · exact hsweep

/-- What has become of a listing without data.  Jumps have become longer, but not longer than in any
longer code in which every jump reaches its target. -/
structure Widens (l : Listing) (draft : Nat) (b : Bound) : Prop where
  /-- Everything is in order. -/
  sound : b.Sound draft
  /-- Nothing but jumps has become longer. -/
  lengthened : l.Lengthened b.listing
  /-- None of them is longer than it has to be. -/
  least : ∀ code, List.Forall₂ Instruction.Widened l.instructions code →
    Code.JumpsReach (fun label k => label.draft = draft ∧ l.locate? label = some k) code →
    List.Forall₂ Instruction.Widened b.listing.instructions code

/-- A repair can only be that of a jump. -/
theorem Widens.repair {l : Listing} (h : Widens l draft b)
    (hcode : ∀ i ∈ l.instructions, i.isPayload = false) {k : Nat} {action : Repair}
    (hdiagnosis : b.Diagnosis k action) : Widens l draft (b.repair k action).1 := by
  have hno : ∀ p : Payload Label, b.listing.instructions[k]? ≠ some (.data p) := fun p hp => by
    have hfalse := h.lengthened.isPayload_eq_false hcode (List.mem_of_getElem? hp)
    cases hfalse
  by_cases hkeep : action = .keep
  · subst hkeep
    exact h
  have hsound := (hdiagnosis.mends hkeep).sound h.sound
  cases hdiagnosis with
  | plain => exact absurd rfl hkeep
  | near => exact absurd rfl hkeep
  | aligned => exact absurd rfl hkeep
  | orphan hi => exact absurd hi (hno _)
  | gap _ hi => exact absurd hi (hno _)
  | tight hi => exact absurd hi (hno _)
  | @far o r wider label stop hi hstop hwider hshort =>
    have hmem := List.mem_of_getElem? hi
    rw [Instruction.eq_goto_of_valid (h.sound.listing.valid _ hmem)] at hi
    have hissued := h.sound.listing.targets _ hmem label (List.mem_singleton_self label)
    rw [h.sound.listing.toCoherent.address?_survey hissued.1] at hstop
    obtain ⟨j, hj, rfl⟩ := Option.map_eq_some_iff.1 hstop
    refine ⟨hsound, h.lengthened.replaceAt hi (Nat.le_of_lt hshort), fun code hwidened hreach => ?_⟩
    rw [Listing.locate?, h.lengthened.positions_eq, ← Listing.locate?] at hj
    change List.Forall₂ _ (b.listing.replaceAt k (.goto wider label)).instructions code
    rw [Listing.instructions_replaceAt, hwider]
    exact Code.forall₂_widened_set hreach (h.least code hwidened hreach) hi ⟨hissued.1, hj⟩

/-- Settling a listing without data makes no jump longer than it has to be. -/
theorem widens_settle (hb : b.Sound draft)
    (hcode : ∀ i ∈ b.listing.instructions, i.isPayload = false) :
    Widens b.listing draft b.settle :=
  settle_induction (fun _ _ _ h => h.repair hcode) ⟨hb, .refl _, fun _ hwidened _ => hwidened⟩

end Bound

end Dalvik
