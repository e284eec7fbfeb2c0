import Dalvik.Proofs.Outline.Coverage
import Dalvik.Proofs.Draft.Import

/-!
# Reading a finished method

A finished method has an outline if all its addresses can be looked up and its instructions are
valid (`Method.outline_eq_ok_iff`).  Whatever is looked up is the position of an instruction or the
end, so the outline is well-formed and the draft that spells it out is sound.
-/

namespace Dalvik

namespace Method

variable {m : Method} {o : Outline}

/-- The positions of the instructions at the addresses of the method. -/
def coverage (m : Method) : Coverage := .ofInstructions m.instructions

/-- What has to succeed for a method to have an outline, and what the outline then is. -/
theorem outline_eq_ok_iff : m.outline = .ok o ↔
    (∀ e ∈ m.code.entries.toList, e.2.isPayload = false →
      ∃ j, m.coverage.resolveFrom e.1 e.2 = .ok j) ∧
    List.Forall₂ (fun e j =>
        m.resolveAt m.coverage (m.switchTargets m.coverage) e.1 e.2.1 e.2.2 = .ok j)
      m.code.toList o.instructions ∧
    (∀ i ∈ o.instructions, i.Valid) ∧
    List.Forall₂ (fun e e' => e.mapM m.coverage.position = .ok e')
      (m.tries.flatMap tryEntries) o.tries ∧
    List.Forall₂ (fun e e' => m.coverage.position e.1.toInt64.toInt = .ok e'.1 ∧ e'.2 = e.2)
      m.debugItems o.debugItems ∧
    o.registers = m.registers := by
  constructor
  · intro h
    obtain ⟨⟨⟩, hbranches, h⟩ := bind_eq_ok_iff.1 h
    obtain ⟨instructions, hinstructions, h⟩ := bind_eq_ok_iff.1 h
    obtain ⟨⟨⟩, hvalid, h⟩ := bind_eq_ok_iff.1 h
    obtain ⟨tries, htries, h⟩ := bind_eq_ok_iff.1 h
    obtain ⟨items, hitems, h⟩ := bind_eq_ok_iff.1 h
    obtain rfl := pure_eq_ok_iff.1 h
    refine ⟨fun e he hpayload => ?_, mapM_eq_ok_iff.1 hinstructions, fun i hi => ?_,
      mapM_eq_ok_iff.1 htries, ?_, rfl⟩
    · exact discard_eq_ok_iff.1 (forM_eq_ok_iff.1 hbranches e
        (List.mem_filter.2 ⟨he, by simp [hpayload]⟩))
    · exact Instruction.validate_eq_ok_iff.1 (forM_eq_ok_iff.1 hvalid i hi)
    · refine (mapM_eq_ok_iff.1 hitems).imp fun e e' he => ?_
      obtain ⟨k, hk, heq⟩ := bind_eq_ok_iff.1 he
      obtain rfl := pure_eq_ok_iff.1 heq
      exact ⟨hk, rfl⟩
  · rintro ⟨hbranches, hinstructions, hvalid, htries, hitems, hregisters⟩
    unfold outline
    refine bind_eq_ok_iff.2 ⟨(), forM_eq_ok_iff.2 fun e he => discard_eq_ok_iff.2 ?_, ?_⟩
    · obtain ⟨hmem, hpayload⟩ := List.mem_filter.1 he
      exact hbranches e hmem (by simpa using hpayload)
    refine bind_eq_ok_iff.2 ⟨_, mapM_eq_ok_iff.2 hinstructions, ?_⟩
    refine bind_eq_ok_iff.2 ⟨(), forM_eq_ok_iff.2 fun i hi =>
      Instruction.validate_eq_ok_iff.2 (hvalid i hi), ?_⟩
    refine bind_eq_ok_iff.2 ⟨_, mapM_eq_ok_iff.2 htries, ?_⟩
    refine bind_eq_ok_iff.2 ⟨_, mapM_eq_ok_iff.2 (hitems.imp fun e e' he => ?_), ?_⟩
    · exact bind_eq_ok_iff.2 ⟨e'.1, he.1, pure_eq_ok_iff.2 (Prod.ext rfl he.2.symm)⟩
    · rw [← hregisters]
      rfl

/-- Only the targets of an instruction are looked up. -/
theorem resolveAt_eq_mapTargetsM (c : Coverage) (switches : List (Nat × Nat)) (address index : Nat)
    (i : Instruction Int32) :
    ∃ place : Int32 → Int, m.resolveAt c switches address index i =
      i.mapTargetsM fun offset => c.position (place offset) := by
  unfold resolveAt
  split
  · split
    · next base _ => exact ⟨fun offset => base + offset.toInt, rfl⟩
    · exact ⟨fun offset => max offset.toInt 0, rfl⟩
  · exact ⟨fun offset => address + offset.toInt, rfl⟩

/-- The outline of a method is well-formed. -/
theorem wellFormed_of_outline (h : m.outline = .ok o) : o.WellFormed := by
  obtain ⟨-, hinstructions, hvalid, htries, hitems, -⟩ := outline_eq_ok_iff.1 h
  have hlength : o.instructions.length = m.instructions.length := by
    rw [← hinstructions.length_eq]
    simp [Layout.toList, instructions, Layout.elems]
  have hle : ∀ {a k}, m.coverage.position a = .ok k → k ≤ o.instructions.length := by
    intro a k hk
    rw [hlength]
    exact Coverage.le_of_position hk
  refine ⟨hvalid, fun k hk => ?_, fun e he => ?_⟩
  · rcases Outline.mem_places_iff.1 hk with ⟨j, hj, hk⟩ | ⟨entry, hentry, hk⟩
    · obtain ⟨e, -, hresolve⟩ := forall₂_exists_left hinstructions hj
      obtain ⟨place, hplace⟩ := resolveAt_eq_mapTargetsM (m := m) m.coverage
        (m.switchTargets m.coverage) e.1 e.2.1 e.2.2
      rw [hplace] at hresolve
      obtain ⟨offset, -, hk'⟩ :=
        forall₂_exists_left (Instruction.mapTargetsM_eq_ok_iff.1 hresolve).2 hk
      exact hle hk'
    · obtain ⟨entry', -, hmap⟩ := forall₂_exists_left htries hentry
      obtain ⟨a, -, hk'⟩ := forall₂_exists_left (TryEntry.mapM_eq_ok_iff.1 hmap).2 hk
      exact hle hk'
  · obtain ⟨e', -, hk, -⟩ := forall₂_exists_left hitems he
    exact hle hk

end Method

/-- The draft of a finished method is sound. -/
theorem Draft.sound_of_ofMethod {draft : Nat} {m : Method} {d : Draft}
    (h : Draft.ofMethod draft m = .ok d) : d.Sound := by
  obtain ⟨o, ho, hd⟩ := bind_eq_ok_iff.1 h
  obtain rfl := pure_eq_ok_iff.1 hd
  exact sound_ofOutline (Method.wellFormed_of_outline ho)

end Dalvik
