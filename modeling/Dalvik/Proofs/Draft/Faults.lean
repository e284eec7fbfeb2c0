import Dalvik.Proofs.Relaxation.Faults
import Dalvik.Proofs.Draft.Outline
import Dalvik.Proofs.Draft.Relaxed

/-!
# Drafts that cannot be relaxed

A sound draft can be relaxed unless one of its switches is faulty (`Draft.Sound.relaxed_eq_error_iff`).
All its labels have been placed, so the checks that come first pass, and settling always comes to an
end.
-/

namespace Dalvik

namespace Draft

variable {d : Draft} {e : Error}

/-- A draft that is to be relaxed once more is still sound. -/
theorem Sound.forced (h : d.Sound) : Sound { d with owners? := none } where
  listing := h.listing
  tries := h.tries
  legal hclean := by cases hclean

/-- In a sound draft every label in use has been placed. -/
theorem Sound.placed (h : d.Sound) :
    (d.listing.instructions.forM fun i => i.targets.forM fun label =>
        (discard (d.locate label) : Except Error Unit)) = .ok () ∧
      (d.tries.toList.forM fun entry => entry.places.forM fun label =>
        (discard (d.locate label) : Except Error Unit)) = .ok () := by
  simp only [forM_eq_ok_iff, discard_eq_ok_iff]
  exact ⟨fun i hi label hlabel => h.exists_locate_eq_ok (h.listing.targets i hi label hlabel),
    fun entry hentry label hlabel => h.exists_locate_eq_ok (h.tries entry hentry label hlabel)⟩

/-- Relaxing a sound draft comes down to finding the owners of its tables, and settling. -/
theorem Sound.relaxed_eq (h : d.Sound) (howners? : d.owners? = none) :
    d.relaxed = (do
      let owners ← d.listing.findOwners d.locate
      return { d with
        listing := (Bound.settle ⟨d.listing, owners⟩).listing
        owners? := some (Bound.settle ⟨d.listing, owners⟩).owners }) := by
  obtain ⟨hinstructions, htries⟩ := h.placed
  have hlocate : d.locateIn d.listing.positions = d.locate := rfl
  rw [Draft.relaxed, howners?]
  dsimp only
  rw [hlocate, hinstructions, htries]
  rfl

/-- Labels of switches have a position. -/
theorem Sound.exists_locate_switchTarget? (h : d.Sound) :
    ∀ i ∈ d.listing.instructions, ∀ label ∈ i.switchTarget?,
      ∃ k ≤ d.listing.size, d.locate label = .ok k := by
  intro i hi label hlabel
  have hmem := Instruction.mem_targets_of_switchTarget? hlabel
  obtain ⟨k, hk⟩ := h.exists_locate_eq_ok (h.listing.targets i hi label hmem)
  obtain ⟨hdraft, hlocate⟩ := locate_eq_ok_iff.1 hk
  exact ⟨k, h.listing.locate?_le_size hdraft hlocate, hk⟩

/-- Relaxing a sound draft fails with what is wrong with its first faulty switch. -/
theorem Sound.relaxed_eq_error_iff (h : d.Sound) (howners? : d.owners? = none) :
    d.relaxed = .error e ↔ ∃ k, Code.Fault d.locate d.listing.instructions k e ∧
      ∀ j < k, ∀ e', ¬ Code.Fault d.locate d.listing.instructions j e' := by
  rw [h.relaxed_eq howners?, ← Listing.findOwners_eq_error_iff
    (fun _ _ hk => (locate_eq_ok_iff.1 hk).2) h.exists_locate_switchTarget?]
  cases d.listing.findOwners d.locate with
  | ok owners => simp [bind, Except.bind, pure, Except.pure]
  | error e => simp [bind, Except.bind]

theorem Sound.exists_relaxed_eq_ok_iff (h : d.Sound) (howners? : d.owners? = none) :
    (∃ d', d.relaxed = .ok d') ↔ ∀ k e, ¬ Code.Fault d.locate d.listing.instructions k e := by
  rw [h.relaxed_eq howners?, ← Listing.exists_findOwners_eq_ok_iff
    (fun _ _ hk => (locate_eq_ok_iff.1 hk).2) h.exists_locate_switchTarget?]
  cases d.listing.findOwners d.locate with
  | ok owners => simp [bind, Except.bind, pure, Except.pure]
  | error e => simp [bind, Except.bind]

theorem relax_eq_error_iff {d' : Draft} : relax d = .error e d' ↔ d.relaxed = .error e ∧ d' = d := by
  rw [relax, run_get_bind]
  cases hrelaxed : d.relaxed with
  | ok d'' =>
    constructor
    · intro h
      cases h
    · rintro ⟨h, -⟩
      cases h
  | error e' =>
    constructor
    · intro h
      cases h
      exact ⟨rfl, rfl⟩
    · rintro ⟨h, rfl⟩
      cases h
      rfl

end Draft

end Dalvik
