import Dalvik.Proofs.Draft.Reachability
import Dalvik.Proofs.Relaxation.Preservation
import Dalvik.Proofs.Relaxation.Rounds

/-!
# A relaxed draft is still the same program

Relaxing a draft keeps its core instructions, up to the length of jumps, and what stands in front of
them; handlers and registers stay as they are (`Draft.SameProgram`).  On the way every `nop` that
comes or goes does so right in front of data.

Relaxation comes to an end, after a number of sweeps that depends on the jumps alone
(`Draft.sweeps_le_of_reachable`).
-/

namespace Dalvik

namespace Draft

/-- What `d'` has in common with `d`, from which it came about by relaxation. -/
structure SameProgram (d d' : Draft) : Prop where
  /-- The core instructions are the same, but jumps may have become longer. -/
  core : List.Forall₂ Instruction.Widened d.listing.core d'.listing.core
  /-- Every label stands in front of the same core instruction, or behind all of them. -/
  labels : ∀ label, d.listing.Issued d.id label → ∃ k k', d.locate label = .ok k ∧
    d'.locate label = .ok k' ∧ d'.listing.coresBefore k' = d.listing.coresBefore k
  /-- So does every debug item, and the debug items are in the same order. -/
  items : d'.listing.debugItems.map (fun m => (d'.listing.coresBefore m.1, m.2)) =
    d.listing.debugItems.map (fun m => (d.listing.coresBefore m.1, m.2))
  /-- The handlers are the same. -/
  tries : d'.tries = d.tries
  /-- The number of registers is the same. -/
  registers : d'.registers = d.registers
  /-- Nothing but jumps has been exchanged, nothing but tables that no switch reaches and `nop`s right
  in front of data has been removed, and nothing but `nop`s right in front of data has been added. -/
  repairs : Relation.ReflTransGen Listing.RepairedTo d.listing d'.listing

variable {d d' : Draft}

/-- In a sound draft every label that was issued stands somewhere. -/
theorem Sound.exists_locate_eq_ok (h : d.Sound) {label : Label}
    (hlabel : d.listing.Issued d.id label) : ∃ k, d.locate label = .ok k := by
  obtain ⟨k, hk⟩ := h.listing.exists_locate? hlabel
  exact ⟨k, locate_eq_ok_iff.2 ⟨hlabel.1, hk⟩⟩

/-- Relaxing a draft that comes about does not change what the program is. -/
theorem sameProgram_of_relax (h : d.Reachable) (hok : relax d = .ok () d') : d.SameProgram d' := by
  have hsound := h.sound
  have hrelaxed := relax_eq_ok_iff.1 hok
  cases howners? : d.owners? with
  | some owners =>
    rw [relaxed_of_owners?_eq_some howners?] at hrelaxed
    obtain rfl := Except.ok.inj hrelaxed
    refine ⟨(Listing.Preserved.refl _).core, fun label hlabel => ?_, rfl, rfl, rfl, .refl⟩
    obtain ⟨k, hk⟩ := hsound.exists_locate_eq_ok hlabel
    exact ⟨k, k, hk, hk, rfl⟩
  | none =>
    obtain ⟨owners, howners, rfl⟩ := relaxed_of_owners?_eq_none howners? hrelaxed
    have hbound := hsound.bound howners
    have hchain := Bound.mends_settle hbound
    have hpreserved := Bound.preserved_of_mends hchain hbound
    refine ⟨hpreserved.core, fun label hlabel => ?_, hpreserved.items, rfl, rfl,
      Bound.repairedTo_of_mends hchain hbound⟩
    obtain ⟨k, hk⟩ := hsound.exists_locate_eq_ok hlabel
    obtain ⟨k', hk', hcount⟩ := hpreserved.locate? hsound.listing.toCoherent
      (Bound.sound_settle hbound).listing.toCoherent hlabel.1 (locate_eq_ok_iff.1 hk).2
    exact ⟨k, k', hk, locate_eq_ok_iff.2 ⟨hlabel.1, hk'⟩, hcount⟩

/-- Relaxing the sample adds a `nop`, which is all that changes. -/
theorem sameProgram_of_relax_sample :
    ∃ d', sample.Reachable ∧ relax sample = .ok () d' ∧ d'.size = sample.size + 1 ∧
      sample.SameProgram d' := by
  have hsample : sample.Reachable := (Reachable.new 0 1).run _
  have hok : ∃ d', relax sample = .ok () d' ∧ d'.size = sample.size + 1 :=
    ⟨_, rfl, by decide +kernel⟩
  obtain ⟨d', hrelax, hsize⟩ := hok
  exact ⟨d', hsample, hrelax, hsize, sameProgram_of_relax hsample hrelax⟩

/-! ### How long it takes -/

/-- Relaxation of a draft that comes about ends.  Each sweep, of any listing, ends after as many rounds
as there are instructions.  Once the switches have found their tables, there are no more than two
sweeps, two for every short jump and one for every jump of medium length, and where they end is where
`Bound.settle` leads. -/
theorem sweeps_le_of_reachable (h : d.Reachable) {owners : Owners}
    (howners : d.listing.findOwners d.locate = .ok owners) :
    (∀ b : Bound, ∃ c : Bound.Cursor, (Bound.Cursor.mk b 0 false).Runs b.listing.size c) ∧
      (∃ n b', Bound.Sweeps ⟨d.listing, owners⟩ n b') ∧
      ∀ n b', Bound.Sweeps ⟨d.listing, owners⟩ n b' →
        b' = Bound.settle ⟨d.listing, owners⟩ ∧
        n ≤ 2 + 2 * d.listing.instructions.countP (·.opcode = .goto) +
          d.listing.instructions.countP (·.opcode = .goto16) := by
  have hbound := h.sound.bound howners
  obtain ⟨n, b', hn, hsweeps⟩ := Bound.exists_sweeps hbound
  refine ⟨fun b => ⟨_, b.runs_sweep⟩, ⟨n, b', hsweeps⟩, fun n' b'' hsweeps' => ?_⟩
  obtain ⟨rfl, rfl⟩ := hsweeps.unique hsweeps'
  have hlimit : n ≤ Bound.sweepLimit ⟨d.listing, owners⟩ := by
    rw [Bound.sweepLimit_eq]
    exact hn
  refine ⟨(hsweeps.settleWithin_eq hlimit).symm, ?_⟩
  have hvalid := h.sound.listing.valid
  rw [Bound.sweepLimit, Bound.countJumps_eq hvalid, Bound.countJumps_eq hvalid] at hlimit
  exact hlimit

/-- The sample takes two sweeps: one adds a `nop`, the other sees that nothing is left to do. -/
theorem sweeps_le_of_reachable_sample :
    ∃ owners b', sample.Reachable ∧ sample.listing.findOwners sample.locate = .ok owners ∧
      Bound.Sweeps ⟨sample.listing, owners⟩ 2 b' ∧
      b' = Bound.settle ⟨sample.listing, owners⟩ := by
  have hsample : sample.Reachable := (Reachable.new 0 1).run _
  have howners : sample.listing.findOwners sample.locate = .ok [⟨0, 1⟩] := by decide +kernel
  have hfirst : (Bound.sweep ⟨sample.listing, [⟨0, 1⟩]⟩).2 = true := by decide +kernel
  have hsecond : (Bound.sweep (Bound.sweep ⟨sample.listing, [⟨0, 1⟩]⟩).1).2 = false := by
    decide +kernel
  have hsweeps : Bound.Sweeps ⟨sample.listing, [⟨0, 1⟩]⟩ 2 _ :=
    Bound.sweeps_of_sweep_eq_true hfirst (Bound.sweeps_of_sweep_eq_false hsecond)
  exact ⟨_, _, hsample, howners, hsweeps,
    ((sweeps_le_of_reachable hsample howners).2.2 _ _ hsweeps).1⟩

end Draft

end Dalvik
