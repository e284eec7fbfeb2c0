import Dalvik.Proofs.Relaxation.Widening
import Dalvik.Proofs.Store.Faults

/-!
# Relaxing a store without data

A store that holds no data is relaxed by making jumps longer, and no jump gets longer than it has to
be (`Store.least_of_relax`).
-/

namespace Dalvik

namespace Draft

variable {d d' : Draft}

/-- Relaxing a draft without data makes jumps longer, but no longer than they have to be. -/
theorem Sound.relaxed_lengthened (h : d.Sound)
    (hcode : ∀ i ∈ d.listing.instructions, i.isPayload = false) (hok : d.relaxed = .ok d') :
    d'.id = d.id ∧ d.listing.Lengthened d'.listing ∧
      ∀ code, List.Forall₂ Instruction.Widened d.listing.instructions code →
        Code.JumpsReach (fun label k => d.locate label = .ok k) code →
        List.Forall₂ Instruction.Widened d'.listing.instructions code := by
  simp only [locate_eq_ok_iff]
  cases howners? : d.owners? with
  | some owners =>
    rw [relaxed_of_owners?_eq_some howners?] at hok
    obtain rfl := Except.ok.inj hok
    exact ⟨rfl, .refl _, fun _ hwidened _ => hwidened⟩
  | none =>
    obtain ⟨owners, howners, rfl⟩ := relaxed_of_owners?_eq_none howners? hok
    have hwidens := Bound.widens_settle (h.bound howners) hcode
    exact ⟨rfl, hwidens.lengthened, hwidens.least⟩

end Draft

namespace Store

variable {s s' : Store}

/-- Relaxing a store without data makes some of its jumps longer, so that all of them reach their
targets, and leaves positions and labels where they are.  Any code in which every jump reaches its
target as well, and which differs from that of the store in nothing but longer jumps, has none that is
shorter than in the relaxed store. -/
theorem least_of_relax (h : s.Reachable) (hcode : ∀ i ∈ s.instructions, i.isPayload = false)
    (hok : relax s = .ok ⟨⟩ s') :
    s'.size = s.size ∧ s'.labelIndex = s.labelIndex ∧
      List.Forall₂ Instruction.Widened s.instructions s'.instructions ∧
      (∀ k r label, s'.instruction? k = some (.goto r label) →
        ∃ cell stop, s'.cell? k = some cell ∧ s'.cellOf label = .ok stop ∧
          r.fits ((stop.address : Int) - cell.address) = true) ∧
      ∀ code, List.Forall₂ Instruction.Widened s.instructions code →
        Code.JumpsReach (fun label k => s.labelIndex label = .ok k) code →
        List.Forall₂ Instruction.Widened s'.instructions code := by
  obtain ⟨d, hd, hrefines⟩ := h.exists_refines
  obtain ⟨d', hrelax, h'⟩ := (agree_relax hrefines hd.sound).exists_of_ok hok
  rw [Draft.relax_eq_ok_iff] at hrelax
  obtain ⟨hsound, hclean⟩ := hd.sound.relaxed hrelax
  rw [hrefines.tracks.instructions_eq] at hcode ⊢
  obtain ⟨hid, hlengthened, hleast⟩ := hd.sound.relaxed_lengthened hcode hrelax
  rw [h'.tracks.instructions_eq, h'.tracks_size, hrefines.tracks_size, h'.labelIndex_eq,
    hrefines.labelIndex_eq]
  refine ⟨hlengthened.size_eq, ?_, hlengthened.instructions, fun k r label hi => ?_, hleast⟩
  · funext label
    rw [Draft.locate, Draft.locate, Draft.locateIn, Draft.locateIn, hid, hlengthened.positions_eq]
  · rw [h'.tracks.instruction?_eq, ← Listing.getElem?_instructions] at hi
    obtain ⟨stop, hstop, hfits⟩ := (hsound.legal hclean).exists_fits hi hsound.listing
    have hk : k ≤ d'.listing.size := by simpa using Nat.le_of_lt (List.getElem?_eq_some_iff.1 hi).1
    refine ⟨_, d'.listing.cell stop, h'.tracks.cell?_eq hk, ?_, hfits⟩
    rw [h'.cellOf_eq, hstop]
    rfl

/-- A short jump to the end over 130 code units. -/
def stretch : Store :=
  (new 0 2).run (List.replicate 26 (.append (.op .constWide (.f51l 0 0))) ++
    [.labelAt 26, .insert 0 (.goto .byte ⟨0, 0⟩)])

/-- The jump gets the medium form, and it needs at least this one in any code. -/
theorem least_of_relax_stretch :
    stretch.Reachable ∧ (∀ i ∈ stretch.instructions, i.isPayload = false) ∧
      ∃ s', relax stretch = .ok ⟨⟩ s' ∧ s'.size = stretch.size ∧ stretch.size = 27 ∧
        s'.instruction? 0 = some (.goto .word ⟨0, 0⟩) ∧
        ∀ code, List.Forall₂ Instruction.Widened stretch.instructions code →
          Code.JumpsReach (fun label k => stretch.labelIndex label = .ok k) code →
          List.Forall₂ Instruction.Widened s'.instructions code := by
  have hstretch : stretch.Reachable := (Reachable.new 0 2).run _
  have hcode : ∀ i ∈ stretch.instructions, i.isPayload = false := by decide +kernel
  obtain ⟨⟨⟩, s', hs'⟩ := exists_of_succeeds (x := relax) (s := stretch) (by decide +kernel)
  obtain ⟨hsize, -, -, -, hleast⟩ := least_of_relax hstretch hcode hs'
  have hjump : (stateAfter relax stretch).instruction? 0 = some (.goto .word ⟨0, 0⟩) := by
    decide +kernel
  rw [stateAfter, hs'] at hjump
  exact ⟨hstretch, hcode, s', hs', hsize, by decide +kernel, hjump, hleast⟩

end Store

end Dalvik
