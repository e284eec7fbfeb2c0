import Dalvik.Proofs.Code.Codec
import Dalvik.Proofs.Draft.RoundTrip

/-!
# Methods of drafts are in normal form

Whatever method a draft that comes about is turned into: its code can be written as bytes and read
again, and turning it into a draft and back changes nothing (`Draft.normalForm_of_toMethod`).
-/

namespace Dalvik

/-- The code of a method with valid instructions and offsets that fit is written as two bytes for
every unit, and the method is got back from them. -/
theorem Method.exists_codeBytes {m : Method} (h : m.WellFormed)
    (hcode : m.code = .ofList m.instructions) :
    ∃ bytes, m.codeBytes = .ok bytes ∧ bytes.length = 2 * m.units ∧
      ofBytes m.registers bytes m.tries m.debugItems = .ok m := by
  obtain ⟨bytes, hencode, hlength, hdecode⟩ := Code.exists_encode h.valid h.fits
  refine ⟨bytes, ?_, ?_, bind_eq_ok_iff.2 ⟨m.instructions, hdecode, ?_⟩⟩
  · rw [codeBytes, hencode]
    rfl
  · rw [hlength, units_eq hcode, Code.address, List.take_length]
  · rw [ofInstructions, ← hcode]
    rfl

namespace Draft

variable {d d' : Draft} {m : Method}

/-- The method that a draft is turned into is written as two bytes for every unit of its code and
read again unchanged, and it is turned into a draft, with any identity, and back unchanged. -/
theorem normalForm_of_toMethod (h : d.Reachable) (hok : toMethod d = .ok m d')
    (hsize : m.units < 2 ^ 63) :
    (∃ bytes, m.codeBytes = .ok bytes ∧ bytes.length = 2 * m.units ∧
      Method.ofBytes m.registers bytes m.tries m.debugItems = .ok m) ∧
      ∀ draft, ∃ d₁ d₂, ofMethod draft m = .ok d₁ ∧ toMethod d₁ = .ok m d₂ := by
  obtain ⟨hwf, hcode⟩ := h.sound.wellFormed_of_toMethod hok hsize
  refine ⟨Method.exists_codeBytes hwf hcode, fun draft => ?_⟩
  obtain ⟨o, d₂, ho, hrelaxed, hout, hm⟩ := exists_relaxed_ofOutline hwf hcode hsize draft
  refine ⟨ofOutline draft o, d₂, bind_eq_ok_iff.2 ⟨o, ho, rfl⟩, ?_⟩
  exact toMethod_eq_ok_iff.2 ⟨hrelaxed, o, hout, hm⟩

/-- The method of the loop takes up 24 bytes, from which it is read again. -/
theorem normalForm_of_toMethod_loop :
    ∃ bytes, loopMethod.codeBytes = .ok bytes ∧ bytes.length = 24 ∧
      Method.ofBytes 2 bytes loopMethod.tries loopMethod.debugItems = .ok loopMethod ∧
      ∃ d₁ d₂, ofMethod 7 loopMethod = .ok d₁ ∧ toMethod d₁ = .ok loopMethod d₂ := by
  obtain ⟨d, hok⟩ := toMethod_loop
  have hsize : loopMethod.units = 12 := by decide +kernel
  obtain ⟨⟨bytes, hbytes, hlength, hread⟩, hback⟩ :=
    normalForm_of_toMethod reachable_loop hok (by rw [hsize]; decide)
  rw [hsize] at hlength
  exact ⟨bytes, hbytes, hlength, hread, hback 7⟩

end Draft

end Dalvik
