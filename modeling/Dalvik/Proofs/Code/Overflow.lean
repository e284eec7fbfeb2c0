import Dalvik.Code.Encode
import Dalvik.Proofs.Outcome
import Mathlib.Data.Nat.Find

/-!
# When code cannot be encoded

Nothing but an offset that is too far for its field keeps an instruction from being encoded, and
encoding stops at the first one (`Code.encode_eq_error_iff`).
-/

namespace Dalvik

namespace Code

/-! ### Single offsets -/

theorem offset8_eq_error_iff {o : Opcode} {t : Int32} {e : OffsetOverflow} :
    offset8 o t = .error e ↔ Reach.byte.fits t.toInt = false ∧ e = ⟨o, t⟩ := by
  unfold offset8
  cases Reach.byte.fits t.toInt <;> simp [eq_comm]

theorem offset16_eq_error_iff {o : Opcode} {t : Int32} {e : OffsetOverflow} :
    offset16 o t = .error e ↔ Reach.word.fits t.toInt = false ∧ e = ⟨o, t⟩ := by
  unfold offset16
  cases Reach.word.fits t.toInt <;> simp [eq_comm]

end Code

open Code

/-! ### Instructions -/

/-- Operands cannot be encoded if their target is too far for the field that holds it. -/
theorem Operands.encode_eq_error_iff {o : Opcode} {args : Operands Int32} {e : OffsetOverflow} :
    args.encode o = .error e ↔
      (args.targets.find? fun t => !args.reach.fits t.toInt) = some e.offset ∧ e.opcode = o := by
  have hoverflow : ∀ t : Int32, e = ⟨o, t⟩ ↔ t = e.offset ∧ e.opcode = o := by
    intro t
    obtain ⟨opcode, offset⟩ := e
    rw [OffsetOverflow.mk.injEq]
    constructor
    · rintro ⟨rfl, rfl⟩
      exact ⟨rfl, rfl⟩
    · rintro ⟨rfl, rfl⟩
      exact ⟨rfl, rfl⟩
  have hword : ∀ t : Int32, offset16 o t = .error e ↔
      ([t].find? fun t => !Reach.word.fits t.toInt) = some e.offset ∧ e.opcode = o := by
    intro t
    rw [offset16_eq_error_iff, hoverflow]
    cases hfits : Reach.word.fits t.toInt <;> simp [hfits]
  have hbyte : ∀ t : Int32, offset8 o t = .error e ↔
      ([t].find? fun t => !Reach.byte.fits t.toInt) = some e.offset ∧ e.opcode = o := by
    intro t
    rw [offset8_eq_error_iff, hoverflow]
    cases hfits : Reach.byte.fits t.toInt <;> simp [hfits]
  cases args with
  | jump r t =>
    cases r with
    | byte => exact bind_pure_eq_error_iff.trans (hbyte t)
    | word => exact bind_pure_eq_error_iff.trans (hword t)
    | long => simp [encode, targets, reach, Reach.fits]
  | f21t a t => exact bind_pure_eq_error_iff.trans (hword t)
  | f22t a b t => exact bind_pure_eq_error_iff.trans (hword t)
  | _ => simp [encode, targets, reach, Reach.fits]

/-- An instruction cannot be encoded if its offset is too far for its field, and the error names the
two. -/
theorem Instruction.encode_eq_error_iff {i : Instruction Int32} {e : OffsetOverflow} :
    i.encode = .error e ↔ i.overlong? = some e.offset ∧ i.opcode = e.opcode := by
  cases i with
  | op o args =>
    unfold encode
    rw [Operands.encode_eq_error_iff]
    exact and_congr_right fun _ => eq_comm
  | data p => simp [encode, overlong?]

theorem Instruction.exists_encode_eq_ok_iff {i : Instruction Int32} :
    (∃ units, i.encode = .ok units) ↔ i.overlong? = none := by
  cases hencode : i.encode with
  | ok units =>
    refine iff_of_true ⟨units, rfl⟩ ?_
    rw [Option.eq_none_iff_forall_ne_some]
    intro offset hoffset
    have herror : i.encode = .error ⟨i.opcode, offset⟩ :=
      Instruction.encode_eq_error_iff.2 ⟨hoffset, rfl⟩
    cases hencode.symm.trans herror
  | error e =>
    refine iff_of_false ?_ ?_
    · rintro ⟨units, hunits⟩
      cases hunits
    · rw [(Instruction.encode_eq_error_iff.1 hencode).1]
      simp

/-! ### Code -/

namespace Code

/-- The instruction at position `k`, with the given opcode, has an offset that is too far for its
field, and there is no such instruction in front of it. -/
structure FirstOverlong (code : List (Instruction Int32)) (k : Nat) (opcode : Opcode)
    (offset : Int32) : Prop where
  /-- The field is too narrow. -/
  overlong : ∃ i, code[k]? = some i ∧ i.opcode = opcode ∧ i.overlong? = some offset
  /-- No field in front of it is. -/
  before : ∀ j < k, ∀ i ∈ code[j]?, i.overlong? = none

variable {code : List (Instruction Int32)}

/-- If there is an offset that is too far, there is a first one. -/
theorem exists_firstOverlong_iff :
    (∃ k opcode offset, FirstOverlong code k opcode offset) ↔ ∃ i ∈ code, i.overlong? ≠ none := by
  constructor
  · rintro ⟨k, opcode, offset, ⟨i, hi, -, hoverlong⟩, -⟩
    exact ⟨i, List.mem_of_getElem? hi, by simp [hoverlong]⟩
  · rintro ⟨i, hi, hoverlong⟩
    have hsome : ∃ k : Nat, ∃ i ∈ code[k]?, i.overlong? ≠ none := by
      obtain ⟨k, hk⟩ := List.getElem?_of_mem hi
      exact ⟨k, i, hk, hoverlong⟩
    classical
    obtain ⟨j, hj, hfar⟩ := Nat.find_spec hsome
    obtain ⟨offset, hoffset⟩ := Option.ne_none_iff_exists'.1 hfar
    refine ⟨Nat.find hsome, j.opcode, offset, ⟨j, hj, rfl, hoffset⟩, fun m hm i' hi' => ?_⟩
    by_contra hne
    exact Nat.find_min hsome hm ⟨i', hi', hne⟩

/-- Encoding fails with the opcode and the offset of the first instruction whose offset is too far for
its field. -/
theorem encode_eq_error_iff {e : OffsetOverflow} :
    encode code = .error e ↔ ∃ k, FirstOverlong code k e.opcode e.offset := by
  unfold encode
  rw [bind_pure_eq_error_iff, mapM_eq_error_iff]
  simp only [Instruction.encode_eq_error_iff, Instruction.exists_encode_eq_ok_iff]
  constructor
  · rintro ⟨k, i, hi, ⟨hoverlong, hopcode⟩, hbefore⟩
    exact ⟨k, ⟨i, hi, hopcode, hoverlong⟩, hbefore⟩
  · rintro ⟨k, ⟨i, hi, hopcode, hoverlong⟩, hbefore⟩
    exact ⟨k, i, hi, ⟨hoverlong, hopcode⟩, hbefore⟩

/-- Code can be encoded if all its offsets fit. -/
theorem exists_encode_eq_ok_iff :
    (∃ bytes, encode code = .ok bytes) ↔ ∀ i ∈ code, i.overlong? = none := by
  constructor
  · rintro ⟨bytes, hbytes⟩ i hi
    by_contra hne
    obtain ⟨k, opcode, offset, hfirst⟩ := exists_firstOverlong_iff.2 ⟨i, hi, hne⟩
    have herror : encode code = .error ⟨opcode, offset⟩ := encode_eq_error_iff.2 ⟨k, hfirst⟩
    cases hbytes.symm.trans herror
  · intro hfits
    cases hencode : encode code with
    | ok bytes => exact ⟨bytes, rfl⟩
    | error e =>
      obtain ⟨k, ⟨i, hi, -, hoverlong⟩, -⟩ := encode_eq_error_iff.1 hencode
      rw [hfits i (List.mem_of_getElem? hi)] at hoverlong
      cases hoverlong

end Code

end Dalvik
