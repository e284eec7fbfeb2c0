import Dalvik.Proofs.Code.Prefix
import Dalvik.Proofs.Code.Reencoding

/-!
# Code behind other code

Decoding reads instructions as long as it can.  Where it cannot go on it stops (`Code.Stops`), and the
error says what is wrong and at which address (`Code.decode_eq_error_iff`).  As no instruction depends
on what comes behind it, code behind other code is decoded as if it stood alone, only that its
addresses are higher (`Code.decode_append`).
-/

namespace Dalvik

/-- The error in code that starts at a higher address. -/
def Error.advance (distance : Nat) : Error → Error
  | unknownOpcode address value => unknownOpcode (address + distance) value
  | truncatedInstruction address => truncatedInstruction (address + distance)
  | e => e

theorem DecodeFailure.advance_at (failure : DecodeFailure) (address distance : Nat) :
    (failure.at address).advance distance = failure.at (distance + address) := by
  cases failure <;> simp only [DecodeFailure.at, Error.advance, Nat.add_comm]

namespace Code

variable {units rest : List UInt16} {bytes : List UInt8} {code code' : List (Instruction Int32)}

/-! ### Instructions behind each other -/

theorem Reads.append (h : Reads units code) (h' : Reads rest code') :
    Reads (units ++ rest) (code ++ code') := by
  induction h with
  | nil => exact h'
  | cons length read _ ih =>
    rw [List.append_assoc, List.cons_append]
    exact .cons length (Instruction.decode_append_of_length_eq length read _) ih

/-- The size of the instructions is the number of their units. -/
theorem Reads.length_eq (h : Reads units code) :
    units.length = (code.map Instruction.units).sum := h.exists_encode.1

/-- Instructions in front of other units are read first. -/
theorem Reads.decodeUnits_go_append (h : Reads units code) (before : List (Instruction Int32))
    (address : Nat) (rest : List UInt16) :
    decodeUnits.go before address 0 (units ++ rest) =
      decodeUnits.go (code.reverse ++ before) (address + units.length) 0 rest := by
  induction h generalizing before address with
  | nil => rfl
  | @cons i units behind code length read _ ih =>
    have hread := Instruction.decode_append_of_length_eq length read (behind ++ rest)
    rw [List.append_assoc, Code.decodeUnits_go_append length hread, ih, List.reverse_cons,
      List.append_assoc, List.length_append, length, Nat.add_assoc]
    rfl

/-- Instructions can be read as far as the end, or up to units that are none. -/
theorem exists_reads (units : List UInt16) : ∃ front behind code,
    units = front ++ behind ∧ Reads front code ∧
      (behind = [] ∨ ∃ failure, Instruction.decode behind = .error failure) := by
  -- the induction is on the number of units, of which every instruction takes some
  induction hn : units.length using Nat.strong_induction_on generalizing units with
  | _ n ih =>
    cases hread : Instruction.decode units with
    | error failure => exact ⟨[], units, [], rfl, .nil, .inr ⟨failure, hread⟩⟩
    | ok i =>
      obtain ⟨front, rest, rfl, hlength, hfront⟩ := Instruction.fromFront_decode.ok hread
      have hshorter : rest.length < n := by
        have hpos := i.units_pos
        rw [List.length_append] at hn
        omega
      obtain ⟨middle, behind, code, rfl, hreads, hbehind⟩ := ih _ hshorter rest rfl
      exact ⟨front ++ middle, behind, i :: code, (List.append_assoc ..).symm,
        .cons hlength (hfront middle) hreads, hbehind⟩

/-! ### Where decoding stops -/

/-- The bytes of some instructions end at the address, and what comes behind them is no instruction. -/
inductive Stops : List UInt8 → Nat → DecodeFailure → Prop
  | intro {units : List UInt16} {code : List (Instruction Int32)} {behind : List UInt8}
      {failure : DecodeFailure} (front : Reads units code) (nonempty : behind ≠ [])
      (failed : Instruction.decode (unitsOfBytes behind) = .error failure) :
      Stops (bytesOfUnits units ++ behind) units.length failure

theorem Reads.decode_eq (h : Reads units code) : decode (bytesOfUnits units) = .ok code := by
  refine decode_eq_ok_iff.2 ⟨?_, ?_⟩
  · rw [length_bytesOfUnits]
    omega
  · rwa [unitsOfBytes_bytesOfUnits]

/-- Bytes that can be decoded are those of instructions. -/
theorem exists_reads_of_decode (h : decode bytes = .ok code) :
    ∃ units, bytesOfUnits units = bytes ∧ Reads units code := by
  obtain ⟨heven, hreads⟩ := decode_eq_ok_iff.1 h
  exact ⟨_, bytesOfUnits_unitsOfBytes heven, hreads⟩

/-- A single byte is no unit. -/
theorem unitsOfBytes_of_length_le_one (h : bytes.length ≤ 1) : unitsOfBytes bytes = [] := by
  match bytes with
  | [] | [_] => rfl
  | _ :: _ :: _ => simp only [List.length_cons] at h; omega

/-- The bytes of instructions can be decoded, and in all others decoding stops somewhere. -/
theorem exists_stops_of_ne_ok (h : ∀ code, decode bytes ≠ .ok code) :
    ∃ address failure, Stops bytes address failure := by
  obtain ⟨odd, hodd, hbytes⟩ := exists_bytesOfUnits_append bytes
  obtain ⟨front, behind, code, hunits, hreads, hbehind⟩ := exists_reads (unitsOfBytes bytes)
  rw [hunits, bytesOfUnits_append, List.append_assoc] at hbytes
  have hread : unitsOfBytes (bytesOfUnits behind ++ odd) = behind := by
    rw [unitsOfBytes_append, unitsOfBytes_of_length_le_one (by omega), List.append_nil]
  have hnonempty : bytesOfUnits behind ++ odd ≠ [] := by
    intro hempty
    rw [hempty, List.append_nil] at hbytes
    exact h code (hbytes ▸ hreads.decode_eq)
  obtain ⟨failure, hfailure⟩ : ∃ failure, Instruction.decode behind = .error failure := by
    rcases hbehind with rfl | hfailure
    · exact ⟨.truncated, rfl⟩
    · exact hfailure
  rw [← hbytes]
  exact ⟨_, failure, .intro hreads hnonempty (by rw [hread, hfailure])⟩

/-- Where decoding stops, the error says so. -/
theorem Stops.decode_eq {address : Nat} {failure : DecodeFailure} (h : Stops bytes address failure) :
    decode bytes = .error (failure.at address) := by
  obtain @⟨units, code, behind, failure, front, nonempty, failed⟩ := h
  have hgo : decodeUnits (unitsOfBytes (bytesOfUnits units ++ behind)) =
      decodeUnits.go code.reverse units.length 0 (unitsOfBytes behind) := by
    rw [unitsOfBytes_append, decodeUnits, front.decodeUnits_go_append, List.append_nil,
      Nat.zero_add]
  cases hbehind : unitsOfBytes behind with
  | nil =>
    -- a single byte is left, so this is found out only after everything else has been read
    obtain ⟨odd, hodd, hodd'⟩ := exists_bytesOfUnits_append behind
    have hlength : behind.length % 2 = 1 := by
      rw [hbehind] at hodd'
      have hpos := List.length_pos_of_ne_nil nonempty
      rw [← hodd'] at hpos
      simp only [bytesOfUnits, List.flatMap_nil, List.nil_append] at hpos
      omega
    rw [hbehind] at failed
    cases failed
    rw [hbehind] at hgo
    refine bind_eq_error_iff.2 (.inr ⟨code, hgo.trans ?_, ?_⟩)
    · rw [decodeUnits.go, List.reverse_reverse]
    · rw [unitsOfBytes_append, hbehind, List.append_nil, List.length_append, length_bytesOfUnits,
        if_neg (by omega)]
      rfl
  | cons first rest =>
    rw [hbehind] at failed hgo
    refine bind_eq_error_iff.2 (.inl (hgo.trans ?_))
    rw [decodeUnits.go, failed]

/-- Decoding fails where it stops. -/
theorem decode_eq_error_iff {e : Error} :
    decode bytes = .error e ↔ ∃ address failure, Stops bytes address failure ∧
      e = failure.at address := by
  constructor
  · intro h
    obtain ⟨address, failure, hstops⟩ := exists_stops_of_ne_ok fun code hcode => by
      cases hcode.symm.trans h
    exact ⟨address, failure, hstops, Except.error.inj (h.symm.trans hstops.decode_eq)⟩
  · rintro ⟨address, failure, hstops, rfl⟩
    exact hstops.decode_eq

/-- Behind instructions decoding stops at the same place, which has a higher address there. -/
theorem Stops.append {address : Nat} {failure : DecodeFailure} (h : Reads units code)
    (hstops : Stops bytes address failure) :
    Stops (bytesOfUnits units ++ bytes) (units.length + address) failure := by
  obtain ⟨front, nonempty, failed⟩ := hstops
  rw [← List.append_assoc, ← bytesOfUnits_append, ← List.length_append]
  exact .intro (h.append front) nonempty failed

/-! ### Decoding in parts -/

/-- Code that comes behind code that can be decoded is decoded as if it stood alone.  If it cannot be
decoded, the error is the same, only that an address in it is higher by the size of the code in
front. -/
theorem decode_append (h : decode bytes = .ok code) (bytes' : List UInt8) :
    (∀ code', decode bytes' = .ok code' → decode (bytes ++ bytes') = .ok (code ++ code')) ∧
      ∀ e, decode bytes' = .error e →
        decode (bytes ++ bytes') = .error (e.advance (bytes.length / 2)) := by
  obtain ⟨units, rfl, hreads⟩ := exists_reads_of_decode h
  refine ⟨fun code' hcode' => ?_, fun e he => ?_⟩
  · obtain ⟨units', rfl, hreads'⟩ := exists_reads_of_decode hcode'
    rw [← bytesOfUnits_append]
    exact (hreads.append hreads').decode_eq
  · obtain ⟨address, failure, hstops, rfl⟩ := decode_eq_error_iff.1 he
    have hlength : (bytesOfUnits units).length / 2 = units.length := by
      rw [length_bytesOfUnits, Nat.mul_div_cancel_left _ (by decide)]
    rw [(Stops.append hreads hstops).decode_eq, hlength, failure.advance_at]

/-- A jump of two units, and a return. -/
def leap : List UInt8 := [0x29, 0x00, 0x02, 0x00, 0x0e, 0x00]

/-- A constant, behind which there is something unknown. -/
def scrap : List UInt8 := [0x12, 0xd1, 0x3e, 0x00, 0x0e]

/-- Behind the three units of the jump and the return, the unknown unit is at address 4. -/
theorem decode_append_scrap :
    decode leap = .ok [.goto .word 2, .op .returnVoid .f10x] ∧
      decode scrap = .error (.unknownOpcode 1 0x3e) ∧
      decode (leap ++ scrap) = .error (.unknownOpcode 4 0x3e) ∧
      decode (leap ++ leap) =
        .ok [.goto .word 2, .op .returnVoid .f10x, .goto .word 2, .op .returnVoid .f10x] := by
  have hleap : decode leap = .ok [.goto .word 2, .op .returnVoid .f10x] := by decide +kernel
  have hscrap : decode scrap = .error (.unknownOpcode 1 0x3e) := by decide +kernel
  exact ⟨hleap, hscrap, (decode_append hleap scrap).2 _ hscrap,
    (decode_append hleap leap).1 _ hleap⟩

end Code

end Dalvik
