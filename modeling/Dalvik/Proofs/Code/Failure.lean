import Dalvik.Proofs.Code.Address
import Dalvik.Proofs.Code.Concatenation
import Dalvik.Proofs.Code.RoundTrip

/-!
# Code that cannot be decoded

If code cannot be decoded, everything in front of the address that the error tells can, and what is
wrong there stays wrong whatever comes behind, unless it is that the code ends
(`Code.diagnosis_of_decode`).  Code of valid instructions that was cut off is decoded as far as the
instructions are whole, and found to be truncated within the next one (`Code.decode_take`).
-/

namespace Dalvik

namespace Code

variable {units : List UInt16} {bytes : List UInt8} {code : List (Instruction Int32)} {e : Error}

/-! ### What errors say -/

/-- There is something at the address, and what is in front of it can be decoded and takes up just as
many units. -/
structure Located (bytes : List UInt8) (address : Nat) : Prop where
  lt : 2 * address < bytes.length
  front : ∃ code, decode (bytes.take (2 * address)) = .ok code ∧
    (code.map Instruction.units).sum = address

/-- With this unit no instruction starts: it is neither that of a `nop` nor the marker of a payload, and
its low byte is not the value of any other opcode. -/
structure Unknown (value : UInt16) : Prop where
  not_nop : value ≠ 0
  not_marker : value ≠ 0x0100 ∧ value ≠ 0x0200 ∧ value ≠ 0x0300
  not_opcode : ∀ o : Opcode, o.value ≠ 0 → o.value ≠ (lowByte value).toUInt16

/-- What the error with which decoding fails says about the bytes. -/
structure Diagnosis (bytes : List UInt8) (e : Error) : Prop where
  /-- If an opcode is not known, it is at the address, the low byte of its unit first. -/
  unknown : ∀ address value, e = .unknownOpcode address value →
    Located bytes address ∧ Unknown value ∧ ∃ low high, bytes[2 * address]? = some low ∧
      bytes[2 * address + 1]? = some high ∧ value = unitOf low high
  /-- If an instruction is truncated, it starts at the address. -/
  truncated : ∀ address, e = .truncatedInstruction address → Located bytes address
  /-- An unknown opcode and a defective instruction stay so if there is more code. -/
  final : (∃ address value, e = .unknownOpcode address value) ∨
      (∃ opcode defect, e = .invalidInstruction opcode defect) →
    ∀ bytes', decode (bytes ++ bytes') = .error e
  /-- Only a truncated instruction can be mended by more code. -/
  curable : ∀ bytes', decode (bytes ++ bytes') ≠ .error e →
    ∃ address, e = .truncatedInstruction address

/-- A unit that announces no opcode is unknown. -/
theorem unknown_of_opcode? {value : UInt16} (h : opcode? value = none) : Unknown value := by
  have hnone : ∀ o : Opcode,
      o.value ≠ if lowByte value = 0 then value else (lowByte value).toUInt16 := by
    intro o ho
    rw [opcode?, ← ho, Opcode.ofValue?_value] at h
    cases h
  have hmarker : ∀ o : Opcode, lowByte o.value = 0 → value ≠ o.value := by
    rintro o ho rfl
    exact hnone o (if_pos ho).symm
  refine ⟨hmarker .nop rfl, ⟨hmarker .packedSwitchPayload rfl, hmarker .sparseSwitchPayload rfl,
    hmarker .arrayPayload rfl⟩, fun o hzero ho => ?_⟩
  by_cases hlow : lowByte value = 0
  · rw [hlow] at ho
    exact hzero ho
  · exact hnone o (by rw [if_neg hlow, ho])

/-- Only a unit that announces no opcode is unknown. -/
theorem eq_cons_of_decode_eq_unknown {value : UInt16}
    (h : Instruction.decode units = .error (.unknown value)) :
    ∃ rest, units = value :: rest ∧ opcode? value = none := by
  cases units with
  | nil => cases h
  | cons first rest =>
    rw [Instruction.decode] at h
    cases ho : opcode? first with
    | none =>
      rw [ho] at h
      cases h
      exact ⟨rest, rfl, ho⟩
    | some o =>
      -- behind a known opcode nothing is unknown
      rw [ho] at h
      rcases (Instruction.fromFront_decodeRest o _).error h with h | ⟨⟨defect, h⟩, -⟩ <;> cases h

/-- The units of bytes stay the same if there are more bytes. -/
theorem exists_unitsOfBytes_append (bytes bytes' : List UInt8) :
    ∃ rest, unitsOfBytes (bytes ++ bytes') = unitsOfBytes bytes ++ rest := by
  obtain ⟨odd, -, hbytes⟩ := exists_bytesOfUnits_append bytes
  refine ⟨unitsOfBytes (odd ++ bytes'), ?_⟩
  rw [← unitsOfBytes_append, ← List.append_assoc, hbytes]

/-- The first unit of bytes is made of the first two of them. -/
theorem eq_cons_cons_of_unitsOfBytes {first : UInt16} (h : unitsOfBytes bytes = first :: units) :
    ∃ low high rest, bytes = low :: high :: rest ∧ first = unitOf low high := by
  match bytes with
  | [] | [_] => cases h
  | low :: high :: rest =>
    rw [unitsOfBytes_cons_cons] at h
    exact ⟨low, high, rest, rfl, (List.cons.inj h).1.symm⟩

namespace Stops

variable {address : Nat} {failure : DecodeFailure}

/-- Decoding stops behind instructions. -/
theorem located (h : Stops bytes address failure) : Located bytes address := by
  obtain @⟨units, code, behind, failure, front, nonempty, -⟩ := h
  have hpos : 0 < behind.length := List.length_pos_of_ne_nil nonempty
  refine ⟨?_, code, ?_, front.length_eq.symm⟩
  · rw [List.length_append, length_bytesOfUnits]
    omega
  · rw [← length_bytesOfUnits, List.take_left]
    exact front.decode_eq

/-- If decoding stops at an unknown unit, that is the next one. -/
theorem unknown {value : UInt16} (h : Stops bytes address (.unknown value)) :
    Unknown value ∧ ∃ low high, bytes[2 * address]? = some low ∧
      bytes[2 * address + 1]? = some high ∧ value = unitOf low high := by
  obtain @⟨units, code, behind, -, front, -, failed⟩ := h
  obtain ⟨rest, hunits, hopcode⟩ := eq_cons_of_decode_eq_unknown failed
  obtain ⟨low, high, rest', rfl, rfl⟩ := eq_cons_cons_of_unitsOfBytes hunits
  refine ⟨unknown_of_opcode? hopcode, low, high, ?_, ?_, rfl⟩
  · rw [← length_bytesOfUnits, List.getElem?_append_right (Nat.le_refl _), Nat.sub_self]
    rfl
  · rw [← length_bytesOfUnits, List.getElem?_append_right (Nat.le_succ _),
      Nat.succ_sub (Nat.le_refl _), Nat.sub_self]
    rfl

/-- Unless there are too few units, decoding stops for good. -/
theorem final (h : Stops bytes address failure) (hfailure : failure ≠ .truncated)
    (bytes' : List UInt8) : Stops (bytes ++ bytes') address failure := by
  obtain @⟨units, code, behind, failure, front, nonempty, failed⟩ := h
  obtain ⟨rest, hrest⟩ := exists_unitsOfBytes_append behind bytes'
  obtain ⟨-, hread⟩ := (Instruction.fromFront_decode.error failed).resolve_left hfailure
  rw [List.append_assoc]
  refine .intro front (List.append_ne_nil_of_left_ne_nil nonempty bytes') ?_
  rw [hrest]
  exact hread rest

end Stops

/-- An error tells where decoding failed, and if it is not that the code ends within an instruction,
there is the same error whatever comes behind. -/
theorem diagnosis_of_decode (h : decode bytes = .error e) : Diagnosis bytes e := by
  obtain ⟨address, failure, hstops, rfl⟩ := decode_eq_error_iff.1 h
  have hfinal : failure ≠ .truncated → ∀ bytes',
      decode (bytes ++ bytes') = .error (failure.at address) :=
    fun hfailure bytes' => (hstops.final hfailure bytes').decode_eq
  cases failure with
  | truncated =>
    refine ⟨fun _ _ he => (by cases he), fun _ he => ?_, fun he => ?_, fun _ _ => ⟨address, rfl⟩⟩
    · cases he
      exact hstops.located
    · rcases he with ⟨_, _, he⟩ | ⟨_, _, he⟩ <;> cases he
  | unknown value =>
    have hfinal := hfinal nofun
    refine ⟨fun _ _ he => ?_, fun _ he => (by cases he), fun _ => hfinal,
      fun bytes' hcured => absurd (hfinal bytes') hcured⟩
    cases he
    exact ⟨hstops.located, hstops.unknown⟩
  | invalid o defect =>
    have hfinal := hfinal nofun
    exact ⟨fun _ _ he => (by cases he), fun _ he => (by cases he), fun _ => hfinal,
      fun bytes' hcured => absurd (hfinal bytes') hcured⟩

/-- A call that announces six registers. -/
def crowd : List UInt8 := [0x6e, 0x60]

/-- The unknown unit of the scrap is at address 1 whatever comes behind it, and the call passes too
many registers even if these are not there yet, but half a jump can be completed. -/
theorem diagnosis_of_decode_scrap :
    decode scrap = .error (.unknownOpcode 1 0x3e) ∧
      decode crowd = .error (.invalidInstruction .invokeVirtual .registerCount) ∧
      decode (leap.take 3) = .error (.truncatedInstruction 0) ∧
      (Unknown 0x3e ∧ ∀ bytes, decode (scrap ++ bytes) = .error (.unknownOpcode 1 0x3e)) ∧
      (∀ bytes, decode (crowd ++ bytes) =
        .error (.invalidInstruction .invokeVirtual .registerCount)) ∧
      Located (leap.take 3) 0 := by
  have hscrap : decode scrap = .error (.unknownOpcode 1 0x3e) := by decide +kernel
  have hcrowd : decode crowd = .error (.invalidInstruction .invokeVirtual .registerCount) := by
    decide +kernel
  have hleap : decode (leap.take 3) = .error (.truncatedInstruction 0) := by decide +kernel
  have hunknown := diagnosis_of_decode hscrap
  exact ⟨hscrap, hcrowd, hleap,
    ⟨(hunknown.unknown 1 0x3e rfl).2.1, hunknown.final (.inl ⟨1, 0x3e, rfl⟩)⟩,
    (diagnosis_of_decode hcrowd).final (.inr ⟨_, _, rfl⟩),
    (diagnosis_of_decode hleap).truncated 0 rfl⟩

/-! ### Code that was cut off -/

/-- Of bytes that are cut off, the units remain of which both bytes are left. -/
theorem unitsOfBytes_take (units : List UInt16) (n : Nat) :
    unitsOfBytes ((bytesOfUnits units).take n) = units.take (n / 2) := by
  induction units generalizing n with
  | nil =>
    rw [bytesOfUnits, List.flatMap_nil, List.take_nil, List.take_nil]
    rfl
  | cons u rest ih =>
    rw [bytesOfUnits_cons]
    rcases n with _ | _ | n
    · rfl
    · rfl
    · have hhalf : (n + 1 + 1) / 2 = n / 2 + 1 := by omega
      rw [List.take_succ_cons, List.take_succ_cons, unitsOfBytes_cons_cons, ih,
        unitOf_lowByte_highByte, hhalf, List.take_succ_cons]

/-- Instructions can be read up to any of them, and from there on. -/
theorem Reads.split (h : Reads units code) (j : Nat) :
    ∃ front behind, units = front ++ behind ∧ front.length = address code j ∧
      Reads front (code.take j) ∧ Reads behind (code.drop j) := by
  induction h generalizing j with
  | nil =>
    refine ⟨[], [], rfl, ?_, ?_, ?_⟩
    · rw [address, List.take_nil]
      rfl
    · rw [List.take_nil]
      exact .nil
    · rw [List.drop_nil]
      exact .nil
  | @cons i units rest code length read tail ih =>
    cases j with
    | zero => exact ⟨[], units ++ rest, rfl, rfl, .nil, .cons length read tail⟩
    | succ j =>
      obtain ⟨front, behind, rfl, hlength, hfront, hbehind⟩ := ih j
      refine ⟨units ++ front, behind, (List.append_assoc ..).symm, ?_, ?_, hbehind⟩
      · rw [List.length_append, length, hlength, address_cons_succ]
      · exact .cons length (Instruction.decode_append_of_length_eq length read front) hfront

/-- The first units are those of the first instruction. -/
theorem Reads.decode_eq_head {i : Instruction Int32} (h : Reads units (i :: code)) :
    Instruction.decode units = .ok i := by
  cases h with
  | cons _ read _ => exact read

/-- Within the first instruction decoding stops at its start. -/
theorem Reads.stops_take {i : Instruction Int32} (h : Reads units (i :: code)) {n : Nat} (hpos : 0 < n)
    (hn : n < 2 * i.units) : Stops ((bytesOfUnits units).take n) 0 .truncated := by
  refine .intro .nil ?_ ?_
  · refine List.ne_nil_of_length_pos ?_
    have hlength := h.length_eq
    rw [List.map_cons, List.sum_cons] at hlength
    rw [List.length_take, length_bytesOfUnits]
    omega
  · rw [unitsOfBytes_take]
    exact Instruction.decode_take_of_lt h.decode_eq_head (by omega)

/-- Code of valid instructions with offsets that fit, of which bytes are missing at the end, is decoded
if it ends where an instruction starts.  Otherwise the instruction within which it ends is found to
be truncated. -/
theorem decode_take (hvalid : ∀ i ∈ code, i.Valid) (hfits : ∀ i ∈ code, i.overlong? = none) :
    ∃ bytes, encode code = .ok bytes ∧ ∀ n < bytes.length, ∃ j < code.length,
      2 * address code j ≤ n ∧ n < 2 * address code (j + 1) ∧
        decode (bytes.take n) = if n = 2 * address code j then .ok (code.take j)
          else .error (.truncatedInstruction (address code j)) := by
  obtain ⟨bytes, hencode, -, hdecode⟩ := exists_encode hvalid hfits
  refine ⟨bytes, hencode, fun n hn => ?_⟩
  obtain ⟨units, rfl, hreads⟩ := exists_reads_of_decode hdecode
  rw [length_bytesOfUnits] at hn
  have hcut : n / 2 < address code code.length := by
    rw [address, List.take_length, ← hreads.length_eq]
    omega
  -- the cut is in front of this unit or within it
  obtain ⟨j, i, hi, hstart, hbound⟩ := exists_address_le hcut
  obtain ⟨hlt, rfl⟩ := List.getElem?_eq_some_iff.1 hi
  refine ⟨j, hlt, by omega, by omega, ?_⟩
  obtain ⟨front, behind, rfl, hlength, hfront, hbehind⟩ := hreads.split j
  have hbytes : (bytesOfUnits (front ++ behind)).take n =
      bytesOfUnits front ++ (bytesOfUnits behind).take (n - 2 * address code j) := by
    rw [bytesOfUnits_append, List.take_append, length_bytesOfUnits, hlength,
      List.take_of_length_le (by rw [length_bytesOfUnits]; omega)]
  rw [hbytes]
  rcases eq_or_ne n (2 * address code j) with heq | hne
  · rw [if_pos heq, heq, Nat.sub_self, List.take_zero, List.append_nil, hfront.decode_eq]
  · rw [List.drop_eq_getElem_cons hlt] at hbehind
    have hunits := address_succ hi
    have hstops := hbehind.stops_take (n := n - 2 * address code j) (by omega) (by omega)
    rw [if_neg hne, (Stops.append hfront hstops).decode_eq, hlength]
    rfl

/-- The mixed code without its last byte, which is only padding, ends within the array at address 28,
and what is in front of the array can be decoded. -/
theorem decode_take_mixed :
    (∀ i ∈ mixed, i.Valid) ∧ (∀ i ∈ mixed, i.overlong? = none) ∧
      ∃ bytes, encode mixed = .ok bytes ∧ bytes.length = 68 ∧
        decode (bytes.take 67) = .error (.truncatedInstruction 28) ∧
        decode (bytes.take 56) = .ok (mixed.take 8) := by
  have hvalid : ∀ i ∈ mixed, i.Valid := by decide +kernel
  have hfits : ∀ i ∈ mixed, i.overlong? = none := by decide +kernel
  obtain ⟨bytes, hencode, htake⟩ := decode_take hvalid hfits
  have hlength : bytes.length = 68 := (length_of_encode_eq_ok hencode).trans (by decide +kernel)
  -- the array is the last of nine instructions
  have harray : ∀ n, 56 ≤ n → ∀ j < mixed.length, n < 2 * address mixed (j + 1) → j = 8 := by
    intro n hn j hj hbound
    have hstart : address mixed 8 = 28 := by decide +kernel
    have hlast : j < 9 := hj
    refine Nat.le_antisymm (by omega) (Nat.le_of_not_lt fun hlt => ?_)
    have hmono : address mixed (j + 1) ≤ address mixed 8 := address_mono mixed hlt
    omega
  refine ⟨hvalid, hfits, bytes, hencode, hlength, ?_, ?_⟩
  · obtain ⟨j, hj, -, hbound, hdecode⟩ := htake 67 (by omega)
    obtain rfl := harray 67 (by decide) j hj hbound
    exact hdecode
  · obtain ⟨j, hj, -, hbound, hdecode⟩ := htake 56 (by omega)
    obtain rfl := harray 56 (by decide) j hj hbound
    exact hdecode

end Code

end Dalvik
