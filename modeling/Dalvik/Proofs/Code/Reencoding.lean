import Dalvik.Proofs.Code.Rewriting
import Dalvik.Proofs.Code.RoundTrip

/-!
# Encoding undoes decoding

Bytes that can be decoded are whole instructions, one after the other (`Code.Reads`), and each of
them is written again in its own units.  So encoding gives back the bytes, with nothing lost but the
bits that decoding ignores (`Code.encode_decode`).
-/

namespace Dalvik.Code

/-! ### Code as a sequence of instructions -/

/-- The units are those of the instructions, one after the other, and no more. -/
inductive Reads : List UInt16 → List (Instruction Int32) → Prop
  | nil : Reads [] []
  | cons {i : Instruction Int32} {units rest : List UInt16} {code : List (Instruction Int32)}
      (length : units.length = i.units) (read : Instruction.decode (units ++ rest) = .ok i)
      (tail : Reads rest code) : Reads (units ++ rest) (i :: code)

variable {units : List UInt16} {bytes : List UInt8} {code : List (Instruction Int32)}

theorem Reads.decodeUnits_go_eq (h : Reads units code) (before : List (Instruction Int32))
    (address : Nat) : decodeUnits.go before address 0 units = .ok (before.reverse ++ code) := by
  induction h generalizing before address with
  | nil => simp [decodeUnits.go]
  | cons length read _ ih =>
    rw [decodeUnits_go_append length read, ih, List.reverse_cons, List.append_assoc]
    rfl

theorem exists_reads_of_go {before result : List (Instruction Int32)} {address : Nat}
    (h : decodeUnits.go before address 0 units = .ok result) :
    ∃ code, result = before.reverse ++ code ∧ Reads units code := by
  -- the induction is on the number of units, of which every instruction takes some
  induction hn : units.length using Nat.strong_induction_on generalizing units before address with
  | _ n ih =>
    cases units with
    | nil =>
      rw [decodeUnits.go] at h
      exact ⟨[], by rw [List.append_nil, Except.ok.inj h], .nil⟩
    | cons first rest =>
      cases hread : Instruction.decode (first :: rest) with
      | error failure =>
        rw [decodeUnits.go, hread] at h
        cases h
      | ok i =>
        obtain ⟨units, behind, units', hunits, hrewrites⟩ := Instruction.exists_rewrites hread
        rw [hunits] at h hread hn ⊢
        rw [decodeUnits_go_append hrewrites.length hread] at h
        have hshorter : behind.length < n := by
          have hpos := i.units_pos
          rw [List.length_append, hrewrites.length] at hn
          omega
        obtain ⟨code, rfl, hcode⟩ := ih _ hshorter h rfl
        refine ⟨i :: code, ?_, .cons hrewrites.length hread hcode⟩
        rw [List.reverse_cons, List.append_assoc]
        rfl

/-- Decoding succeeds on instructions, one after the other, and on nothing else. -/
theorem decodeUnits_eq_ok_iff : decodeUnits units = .ok code ↔ Reads units code := by
  constructor
  · intro h
    obtain ⟨code', hcode, hreads⟩ := exists_reads_of_go h
    rwa [hcode]
  · intro h
    exact h.decodeUnits_go_eq [] 0

theorem decode_eq_ok_iff :
    decode bytes = .ok code ↔ bytes.length % 2 = 0 ∧ Reads (unitsOfBytes bytes) code := by
  rw [← decodeUnits_eq_ok_iff]
  constructor
  · intro h
    obtain ⟨code', hcode, h⟩ := bind_eq_ok_iff.1 h
    split at h
    · next heven => exact ⟨heven, by rw [hcode, Except.ok.inj h]⟩
    · cases h
  · rintro ⟨heven, hcode⟩
    exact bind_eq_ok_iff.2 ⟨code, hcode, if_pos heven⟩

/-! ### Code written again -/

/-- The ignored bits of some instructions, as masks of their bytes. -/
def ignored (code : List (Instruction Int32)) : List UInt8 := code.flatMap Instruction.ignored

theorem ignored_cons (i : Instruction Int32) (code : List (Instruction Int32)) :
    ignored (i :: code) = i.ignored ++ ignored code := List.flatMap_cons

/-- There is a mask for every byte. -/
theorem length_ignored (code : List (Instruction Int32)) :
    (ignored code).length = 2 * (code.map Instruction.units).sum := by
  induction code with
  | nil => rfl
  | cons i rest ih =>
    rw [ignored_cons, List.length_append, ih, i.length_ignored, List.map_cons, List.sum_cons]
    omega

/-- Instructions that were read are written with other ignored bits only, and read again. -/
theorem Reads.exists_encode (h : Reads units code) :
    units.length = (code.map Instruction.units).sum ∧
      ∃ pieces, code.mapM Instruction.encode = .ok pieces ∧ Reads pieces.flatten code ∧
        bytesOfUnits pieces.flatten = clear (bytesOfUnits units) (ignored code) := by
  induction h with
  | nil => exact ⟨rfl, [], rfl, .nil, rfl⟩
  | @cons i units rest code length read tail ih =>
    obtain ⟨hlength, pieces, hpieces, hreads, hbytes⟩ := ih
    obtain ⟨units₁, rest₁, units', hunits, hrewrites⟩ := Instruction.exists_rewrites read
    obtain ⟨rfl, rfl⟩ := List.append_inj hunits (length.trans hrewrites.length.symm)
    refine ⟨?_, units' :: pieces, ?_, ?_, ?_⟩
    · rw [List.length_append, length, hlength, List.map_cons, List.sum_cons]
    · exact mapM_eq_ok_iff.2 (.cons hrewrites.encode (mapM_eq_ok_iff.1 hpieces))
    · rw [List.flatten_cons]
      exact .cons (Instruction.length_of_encode_eq_ok hrewrites.encode) (hrewrites.decode _) hreads
    · have hmasks : (bytesOfUnits units).length = i.ignored.length := by
        rw [length_bytesOfUnits, length, i.length_ignored]
      rw [List.flatten_cons, bytesOfUnits_append, bytesOfUnits_append, hrewrites.bytes, hbytes,
        ignored_cons, clear_append hmasks]

/-- Code that can be decoded, valid or not, is encoded in as many bytes, two for every unit of its
size, and decoded again.  The bytes are what they were, except that ignored bits are zero; so they
are the same if and only if those bits were zero already. -/
theorem encode_decode (h : decode bytes = .ok code) :
    bytes.length % 2 = 0 ∧ bytes.length = 2 * (code.map Instruction.units).sum ∧
      ∃ bytes', encode code = .ok bytes' ∧ bytes'.length = bytes.length ∧
        decode bytes' = .ok code ∧ bytes' = clear bytes (ignored code) ∧
        (bytes' = bytes ↔ ∀ x ∈ List.zipWith (· &&& ·) bytes (ignored code), x = 0) := by
  obtain ⟨heven, hreads⟩ := decode_eq_ok_iff.1 h
  obtain ⟨hunits, pieces, hpieces, hreads', hbytes⟩ := hreads.exists_encode
  rw [bytesOfUnits_unitsOfBytes heven] at hbytes
  have hlength : bytes.length = 2 * (code.map Instruction.units).sum := by
    rw [← hunits, ← length_bytesOfUnits, bytesOfUnits_unitsOfBytes heven]
  have hencode : encode code = .ok (bytesOfUnits pieces.flatten) :=
    bind_eq_ok_iff.2 ⟨pieces, hpieces, rfl⟩
  have hlength' := length_of_encode_eq_ok hencode
  refine ⟨heven, hlength, _, hencode, hlength'.trans hlength.symm, ?_, hbytes, ?_⟩
  · refine decode_eq_ok_iff.2 ⟨by omega, ?_⟩
    rwa [unitsOfBytes_bytesOfUnits]
  · rw [hbytes]
    exact clear_eq_self_iff (hlength.trans (length_ignored code).symm)

/-- A return, jumps and a move with something in the byte that they leave unused, a call that has
one register and names five, and two arrays: three elements of no width, and one byte with padding
that is not zero. -/
def noisy : List UInt8 :=
  [0x0e, 0xaa, 0x29, 0x55, 0x02, 0x00, 0x2a, 0x01, 0xff, 0xff, 0xff, 0xff,
    0x03, 0x80, 0x01, 0x00, 0x02, 0x00, 0x71, 0x17, 0x05, 0x00, 0x93, 0xab,
    0x00, 0x03, 0x00, 0x00, 0x03, 0x00, 0x00, 0x00,
    0x00, 0x03, 0x01, 0x00, 0x01, 0x00, 0x00, 0x00, 0x2a, 0xff]

/-- What `noisy` says. -/
def quiet : List (Instruction Int32) :=
  [.op .returnVoid .f10x, .goto .word 2, .goto .long (-1), .op .move16 (.f32x 1 2),
    .op .invokeStatic (.f35 .pool [3] 5), .data (.array 0 []), .data (.array 1 [0x2a])]

/-- The noisy bytes without the noise. -/
def silent : List UInt8 :=
  [0x0e, 0x00, 0x29, 0x00, 0x02, 0x00, 0x2a, 0x00, 0xff, 0xff, 0xff, 0xff,
    0x03, 0x00, 0x01, 0x00, 0x02, 0x00, 0x71, 0x10, 0x05, 0x00, 0x03, 0x00,
    0x00, 0x03, 0x00, 0x00, 0x00, 0x00, 0x00, 0x00,
    0x00, 0x03, 0x01, 0x00, 0x01, 0x00, 0x00, 0x00, 0x2a, 0x00]

/-- Nothing but noise is lost when the noisy bytes are read and written again. -/
theorem encode_decode_noisy :
    decode noisy = .ok quiet ∧ encode quiet = .ok silent ∧ decode silent = .ok quiet ∧
      silent ≠ noisy := by
  have hdecode : decode noisy = .ok quiet := by decide +kernel
  obtain ⟨-, -, bytes, hencode, -, hdecode', hbytes, hsame⟩ := encode_decode hdecode
  obtain rfl : bytes = silent := by
    rw [hbytes]
    decide +kernel
  refine ⟨hdecode, hencode, hdecode', ?_⟩
  rw [Ne, hsame]
  decide +kernel

end Dalvik.Code
