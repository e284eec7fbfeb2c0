import Dalvik.Proofs.Code.Ignored

/-!
# Instructions written again

An instruction that was read, whether it is valid or not, can be written, and from what is written
the same instruction is read (`Instruction.exists_rewrites`).  What is written differs from what was
read in ignored bits only.  There is a law for each format, since each packs its operands in its own
way, and one for each kind of payload.
-/

namespace Dalvik

namespace Code

/-! ### Units read from the front -/

variable {α : Type} {units : List UInt16} {a : α}

theorem take1_eq_ok_iff {k : UInt16 → α} :
    take1 units k = .ok a ↔ ∃ u rest, units = u :: rest ∧ k u = a := by
  unfold take1
  split <;> simp_all

theorem take2_eq_ok_iff {k : UInt16 → UInt16 → α} :
    take2 units k = .ok a ↔ ∃ u v rest, units = u :: v :: rest ∧ k u v = a := by
  unfold take2
  split
  · simp
  · next hshort =>
    refine ⟨fun h => (by cases h), ?_⟩
    rintro ⟨u, v, rest, rfl, -⟩
    exact absurd rfl (hshort u v rest)

theorem take3_eq_ok_iff {k : UInt16 → UInt16 → UInt16 → α} :
    take3 units k = .ok a ↔ ∃ u v w rest, units = u :: v :: w :: rest ∧ k u v w = a := by
  unfold take3
  split
  · simp
  · next hshort =>
    refine ⟨fun h => (by cases h), ?_⟩
    rintro ⟨u, v, w, rest, rfl, -⟩
    exact absurd rfl (hshort u v w rest)

theorem take4_eq_ok_iff {k : UInt16 → UInt16 → UInt16 → UInt16 → α} :
    take4 units k = .ok a ↔
      ∃ u v w x rest, units = u :: v :: w :: x :: rest ∧ k u v w x = a := by
  unfold take4
  split
  · simp
  · next hshort =>
    refine ⟨fun h => (by cases h), ?_⟩
    rintro ⟨u, v, w, x, rest, rfl, -⟩
    exact absurd rfl (hshort u v w x rest)

theorem takeMany_eq_ok_iff {count : Nat} {taken : List UInt16} :
    takeMany count units = .ok taken ↔ ∃ rest, units = taken ++ rest ∧ taken.length = count := by
  unfold takeMany
  constructor
  · intro h
    dsimp only at h
    split at h
    · next hlength =>
      cases h
      exact ⟨units.drop count, (List.take_append_drop count units).symm, hlength⟩
    · cases h
  · rintro ⟨rest, rfl, rfl⟩
    simp

theorem checkArgumentCount_eq_ok_iff {o : Opcode} {high : UInt8} :
    checkArgumentCount o high = .ok () ↔ highNibble high ≤ 5 := by
  unfold checkArgumentCount
  split <;> simp_all

end Code

open Code

/-! ### Operands written again -/

/-- Operands that were read in format `f` from the high byte of a first unit and from the units
`tail` behind it are written with `high'` and `tail'`, which differ in ignored bits only, and read
again from these. -/
structure Operands.Rewrites (f : Format) (o : Opcode) (args : Operands Int32) (high high' : UInt8)
    (tail tail' : List UInt16) : Prop where
  length : tail.length + 1 = args.units
  encode : args.encode o = .ok (headUnit o high' :: tail')
  high : high' = high &&& ~~~args.ignoredHigh o
  tail : bytesOfUnits tail' = clear (bytesOfUnits tail) args.ignoredTail
  decode : ∀ behind, Operands.decode o high' (tail' ++ behind) f = .ok args

namespace Operands

variable {f : Format} {o : Opcode} {args : Operands Int32} {high : UInt8} {tail : List UInt16}

/-- Where nothing is ignored, everything comes back. -/
theorem Rewrites.of_lossless (hunits : tail.length + 1 = args.units)
    (hencode : args.encode o = .ok (headUnit o high :: tail)) (hhigh : args.ignoredHigh o = 0)
    (htail : args.ignoredTail = List.replicate (2 * (args.units - 1)) 0)
    (hdecode : ∀ behind, Operands.decode o high (tail ++ behind) f = .ok args) :
    Rewrites f o args high high tail tail where
  length := hunits
  encode := hencode
  high := by
    rw [hhigh]
    simp
  tail := by
    rw [htail, ← hunits, Nat.add_sub_cancel, clear_bytesOfUnits]
  decode := hdecode

/-- Where the high byte is ignored, the units behind come back. -/
theorem Rewrites.of_blank (hunits : tail.length + 1 = args.units)
    (hencode : args.encode o = .ok (headUnit o 0 :: tail)) (hhigh : args.ignoredHigh o = 0xff)
    (htail : args.ignoredTail = List.replicate (2 * (args.units - 1)) 0)
    (hdecode : ∀ behind, Operands.decode o 0 (tail ++ behind) f = .ok args) :
    Rewrites f o args high 0 tail tail where
  length := hunits
  encode := hencode
  high := by
    rw [hhigh]
    exact UInt8.and_zero.symm
  tail := by
    rw [htail, ← hunits, Nat.add_sub_cancel, clear_bytesOfUnits]
  decode := hdecode

/-- A call comes back without the registers that are not there. -/
theorem rewrites_f35 (o : Opcode) {kind : IndexKind} {packed : UInt16} (index : UInt16)
    (hf : f = kind.listFormat) (h : highNibble high ≤ 5) :
    Rewrites f o (.f35 kind (argumentsOf high packed) index) high
      (argumentHigh (argumentsOf high packed)) [index, packed]
      [index, argumentPacked (argumentsOf high packed)] where
  length := rfl
  encode := rfl
  high := argumentHigh_argumentsOf h
  tail := bytesOfUnits_arguments h index []
  decode := fun behind => by
    subst hf
    cases kind <;> simp only [IndexKind.listFormat, decode, checkArgumentCount_argumentsOf,
      List.cons_append, take2, argumentsOf_argumentsOf, bind, Except.bind]

theorem rewrites_f45cc (o : Opcode) {packed : UInt16} (ref proto : UInt16)
    (h : highNibble high ≤ 5) :
    Rewrites .f45cc o (.f45cc (argumentsOf high packed) ref proto) high
      (argumentHigh (argumentsOf high packed)) [ref, packed, proto]
      [ref, argumentPacked (argumentsOf high packed), proto] where
  length := rfl
  encode := rfl
  high := argumentHigh_argumentsOf h
  tail := bytesOfUnits_arguments h ref [proto]
  decode := fun behind => by
    simp only [decode, checkArgumentCount_argumentsOf, List.cons_append, take3,
      argumentsOf_argumentsOf, bind, Except.bind]

/-- Operands that were read are written, with other ignored bits only, and read again.  The high byte
of `nop` is zero. -/
theorem exists_rewrites {rest : List UInt16} (hnop : o = .nop → high = 0)
    (h : Operands.decode o high rest f = .ok args) :
    ∃ tail behind high' tail', rest = tail ++ behind ∧ Rewrites f o args high high' tail tail' := by
  cases f with
  | f10x =>
    cases h
    refine ⟨[], rest, 0, [], rfl, rfl, rfl, ?_, rfl, fun _ => rfl⟩
    rw [ignoredHigh]
    split
    · next ho =>
      rw [hnop ho]
      rfl
    · exact UInt8.and_zero.symm
  | f10t =>
    cases h
    refine ⟨[], rest, high, [], rfl, .of_lossless rfl ?_ rfl rfl fun _ => rfl⟩
    rw [encode, offset8_toInt8]
    rfl
  | f20t =>
    obtain ⟨u, behind, rfl, rfl⟩ := take1_eq_ok_iff.1 h
    refine ⟨[u], behind, 0, [u], rfl, .of_blank rfl ?_ rfl rfl fun _ => rfl⟩
    rw [encode, offset16_toInt16]
    rfl
  | f30t =>
    obtain ⟨u, v, behind, rfl, rfl⟩ := take2_eq_ok_iff.1 h
    refine ⟨[u, v], behind, 0, [u, v], rfl, .of_blank rfl ?_ rfl rfl fun _ => rfl⟩
    rw [encode, UInt32.toUInt32_toInt32, wordUnits_wordOf]
  | f32x =>
    obtain ⟨u, v, behind, rfl, rfl⟩ := take2_eq_ok_iff.1 h
    exact ⟨[u, v], behind, 0, [u, v], rfl, .of_blank rfl rfl rfl rfl fun _ => rfl⟩
  | f11n =>
    cases h
    refine ⟨[], rest, high, [], rfl, .of_lossless rfl ?_ rfl rfl fun _ => rfl⟩
    rw [encode, nibbles_lowNibble_highNibbleSigned]
  | f11x =>
    cases h
    exact ⟨[], rest, high, [], rfl, .of_lossless rfl rfl rfl rfl fun _ => rfl⟩
  | f12x =>
    cases h
    refine ⟨[], rest, high, [], rfl, .of_lossless rfl ?_ rfl rfl fun _ => rfl⟩
    rw [encode, nibbles_lowNibble_highNibble]
  | f20bc | f21c | f22x =>
    obtain ⟨u, behind, rfl, rfl⟩ := take1_eq_ok_iff.1 h
    exact ⟨[u], behind, high, [u], rfl, .of_lossless rfl rfl rfl rfl fun _ => rfl⟩
  | f21ih =>
    obtain ⟨u, behind, rfl, rfl⟩ := take1_eq_ok_iff.1 h
    refine ⟨[u], behind, high, [u], rfl, .of_lossless rfl ?_ rfl rfl fun _ => rfl⟩
    rw [encode, highUnit32]
  | f21lh =>
    obtain ⟨u, behind, rfl, rfl⟩ := take1_eq_ok_iff.1 h
    refine ⟨[u], behind, high, [u], rfl, .of_lossless rfl ?_ rfl rfl fun _ => rfl⟩
    rw [encode, highUnit64]
  | f21s =>
    obtain ⟨u, behind, rfl, rfl⟩ := take1_eq_ok_iff.1 h
    refine ⟨[u], behind, high, [u], rfl, .of_lossless rfl ?_ rfl rfl fun _ => rfl⟩
    rw [encode, UInt16.toUInt16_toInt16]
  | f21t =>
    obtain ⟨u, behind, rfl, rfl⟩ := take1_eq_ok_iff.1 h
    refine ⟨[u], behind, high, [u], rfl, .of_lossless rfl ?_ rfl rfl fun _ => rfl⟩
    rw [encode, offset16_toInt16]
    rfl
  | f22b =>
    obtain ⟨u, behind, rfl, rfl⟩ := take1_eq_ok_iff.1 h
    refine ⟨[u], behind, high, [u], rfl, .of_lossless rfl ?_ rfl rfl fun _ => rfl⟩
    rw [encode, UInt8.toUInt8_toInt8, unitOf_lowByte_highByte]
  | f23x =>
    obtain ⟨u, behind, rfl, rfl⟩ := take1_eq_ok_iff.1 h
    refine ⟨[u], behind, high, [u], rfl, .of_lossless rfl ?_ rfl rfl fun _ => rfl⟩
    rw [encode, unitOf_lowByte_highByte]
  | f22c | f22cs =>
    obtain ⟨u, behind, rfl, rfl⟩ := take1_eq_ok_iff.1 h
    refine ⟨[u], behind, high, [u], rfl, .of_lossless rfl ?_ rfl rfl fun _ => rfl⟩
    rw [encode, nibbles_lowNibble_highNibble]
  | f22s =>
    obtain ⟨u, behind, rfl, rfl⟩ := take1_eq_ok_iff.1 h
    refine ⟨[u], behind, high, [u], rfl, .of_lossless rfl ?_ rfl rfl fun _ => rfl⟩
    rw [encode, nibbles_lowNibble_highNibble, UInt16.toUInt16_toInt16]
  | f22t =>
    obtain ⟨u, behind, rfl, rfl⟩ := take1_eq_ok_iff.1 h
    refine ⟨[u], behind, high, [u], rfl, .of_lossless rfl ?_ rfl rfl fun _ => rfl⟩
    rw [encode, nibbles_lowNibble_highNibble, offset16_toInt16]
    rfl
  | f31c =>
    obtain ⟨u, v, behind, rfl, rfl⟩ := take2_eq_ok_iff.1 h
    refine ⟨[u, v], behind, high, [u, v], rfl, .of_lossless rfl ?_ rfl rfl fun _ => rfl⟩
    rw [encode, wordUnits_wordOf]
  | f31i | f31t =>
    obtain ⟨u, v, behind, rfl, rfl⟩ := take2_eq_ok_iff.1 h
    refine ⟨[u, v], behind, high, [u, v], rfl, .of_lossless rfl ?_ rfl rfl fun _ => rfl⟩
    rw [encode, UInt32.toUInt32_toInt32, wordUnits_wordOf]
  | f51l =>
    obtain ⟨u, v, w, x, behind, rfl, rfl⟩ := take4_eq_ok_iff.1 h
    refine ⟨[u, v, w, x], behind, high, [u, v, w, x], rfl,
      .of_lossless rfl ?_ rfl rfl fun _ => rfl⟩
    rw [encode, UInt64.toUInt64_toInt64, longUnits_longOf, wordUnits_wordOf, wordUnits_wordOf]
    rfl
  | f3rc | f3rmi | f3rms =>
    obtain ⟨u, v, behind, rfl, rfl⟩ := take2_eq_ok_iff.1 h
    exact ⟨[u, v], behind, high, [u, v], rfl, .of_lossless rfl rfl rfl rfl fun _ => rfl⟩
  | f4rcc =>
    obtain ⟨u, v, w, behind, rfl, rfl⟩ := take3_eq_ok_iff.1 h
    exact ⟨[u, v, w], behind, high, [u, v, w], rfl, .of_lossless rfl rfl rfl rfl fun _ => rfl⟩
  | f35c | f35mi | f35ms =>
    obtain ⟨⟨⟩, hcheck, hrest⟩ := bind_eq_ok_iff.1 h
    obtain ⟨index, packed, behind, rfl, rfl⟩ := take2_eq_ok_iff.1 hrest
    have hcount := checkArgumentCount_eq_ok_iff.1 hcheck
    exact ⟨[index, packed], behind, _, _, rfl, rewrites_f35 o index rfl hcount⟩
  | f45cc =>
    obtain ⟨⟨⟩, hcheck, hrest⟩ := bind_eq_ok_iff.1 h
    obtain ⟨ref, packed, proto, behind, rfl, rfl⟩ := take3_eq_ok_iff.1 hrest
    have hcount := checkArgumentCount_eq_ok_iff.1 hcheck
    exact ⟨[ref, packed, proto], behind, _, _, rfl, rewrites_f45cc o ref proto hcount⟩
  | packedSwitch | sparseSwitch | arrayData => cases h

end Operands

/-! ### Payloads written again -/

set_option maxRecDepth 4000 in
/-- The opcode of a payload is determined by its format. -/
theorem Opcode.eq_of_format_payload {τ : Type} {o : Opcode} {p : Payload τ}
    (h : o.format = p.format) : o = p.opcode := by
  have hall : ∀ o ∈ all, (o.format = .packedSwitch → o = .packedSwitchPayload) ∧
      (o.format = .sparseSwitch → o = .sparseSwitchPayload) ∧
      (o.format = .arrayData → o = .arrayPayload) := by
    decide
  obtain ⟨hpacked, hsparse, harray⟩ := hall o (List.mem_of_getElem? (getElem?_all o))
  cases p with
  | packed firstKey targets => exact hpacked h
  | sparse cases => exact hsparse h
  | array width data => exact harray h

/-- A payload that was read from the units `tail` behind its marker is written with `tail'`, which
differs in ignored bits only, and read again from these. -/
structure Payload.Rewrites (p : Payload Int32) (tail tail' : List UInt16) : Prop where
  length : tail.length + 1 = p.units
  encode : p.encode = p.opcode.value :: tail'
  bytes : bytesOfUnits (p.opcode.value :: tail') =
    clear (bytesOfUnits (p.opcode.value :: tail)) p.ignored
  decode : ∀ high behind, Instruction.decodeRest p.opcode high (tail' ++ behind) = .ok (.data p)

namespace Payload

variable {p : Payload Int32} {rest tail : List UInt16}

/-- A switch table comes back. -/
theorem Rewrites.of_lossless (hunits : tail.length + 1 = p.units)
    (hencode : p.encode = p.opcode.value :: tail)
    (hignored : p.ignored = List.replicate (2 * p.units) 0)
    (hdecode : ∀ high behind, Instruction.decodeRest p.opcode high (tail ++ behind) =
      .ok (.data p)) : Rewrites p tail tail where
  length := hunits
  encode := hencode
  bytes := by
    rw [hignored, ← hunits, ← List.length_cons, clear_bytesOfUnits]
  decode := hdecode

theorem exists_rewrites_of_decodePacked (h : decodePacked rest = .ok p) :
    p.format = .packedSwitch ∧ ∃ tail behind tail', rest = tail ++ behind ∧ Rewrites p tail tail' := by
  unfold decodePacked at h
  split at h
  · next count low high rest =>
    obtain ⟨units, htake, hp⟩ := bind_eq_ok_iff.1 h
    obtain ⟨behind, rfl, hlength⟩ := takeMany_eq_ok_iff.1 htake
    have heven : units.length % 2 = 0 := by omega
    have hcount := length_wordsOfUnits heven
    have hlt := count.toNat_lt
    have htargets : (wordsOfUnits units).length = count.toNat := by omega
    obtain rfl := pure_eq_ok_iff.1 hp
    have htail : UInt16.ofNat (wordsOfUnits units).length ::
        (wordUnits (wordOf low high).toInt32.toUInt32 ++
          (wordsOfUnits units).flatMap fun t => wordUnits t.toUInt32) =
        count :: low :: high :: units := by
      rw [htargets, UInt16.ofNat_toNat, UInt32.toUInt32_toInt32, wordUnits_wordOf,
        flatMap_wordsOfUnits heven]
      rfl
    refine ⟨rfl, count :: low :: high :: units, behind, _, rfl, .of_lossless ?_ ?_ rfl ?_⟩
    · simp only [Payload.units, List.length_cons]
      omega
    · rw [encode, htail]
      rfl
    · intro high' behind'
      rw [← htail]
      exact bind_eq_ok_iff.2 ⟨_, decodePacked_append (by omega) behind', rfl⟩
  · cases h

theorem map_zipWith_mk {keys targets : List Int32} (h : keys.length = targets.length) :
    (keys.zipWith SwitchCase.mk targets).map (·.key) = keys ∧
      (keys.zipWith SwitchCase.mk targets).map (·.target) = targets := by
  induction keys generalizing targets with
  | nil => exact ⟨rfl, (List.length_eq_zero_iff.1 h.symm).symm⟩
  | cons key keys ih =>
    cases targets with
    | nil => cases h
    | cons target targets =>
      obtain ⟨hkeys, htargets⟩ := ih (Nat.succ.inj h)
      exact ⟨congrArg (key :: ·) hkeys, congrArg (target :: ·) htargets⟩

theorem exists_rewrites_of_decodeSparse (h : decodeSparse rest = .ok p) :
    p.format = .sparseSwitch ∧ ∃ tail behind tail', rest = tail ++ behind ∧ Rewrites p tail tail' := by
  unfold decodeSparse at h
  split at h
  · next count rest =>
    obtain ⟨units, htake, hp⟩ := bind_eq_ok_iff.1 h
    obtain ⟨behind, rfl, hlength⟩ := takeMany_eq_ok_iff.1 htake
    have heven : units.length % 2 = 0 := by omega
    have hwords := length_wordsOfUnits heven
    have hlt := count.toNat_lt
    obtain rfl := pure_eq_ok_iff.1 hp
    -- the first half of the words are the keys, the other half the targets
    have hhalves : ((wordsOfUnits units).take count.toNat).length =
        ((wordsOfUnits units).drop count.toNat).length := by
      rw [List.length_take, List.length_drop]
      omega
    obtain ⟨hkeys, htargets⟩ := map_zipWith_mk hhalves
    generalize List.zipWith SwitchCase.mk _ _ = cases at hkeys htargets ⊢
    have hcount : cases.length = count.toNat := by
      rw [← List.length_map, hkeys, List.length_take]
      omega
    have htail : UInt16.ofNat cases.length ::
        ((cases.flatMap fun c => wordUnits c.key.toUInt32) ++
          cases.flatMap fun c => wordUnits c.target.toUInt32) = count :: units := by
      rw [hcount, UInt16.ofNat_toNat, flatMap_cases, hkeys, htargets, List.take_append_drop,
        flatMap_wordsOfUnits heven]
    refine ⟨rfl, count :: units, behind, _, rfl, .of_lossless ?_ ?_ rfl ?_⟩
    · simp only [Payload.units, List.length_cons]
      omega
    · rw [encode, htail]
      rfl
    · intro high behind'
      rw [← htail]
      exact bind_eq_ok_iff.2 ⟨_, decodeSparse_append (by omega) behind', rfl⟩
  · cases h

/-- The number of the elements of an array that was read is written as it was if they have a width,
and as zero if not. -/
theorem arrayCount_spec {width low high : UInt16} {size : Nat}
    (h : size = width.toNat * (wordOf low high).toNat) :
    width.toNat * (size / max width.toNat 1) = size ∧ size / max width.toNat 1 ≤ 0xffffffff ∧
      bytesOfUnits (wordUnits (UInt32.ofNat (size / max width.toNat 1))) =
        clear (bytesOfUnits [low, high]) (List.replicate 4 (if width = 0 then 0xff else 0)) := by
  rcases Nat.eq_zero_or_pos width.toNat with hzero | hpos
  · obtain rfl : width = 0 := UInt16.toNat_inj.1 hzero
    obtain rfl : size = 0 := by rw [h, hzero, Nat.zero_mul]
    exact ⟨rfl, Nat.zero_le _, (clear_replicate_ones (bytesOfUnits [low, high])).symm⟩
  · have hwidth : width ≠ 0 := by
      rintro rfl
      exact absurd hpos (by decide)
    have hlt := (wordOf low high).toNat_lt
    have hcount : size / max width.toNat 1 = (wordOf low high).toNat := by
      rw [Nat.max_eq_left hpos, h, Nat.mul_div_cancel_left _ hpos]
    rw [hcount, if_neg hwidth, UInt32.ofNat_toNat, wordUnits_wordOf]
    exact ⟨h.symm, by omega, (clear_replicate_zero (bytesOfUnits [low, high])).symm⟩

/-- An array comes back without the number of elements that have no width, and without what its
padding held. -/
theorem rewrites_array {width low high : UInt16} {units : List UInt16} {data padding : List UInt8}
    (hbytes : bytesOfUnits units = data ++ padding) (hpadding : padding.length = data.length % 2)
    (hsize : data.length = width.toNat * (wordOf low high).toNat) :
    Rewrites (.array width data) (width :: low :: high :: units)
      (width :: (wordUnits (UInt32.ofNat (data.length / max width.toNat 1)) ++
        paddedUnits data)) := by
  obtain ⟨hwhole, hcount, hwritten⟩ := arrayCount_spec hsize
  have hunits := length_bytesOfUnits units
  rw [hbytes, List.length_append] at hunits
  refine ⟨?_, rfl, ?_, fun high' behind =>
    bind_eq_ok_iff.2 ⟨_, decodeArray_append hwhole hcount behind, rfl⟩⟩
  · simp only [Payload.units, List.length_cons]
    omega
  · have hread : bytesOfUnits (Opcode.arrayPayload.value :: width :: low :: high :: units) =
        bytesOfUnits [Opcode.arrayPayload.value, width] ++ bytesOfUnits [low, high] ++ data ++
          padding := by
      rw [List.append_assoc _ data, ← hbytes]
      rfl
    have hwrite : ∀ count, bytesOfUnits (Opcode.arrayPayload.value :: width ::
        (wordUnits count ++ paddedUnits data)) =
        bytesOfUnits [Opcode.arrayPayload.value, width] ++ bytesOfUnits (wordUnits count) ++ data ++
          List.replicate padding.length 0 := by
      intro count
      rw [hpadding, List.append_assoc _ data, ← bytesOfUnits_paddedUnits, ← bytesOfUnits_append,
        ← bytesOfUnits_append]
      rfl
    have hmarker : clear (bytesOfUnits [Opcode.arrayPayload.value, width]) [0, 0, 0, 0] =
        bytesOfUnits [Opcode.arrayPayload.value, width] :=
      clear_bytesOfUnits [Opcode.arrayPayload.value, width]
    refine (hwrite _).trans (Eq.trans ?_ (congrArg (clear · _) hread).symm)
    rw [ignored, ← hpadding, clear_append, clear_append, clear_append, hmarker,
      clear_replicate_zero, clear_replicate_ones, ← hwritten]
    · rfl
    · rfl
    · simp only [List.length_append, List.length_replicate]
      rfl

theorem exists_rewrites_of_decodeArray (h : decodeArray rest = .ok p) :
    p.format = .arrayData ∧ ∃ tail behind tail', rest = tail ++ behind ∧ Rewrites p tail tail' := by
  unfold decodeArray at h
  split at h
  · next width low high rest =>
    obtain ⟨units, htake, hp⟩ := bind_eq_ok_iff.1 h
    obtain ⟨behind, rfl, hlength⟩ := takeMany_eq_ok_iff.1 htake
    obtain rfl := pure_eq_ok_iff.1 hp
    have hunits := length_bytesOfUnits units
    have hdata : ((bytesOfUnits units).take (width.toNat * (wordOf low high).toNat)).length =
        width.toNat * (wordOf low high).toNat := by
      rw [List.length_take]
      omega
    refine ⟨rfl, width :: low :: high :: units, behind, _, rfl,
      rewrites_array (List.take_append_drop _ _).symm ?_ hdata⟩
    rw [List.length_drop, hdata]
    omega
  · cases h

end Payload

/-! ### Instructions written again -/

/-- An instruction that was read from `units` is written with `units'`, which differ in ignored bits
only, and read again from these, whatever comes behind. -/
structure Instruction.Rewrites (i : Instruction Int32) (units units' : List UInt16) : Prop where
  length : units.length = i.units
  encode : i.encode = .ok units'
  bytes : bytesOfUnits units' = clear (bytesOfUnits units) i.ignored
  decode : ∀ behind, Instruction.decode (units' ++ behind) = .ok i

namespace Instruction

/-- A payload that was read is written and read again. -/
theorem exists_rewrites_of_isPayload {o : Opcode} {high : UInt8} {rest : List UInt16}
    {i : Instruction Int32} (hpayload : o.format.isPayload = true)
    (h : decodeRest o high rest = .ok i) :
    ∃ tail behind units', rest = tail ++ behind ∧ Rewrites i (o.value :: tail) units' := by
  have hread : ∃ p, i = .data p ∧ p.format = o.format ∧
      ∃ tail behind tail', rest = tail ++ behind ∧ Payload.Rewrites p tail tail' := by
    unfold decodeRest at h
    split at h
    · next hformat =>
      obtain ⟨p, hp, hi⟩ := bind_eq_ok_iff.1 h
      exact ⟨p, (pure_eq_ok_iff.1 hi).symm,
        hformat ▸ Payload.exists_rewrites_of_decodePacked hp⟩
    · next hformat =>
      obtain ⟨p, hp, hi⟩ := bind_eq_ok_iff.1 h
      exact ⟨p, (pure_eq_ok_iff.1 hi).symm,
        hformat ▸ Payload.exists_rewrites_of_decodeSparse hp⟩
    · next hformat =>
      obtain ⟨p, hp, hi⟩ := bind_eq_ok_iff.1 h
      exact ⟨p, (pure_eq_ok_iff.1 hi).symm,
        hformat ▸ Payload.exists_rewrites_of_decodeArray hp⟩
    · next hpacked hsparse harray =>
      cases hformat : o.format <;> rw [hformat] at hpayload <;> first
        | exact absurd hformat hpacked
        | exact absurd hformat hsparse
        | exact absurd hformat harray
        | cases hpayload
  obtain ⟨p, rfl, hformat, tail, behind, tail', hrest, hrewrites⟩ := hread
  obtain rfl := Opcode.eq_of_format_payload hformat.symm
  refine ⟨tail, behind, p.opcode.value :: tail', hrest, hrewrites.length, ?_, hrewrites.bytes, ?_⟩
  · rw [encode, hrewrites.encode]
  · intro behind'
    rw [List.cons_append, decode, opcode?_value hpayload]
    exact hrewrites.decode _ behind'

/-- An instruction that was read, valid or not, is written with other ignored bits only, and read
again. -/
theorem exists_rewrites {all : List UInt16} {i : Instruction Int32} (h : decode all = .ok i) :
    ∃ units behind units', all = units ++ behind ∧ Rewrites i units units' := by
  cases all with
  | nil => cases h
  | cons first rest =>
    rw [decode] at h
    cases ho : opcode? first with
    | none =>
      rw [ho] at h
      cases h
    | some o =>
      rw [ho] at h
      dsimp only at h
      cases hpayload : o.format.isPayload with
      | true =>
        obtain ⟨tail, behind, units', rfl, hrewrites⟩ := exists_rewrites_of_isPayload hpayload h
        rw [value_of_opcode? ho hpayload] at hrewrites
        exact ⟨first :: tail, behind, units', rfl, hrewrites⟩
      | false =>
        obtain ⟨hfirst, hnop⟩ := headUnit_highByte ho hpayload
        rw [decodeRest_of_isPayload_eq_false hpayload] at h
        obtain ⟨args, hargs, hi⟩ := bind_eq_ok_iff.1 h
        obtain rfl := pure_eq_ok_iff.1 hi
        obtain ⟨tail, behind, high', tail', rfl, hrewrites⟩ := Operands.exists_rewrites hnop hargs
        refine ⟨first :: tail, behind, headUnit o high' :: tail', rfl, hrewrites.length,
          hrewrites.encode, ?_, fun behind' => ?_⟩
        · have hkept : lowByte first &&& ~~~0 = lowByte first := UInt8.and_neg_one
          have hlow : lowByte o.value = lowByte first :=
            (lowByte_headUnit o _).symm.trans (congrArg lowByte hfirst)
          rw [bytesOfUnits_cons, bytesOfUnits_cons, ignored, clear_cons, clear_cons, ← hrewrites.tail,
            ← hrewrites.high, highByte_headUnit hpayload, hkept, lowByte_headUnit, hlow]
        · have hnop' : o = .nop → high' = 0 := by
            intro ho'
            rw [hrewrites.high, hnop ho', UInt8.zero_and]
          rw [List.cons_append, decode, opcode?_headUnit hpayload hnop',
            highByte_headUnit hpayload]
          dsimp only
          rw [decodeRest_of_isPayload_eq_false hpayload]
          exact bind_eq_ok_iff.2 ⟨args, hrewrites.decode behind', rfl⟩

end Instruction

end Dalvik
