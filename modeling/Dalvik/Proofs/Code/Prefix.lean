import Dalvik.Proofs.Code.Rewriting

/-!
# Reading from the front

An instruction is read from the front of a sequence of units.  What is read does not depend on the
units behind it, and neither does what is wrong, unless it is that there are too few units
(`Code.FromFront`).  So an instruction of which units are missing at the end is found to be truncated
and never taken for another (`Instruction.decode_take_of_lt`).
-/

namespace Dalvik

namespace Code

variable {α β : Type} {read : List UInt16 → Except DecodeFailure α} {size : α → Nat}
  {wrong : DecodeFailure → Prop}

/-- What is read takes up as many units in front as its size says, and those behind do not matter.
If it is not that there are too few units, what is wrong stays so when there are more. -/
structure FromFront (read : List UInt16 → Except DecodeFailure α) (size : α → Nat)
    (wrong : DecodeFailure → Prop) : Prop where
  ok : ∀ {units : List UInt16} {a : α}, read units = .ok a →
    ∃ front behind, units = front ++ behind ∧ front.length = size a ∧
      ∀ behind', read (front ++ behind') = .ok a
  error : ∀ {units : List UInt16} {failure : DecodeFailure}, read units = .error failure →
    failure = .truncated ∨ wrong failure ∧ ∀ behind, read (units ++ behind) = .error failure

namespace FromFront

/-- No unit is looked at. -/
theorem const {outcome : Except DecodeFailure α} (hok : ∀ a, outcome = .ok a → size a = 0)
    (herror : ∀ failure, outcome = .error failure → wrong failure) :
    FromFront (fun _ => outcome) size wrong where
  ok := fun {units a} ha => ⟨[], units, rfl, (hok a ha).symm, fun _ => ha⟩
  error := fun {_ failure} hfailure => .inr ⟨herror failure hfailure, fun _ => hfailure⟩

/-- Nothing is ever wrong but that there are too few units. -/
theorem of_truncated (hok : ∀ {units : List UInt16} {a : α}, read units = .ok a →
      ∃ front behind, units = front ++ behind ∧ front.length = size a ∧
        ∀ behind', read (front ++ behind') = .ok a)
    (herror : ∀ {units : List UInt16} {failure : DecodeFailure}, read units = .error failure →
      failure = .truncated) : FromFront read size wrong where
  ok := hok
  error := fun hfailure => .inl (herror hfailure)

/-- A check comes first. -/
theorem check (h : FromFront read size wrong) {outcome : Except DecodeFailure Unit}
    (herror : ∀ failure, outcome = .error failure → wrong failure) :
    FromFront (fun units => do outcome; read units) size wrong := by
  cases outcome with
  | ok => exact h
  | error failure =>
    refine .const (fun a ha => by cases ha) fun failure' hfailure => ?_
    cases hfailure
    exact herror failure rfl

/-- Something else is made of what was read. -/
theorem map {f : α → β} {size' : β → Nat} (h : FromFront read size wrong)
    (hsize : ∀ a, size' (f a) = size a) :
    FromFront (fun units => do return f (← read units)) size' wrong where
  ok := by
    intro units b hb
    obtain ⟨a, ha, hf⟩ := bind_eq_ok_iff.1 hb
    obtain rfl := pure_eq_ok_iff.1 hf
    obtain ⟨front, behind, hunits, hlength, hread⟩ := h.ok ha
    exact ⟨front, behind, hunits, hlength.trans (hsize a).symm, fun behind' =>
      bind_eq_ok_iff.2 ⟨a, hread behind', rfl⟩⟩
  error := by
    intro units failure hfailure
    refine (h.error (bind_pure_eq_error_iff.1 hfailure)).imp_right ?_
    rintro ⟨hwrong, hread⟩
    exact ⟨hwrong, fun behind => bind_pure_eq_error_iff.2 (hread behind)⟩

end FromFront

/-! ### Numbers of units -/

/-- If several units cannot be read, there are too few. -/
theorem eq_truncated_of_takeMany {count : Nat} {units : List UInt16} {failure : DecodeFailure}
    (h : takeMany count units = .error failure) : failure = .truncated := by
  unfold takeMany at h
  dsimp only at h
  split at h <;> cases h
  rfl

/-- Some units in front say how many more there are, and nothing can be wrong with these. -/
theorem fromFront_of_takeMany (h : ∀ units, read units = .error .truncated ∨
      ∃ (head rest : List UInt16) (count : Nat) (f : List UInt16 → α), units = head ++ rest ∧
        (∀ rest', read (head ++ rest') = do return f (← takeMany count rest')) ∧
        ∀ taken, taken.length = count → size (f taken) = head.length + count) :
    FromFront read size wrong := by
  refine .of_truncated (fun {units a} ha => ?_) fun {units failure} hfailure => ?_
  · rcases h units with htruncated | ⟨head, rest, count, f, rfl, hread, hsize⟩
    · cases htruncated.symm.trans ha
    · rw [hread] at ha
      obtain ⟨taken, htake, hf⟩ := bind_eq_ok_iff.1 ha
      obtain rfl := pure_eq_ok_iff.1 hf
      obtain ⟨behind, rfl, hlength⟩ := takeMany_eq_ok_iff.1 htake
      refine ⟨head ++ taken, behind, (List.append_assoc ..).symm, ?_, fun behind' => ?_⟩
      · rw [List.length_append, hlength, hsize taken hlength]
      · rw [List.append_assoc, hread]
        exact bind_eq_ok_iff.2 ⟨taken, takeMany_eq_ok_iff.2 ⟨behind', rfl, hlength⟩, rfl⟩
  · rcases h units with htruncated | ⟨head, rest, count, f, rfl, hread, -⟩
    · exact (Except.error.inj (htruncated.symm.trans hfailure)).symm
    · rw [hread] at hfailure
      exact eq_truncated_of_takeMany (bind_pure_eq_error_iff.1 hfailure)

/-- A fixed number of units is read. -/
theorem fromFront_of_count {count : Nat} (f : List UInt16 → α)
    (hread : ∀ units, read units = do return f (← takeMany count units))
    (hsize : ∀ taken, taken.length = count → size (f taken) = count) :
    FromFront read size wrong :=
  fromFront_of_takeMany fun units => .inr ⟨[], units, count, f, rfl, hread, fun taken hlength =>
    (hsize taken hlength).trans (Nat.zero_add count).symm⟩

theorem fromFront_take1 {k : UInt16 → α} (hsize : ∀ u, size (k u) = 1) :
    FromFront (take1 · k) size wrong := by
  refine fromFront_of_count (fun taken => k (taken.getD 0 0)) (fun units => ?_) fun _ _ => hsize _
  match units with
  | [] | _ :: _ => rfl

theorem fromFront_take2 {k : UInt16 → UInt16 → α} (hsize : ∀ u v, size (k u v) = 2) :
    FromFront (take2 · k) size wrong := by
  refine fromFront_of_count (fun taken => k (taken.getD 0 0) (taken.getD 1 0)) (fun units => ?_)
    fun _ _ => hsize _ _
  match units with
  | [] | [_] | _ :: _ :: _ => rfl

theorem fromFront_take3 {k : UInt16 → UInt16 → UInt16 → α} (hsize : ∀ u v w, size (k u v w) = 3) :
    FromFront (take3 · k) size wrong := by
  refine fromFront_of_count (fun taken => k (taken.getD 0 0) (taken.getD 1 0) (taken.getD 2 0))
    (fun units => ?_) fun _ _ => hsize _ _ _
  match units with
  | [] | [_] | [_, _] | _ :: _ :: _ :: _ => rfl

theorem fromFront_take4 {k : UInt16 → UInt16 → UInt16 → UInt16 → α}
    (hsize : ∀ u v w x, size (k u v w x) = 4) : FromFront (take4 · k) size wrong := by
  refine fromFront_of_count
    (fun taken => k (taken.getD 0 0) (taken.getD 1 0) (taken.getD 2 0) (taken.getD 3 0))
    (fun units => ?_) fun _ _ => hsize _ _ _ _
  match units with
  | [] | [_] | [_, _] | [_, _, _] | _ :: _ :: _ :: _ :: _ => rfl

end Code

open Code

/-! ### Operands and payloads -/

/-- Operands are read from the front, and nothing is wrong with them but a defect. -/
theorem Operands.fromFront_decode (o : Opcode) (high : UInt8) (f : Format) :
    FromFront (fun rest => Operands.decode o high rest f) (fun args => args.units - 1)
      fun failure => ∃ defect, failure = .invalid o defect := by
  have hcheck : ∀ failure, checkArgumentCount o high = .error failure →
      ∃ defect, failure = .invalid o defect := by
    intro failure hfailure
    unfold checkArgumentCount at hfailure
    split at hfailure <;> cases hfailure
    exact ⟨_, rfl⟩
  cases f with
  | f10x | f10t | f11n | f11x | f12x =>
    refine .const (fun args hargs => ?_) fun failure hfailure => ?_
    · cases hargs
      rfl
    · cases hfailure
  | packedSwitch | sparseSwitch | arrayData =>
    refine .of_truncated (fun {_ args} hargs => ?_) fun {_ failure} hfailure => ?_
    · cases hargs
    · cases hfailure
      rfl
  | f20t | f20bc | f21c | f21ih | f21lh | f21s | f21t | f22b | f22c | f22cs | f22s | f22t | f22x
  | f23x => exact fromFront_take1 fun _ => rfl
  | f30t | f31c | f31i | f31t | f32x | f3rc | f3rmi | f3rms =>
    exact fromFront_take2 fun _ _ => rfl
  | f4rcc => exact fromFront_take3 fun _ _ _ => rfl
  | f51l => exact fromFront_take4 fun _ _ _ _ => rfl
  | f35c | f35mi | f35ms =>
    refine .check ?_ hcheck
    exact fromFront_take2 fun _ _ => rfl
  | f45cc =>
    refine .check ?_ hcheck
    exact fromFront_take3 fun _ _ _ => rfl

namespace Payload

variable {wrong : DecodeFailure → Prop}

/-- A packed switch table is read from the front. -/
theorem fromFront_decodePacked :
    FromFront decodePacked (fun p => p.units - 1) wrong := by
  refine fromFront_of_takeMany fun units => ?_
  match units with
  | [] | [_] | [_, _] => exact .inl rfl
  | count :: low :: high :: rest =>
    refine .inr ⟨[count, low, high], rest, 2 * count.toNat,
      fun taken => .packed (wordOf low high).toInt32 (wordsOfUnits taken), rfl, fun _ => rfl,
      fun taken hlength => ?_⟩
    have heven : taken.length % 2 = 0 := by omega
    have hwords := length_wordsOfUnits heven
    simp only [Payload.units, List.length_cons, List.length_nil]
    omega

/-- So is a sparse one. -/
theorem fromFront_decodeSparse :
    FromFront decodeSparse (fun p => p.units - 1) wrong := by
  refine fromFront_of_takeMany fun units => ?_
  match units with
  | [] => exact .inl rfl
  | count :: rest =>
    refine .inr ⟨[count], rest, 4 * count.toNat,
      fun taken => .sparse (((wordsOfUnits taken).take count.toNat).zipWith SwitchCase.mk
        ((wordsOfUnits taken).drop count.toNat)), rfl, fun _ => rfl, fun taken hlength => ?_⟩
    have heven : taken.length % 2 = 0 := by omega
    have hwords := length_wordsOfUnits heven
    simp only [Payload.units, List.length_zipWith, List.length_take, List.length_drop,
      List.length_cons, List.length_nil]
    omega

/-- So is array data. -/
theorem fromFront_decodeArray :
    FromFront decodeArray (fun p => p.units - 1) wrong := by
  refine fromFront_of_takeMany fun units => ?_
  match units with
  | [] | [_] | [_, _] => exact .inl rfl
  | width :: low :: high :: rest =>
    refine .inr ⟨[width, low, high], rest, (width.toNat * (wordOf low high).toNat + 1) / 2,
      fun taken => .array width
        ((bytesOfUnits taken).take (width.toNat * (wordOf low high).toNat)), rfl, fun _ => rfl,
      fun taken hlength => ?_⟩
    have hbytes := length_bytesOfUnits taken
    simp only [Payload.units, List.length_take, List.length_cons, List.length_nil]
    omega

end Payload

/-! ### Instructions -/

namespace Instruction

/-- What comes behind the first unit of an instruction is read from the front, and nothing is wrong with
it but a defect. -/
theorem fromFront_decodeRest (o : Opcode) (high : UInt8) :
    FromFront (decodeRest o high) (fun i => i.units - 1)
      fun failure => ∃ defect, failure = .invalid o defect := by
  have hdata : ∀ {table : List UInt16 → Except DecodeFailure (Payload Int32)},
      FromFront table (fun p => p.units - 1) (fun failure => ∃ defect, failure = .invalid o defect) →
        (∀ rest, decodeRest o high rest = do return .data (← table rest)) →
          FromFront (decodeRest o high) (fun i => i.units - 1)
            fun failure => ∃ defect, failure = .invalid o defect := by
    intro table htable hrest
    rw [funext hrest]
    exact htable.map fun _ => rfl
  cases hformat : o.format with
  | packedSwitch =>
    exact hdata Payload.fromFront_decodePacked fun rest => by simp only [decodeRest, hformat]
  | sparseSwitch =>
    exact hdata Payload.fromFront_decodeSparse fun rest => by simp only [decodeRest, hformat]
  | arrayData =>
    exact hdata Payload.fromFront_decodeArray fun rest => by simp only [decodeRest, hformat]
  | _ =>
    have hno : o.format.isPayload = false := by
      rw [hformat]
      rfl
    rw [funext (decodeRest_of_isPayload_eq_false hno high)]
    exact (Operands.fromFront_decode o high o.format).map fun _ => rfl

/-- The first unit announces no opcode, or there is a defect behind it. -/
def Refused : DecodeFailure → Prop
  | .truncated => False
  | .unknown value => opcode? value = none
  | .invalid _ _ => True

/-- An instruction is read from the front. -/
theorem fromFront_decode : FromFront decode Instruction.units Refused where
  ok := by
    intro all i hi
    cases all with
    | nil => cases hi
    | cons first rest =>
      rw [decode] at hi
      cases ho : opcode? first with
      | none =>
        rw [ho] at hi
        cases hi
      | some o =>
        rw [ho] at hi
        obtain ⟨front, behind, rfl, hlength, hread⟩ := (fromFront_decodeRest o _).ok hi
        have hpos := i.units_pos
        refine ⟨first :: front, behind, rfl, ?_, fun behind' => ?_⟩
        · rw [List.length_cons]
          omega
        · rw [List.cons_append, decode, ho]
          exact hread behind'
  error := by
    intro all failure hfailure
    cases all with
    | nil =>
      cases hfailure
      exact .inl rfl
    | cons first rest =>
      rw [decode] at hfailure
      cases ho : opcode? first with
      | none =>
        rw [ho] at hfailure
        cases hfailure
        refine .inr ⟨ho, fun behind => ?_⟩
        rw [List.cons_append, decode, ho]
      | some o =>
        rw [ho] at hfailure
        refine ((fromFront_decodeRest o _).error hfailure).imp_right ?_
        rintro ⟨⟨defect, rfl⟩, hread⟩
        refine ⟨trivial, fun behind => ?_⟩
        rw [List.cons_append, decode, ho]
        exact hread behind

variable {i : Instruction Int32} {units behind : List UInt16}

/-- Nothing behind an instruction matters for it. -/
theorem decode_append_of_length_eq (hlength : units.length = i.units)
    (h : decode (units ++ behind) = .ok i) (behind' : List UInt16) :
    decode (units ++ behind') = .ok i := by
  obtain ⟨front, rest, hunits, hfront, hread⟩ := fromFront_decode.ok h
  obtain ⟨rfl, -⟩ := List.append_inj hunits (hlength.trans hfront.symm)
  exact hread behind'

/-- An instruction of which units are missing at the end is truncated. -/
theorem decode_take_of_lt (h : decode units = .ok i) {n : Nat} (hn : n < i.units) :
    decode (units.take n) = .error .truncated := by
  have hall : ∀ outcome, decode (units.take n ++ units.drop n) = outcome → outcome = .ok i := by
    rintro _ rfl
    rw [List.take_append_drop, h]
  cases hdecode : decode (units.take n) with
  | ok j =>
    -- it would be the instruction itself, for which there are too few units
    obtain ⟨front, rest, hunits, hlength, hread⟩ := fromFront_decode.ok hdecode
    obtain rfl : j = i := by
      refine Except.ok.inj (hall _ ?_)
      rw [hunits, List.append_assoc]
      exact hread _
    have hle : front.length ≤ n := by
      have htake := congrArg List.length hunits
      rw [List.length_take, List.length_append] at htake
      omega
    omega
  | error failure =>
    rcases fromFront_decode.error hdecode with rfl | ⟨-, hread⟩
    · rfl
    · cases hall _ (hread _)

end Instruction

end Dalvik
