import Dalvik.Proofs.Method.WellFormed
import Dalvik.Proofs.Instruction.Shape
import Dalvik.Proofs.Outline.Coverage
import Dalvik.Outline.ToMethod

/-!
# Positions spelled out as offsets

The instructions of an outline name positions, those of a finished method count offsets, each from
some base: a table from the switch that owns it, everything else from itself.  `Code.Spells` says that
code with offsets spells out code with positions.  The two have the same shape, so their addresses
are the same, and the same switches reach the same tables (`Code.Spells.reaches_iff`).

Turning an outline into a method succeeds with the code that spells out the outline, if the offsets
of that code fit (`Outline.toMethod_eq_ok_iff`).
-/

namespace Dalvik

/-! ### Code of the same shape -/

/-- An instruction of the shape of a switch is a switch. -/
theorem Instruction.exists_switchTarget?_of_shape_eq {τ σ : Type} {i : Instruction τ}
    {j : Instruction σ} (h : j.shape = i.shape) {t : τ} (ht : i.switchTarget? = some t) :
    ∃ s, j.switchTarget? = some s := by
  obtain ⟨o, a, rfl, ho⟩ := switchTarget?_eq_some_iff.1 ht
  cases j with
  | op o' args =>
    obtain ⟨rfl, hargs⟩ := op.inj h
    cases args with
    | f31t a' s => exact ⟨s, if_pos ho⟩
    | _ => cases hargs
  | data p => simp [shape] at h

namespace Code

variable {τ σ : Type} {code : List (Instruction τ)} {code' : List (Instruction σ)}

theorem getElem?_of_shape_eq (h : code'.map Instruction.shape = code.map Instruction.shape) {k : Nat}
    {i : Instruction τ} (hi : code[k]? = some i) :
    ∃ j, code'[k]? = some j ∧ j.shape = i.shape := by
  have hk : code'[k]?.map Instruction.shape = some i.shape := by
    rw [← List.getElem?_map, h, List.getElem?_map, hi, Option.map_some]
  exact Option.map_eq_some_iff.1 hk

theorem length_eq_of_shape_eq (h : code'.map Instruction.shape = code.map Instruction.shape) :
    code'.length = code.length := by
  simpa using congrArg List.length h

/-- Code of the same shape has the same addresses. -/
theorem address_eq_of_shape_eq (h : code'.map Instruction.shape = code.map Instruction.shape)
    (k : Nat) : address code' k = address code k := by
  refine address_eq_of_units_eq ?_ k
  simpa [Function.comp_def] using congrArg (List.map Instruction.units) h

theorem getElem?_eq_nop_of_shape_eq (h : code'.map Instruction.shape = code.map Instruction.shape)
    {k : Nat} (hk : code[k]? = some .nop) : code'[k]? = some .nop := by
  obtain ⟨j, hj, hshape⟩ := getElem?_of_shape_eq h hk
  have hnop : j.isNop = true := by rw [← Instruction.isNop_shape, hshape]; rfl
  rw [hj, Instruction.isNop_iff.1 hnop]

/-- In code of the same shape a switch reaches the same table, if its target denotes the same
place. -/
theorem Reaches.of_shape_eq {locate : Nat → τ → Option Nat} {locate' : Nat → σ → Option Nat}
    {switch table : Nat} (hr : Reaches locate code switch table)
    (h : code'.map Instruction.shape = code.map Instruction.shape)
    (hlocate : ∀ i ∈ code[switch]?, ∀ j ∈ code'[switch]?, ∀ t ∈ i.switchTarget?,
      ∀ s ∈ j.switchTarget?, locate' switch s = locate switch t) :
    Reaches locate' code' switch table := by
  obtain ⟨i, hi, t, ht, target, htarget, ⟨hle, hnops⟩, p, hp, hpayload, hkind⟩ := hr
  obtain ⟨j, hj, hij⟩ := getElem?_of_shape_eq h hi
  obtain ⟨s, hs⟩ := Instruction.exists_switchTarget?_of_shape_eq hij ht
  obtain ⟨q, hq, hpq⟩ := getElem?_of_shape_eq h hp
  refine ⟨j, hj, s, hs, target, ?_, ⟨hle, fun k hk hstart => ?_⟩, q, hq, ?_, ?_⟩
  · rw [hlocate i hi j hj t ht s hs]
    exact htarget
  · exact getElem?_eq_nop_of_shape_eq h (hnops k hk hstart)
  · rw [← Instruction.isPayload_shape, hpq, Instruction.isPayload_shape, hpayload]
  · rw [← Instruction.opcode_shape, hpq, Instruction.opcode_shape, hkind,
      ← Instruction.opcode_shape j, hij, Instruction.opcode_shape]

/-! ### Code that spells out positions -/

theorem follow_eq_some_iff {code : List (Instruction Int32)} {k p : Nat} {offset : Int32} :
    follow code k offset = some p ↔
      p ≤ code.length ∧ (address code p : Int) = address code k + offset.toInt :=
  stopAt_eq_some_iff

/-- The offsets in `code` lead to the positions in `places`, where those of the instruction at
position `k` are counted from position `base k`. -/
structure Spells (base : Nat → Nat) (places : List (Instruction Nat))
    (code : List (Instruction Int32)) : Prop where
  /-- The instructions are the same but for their targets. -/
  shape : code.map Instruction.shape = places.map Instruction.shape
  /-- Every offset leads to its position. -/
  targets : ∀ k i j, places[k]? = some i → code[k]? = some j →
    List.Forall₂ (fun offset p => follow code (base k) offset = some p) j.targets i.targets

namespace Spells

variable {base base' : Nat → Nat} {places : List (Instruction Nat)}
  {code : List (Instruction Int32)}

/-- The same switches reach the same tables, their targets being counted from themselves. -/
theorem reaches_iff (h : Spells base places code)
    (hbase : ∀ k i p, places[k]? = some i → i.switchTarget? = some p → base k = k)
    {switch table : Nat} :
    Reaches (follow code) code switch table ↔
      Reaches (fun _ p => some p) places switch table := by
  have hfollow : ∀ i ∈ places[switch]?, ∀ j ∈ code[switch]?, ∀ p ∈ i.switchTarget?,
      ∀ offset ∈ j.switchTarget?, follow code switch offset = some p := by
    intro i hi j hj p hp offset hoffset
    have htargets := h.targets switch i j hi hj
    rw [Instruction.targets_of_switchTarget? hp, Instruction.targets_of_switchTarget? hoffset,
      hbase switch i p hi hp] at htargets
    exact (List.forall₂_cons.1 htargets).1
  constructor
  · intro hr
    refine hr.of_shape_eq h.shape.symm fun j hj i hi offset hoffset p hp => ?_
    exact (hfollow i hi j hj p hp offset hoffset).symm
  · intro hr
    exact hr.of_shape_eq h.shape hfollow

end Spells

end Code

/-! ### Spelling out an outline -/

/-- Between any two places there is an offset, unless they are too far apart. -/
theorem branchOffset_eq_ok_iff {index source target : Nat} {opcode : Opcode} {offset : Int32} :
    branchOffset index opcode source target = .ok offset ↔
      offset.toInt = (target : Int) - source := by
  have hlow := offset.le_toInt
  have hhigh := offset.toInt_lt
  unfold branchOffset
  constructor
  · intro h
    dsimp only at h
    split at h
    · next hrange =>
      simp only [Bool.and_eq_true, decide_eq_true_eq] at hrange
      rw [← Except.ok.inj h, Int32.toInt_ofInt_of_le (by omega) (by omega)]
    · cases h
  · intro h
    rw [← h, if_pos, Int32.ofInt_toInt]
    simp only [Bool.and_eq_true, decide_eq_true_eq]
    omega

namespace Outline

variable {o : Outline} {owner? : Nat → Option Nat}

/-- The position from which the targets of the instruction at a position are counted. -/
def base (owner? : Nat → Option Nat) (k : Nat) : Nat := (owner? k).getD k

/-- Spelling out one instruction succeeds with the instruction of the same shape whose offsets lead
to the right places, if they fit. -/
theorem emitInstruction_eq_ok_iff {places : List (Instruction Nat)} {k : Nat} {i : Instruction Nat}
    {j : Instruction Int32} :
    emitInstruction (.ofList places) owner? (Code.address places k) k i = .ok j ↔
      j.shape = i.shape ∧ List.Forall₂ (fun p offset => offset.toInt =
          (Code.address places p : Int) - Code.address places (base owner? k)) i.targets j.targets ∧
        j.overlong? = none := by
  have hsteps : emitInstruction (.ofList places) owner? (Code.address places k) k i = .ok j ↔
      ∃ emitted, (i.mapTargetsM fun p => branchOffset k i.opcode
        (Code.address places (base owner? k)) (Code.address places p)) = .ok emitted ∧
          emitted.overlong? = none ∧ emitted = j := by
    unfold emitInstruction base
    cases owner? k
    all_goals
      simp only [Layout.offset_ofList, bind_eq_ok_iff, Option.getD]
      refine exists_congr fun emitted => and_congr_right fun _ => ?_
      cases emitted.overlong? <;> simp
  rw [hsteps]
  simp only [Instruction.mapTargetsM_eq_ok_iff, branchOffset_eq_ok_iff]
  constructor
  · rintro ⟨emitted, ⟨hshape, htargets⟩, hfits, rfl⟩
    exact ⟨hshape, htargets, hfits⟩
  · rintro ⟨hshape, htargets, hfits⟩
    exact ⟨j, ⟨hshape, htargets⟩, hfits, rfl⟩

/-- Spelling out the instructions of an outline succeeds with the code that spells them out, if its
offsets fit. -/
theorem mapM_emitInstruction_eq_ok_iff {places : List (Instruction Nat)}
    (hplaces : ∀ i ∈ places, ∀ p ∈ i.targets, p ≤ places.length)
    {code : List (Instruction Int32)} :
    (Layout.ofList places).toList.mapM (fun (address, index, i) =>
        emitInstruction (.ofList places) owner? address index i) = .ok code ↔
      Code.Spells (base owner?) places code ∧ ∀ j ∈ code, j.overlong? = none := by
  rw [mapM_eq_ok_iff, Layout.toList_ofList, List.forall₂_map_left_iff, forall₂_iff_getElem?]
  simp only [List.length_zipIdx, List.getElem?_zipIdx, Option.map_eq_some_iff, Nat.zero_add]
  constructor
  · rintro ⟨hlength, hemit⟩
    have hemit' : ∀ k i j, places[k]? = some i → code[k]? = some j →
        j.shape = i.shape ∧ List.Forall₂ (fun p offset => offset.toInt =
          (Code.address places p : Int) - Code.address places (base owner? k)) i.targets j.targets ∧
        j.overlong? = none := fun k i j hi hj =>
      emitInstruction_eq_ok_iff.1 (hemit k _ j ⟨i, hi, rfl⟩ hj)
    have hshape : code.map Instruction.shape = places.map Instruction.shape := by
      refine List.ext_getElem (by simp [hlength]) fun k hk hk' => ?_
      rw [List.length_map] at hk hk'
      rw [List.getElem_map, List.getElem_map]
      exact (hemit' k _ _ (List.getElem?_eq_getElem hk') (List.getElem?_eq_getElem hk)).1
    refine ⟨⟨hshape, fun k i j hi hj => ?_⟩, fun j hj => ?_⟩
    · rw [forall₂_iff_getElem?]
      obtain ⟨hlen, htargets⟩ := forall₂_iff_getElem?.1 (hemit' k i j hi hj).2.1
      refine ⟨hlen.symm, fun n offset p hoffset hp => Code.follow_eq_some_iff.2 ⟨?_, ?_⟩⟩
      · rw [← hlength]
        exact hplaces i (List.mem_of_getElem? hi) p (List.mem_of_getElem? hp)
      · have hdistance := htargets n p offset hp hoffset
        rw [Code.address_eq_of_shape_eq hshape, Code.address_eq_of_shape_eq hshape]
        omega
    · obtain ⟨k, hk, rfl⟩ := List.mem_iff_getElem.1 hj
      exact (hemit' k _ _ (List.getElem?_eq_getElem (hlength ▸ hk))
        (List.getElem?_eq_getElem hk)).2.2
  · rintro ⟨hspells, hfits⟩
    refine ⟨(Code.length_eq_of_shape_eq hspells.shape).symm, fun k entry j hentry hj => ?_⟩
    obtain ⟨i, hi, rfl⟩ := hentry
    obtain ⟨j', hj', hij⟩ := Code.getElem?_of_shape_eq hspells.shape hi
    obtain rfl := Option.some.inj (hj.symm.trans hj')
    refine emitInstruction_eq_ok_iff.2 ⟨hij, ?_, hfits j (List.mem_of_getElem? hj)⟩
    rw [forall₂_iff_getElem?]
    obtain ⟨hlen, htargets⟩ := forall₂_iff_getElem?.1 (hspells.targets k i j hi hj)
    refine ⟨hlen.symm, fun n p offset hp hoffset => ?_⟩
    have hdistance := (Code.follow_eq_some_iff.1 (htargets n offset p hoffset hp)).2
    rw [Code.address_eq_of_shape_eq hspells.shape, Code.address_eq_of_shape_eq hspells.shape]
      at hdistance
    dsimp only
    omega

/-- An outline becomes the method with the code that spells it out, if its offsets fit. -/
theorem toMethod_eq_ok_iff
    (hplaces : ∀ i ∈ o.instructions, ∀ p ∈ i.targets, p ≤ o.instructions.length) {m : Method} :
    o.toMethod owner? = .ok m ↔
      (Code.Spells (base owner?) o.instructions m.instructions ∧
        ∀ j ∈ m.instructions, j.overlong? = none) ∧
      m.code = .ofList m.instructions ∧ m.registers = o.registers ∧
      m.tries = emitTries (.ofList o.instructions) o.tries ∧
      m.debugItems = o.debugItems.map fun (k, item) =>
        (UInt64.ofNat (Code.address o.instructions k), item) := by
  unfold toMethod
  rw [bind_eq_ok_iff]
  simp only [mapM_emitInstruction_eq_ok_iff hplaces, pure_eq_ok_iff, Layout.offset_ofList]
  constructor
  · rintro ⟨code, hspells, rfl⟩
    rw [Method.instructions_ofInstructions]
    exact ⟨hspells, rfl, rfl, rfl, rfl⟩
  · rintro ⟨hspells, hcode, hregisters, htries, hitems⟩
    refine ⟨m.instructions, hspells, ?_⟩
    rw [← hregisters, ← htries, ← hitems, Method.ofInstructions, ← hcode]

end Outline

end Dalvik
