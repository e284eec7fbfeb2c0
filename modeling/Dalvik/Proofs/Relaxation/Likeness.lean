import Dalvik.Proofs.Outline.Spelling
import Dalvik.Proofs.Relaxation.Settling

/-!
# Relaxation does not look at labels

Two listings are alike (`Bound.Alike`) if they differ in nothing but the labels by which their
instructions name positions: corresponding labels stand at the same position in both, and the debug
items are pinned to the same positions.  What is done about a position depends on none of that, so
every repair of one listing is a repair of the other, after which they are alike again, and settling
keeps them alike (`Bound.Alike.settle`).

Before that, the same tables are found for the same switches, or the same error
(`Listing.findOwners_of_alike`).
-/

namespace Dalvik

/-! ### Lists that correspond -/

section Lists

variable {α β : Type} {R : α → β → Prop} {xs : List α} {ys : List β} {x : α} {y : β}

theorem forall₂_set (h : List.Forall₂ R xs ys) (hxy : R x y) (k : Nat) :
    List.Forall₂ R (xs.set k x) (ys.set k y) := by
  induction h generalizing k with
  | nil => exact .nil
  | cons hhead htail ih =>
    cases k with
    | zero => exact .cons hxy htail
    | succ k => exact .cons hhead (ih k)

theorem forall₂_insertIdx (h : List.Forall₂ R xs ys) (hxy : R x y) (k : Nat) :
    List.Forall₂ R (xs.insertIdx k x) (ys.insertIdx k y) := by
  induction h generalizing k with
  | nil =>
    cases k with
    | zero => exact .cons hxy .nil
    | succ k => exact .nil
  | cons hhead htail ih =>
    cases k with
    | zero => exact .cons hxy (.cons hhead htail)
    | succ k => exact .cons hhead (ih k)

theorem forall₂_eraseIdx (h : List.Forall₂ R xs ys) (k : Nat) :
    List.Forall₂ R (xs.eraseIdx k) (ys.eraseIdx k) := by
  induction h generalizing k with
  | nil => exact .nil
  | cons hhead htail ih =>
    cases k with
    | zero => exact htail
    | succ k => exact .cons hhead (ih k)

/-- Lists whose elements convert to the same convert to the same. -/
theorem exists_mapM_eq_ok_of_forall₂ {ε γ : Type} {f : α → Except ε γ} {g : β → Except ε γ}
    (h : List.Forall₂ (fun x y => ∃ z, f x = .ok z ∧ g y = .ok z) xs ys) :
    ∃ zs, xs.mapM f = .ok zs ∧ ys.mapM g = .ok zs := by
  induction h with
  | nil => exact ⟨[], rfl, rfl⟩
  | cons hxy _ ih =>
    obtain ⟨z, hx, hy⟩ := hxy
    obtain ⟨zs, hxs, hys⟩ := ih
    rw [mapM_eq_ok_iff] at hxs hys
    exact ⟨z :: zs, mapM_eq_ok_iff.2 (.cons hx hxs), mapM_eq_ok_iff.2 (.cons hy hys)⟩

/-- Elements that convert to the same correspond. -/
theorem forall₂_of_convert {ε γ : Type} {f : α → Except ε γ} {g : β → Except ε γ} {zs : List γ}
    (hxs : List.Forall₂ (fun x z => f x = .ok z) xs zs)
    (hys : List.Forall₂ (fun y z => g y = .ok z) ys zs) :
    List.Forall₂ (fun x y => ∃ z, f x = .ok z ∧ g y = .ok z) xs ys := by
  induction hxs generalizing ys with
  | nil =>
    cases hys
    exact .nil
  | cons hx _ ih =>
    cases hys with
    | cons hy hys => exact .cons ⟨_, hx, hy⟩ (ih hys)

end Lists

/-! ### Instructions that are alike -/

namespace Instruction

variable {τ σ ρ : Type} {R : τ → σ → Prop} {i : Instruction τ} {j : Instruction σ}

@[simp] theorem slack_shape (i : Instruction τ) : i.shape.slack = i.slack := by
  cases i with
  | op o args => cases args <;> rfl
  | data p => rfl

/-- Two instructions have the same shape, and their targets correspond. -/
structure Alike (R : τ → σ → Prop) (i : Instruction τ) (j : Instruction σ) : Prop where
  /-- The shape is the same. -/
  shape : j.shape = i.shape
  /-- The targets correspond. -/
  targets : List.Forall₂ R i.targets j.targets

namespace Alike

theorem opcode_eq (h : Alike R i j) : j.opcode = i.opcode := by
  rw [← opcode_shape, h.shape, opcode_shape]

theorem isNop_eq (h : Alike R i j) : j.isNop = i.isNop := by
  rw [← isNop_shape, h.shape, isNop_shape]

theorem goto (r : Reach) {t : τ} {u : σ} (h : R t u) :
    Alike R (Instruction.goto r t) (Instruction.goto r u) :=
  ⟨by cases r <;> rfl, .cons h .nil⟩

/-- What is like a jump is a jump of the same reach. -/
theorem exists_jump {o : Opcode} {r : Reach} {t : τ} (h : Alike R (op o (.jump r t)) j) :
    ∃ u, j = op o (.jump r u) ∧ R t u := by
  obtain ⟨u, rfl⟩ := eq_jump_of_shape_eq h.shape
  exact ⟨u, rfl, (List.forall₂_cons.1 h.targets).1⟩

/-- What is like data is data. -/
theorem exists_data {p : Payload τ} (h : Alike R (data p) j) :
    ∃ q, j = data q ∧ q.isSwitchTable = p.isSwitchTable ∧ q.opcode = p.opcode := by
  obtain ⟨q, rfl, hq⟩ := eq_data_of_shape_eq h.shape
  refine ⟨q, rfl, ?_, ?_⟩
  · rw [← Payload.isSwitchTable_shape, hq, Payload.isSwitchTable_shape]
  · rw [← Payload.opcode_shape, hq, Payload.opcode_shape]

/-- What is like a switch is a switch, and what is like none is none. -/
theorem switchTarget?_eq (h : Alike R i j) : (i.switchTarget? = none ∧ j.switchTarget? = none) ∨
    ∃ t u, i.switchTarget? = some t ∧ j.switchTarget? = some u ∧ R t u := by
  cases hi : i.switchTarget? with
  | some t =>
    obtain ⟨u, hu⟩ := exists_switchTarget?_of_shape_eq h.shape hi
    have htargets := h.targets
    rw [targets_of_switchTarget? hi, targets_of_switchTarget? hu] at htargets
    exact Or.inr ⟨t, u, rfl, hu, (List.forall₂_cons.1 htargets).1⟩
  | none =>
    refine Or.inl ⟨rfl, Option.eq_none_iff_forall_ne_some.2 fun u hu => ?_⟩
    obtain ⟨t, ht⟩ := exists_switchTarget?_of_shape_eq h.shape.symm hu
    rw [hi] at ht
    cases ht

/-- Instructions that are alike become the same when their targets do. -/
theorem mapTargetsM_eq {ε : Type} {f : τ → Except ε ρ} {g : σ → Except ε ρ} (h : Alike R i j)
    (hfg : ∀ t u, R t u → ∃ p, f t = .ok p ∧ g u = .ok p) :
    ∃ x, i.mapTargetsM f = .ok x ∧ j.mapTargetsM g = .ok x := by
  obtain ⟨ps, hf, hg⟩ := exists_mapM_eq_ok_of_forall₂ (h.targets.imp hfg)
  rw [mapM_eq_ok_iff] at hf hg
  obtain ⟨x, hx⟩ : ∃ x, i.mapTargetsM f = .ok x := by
    refine exists_mapTargetsM_eq_ok fun t ht => ?_
    obtain ⟨p, -, hp⟩ := forall₂_exists_left hf.flip ht
    exact ⟨p, hp⟩
  obtain ⟨hshape, htargets⟩ := mapTargetsM_eq_ok_iff.1 hx
  rw [forall₂_ok_unique hf htargets] at hg
  exact ⟨x, hx, mapTargetsM_eq_ok_iff.2 ⟨hshape.trans h.shape.symm, hg⟩⟩

end Alike

end Instruction

namespace Code

variable {τ σ : Type} {R : τ → σ → Prop} {code : List (Instruction τ)} {code' : List (Instruction σ)}

/-- Code that is alike has the same shape. -/
theorem shape_eq_of_alike (h : List.Forall₂ (Instruction.Alike R) code code') :
    code'.map Instruction.shape = code.map Instruction.shape := by
  rw [← List.forall₂_eq_eq_eq, List.forall₂_map_left_iff, List.forall₂_map_right_iff]
  exact h.flip.imp fun _ _ hij => hij.shape

theorem exists_getElem?_of_alike (h : List.Forall₂ (Instruction.Alike R) code code') {k : Nat}
    {i : Instruction τ} (hi : code[k]? = some i) :
    ∃ j, code'[k]? = some j ∧ Instruction.Alike R i j := by
  obtain ⟨j, hj, -⟩ := getElem?_of_shape_eq (shape_eq_of_alike h) hi
  exact ⟨j, hj, (forall₂_iff_getElem?.1 h).2 k i j hi hj⟩

end Code

/-! ### Switches and their tables -/

namespace Listing

variable {R : Label → Label → Prop} {l l' : Listing}

/-- Running over `nop`s ends at the same position. -/
theorem skipNops_of_alike {code code' : List (Instruction Label)}
    (h : List.Forall₂ (Instruction.Alike R) code code') (start : Nat) :
    skipNops start code' = skipNops start code := by
  induction h generalizing start with
  | nil => rfl
  | cons hij _ ih => rw [skipNops, skipNops, hij.isNop_eq, ih]

/-- The same table is found, or the same error. -/
theorem findTable_of_alike
    (h : List.Forall₂ (Instruction.Alike R) l.instructions l'.instructions) (owners : Owners)
    (switch : Nat) (opcode : Opcode) (target : Nat) :
    l'.findTable owners switch opcode target = l.findTable owners switch opcode target := by
  have hsize : l'.size = l.size := by
    rw [← length_instructions, ← length_instructions, h.length_eq]
  rw [findTable, findTable, hsize, skipNops_of_alike (List.forall₂_drop target h)]
  by_cases hend : l.size ≤ target
  · rw [if_pos hend, if_pos hend]
  · rw [if_neg hend, if_neg hend]
    generalize skipNops target (l.instructions.drop target) = table
    dsimp only
    rw [← getElem?_instructions, ← getElem?_instructions]
    cases hi : l.instructions[table]? with
    | none =>
      have hnone : l'.instructions[table]? = none := by
        rw [List.getElem?_eq_none_iff, ← h.length_eq]
        exact List.getElem?_eq_none_iff.1 hi
      rw [hnone]
    | some i =>
      obtain ⟨j, hj, hij⟩ := Code.exists_getElem?_of_alike h hi
      rw [hj]
      cases i with
      | op o args =>
        cases j with
        | op o' args' => rfl
        | data q => cases hij.shape
      | data p =>
        obtain ⟨q, rfl, -, hopcode⟩ := hij.exists_data
        dsimp only
        rw [hopcode]

/-- The same tables are found for the same switches, or the same error. -/
theorem findOwners_of_alike {f g : Label → Except Error Nat}
    (h : List.Forall₂ (Instruction.Alike R) l.instructions l'.instructions)
    (hfg : ∀ t u, R t u → f t = g u) : l'.findOwners g = l.findOwners f := by
  have hstep : ∀ (code code' : List (Instruction Label)) (n : Nat) (owners : Owners),
      List.Forall₂ (Instruction.Alike R) code code' →
      (code'.zipIdx n).foldlM (l'.bindStep g) owners =
        (code.zipIdx n).foldlM (l.bindStep f) owners := by
    intro code code' n owners hcode
    induction hcode generalizing n owners with
    | nil => rfl
    | @cons i j code code' hij _ ih =>
      have hfirst : l'.bindStep g owners (j, n) = l.bindStep f owners (i, n) := by
        rw [bindStep, bindStep]
        dsimp only
        rcases hij.switchTarget?_eq with ⟨hi, hj⟩ | ⟨t, u, hi, hj, htu⟩
        · rw [hi, hj]
        · rw [hi, hj, hij.opcode_eq]
          dsimp only
          rw [← hfg t u htu]
          simp only [findTable_of_alike h]
      rw [List.zipIdx_cons, List.zipIdx_cons, List.foldlM_cons, List.foldlM_cons, hfirst]
      exact congrArg _ (funext fun owners' => ih _ _)
  exact hstep _ _ 0 [] h

end Listing

/-! ### Repairs -/

/-- Two repairs that do the same, but for the labels of jumps. -/
inductive Repair.Alike (R : Label → Label → Prop) : Repair → Repair → Prop
  /-- Nothing is done. -/
  | keep : Alike R .keep .keep
  /-- A jump gets longer. -/
  | widen (r : Reach) {t u : Label} (h : R t u) : Alike R (.widen r t) (.widen r u)
  /-- A table is removed. -/
  | drop : Alike R .drop .drop
  /-- A `nop` is removed. -/
  | closeGap : Alike R .closeGap .closeGap
  /-- A `nop` is added. -/
  | openGap : Alike R .openGap .openGap

namespace Bound

/-- Two listings differ in nothing but their labels, of which those that are related by `R`
correspond. -/
structure Alike (R : Label → Label → Prop) (b c : Bound) : Prop where
  /-- The instructions are alike. -/
  code : List.Forall₂ (Instruction.Alike R) b.listing.instructions c.listing.instructions
  /-- Labels that correspond stand at the same position. -/
  places : ∀ t u, R t u → c.listing.locate? u = b.listing.locate? t
  /-- The debug items are the same. -/
  items : c.listing.debugItems = b.listing.debugItems
  /-- The owners of the tables are the same. -/
  owners : c.owners = b.owners

variable {R : Label → Label → Prop} {b c : Bound} {draft draft' k : Nat}

namespace Alike

theorem size_eq (h : Alike R b c) : c.listing.size = b.listing.size := by
  rw [← Listing.length_instructions, ← Listing.length_instructions, h.code.length_eq]

theorem address_eq (h : Alike R b c) (k : Nat) :
    Code.address c.listing.instructions k = Code.address b.listing.instructions k :=
  Code.address_eq_of_shape_eq (Code.shape_eq_of_alike h.code) k

theorem followsNop_eq (h : Alike R b c) (k : Nat) : c.followsNop k = b.followsNop k := by
  cases k with
  | zero => rfl
  | succ before =>
    rw [followsNop, followsNop, ← Listing.getElem?_instructions, ← Listing.getElem?_instructions]
    have hshape := congrArg (·[before]?) (Code.shape_eq_of_alike h.code)
    simp only [List.getElem?_map] at hshape
    have hnop : ∀ i? : Option (Instruction Label),
        i?.any Instruction.isNop = (i?.map Instruction.shape).any Instruction.isNop := by
      intro i?
      cases i? <;> simp
    rw [hnop, hshape, ← hnop]

/-- The same is done about the same positions. -/
theorem repairAt (h : Alike R b c) (hb : b.listing.Coherent draft) (hc : c.listing.Coherent draft')
    (hR : ∀ t u, R t u → t.draft = draft ∧ u.draft = draft') (hk : k < b.listing.size) :
    Repair.Alike R (b.repairAt b.listing.survey k) (c.repairAt c.listing.survey k) := by
  obtain ⟨i, hi⟩ := b.listing.exists_instruction? hk
  obtain ⟨j, hj, hij⟩ := Code.exists_getElem?_of_alike h.code
    ((Listing.getElem?_instructions _ _).trans hi)
  rw [Listing.getElem?_instructions] at hj
  have hbaddress : b.listing.survey.addresses[k]? = some (Code.address b.listing.instructions k) :=
    b.listing.getElem?_addresses (Nat.le_of_lt hk)
  have hcaddress : c.listing.survey.addresses[k]? = some (Code.address b.listing.instructions k) := by
    rw [← h.address_eq]
    exact c.listing.getElem?_addresses (h.size_eq ▸ Nat.le_of_lt hk)
  rw [Bound.repairAt, Bound.repairAt, hi, hj, hbaddress, hcaddress]
  dsimp only
  cases i with
  | op o args =>
    by_cases hjump : ∃ r t, args = .jump r t
    · obtain ⟨r, t, rfl⟩ := hjump
      obtain ⟨u, rfl, htu⟩ := hij.exists_jump
      obtain ⟨ht, hu⟩ := hR t u htu
      have hstop : c.listing.survey.address? u = b.listing.survey.address? t := by
        rw [hb.address?_survey ht, hc.address?_survey hu, h.places t u htu]
        exact congrArg (Option.map · _) (funext h.address_eq)
      simp only [repairOf, hstop]
      split
      · exact .keep
      · split
        · exact .keep
        · exact .widen _ htu
    · have hno : ∀ r t, args ≠ .jump r t := fun r t heq => hjump ⟨r, t, heq⟩
      cases j with
      | op o' args' =>
        have hno' : ∀ r t, args' ≠ .jump r t := by
          rintro r t rfl
          obtain ⟨u, hu⟩ := Instruction.eq_jump_of_shape_eq hij.shape.symm
          exact hno r u (Instruction.op.inj hu).2
        rw [repairOf_of_ne_jump hno, repairOf_of_ne_jump hno']
        exact .keep
      | data q => cases hij.shape
  | data p =>
    obtain ⟨q, rfl, htable, -⟩ := hij.exists_data
    simp only [repairOf, htable, h.owners, h.followsNop_eq]
    split
    · exact .drop
    · split
      · exact .keep
      · split
        · exact .closeGap
        · exact .openGap

/-! ### What becomes of listings that are alike -/

theorem replaceAt (h : Alike R b c) {i j : Instruction Label} (hij : Instruction.Alike R i j)
    (k : Nat) : Alike R (b.replaceAt k i) (c.replaceAt k j) where
  code := by
    simp only [Bound.replaceAt, Listing.instructions_replaceAt]
    exact forall₂_set h.code hij k
  places t u htu := by
    simp only [Bound.replaceAt, Listing.locate?, Listing.positions, Listing.points_replaceAt,
      Listing.issued_replaceAt]
    exact h.places t u htu
  items := by
    simp only [Bound.replaceAt, Listing.debugItems_replaceAt]
    exact h.items
  owners := h.owners

theorem insertAt_nop (h : Alike R b c) (hb : b.listing.Coherent draft)
    (hc : c.listing.Coherent draft') (hR : ∀ t u, R t u → t.draft = draft ∧ u.draft = draft')
    (hk : k < b.listing.size) : Alike R (b.insertAt k .nop) (c.insertAt k .nop) := by
  have hk' : k < c.listing.size := h.size_eq ▸ hk
  refine ⟨?_, fun t u htu => ?_, ?_, ?_⟩
  · simp only [Bound.insertAt, Listing.instructions_insertAt _ (Nat.le_of_lt hk),
      Listing.instructions_insertAt _ (Nat.le_of_lt hk')]
    exact forall₂_insertIdx h.code ⟨rfl, .nil⟩ k
  · obtain ⟨ht, hu⟩ := hR t u htu
    simp only [Bound.insertAt]
    rw [hb.locate?_insertAt hk (hb.insertAt_nop (Nat.le_of_lt hk)) ht,
      hc.locate?_insertAt hk' (hc.insertAt_nop (Nat.le_of_lt hk')) hu, h.places t u htu]
  · simp only [Bound.insertAt, Listing.debugItems_insertAt _ hk, Listing.debugItems_insertAt _ hk',
      h.items]
  · simp only [Bound.insertAt, h.owners]

theorem removeAt (h : Alike R b c) (hb : b.listing.Coherent draft)
    (hc : c.listing.Coherent draft') (hR : ∀ t u, R t u → t.draft = draft ∧ u.draft = draft')
    (hk : k < b.listing.size) : Alike R (b.removeAt k) (c.removeAt k) := by
  have hk' : k < c.listing.size := h.size_eq ▸ hk
  refine ⟨?_, fun t u htu => ?_, ?_, ?_⟩
  · simp only [Bound.removeAt, Listing.instructions_removeAt]
    exact forall₂_eraseIdx h.code k
  · obtain ⟨ht, hu⟩ := hR t u htu
    simp only [Bound.removeAt]
    rw [hb.locate?_removeAt hk ht, hc.locate?_removeAt hk' hu, h.places t u htu]
  · simp only [Bound.removeAt, Listing.debugItems_removeAt _ hk, Listing.debugItems_removeAt _ hk',
      h.items]
  · simp only [Bound.removeAt, h.owners]

/-- The same repair of both keeps them alike, and they go on from the same position. -/
theorem repair (h : Alike R b c) (hb : b.listing.Coherent draft) (hc : c.listing.Coherent draft')
    (hR : ∀ t u, R t u → t.draft = draft ∧ u.draft = draft') (hk : k < b.listing.size)
    {action action' : Repair} (haction : Repair.Alike R action action') :
    Alike R (b.repair k action).1 (c.repair k action').1 ∧
      (c.repair k action').2 = (b.repair k action).2 := by
  cases haction with
  | keep => exact ⟨h, rfl⟩
  | widen r htu => exact ⟨h.replaceAt (.goto r htu) k, rfl⟩
  | drop => exact ⟨h.removeAt hb hc hR hk, rfl⟩
  | closeGap => exact ⟨h.removeAt hb hc hR (by omega), rfl⟩
  | openGap => exact ⟨h.insertAt_nop hb hc hR hk, rfl⟩

/-- Sweeping both keeps them alike, and something is repaired in both or in neither. -/
theorem sweepFrom (left : Nat) {index : Nat} (h : Alike R b c) (hb : b.Sound draft)
    (hc : c.Sound draft') (hR : ∀ t u, R t u → t.draft = draft ∧ u.draft = draft')
    (hsize : b.listing.size = index + left) :
    Alike R (b.sweepFrom b.listing.survey left index).1 (c.sweepFrom c.listing.survey left index).1 ∧
      (c.sweepFrom c.listing.survey left index).2 = (b.sweepFrom b.listing.survey left index).2 := by
  induction left generalizing b c index with
  | zero => exact ⟨h, rfl⟩
  | succ left ih =>
    have hindex : index < b.listing.size := by omega
    have hb' := hb.listing.toCoherent
    have hc' := hc.listing.toCoherent
    have haction := h.repairAt hb' hc' hR hindex
    have hdiagnosis := b.diagnosis hindex
    have hdiagnosis' := c.diagnosis (h.size_eq ▸ hindex)
    by_cases hkeep : b.repairAt b.listing.survey index = .keep
    · have hkeep' : c.repairAt c.listing.survey index = .keep := by
        rw [hkeep] at haction
        cases hrepair : c.repairAt c.listing.survey index with
        | keep => rfl
        | _ =>
          rw [hrepair] at haction
          cases haction
      rw [sweepFrom_of_keep hkeep, sweepFrom_of_keep hkeep']
      exact ih h hb hc (by omega)
    · have hkeep' : c.repairAt c.listing.survey index ≠ .keep := by
        intro hkeep'
        rw [hkeep'] at haction
        generalize b.repairAt b.listing.survey index = action at haction hkeep
        cases haction
        exact hkeep rfl
      obtain ⟨hrepair, hnext⟩ := h.repair hb' hc' hR hindex haction
      rw [sweepFrom_of_ne_keep hkeep, sweepFrom_of_ne_keep hkeep', hnext]
      refine ⟨(ih hrepair ((hdiagnosis.mends hkeep).sound hb) ((hdiagnosis'.mends hkeep').sound hc)
        (hdiagnosis.size_repair hsize)).1, rfl⟩

/-- As many sweeps are allowed for. -/
theorem sweepLimit_eq (h : Alike R b c) : c.sweepLimit = b.sweepLimit := by
  rw [Bound.sweepLimit_eq, Bound.sweepLimit_eq, slack, slack]
  have hslack := congrArg (List.map Instruction.slack) (Code.shape_eq_of_alike h.code)
  simp only [List.map_map, Function.comp_def, Instruction.slack_shape] at hslack
  rw [hslack]

/-- Settling keeps listings alike. -/
theorem settle (h : Alike R b c) (hb : b.Sound draft) (hc : c.Sound draft')
    (hR : ∀ t u, R t u → t.draft = draft ∧ u.draft = draft') : Alike R b.settle c.settle := by
  rw [Bound.settle, Bound.settle, h.sweepLimit_eq]
  generalize b.sweepLimit = limit
  induction limit generalizing b c with
  | zero => exact h
  | succ limit ih =>
    have hsweep : Alike R b.sweep.1 c.sweep.1 ∧ c.sweep.2 = b.sweep.2 := by
      rw [sweep, sweep, h.size_eq]
      exact h.sweepFrom _ hb hc hR (Nat.zero_add _).symm
    rw [settleWithin_succ, settleWithin_succ, hsweep.2]
    split
    · exact ih hsweep.1 (sound_of_mends (mends_sweep hb.ready).1 hb)
        (sound_of_mends (mends_sweep hc.ready).1 hc)
    · exact hsweep.1

end Alike

end Bound

end Dalvik
