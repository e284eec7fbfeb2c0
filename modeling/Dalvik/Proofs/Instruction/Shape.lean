import Dalvik.Proofs.Outcome
import Dalvik.Instruction.Validity
import Dalvik.Listing.Owners

/-!
# Shapes of instructions

The shape of an instruction is what is left of it when its targets are forgotten.  An instruction is
nothing but its shape and its targets, and converting the targets keeps the shape
(`Instruction.mapTargetsM_eq_ok_iff`).  Size, validity and kind of an instruction are matters of its
shape.
-/

namespace Dalvik

variable {ε τ σ : Type} {f : τ → Except ε σ}

/-! ### Operands -/

namespace Operands

/-- The operands without the target. -/
def shape (args : Operands τ) : Operands Unit := args.mapTargetsM (m := Id) fun _ => ()

/-- There is at most one target, so the operands are made of their shape and of the first target. -/
theorem mapTargetsM_shape (args : Operands τ) :
    args.shape.mapTargetsM (fun _ => args.targets.head?) = some args := by
  cases args <;> rfl

theorem eq_of_shape_eq {args args' : Operands τ} (hshape : args.shape = args'.shape)
    (htargets : args.targets = args'.targets) : args = args' := by
  have h := args.mapTargetsM_shape
  rw [hshape, htargets, args'.mapTargetsM_shape] at h
  exact (Option.some.inj h).symm

@[simp] theorem format_shape (args : Operands τ) : args.shape.format = args.format := by
  cases args <;> rfl

@[simp] theorem units_shape (args : Operands τ) : args.shape.units = args.units := by
  cases args <;> rfl

@[simp] theorem reach_shape (args : Operands τ) : args.shape.reach = args.reach := by
  cases args <;> rfl

@[simp] theorem defect?_shape (args : Operands τ) : args.shape.defect? = args.defect? := by
  cases args <;> rfl

/-- Conversion keeps the shape and converts the targets. -/
theorem shape_targets_of_mapTargetsM {args : Operands τ} {args' : Operands σ}
    (h : args.mapTargetsM f = .ok args') :
    args'.shape = args.shape ∧
      List.Forall₂ (fun t s => f t = .ok s) args.targets args'.targets := by
  cases args <;> simp only [mapTargetsM, bind_eq_ok_iff, pure_eq_ok_iff] at h <;>
    first
      | subst h
        exact ⟨rfl, .nil⟩
      | obtain ⟨s, hs, rfl⟩ := h
        exact ⟨rfl, .cons hs .nil⟩

theorem exists_mapTargetsM_eq_ok {args : Operands τ} (h : ∀ t ∈ args.targets, ∃ s, f t = .ok s) :
    ∃ args', args.mapTargetsM f = .ok args' := by
  cases args <;> simp only [targets, List.forall_mem_singleton] at h <;>
    first
      | exact ⟨_, rfl⟩
      | obtain ⟨s, hs⟩ := h
        exact ⟨_, bind_eq_ok_iff.2 ⟨s, hs, rfl⟩⟩

end Operands

/-! ### Payloads -/

namespace Payload

/-- The payload without the targets. -/
def shape : Payload τ → Payload Unit
  | packed firstKey targets => packed firstKey (targets.map fun _ => ())
  | sparse cases => sparse (cases.map fun c => ⟨c.key, ()⟩)
  | array width data => array width data

theorem eq_of_shape_eq {p q : Payload τ} (hshape : p.shape = q.shape)
    (htargets : p.targets = q.targets) : p = q := by
  cases p with
  | packed firstKey targets =>
    cases q with
    | packed firstKey' targets' =>
      simp only [shape, packed.injEq] at hshape
      simp only [Payload.targets] at htargets
      rw [hshape.1, htargets]
    | _ => simp [shape] at hshape
  | sparse cases =>
    cases q with
    | sparse cases' =>
      simp only [shape, sparse.injEq] at hshape
      simp only [Payload.targets] at htargets
      congr 1
      -- a case is its key and its target
      refine List.ext_getElem? fun k => ?_
      have hkey := congrArg (fun l => l[k]?.map SwitchCase.key) hshape
      have htarget := congrArg (·[k]?) htargets
      simp only [List.getElem?_map, Option.map_map] at hkey htarget
      cases hx : cases[k]? with
      | none =>
        rw [hx] at htarget
        exact (Option.map_eq_none_iff.1 htarget.symm).symm
      | some x =>
        rw [hx] at hkey htarget
        obtain ⟨y, hy, hxy⟩ := Option.map_eq_some_iff.1 htarget.symm
        rw [hy] at hkey
        obtain ⟨key, target⟩ := x
        obtain ⟨key', target'⟩ := y
        have hkey' : key = key' := by simpa using hkey
        have htarget' : target' = target := hxy
        rw [hy, hkey', htarget']
    | _ => simp [shape] at hshape
  | array width data =>
    cases q with
    | array width' data' => simpa [shape] using hshape
    | _ => simp [shape] at hshape

@[simp] theorem units_shape (p : Payload τ) : p.shape.units = p.units := by
  cases p <;> simp [shape, units]

@[simp] theorem opcode_shape (p : Payload τ) : p.shape.opcode = p.opcode := by
  cases p <;> rfl

@[simp] theorem isSwitchTable_shape (p : Payload τ) : p.shape.isSwitchTable = p.isSwitchTable := by
  cases p <;> rfl

@[simp] theorem defect?_shape (p : Payload τ) : p.shape.defect? = p.defect? := by
  cases p <;> simp [shape, defect?, Function.comp_def]

/-- Conversion keeps the shape and converts the targets. -/
theorem shape_targets_of_mapTargetsM {p : Payload τ} {q : Payload σ}
    (h : p.mapTargetsM f = .ok q) :
    q.shape = p.shape ∧ List.Forall₂ (fun t s => f t = .ok s) p.targets q.targets := by
  cases p with
  | packed firstKey targets =>
    simp only [mapTargetsM, bind_eq_ok_iff, pure_eq_ok_iff, mapM_eq_ok_iff] at h
    obtain ⟨targets', htargets, rfl⟩ := h
    refine ⟨?_, htargets⟩
    rw [shape, shape, List.map_const', List.map_const', htargets.length_eq]
  | sparse cases =>
    simp only [mapTargetsM, bind_eq_ok_iff, pure_eq_ok_iff, mapM_eq_ok_iff] at h
    obtain ⟨cases', hcases, rfl⟩ := h
    simp only [shape, targets, sparse.injEq, List.forall₂_map_left_iff, List.forall₂_map_right_iff]
    induction hcases with
    | nil => exact ⟨rfl, .nil⟩
    | cons hc _ ih =>
      obtain ⟨s, hs, rfl⟩ := hc
      exact ⟨congrArg _ ih.1, .cons hs ih.2⟩
  | array width data =>
    obtain rfl := pure_eq_ok_iff.1 h
    exact ⟨rfl, .nil⟩

theorem exists_mapTargetsM_eq_ok {p : Payload τ} (h : ∀ t ∈ p.targets, ∃ s, f t = .ok s) :
    ∃ q, p.mapTargetsM f = .ok q := by
  cases p with
  | packed firstKey targets =>
    obtain ⟨targets', htargets⟩ := exists_mapM_eq_ok h
    exact ⟨_, bind_eq_ok_iff.2 ⟨targets', htargets, rfl⟩⟩
  | sparse cases =>
    obtain ⟨cases', hcases⟩ : ∃ cases', cases.mapM (fun c => do
        let s ← f c.target
        return (⟨c.key, s⟩ : SwitchCase σ)) = .ok cases' := by
      refine exists_mapM_eq_ok fun c hc => ?_
      obtain ⟨s, hs⟩ := h c.target (List.mem_map_of_mem hc)
      exact ⟨⟨c.key, s⟩, bind_eq_ok_iff.2 ⟨s, hs, rfl⟩⟩
    exact ⟨_, bind_eq_ok_iff.2 ⟨cases', hcases, rfl⟩⟩
  | array width data => exact ⟨_, rfl⟩

end Payload

/-! ### Instructions -/

namespace Instruction

/-- The instruction without the targets. -/
def shape : Instruction τ → Instruction Unit
  | op o args => .op o args.shape
  | data p => .data p.shape

/-- An instruction is nothing but its shape and its targets. -/
theorem eq_of_shape_eq {i j : Instruction τ} (hshape : i.shape = j.shape)
    (htargets : i.targets = j.targets) : i = j := by
  cases i with
  | op o args =>
    cases j with
    | op o' args' =>
      simp only [shape, op.injEq] at hshape
      rw [hshape.1, Operands.eq_of_shape_eq hshape.2 htargets]
    | data p => simp [shape] at hshape
  | data p =>
    cases j with
    | op o args => simp [shape] at hshape
    | data q => rw [Payload.eq_of_shape_eq (data.inj hshape) htargets]

@[simp] theorem units_shape (i : Instruction τ) : i.shape.units = i.units := by
  cases i <;> simp [shape, units]

@[simp] theorem opcode_shape (i : Instruction τ) : i.shape.opcode = i.opcode := by
  cases i <;> simp [shape, opcode]

@[simp] theorem isPayload_shape (i : Instruction τ) : i.shape.isPayload = i.isPayload := by
  cases i <;> rfl

@[simp] theorem defect?_shape (i : Instruction τ) : i.shape.defect? = i.defect? := by
  cases i <;> simp [shape, defect?]

theorem valid_shape_iff {i : Instruction τ} : i.shape.Valid ↔ i.Valid := by
  simp [Valid]

/-- What has the shape of data is data. -/
theorem eq_data_of_shape_eq {j : Instruction σ} {p : Payload τ}
    (h : j.shape = (data p).shape) : ∃ q, j = data q ∧ q.shape = p.shape := by
  cases j with
  | op o args => simp [shape] at h
  | data q => exact ⟨q, rfl, data.inj h⟩

/-- What has the shape of a jump is a jump. -/
theorem eq_jump_of_shape_eq {j : Instruction σ} {o : Opcode} {r : Reach} {t : τ}
    (h : j.shape = (op o (.jump r t)).shape) : ∃ s, j = op o (.jump r s) := by
  cases j with
  | op o' args =>
    obtain ⟨rfl, hargs⟩ := op.inj h
    cases args with
    | jump r' s =>
      obtain rfl : r' = r := (Operands.jump.inj hargs).1
      exact ⟨s, rfl⟩
    | _ => cases hargs
  | data q => simp [shape] at h

@[simp] theorem isNop_shape (i : Instruction τ) : i.shape.isNop = i.isNop := by
  cases i with
  | op o args => cases o <;> first | rfl | (cases args <;> rfl)
  | data p => rfl

/-- If every target can be converted, so can the instruction. -/
theorem exists_mapTargetsM_eq_ok {i : Instruction τ} (h : ∀ t ∈ i.targets, ∃ s, f t = .ok s) :
    ∃ j, i.mapTargetsM f = .ok j := by
  cases i with
  | op o args =>
    obtain ⟨args', hargs⟩ := Operands.exists_mapTargetsM_eq_ok h
    exact ⟨_, bind_eq_ok_iff.2 ⟨args', hargs, rfl⟩⟩
  | data p =>
    obtain ⟨q, hq⟩ := Payload.exists_mapTargetsM_eq_ok h
    exact ⟨_, bind_eq_ok_iff.2 ⟨q, hq, rfl⟩⟩

/-- Conversion keeps the shape and converts the targets, and nothing else does. -/
theorem mapTargetsM_eq_ok_iff {i : Instruction τ} {j : Instruction σ} :
    i.mapTargetsM f = .ok j ↔
      j.shape = i.shape ∧ List.Forall₂ (fun t s => f t = .ok s) i.targets j.targets := by
  have hforward : ∀ {j : Instruction σ}, i.mapTargetsM f = .ok j →
      j.shape = i.shape ∧ List.Forall₂ (fun t s => f t = .ok s) i.targets j.targets := by
    intro j h
    cases i with
    | op o args =>
      obtain ⟨args', hargs, hj⟩ := bind_eq_ok_iff.1 h
      obtain rfl := pure_eq_ok_iff.1 hj
      obtain ⟨hshape, htargets⟩ := Operands.shape_targets_of_mapTargetsM hargs
      exact ⟨congrArg _ hshape, htargets⟩
    | data p =>
      obtain ⟨q, hq, hj⟩ := bind_eq_ok_iff.1 h
      obtain rfl := pure_eq_ok_iff.1 hj
      obtain ⟨hshape, htargets⟩ := Payload.shape_targets_of_mapTargetsM hq
      exact ⟨congrArg _ hshape, htargets⟩
  refine ⟨hforward, fun ⟨hshape, htargets⟩ => ?_⟩
  have htotal : ∀ t ∈ i.targets, ∃ s, f t = .ok s := by
    intro t ht
    obtain ⟨k, hk, rfl⟩ := List.mem_iff_getElem.1 ht
    exact ⟨_, htargets.get hk (htargets.length_eq ▸ hk)⟩
  obtain ⟨j', hj'⟩ := exists_mapTargetsM_eq_ok htotal
  obtain ⟨hshape', htargets'⟩ := hforward hj'
  rw [hj', eq_of_shape_eq (hshape'.trans hshape.symm) (forall₂_ok_unique htargets' htargets)]

end Instruction

end Dalvik
