import Dalvik.Instruction.Validity

/-!
# What a format says about operands

A valid instruction has the operands that the format of its opcode prescribes.  So the opcode of a
jump comes with a target and a field of the right width for its offset, and the opcode of a switch
comes with the place of a table.
-/

namespace Dalvik

variable {τ : Type}

/-- The opcode of a jump is determined by its format. -/
theorem Opcode.eq_goto_of_format {o : Opcode} {r : Reach} (h : o.format = r.format) :
    o = r.goto := by
  cases o <;> cases r <;> first | rfl | exact absurd h (by decide)

theorem Opcode.format_goto (r : Reach) : r.goto.format = r.format := by cases r <;> rfl

theorem Opcode.format_of_isSwitch {o : Opcode} (h : o.isSwitch = true) : o.format = .f31t := by
  cases o <;> first | rfl | exact absurd h (by decide)

namespace Operands

variable {args : Operands τ}

/-- In the format of `nop` there is nothing. -/
theorem eq_f10x_of_format (h : args.format = .f10x) : args = .f10x := by
  cases args with
  | f10x => rfl
  | jump r t => cases r <;> simp [format, Reach.format] at h
  | f35 kind => cases kind <;> simp [format, IndexKind.listFormat] at h
  | f3r kind => cases kind <;> simp [format, IndexKind.rangeFormat] at h
  | _ => simp [format] at h

/-- In the format of a jump there is one target, and nothing else. -/
theorem exists_of_format_jump {r : Reach} (h : args.format = r.format) :
    ∃ t, args = .jump r t := by
  cases args with
  | jump r' t =>
    have hr : r' = r := by cases r <;> cases r' <;> first | rfl | simp [format, Reach.format] at h
    exact ⟨t, by rw [hr]⟩
  | f35 kind =>
    cases r <;> cases kind <;> simp [format, Reach.format, IndexKind.listFormat] at h
  | f3r kind =>
    cases r <;> cases kind <;> simp [format, Reach.format, IndexKind.rangeFormat] at h
  | _ => cases r <;> simp [format, Reach.format] at h

/-- In the format of a switch there are a register and a target. -/
theorem exists_of_format_f31t (h : args.format = .f31t) : ∃ a t, args = .f31t a t := by
  cases args with
  | f31t a t => exact ⟨a, t, rfl⟩
  | jump r t => cases r <;> simp [format, Reach.format] at h
  | f35 kind => cases kind <;> simp [format, IndexKind.listFormat] at h
  | f3r kind => cases kind <;> simp [format, IndexKind.rangeFormat] at h
  | _ => simp [format] at h

end Operands

namespace Instruction

variable {i : Instruction τ}

/-- A valid instruction has the operands that its opcode asks for. -/
theorem format_of_valid {o : Opcode} {args : Operands τ} (h : (op o args).Valid) :
    o.format = args.format := by
  refine Decidable.byContradiction fun hne => ?_
  have hdefect : (op o args).defect? = some .format := if_neg hne
  rw [Valid, hdefect] at h
  simp at h

theorem defect?_of_valid {o : Opcode} {args : Operands τ} (h : (op o args).Valid) :
    args.defect? = none := by
  have hdefect : (op o args).defect? = args.defect? := if_pos (format_of_valid h)
  rwa [Valid, hdefect] at h

theorem valid_nop : (nop : Instruction τ).Valid := rfl

theorem valid_goto (r : Reach) (t : τ) : (goto r t).Valid := by
  cases r <;> rfl

/-- A jump is no `nop`. -/
theorem goto_ne_nop (r : Reach) (t : τ) : goto r t ≠ nop := by
  intro h
  cases (op.inj h).2

/-- A valid jump is one of the three forms of `goto`. -/
theorem eq_goto_of_valid {o : Opcode} {r : Reach} {t : τ} (h : (op o (.jump r t)).Valid) :
    op o (.jump r t) = goto r t := by
  rw [Opcode.eq_goto_of_format (format_of_valid h)]
  rfl

/-- A valid instruction with the opcode of a jump is that jump. -/
theorem eq_goto_of_opcode (h : i.Valid) {r : Reach} (ho : i.opcode = r.goto) :
    ∃ t, i = goto r t := by
  cases i with
  | op o args =>
    obtain rfl : o = r.goto := ho
    have hformat := format_of_valid h
    rw [Opcode.format_goto] at hformat
    obtain ⟨t, rfl⟩ := Operands.exists_of_format_jump hformat.symm
    exact ⟨t, rfl⟩
  | data p => cases p <;> cases r <;> exact absurd ho (by simp [opcode, Payload.opcode, Reach.goto])

end Instruction

end Dalvik
