import Dalvik.Outline.ToMethod
import Dalvik.Proofs.Instruction.Conversion

/-!
# Why an outline cannot be spelled out

Spelling out an outline can fail for one reason only: a branch is too far from its target
(`Outline.failsWith_toMethod`).
-/

namespace Dalvik

section Failing

variable {ε α β τ σ : Type} {p : ε → Prop}

/-- A computation that fails does so for a reason of a certain kind. -/
def FailsWith (p : ε → Prop) (x : Except ε α) : Prop := ∀ e, x = .error e → p e

theorem failsWith_pure (a : α) : FailsWith p (pure a) := fun _ h => by cases h

/-- Two steps in a row fail for the reasons for which one of them does. -/
theorem FailsWith.bind {x : Except ε α} {f : α → Except ε β} (h : FailsWith p x)
    (hrest : ∀ a, FailsWith p (f a)) : FailsWith p (x >>= f) := by
  cases x with
  | ok a => exact hrest a
  | error e => exact fun e' he => h e' (by cases he; rfl)

/-- The same computation, which fails for a reason of a certain kind. -/
def failsWithRelation (p : ε → Prop) : MonadRelation (Except ε) (Except ε) where
  rel x y := x = y ∧ FailsWith p x
  rel_pure a := ⟨rfl, failsWith_pure a⟩
  rel_bind {_ _ x _ _ _} h hrest :=
    ⟨by rw [← h.1]; exact congrArg (x >>= ·) (funext fun a => (hrest a).1),
      h.2.bind fun a => (hrest a).2⟩

theorem failsWith_mapM {f : α → Except ε β} (h : ∀ a, FailsWith p (f a)) (xs : List α) :
    FailsWith p (xs.mapM f) :=
  ((failsWithRelation p).rel_mapM (fun a => ⟨rfl, h a⟩) xs).2

/-- An instruction cannot be converted only if a target cannot be. -/
theorem failsWith_mapTargetsM {f : τ → Except ε σ} (h : ∀ t, FailsWith p (f t))
    (i : Instruction τ) : FailsWith p (i.mapTargetsM f) :=
  ((failsWithRelation p).rel_instruction (fun t => ⟨rfl, h t⟩) i).2

end Failing

/-- A branch is too far from its target. -/
def Error.IsOverflow (e : Error) : Prop := ∃ k opcode offset, e = .branchOffsetOverflow k opcode offset

theorem failsWith_branchOffset (k : Nat) (opcode : Opcode) (source target : Nat) :
    FailsWith Error.IsOverflow (branchOffset k opcode source target) := by
  intro e he
  rw [branchOffset] at he
  split at he
  · cases he
  · cases he
    exact ⟨_, _, _, rfl⟩

namespace Outline

theorem failsWith_emitInstruction (placed : Layout (Instruction Nat)) (owner? : Nat → Option Nat)
    (address k : Nat) (i : Instruction Nat) :
    FailsWith Error.IsOverflow (emitInstruction placed owner? address k i) := by
  refine (failsWith_mapTargetsM (fun _ => failsWith_branchOffset _ _ _ _) i).bind
    fun emitted e he => ?_
  split at he
  · cases he
    exact ⟨_, _, _, rfl⟩
  · cases he

/-- Spelling out an outline fails only because of a branch that is too far. -/
theorem failsWith_toMethod (o : Outline) (owner? : Nat → Option Nat) :
    FailsWith Error.IsOverflow (o.toMethod owner?) :=
  (failsWith_mapM (fun _ => failsWith_emitInstruction _ _ _ _ _) _).bind fun _ => failsWith_pure _

end Outline

end Dalvik
