import Dalvik.Proofs.Instruction.Shape
import Dalvik.Error

/-!
# What converting targets does

Converting the targets of an instruction runs the conversion on one target after the other, in the
order in which they are encoded, and on nothing else, whatever effects it has
(`Instruction.targets_map_mapTargetsM`).  What comes out has the new targets and is otherwise the
same instruction (`Instruction.SameButTargets`).  `Instruction.converted` collects what follows for
conversions that may fail: when they do and with which error, what stays, and the laws of a functor.
-/

namespace Dalvik

variable {ε τ σ : Type} {f : τ → Except ε σ}

/-! ### The same but for the targets -/

/-- Operands laid out the same way and with the same values, but for the target. -/
inductive Operands.SameButTargets : Operands τ → Operands σ → Prop
  | f10x : SameButTargets .f10x .f10x
  | jump (reach : Reach) (t : τ) (s : σ) : SameButTargets (.jump reach t) (.jump reach s)
  | f11n (a : UInt8) (literal : Int8) : SameButTargets (.f11n a literal) (.f11n a literal)
  | f11x (a : UInt8) : SameButTargets (.f11x a) (.f11x a)
  | f12x (a b : UInt8) : SameButTargets (.f12x a b) (.f12x a b)
  | f20bc (error : UInt8) (ref : UInt16) : SameButTargets (.f20bc error ref) (.f20bc error ref)
  | f21c (a : UInt8) (ref : UInt16) : SameButTargets (.f21c a ref) (.f21c a ref)
  | f21ih (a : UInt8) (literal : Int32) : SameButTargets (.f21ih a literal) (.f21ih a literal)
  | f21lh (a : UInt8) (literal : Int64) : SameButTargets (.f21lh a literal) (.f21lh a literal)
  | f21s (a : UInt8) (literal : Int16) : SameButTargets (.f21s a literal) (.f21s a literal)
  | f21t (a : UInt8) (t : τ) (s : σ) : SameButTargets (.f21t a t) (.f21t a s)
  | f22b (a b : UInt8) (literal : Int8) : SameButTargets (.f22b a b literal) (.f22b a b literal)
  | f22c (a b : UInt8) (ref : UInt16) : SameButTargets (.f22c a b ref) (.f22c a b ref)
  | f22cs (a b : UInt8) (offset : UInt16) : SameButTargets (.f22cs a b offset) (.f22cs a b offset)
  | f22s (a b : UInt8) (literal : Int16) : SameButTargets (.f22s a b literal) (.f22s a b literal)
  | f22t (a b : UInt8) (t : τ) (s : σ) : SameButTargets (.f22t a b t) (.f22t a b s)
  | f22x (a : UInt8) (b : UInt16) : SameButTargets (.f22x a b) (.f22x a b)
  | f23x (a b c : UInt8) : SameButTargets (.f23x a b c) (.f23x a b c)
  | f31c (a : UInt8) (ref : UInt32) : SameButTargets (.f31c a ref) (.f31c a ref)
  | f31i (a : UInt8) (literal : Int32) : SameButTargets (.f31i a literal) (.f31i a literal)
  | f31t (a : UInt8) (t : τ) (s : σ) : SameButTargets (.f31t a t) (.f31t a s)
  | f32x (a b : UInt16) : SameButTargets (.f32x a b) (.f32x a b)
  | f35 (kind : IndexKind) (registers : List UInt8) (index : UInt16) :
      SameButTargets (.f35 kind registers index) (.f35 kind registers index)
  | f3r (kind : IndexKind) (first : UInt16) (count : UInt8) (index : UInt16) :
      SameButTargets (.f3r kind first count index) (.f3r kind first count index)
  | f45cc (registers : List UInt8) (ref proto : UInt16) :
      SameButTargets (.f45cc registers ref proto) (.f45cc registers ref proto)
  | f4rcc (first : UInt16) (count : UInt8) (ref proto : UInt16) :
      SameButTargets (.f4rcc first count ref proto) (.f4rcc first count ref proto)
  | f51l (a : UInt8) (literal : Int64) : SameButTargets (.f51l a literal) (.f51l a literal)

/-- Payloads of the same kind with as many targets, for the same keys, or with the same data. -/
inductive Payload.SameButTargets : Payload τ → Payload σ → Prop
  | packed (firstKey : Int32) {targets : List τ} {targets' : List σ}
      (length : targets'.length = targets.length) :
      SameButTargets (.packed firstKey targets) (.packed firstKey targets')
  | sparse {cases : List (SwitchCase τ)} {cases' : List (SwitchCase σ)}
      (keys : cases'.map (·.key) = cases.map (·.key)) :
      SameButTargets (.sparse cases) (.sparse cases')
  | array (width : UInt16) (data : List UInt8) : SameButTargets (.array width data) (.array width data)

/-- The same instruction, but for the targets. -/
inductive Instruction.SameButTargets : Instruction τ → Instruction σ → Prop
  | op (opcode : Opcode) {args : Operands τ} {args' : Operands σ} (h : args.SameButTargets args') :
      SameButTargets (.op opcode args) (.op opcode args')
  | data {p : Payload τ} {q : Payload σ} (h : p.SameButTargets q) : SameButTargets (.data p) (.data q)

theorem Operands.SameButTargets.shape_eq {args : Operands τ} {args' : Operands σ}
    (h : args.SameButTargets args') : args'.shape = args.shape := by
  cases h <;> rfl

theorem Payload.SameButTargets.shape_eq {p : Payload τ} {q : Payload σ} (h : p.SameButTargets q) :
    q.shape = p.shape := by
  cases h with
  | packed firstKey length => rw [shape, shape, List.map_const', List.map_const', length]
  | sparse keys =>
    have hmap := congrArg (List.map fun key => (⟨key, ()⟩ : SwitchCase Unit)) keys
    rw [List.map_map, List.map_map] at hmap
    exact congrArg Payload.sparse hmap
  | array => rfl

theorem Instruction.SameButTargets.shape_eq {i : Instruction τ} {j : Instruction σ}
    (h : i.SameButTargets j) : j.shape = i.shape := by
  cases h with
  | op opcode h => rw [shape, shape, h.shape_eq]
  | data h => rw [shape, shape, h.shape_eq]

/-! ### One target after the other -/

section Effects

variable {m : Type → Type} [Monad m] [LawfulMonad m] (f : τ → m σ)

theorem Operands.targets_map_mapTargetsM (args : Operands τ) :
    targets <$> args.mapTargetsM f = args.targets.mapM f := by
  cases args <;> simp [mapTargetsM, targets]

theorem Payload.targets_map_mapTargetsM (p : Payload τ) :
    targets <$> p.mapTargetsM f = p.targets.mapM f := by
  cases p with
  | packed firstKey targets => simp [mapTargetsM, Payload.targets]
  | sparse cases =>
    have hcases : (List.map fun c => c.target) <$>
        cases.mapM (fun c => do return (⟨c.key, ← f c.target⟩ : SwitchCase σ)) =
          (cases.map (·.target)).mapM f := by
      induction cases with
      | nil => simp
      | cons c rest ih => simp [← ih]
    simpa [mapTargetsM, Payload.targets] using hcases
  | array width data => simp [mapTargetsM, Payload.targets]

/-- An instruction is converted by converting its targets, one after the other; these are the new
targets. -/
theorem Instruction.targets_map_mapTargetsM (i : Instruction τ) :
    targets <$> i.mapTargetsM f = i.targets.mapM f := by
  cases i with
  | op opcode args => simpa [mapTargetsM, targets] using args.targets_map_mapTargetsM f
  | data p => simpa [mapTargetsM, targets] using p.targets_map_mapTargetsM f

end Effects

/-! ### Conversions that may fail -/

/-- Nothing but the targets is changed. -/
theorem Operands.sameButTargets_of_mapTargetsM {args : Operands τ} {args' : Operands σ}
    (h : args.mapTargetsM f = .ok args') : args.SameButTargets args' := by
  cases args <;> simp only [mapTargetsM, bind_eq_ok_iff, pure_eq_ok_iff] at h <;>
    first
      | subst h
        constructor
      | obtain ⟨s, -, rfl⟩ := h
        constructor

theorem Payload.sameButTargets_of_mapTargetsM {p : Payload τ} {q : Payload σ}
    (h : p.mapTargetsM f = .ok q) : p.SameButTargets q := by
  cases p with
  | packed firstKey targets =>
    obtain ⟨targets', htargets, hq⟩ := bind_eq_ok_iff.1 h
    obtain rfl := pure_eq_ok_iff.1 hq
    exact .packed firstKey (mapM_eq_ok_iff.1 htargets).length_eq.symm
  | sparse cases =>
    obtain ⟨cases', hcases, hq⟩ := bind_eq_ok_iff.1 h
    obtain rfl := pure_eq_ok_iff.1 hq
    refine .sparse ?_
    clear h hq
    have hall := mapM_eq_ok_iff.1 hcases
    clear hcases
    induction hall with
    | nil => rfl
    | cons hc _ ih =>
      obtain ⟨s, -, hs⟩ := bind_eq_ok_iff.1 hc
      obtain rfl := pure_eq_ok_iff.1 hs
      exact congrArg _ ih
  | array width data =>
    obtain rfl := pure_eq_ok_iff.1 h
    exact .array width data

namespace Instruction

variable {i : Instruction τ} {j : Instruction σ}

theorem sameButTargets_of_mapTargetsM (h : i.mapTargetsM f = .ok j) : i.SameButTargets j := by
  cases i with
  | op opcode args =>
    obtain ⟨args', hargs, hj⟩ := bind_eq_ok_iff.1 h
    obtain rfl := pure_eq_ok_iff.1 hj
    exact .op opcode (Operands.sameButTargets_of_mapTargetsM hargs)
  | data p =>
    obtain ⟨q, hq, hj⟩ := bind_eq_ok_iff.1 h
    obtain rfl := pure_eq_ok_iff.1 hj
    exact .data (Payload.sameButTargets_of_mapTargetsM hq)

@[simp] theorem format_shape (i : Instruction τ) : i.shape.format = i.format := by
  cases i with
  | op opcode args => exact args.format_shape
  | data p => cases p <;> rfl

theorem validate_shape (i : Instruction τ) : i.shape.validate = i.validate := by
  rw [validate, validate, defect?_shape, opcode_shape]

/-- An instruction cannot be converted if its targets cannot. -/
theorem mapTargetsM_eq_error_iff {e : ε} :
    i.mapTargetsM f = .error e ↔ i.targets.mapM f = .error e := by
  rw [← targets_map_mapTargetsM]
  exact bind_pure_eq_error_iff.symm

/-- The new targets are what the targets have been converted to. -/
theorem forall₂_targets_of_mapTargetsM (h : i.mapTargetsM f = .ok j) :
    List.Forall₂ (fun t s => f t = .ok s) i.targets j.targets := by
  rw [← mapM_eq_ok_iff, ← targets_map_mapTargetsM, h]
  rfl

/-- Converting what has been converted converts by both conversions. -/
theorem mapTargetsM_mapTargetsM {ρ : Type} (g : σ → Except ε ρ) (h : i.mapTargetsM f = .ok j) :
    j.mapTargetsM g = i.mapTargetsM fun t => f t >>= g := by
  have htargets := forall₂_targets_of_mapTargetsM h
  cases hg : j.mapTargetsM g with
  | error e =>
    rw [mapTargetsM_eq_error_iff, ← mapM_bind_of_forall₂ g htargets, ← mapTargetsM_eq_error_iff]
      at hg
    exact hg.symm
  | ok k =>
    obtain ⟨hshape, hthen⟩ := mapTargetsM_eq_ok_iff.1 hg
    refine (mapTargetsM_eq_ok_iff.2 ⟨hshape.trans (sameButTargets_of_mapTargetsM h).shape_eq, ?_⟩).symm
    rw [← mapM_eq_ok_iff] at hthen ⊢
    rw [mapM_bind_of_forall₂ g htargets, hthen]

/-- What converting the targets of an instruction by `f` comes to. -/
structure Converted (i : Instruction τ) (f : τ → Except ε σ) : Prop where
  /-- It succeeds if every target can be converted. -/
  succeeds : (∃ j, i.mapTargetsM f = .ok j) ↔ ∀ t ∈ i.targets, ∃ s, f t = .ok s
  /-- It fails with the error of the first target that cannot. -/
  fails : ∀ e, i.mapTargetsM f = .error e ↔
    ∃ (k : Nat) (t : τ), i.targets[k]? = some t ∧ f t = .error e ∧
      ∀ n < k, ∀ t' ∈ i.targets[n]?, ∃ s, f t' = .ok s
  /-- The new targets are the old ones, converted, in their order. -/
  targets : ∀ j, i.mapTargetsM f = .ok j →
    List.Forall₂ (fun t s => f t = .ok s) i.targets j.targets
  /-- All other operands stay. -/
  others : ∀ j, i.mapTargetsM f = .ok j → i.SameButTargets j
  /-- So do the opcode, the format, the size, and whether and why the instruction is invalid. -/
  kind : ∀ j, i.mapTargetsM f = .ok j → j.opcode = i.opcode ∧ j.format = i.format ∧
    j.units = i.units ∧ j.validate = i.validate
  /-- A conversion that does nothing gives the instruction back. -/
  identity : i.mapTargetsM (fun t => .ok t : τ → Except ε τ) = .ok i
  /-- If every target can be converted, another conversion may follow at once or later on. -/
  comp : ∀ {ρ : Type} (g : σ → Except ε ρ), (∀ t ∈ i.targets, ∃ s, f t = .ok s) →
    (i.mapTargetsM f >>= fun j => j.mapTargetsM g) = i.mapTargetsM fun t => f t >>= g

/-- Converting the targets changes them and nothing else, or fails for the first one that cannot be
converted. -/
theorem converted (i : Instruction τ) (f : τ → Except ε σ) : i.Converted f where
  succeeds := by
    constructor
    · rintro ⟨j, hj⟩ t ht
      obtain ⟨s, -, hs⟩ := forall₂_exists_left (forall₂_targets_of_mapTargetsM hj).flip ht
      exact ⟨s, hs⟩
    · exact exists_mapTargetsM_eq_ok
  fails e := by rw [mapTargetsM_eq_error_iff, mapM_eq_error_iff]
  targets j hj := forall₂_targets_of_mapTargetsM hj
  others j hj := sameButTargets_of_mapTargetsM hj
  kind j hj := by
    have hshape := (sameButTargets_of_mapTargetsM hj).shape_eq
    refine ⟨?_, ?_, ?_, ?_⟩
    · rw [← opcode_shape, hshape, opcode_shape]
    · rw [← format_shape, hshape, format_shape]
    · rw [← units_shape, hshape, units_shape]
    · rw [← validate_shape, hshape, validate_shape]
  identity := mapTargetsM_eq_ok_iff.2 ⟨rfl, List.forall₂_same.2 fun _ _ => rfl⟩
  comp g hf := by
    obtain ⟨j, hj⟩ := exists_mapTargetsM_eq_ok hf
    rw [hj]
    exact mapTargetsM_mapTargetsM g hj

end Instruction

end Dalvik
