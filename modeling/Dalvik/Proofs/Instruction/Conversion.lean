import Dalvik.Outline.Basic
import Mathlib.Data.List.Basic

/-!
# Converting targets in two monads

Targets can be converted by computations of any kind.  If two kinds of computation are related in such
a way that doing one thing after the other keeps them related (`MonadRelation`), and if the conversions
of single targets are, then so are the conversions of instructions and of handlers.
-/

namespace Dalvik

/-- A relation between computations of two kinds that is kept by doing one thing after the other. -/
structure MonadRelation (m n : Type → Type) [Monad m] [Monad n] where
  /-- Two computations are related. -/
  rel : ∀ {α : Type}, m α → n α → Prop
  /-- Results are related to themselves. -/
  rel_pure : ∀ {α : Type} (a : α), rel (pure a) (pure a)
  /-- Related computations stay related when related ones come after them. -/
  rel_bind : ∀ {α β : Type} {x : m α} {y : n α} {f : α → m β} {g : α → n β},
    rel x y → (∀ a, rel (f a) (g a)) → rel (x >>= f) (y >>= g)

namespace MonadRelation

variable {m n : Type → Type} [Monad m] [Monad n] (R : MonadRelation m n) {α β τ σ : Type}

/-- It does not matter what is made of the results. -/
theorem rel_bind_pure {x : m α} {y : n α} (h : R.rel x y) (f : α → β) :
    R.rel (x >>= fun a => pure (f a)) (y >>= fun a => pure (f a)) :=
  R.rel_bind h fun a => R.rel_pure (f a)

theorem rel_mapM [LawfulMonad m] [LawfulMonad n] {f : α → m β} {g : α → n β}
    (h : ∀ a, R.rel (f a) (g a)) (xs : List α) : R.rel (xs.mapM f) (xs.mapM g) := by
  induction xs with
  | nil => exact R.rel_pure []
  | cons x rest ih =>
    rw [List.mapM_cons, List.mapM_cons]
    exact R.rel_bind (h x) fun _ => R.rel_bind_pure ih _

variable {f : τ → m σ} {g : τ → n σ} (h : ∀ t, R.rel (f t) (g t))

include h

theorem rel_operands (args : Operands τ) : R.rel (args.mapTargetsM f) (args.mapTargetsM g) := by
  cases args with
  | jump r t => exact R.rel_bind_pure (h t) _
  | f21t a t => exact R.rel_bind_pure (h t) _
  | f22t a b t => exact R.rel_bind_pure (h t) _
  | f31t a t => exact R.rel_bind_pure (h t) _
  | _ => exact R.rel_pure _

theorem rel_payload [LawfulMonad m] [LawfulMonad n] (payload : Payload τ) :
    R.rel (payload.mapTargetsM f) (payload.mapTargetsM g) := by
  cases payload with
  | packed firstKey targets => exact R.rel_bind_pure (R.rel_mapM h targets) _
  | sparse cases =>
    have hcase : ∀ c : SwitchCase τ, R.rel (do return (⟨c.key, ← f c.target⟩ : SwitchCase σ))
        (do return (⟨c.key, ← g c.target⟩ : SwitchCase σ)) := fun c =>
      R.rel_bind_pure (h c.target) _
    exact R.rel_bind_pure (R.rel_mapM hcase cases) _
  | array width data => exact R.rel_pure _

theorem rel_instruction [LawfulMonad m] [LawfulMonad n] (i : Instruction τ) :
    R.rel (i.mapTargetsM f) (i.mapTargetsM g) := by
  cases i with
  | op opcode args => exact R.rel_bind_pure (R.rel_operands h args) _
  | data payload => exact R.rel_bind_pure (R.rel_payload h payload) _

theorem rel_tryEntry (entry : TryEntry τ) : R.rel (entry.mapM f) (entry.mapM g) :=
  R.rel_bind (h entry.start) fun _ => R.rel_bind (h entry.stop) fun _ =>
    R.rel_bind_pure (h entry.handler) _

end MonadRelation

end Dalvik
