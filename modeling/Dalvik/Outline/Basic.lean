import Dalvik.Instruction.Basic
import Dalvik.Debug

/-!
# Outlines

An outline is a method in which everything that refers to a place in the code names the position of
an instruction: branch targets, the bounds and handlers of try blocks, debug items.  The position
just past the last instruction stands for the end of the method.

Outlines are what finished methods and drafts have in common.  A finished method becomes one when
its addresses are looked up, and a draft shows the one that its labels currently spell out.
-/

namespace Dalvik

/-- One handler of a range of code, with the places written as `τ`. -/
structure TryEntry (τ : Type) where
  /-- Start of the range. -/
  start : τ
  /-- End of the range, which is not part of it. -/
  stop : τ
  /-- Pool index of the caught type; every exception is caught if there is none. -/
  type? : Option UInt32
  /-- Where the handler starts. -/
  handler : τ
  deriving DecidableEq, Inhabited

namespace TryEntry

variable {τ σ : Type}

/-- The places that an entry mentions. -/
def places (e : TryEntry τ) : List τ := [e.start, e.stop, e.handler]

/-- Converts the places, in the order start, end, handler. -/
def mapM {m : Type → Type} [Monad m] (f : τ → m σ) (e : TryEntry τ) : m (TryEntry σ) := do
  let start ← f e.start
  let stop ← f e.stop
  let handler ← f e.handler
  return ⟨start, stop, e.type?, handler⟩

end TryEntry

/-- A method whose places are positions of instructions. -/
structure Outline where
  /-- Number of registers. -/
  registers : UInt16
  /-- The instructions, their targets given as positions. -/
  instructions : List (Instruction Nat)
  /-- The handlers in order. -/
  tries : List (TryEntry Nat)
  /-- The debug items with the positions at which they are pinned. -/
  debugItems : List (Nat × DebugItem)
  deriving DecidableEq

end Dalvik
