import Dalvik.Proofs.Store.Consistency
import Dalvik.Proofs.Store.Reading
import Dalvik.Proofs.Store.Assembling
import Dalvik.Proofs.Draft.Reachability

/-!
# Reachable stores

A store starts empty, as the copy of a finished method or as the outcome of an assembler, and then
undergoes any sequence of actions, some of which may fail (`Store.Reachable`).  A copy of a store is
the same value, so copying needs no case of its own.

Every reachable store refines a reachable draft (`Store.Reachable.exists_refines`), and so it is
consistent (`Store.consistent_of_reachable`).
-/

namespace Dalvik

namespace Store

variable {α : Type} {s : Store} {d : Draft}

theorem refines_after {x : StoreM α} {y : DraftM α} (h : Agree Refines (x s) (y d)) :
    (stateAfter x s).Refines (Draft.after y d) := by
  have hafter : Draft.after y d = stateAfter y d := by
    rw [Draft.after, stateAfter]
    cases y d <;> rfl
  exact hafter ▸ h.stateAfter

/-- The store in which what can be done with a draft ends. -/
def next (s : Store) : Draft.Action → Store
  | .append i => stateAfter (append i) s
  | .insert index i => stateAfter (insert index i) s
  | .replace index i => stateAfter (replace index i) s
  | .remove index => stateAfter (remove index) s
  | .swap index₁ index₂ => stateAfter (swap index₁ index₂) s
  | .labelAt index => stateAfter (labelAt index) s
  | .labelAtAddress address => stateAfter (labelAtAddress address) s
  | .addTry entry => stateAfter (addTry entry) s
  | .addDebugItem index item => stateAfter (addDebugItem index item) s
  | .removeDebugItems index => stateAfter (removeDebugItems index) s
  | .retainDebugItems keep => stateAfter (retainDebugItems keep) s
  | .relax => stateAfter relax s
  | .readInstructions => stateAfter readInstructions s
  | .readLocations => stateAfter readLocations s
  | .readTries => stateAfter readTries s
  | .readDebugItems => stateAfter readDebugItems s
  | .readAddress label => stateAfter (readAddress label) s
  | .toMethod => stateAfter toMethod s

/-- The stores that can come about. -/
inductive Reachable : Store → Prop
  /-- A store with nothing in it. -/
  | new (id : Nat) (registers : UInt16) : Reachable (.new id registers)
  /-- The store of a finished method. -/
  | ofMethod {id : Nat} {m : Method} {s : Store} (h : Store.ofMethod id m = .ok s) : Reachable s
  /-- A store that has been assembled. -/
  | build {a : StoreAssembler} {s : Store} (ha : a.Reachable) (h : a.build = .ok s) : Reachable s
  /-- Something has been done with a store, or tried to be. -/
  | next {s : Store} (h : Reachable s) (action : Draft.Action) : Reachable (s.next action)

/-- Whatever is done with a store that refines a sound draft is done with the draft. -/
theorem Refines.next (h : s.Refines d) (hd : d.Sound) (action : Draft.Action) :
    (s.next action).Refines (action.next d) := by
  cases action with
  | append i => exact refines_after (simulates_append i s d h)
  | insert index i => exact refines_after (simulates_insert index i s d h)
  | replace index i => exact refines_after (simulates_replace index i s d h)
  | remove index => exact refines_after (simulates_remove index s d h)
  | swap index₁ index₂ => exact refines_after (simulates_swap index₁ index₂ s d h)
  | labelAt index => exact refines_after (simulates_labelAt index s d h)
  | labelAtAddress address => exact refines_after (simulates_labelAtAddress address s d h)
  | addTry entry => exact refines_after (simulates_addTry entry s d h)
  | addDebugItem index item => exact refines_after (simulates_addDebugItem index item s d h)
  | removeDebugItems index => exact refines_after (simulates_removeDebugItems index s d h)
  | retainDebugItems keep => exact refines_after (simulates_retainDebugItems keep s d h)
  | relax => exact refines_after (agree_relax h hd)
  | readInstructions => exact refines_after (agree_readInstructions h hd)
  | readLocations => exact refines_after (agree_readLocations h hd)
  | readTries => exact refines_after (agree_readTries h hd)
  | readDebugItems => exact refines_after (agree_readDebugItems h hd)
  | readAddress label => exact refines_after (agree_readAddress h hd label)
  | toMethod => exact refines_after (agree_toMethod h hd)

/-- Every store that comes about refines a draft that comes about. -/
theorem Reachable.exists_refines (h : s.Reachable) : ∃ d, d.Reachable ∧ s.Refines d := by
  induction h with
  | new id registers => exact ⟨_, .new id registers, refines_new id registers⟩
  | @ofMethod id m s h =>
    obtain ⟨o, ho, hs⟩ := bind_eq_ok_iff.1 h
    obtain rfl := pure_eq_ok_iff.1 hs
    have hdraft : Draft.ofMethod id m = .ok (Draft.ofOutline id o) := by
      rw [Draft.ofMethod, ho]
      rfl
    exact ⟨_, .ofMethod hdraft, refines_ofOutline id (Method.wellFormed_of_outline ho)⟩
  | build ha h =>
    obtain ⟨a, hreachable, hrefines⟩ := ha.exists_refines
    obtain ⟨hbuild, hstore⟩ := hrefines.build h
    exact ⟨_, .build hreachable hbuild, hstore⟩
  | next _ action ih =>
    obtain ⟨d, hreachable, hrefines⟩ := ih
    exact ⟨_, hreachable.next action, hrefines.next hreachable.sound action⟩

/-- Whatever has been done with a store, what it keeps fits together. -/
theorem consistent_of_reachable (h : s.Reachable) : s.Consistent := by
  obtain ⟨d, -, hrefines⟩ := h.exists_refines
  exact hrefines.consistent

/-- The store after a sequence of actions. -/
def run (s : Store) (actions : List Draft.Action) : Store := actions.foldl next s

theorem Reachable.run (h : s.Reachable) (actions : List Draft.Action) :
    (s.run actions).Reachable := by
  induction actions generalizing s with
  | nil => exact h
  | cons action rest ih => exact ih (h.next action)

/-- A table, a switch that names it, and data that has to be aligned.  A `nop` has come and gone, an
action has failed, and relaxation has added another `nop`. -/
def sample : Store :=
  (new 0 1).run
    [.append (.data (.packed 0 [])), .labelAt 0, .append (.op .packedSwitch (.f31t 0 ⟨0, 0⟩)),
      .append (.data (.array 1 [7])), .insert 1 (.op .nop .f10x), .remove 9, .remove 1, .relax]

/-- The sample has five cells, the freed one not counted, and a referral. -/
theorem consistent_of_reachable_sample :
    sample.Reachable ∧ sample.order.size = 5 ∧ sample.arena.cells.size = 6 ∧
      sample.referrals.length = 1 ∧ sample.Consistent := by
  have hsample : sample.Reachable := (Reachable.new 0 1).run _
  exact ⟨hsample, by decide +kernel, by decide +kernel, by decide +kernel,
    consistent_of_reachable hsample⟩

end Store

end Dalvik
