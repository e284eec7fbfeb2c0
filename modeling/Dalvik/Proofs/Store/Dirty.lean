import Dalvik.Proofs.Store.Consistency
import Dalvik.Proofs.Store.Relaxing

/-!
# Work that does not depend on whether relaxation is needed

A store remembers whether it needs relaxation, and relaxing it does nothing if it does not.  What is
done in between, binding the switches and sweeping over the cells, neither looks at this nor changes
it: with the mark put otherwise (`Store.withDirty`) it comes to the same.  So what is known of stores
in need of relaxation holds of the others as well.
-/

namespace Dalvik

namespace Store

variable {s s' t : Store} {v : Bool} {k : Nat}

/-- The same store, with relaxation needed or not. -/
def withDirty (s : Store) (v : Bool) : Store := { s with dirty := v }

theorem withDirty_dirty (s : Store) : s.withDirty s.dirty = s := rfl

theorem order_withDirty (s : Store) (v : Bool) : (s.withDirty v).order = s.order := rfl

theorem cell?_withDirty (s : Store) (v : Bool) (k : Nat) : (s.withDirty v).cell? k = s.cell? k := rfl

theorem instruction?_withDirty (s : Store) (v : Bool) (k : Nat) :
    (s.withDirty v).instruction? k = s.instruction? k := rfl

theorem Consistent.withDirty (h : s.Consistent) (v : Bool) : (s.withDirty v).Consistent :=
  { h with nonempty := h.nonempty }

/-- What follows a listing is in need of relaxation. -/
theorem Follows.withDirty {d : Draft} {b : Bound} (h : s.Follows d b) :
    (s.withDirty true).Follows d b := by
  have hdirty : s.dirty = true := h.refines.dirty
  rwa [← hdirty, withDirty_dirty]

/-! ### Edits of cells -/

theorem modifyCell_withDirty (s : Store) (v : Bool) (k : Nat) (f : Cell → Cell) :
    (s.withDirty v).modifyCell k f = (s.modifyCell k f).withDirty v := by
  unfold modifyCell
  rw [order_withDirty]
  cases s.order[k]? <;> rfl

theorem setInstruction_withDirty (s : Store) (v : Bool) (k : Nat) (i : Instruction Label) :
    (s.withDirty v).setInstruction k i =
      ((s.setInstruction k i).1, (s.setInstruction k i).2.withDirty v) := by
  unfold setInstruction
  rw [modifyCell_withDirty]
  rfl

theorem appendCell_withDirty (s : Store) (v : Bool) (i : Instruction Label) :
    (s.withDirty v).appendCell i = (s.appendCell i).withDirty v := by
  unfold appendCell
  rw [order_withDirty]
  cases s.order.back? <;> rfl

theorem insertCell_withDirty (s : Store) (v : Bool) (k : Nat) (i : Instruction Label) :
    (s.withDirty v).insertCell k i = (s.insertCell k i).withDirty v := by
  unfold insertCell
  rw [cell?_withDirty, appendCell_withDirty]
  by_cases hk : k = s.size
  · rw [if_pos hk]
    exact if_pos hk
  · rw [if_neg hk]
    refine (if_neg hk).trans ?_
    cases s.cell? k <;> rfl

theorem removeCell_withDirty (s : Store) (v : Bool) (k : Nat) :
    (s.withDirty v).removeCell k = ((s.removeCell k).1, (s.removeCell k).2.withDirty v) := by
  unfold removeCell
  rw [order_withDirty]
  cases s.order[k]? with
  | none => rfl
  | some gone => cases s.order[k + 1]? <;> rfl

/-! ### Repairs -/

theorem repairAt_withDirty (s : Store) (v : Bool) (k : Nat) :
    (s.withDirty v).repairAt k = s.repairAt k := rfl

theorem repair_withDirty (s : Store) (v : Bool) (k : Nat) (action : Repair) :
    (s.withDirty v).repair k action =
      ((s.repair k action).1, (s.repair k action).2.withDirty v) := by
  cases action with
  | keep => rfl
  | widen r label => simp only [repair, setInstruction_withDirty]
  | drop => simp only [repair, removeCell_withDirty]
  | closeGap => simp only [repair, removeCell_withDirty]
  | openGap => simp only [repair, insertCell_withDirty]

/-! ### Actions -/

/-- The stores differ at most in whether relaxation is needed, which it is in the second if `v`
says so. -/
def SameButDirty (v : Bool) (s t : Store) : Prop := t = s.withDirty v

theorem agree_require_sameButDirty {α : Type} (x : Except Error α) (h : SameButDirty v s t) :
    Agree (SameButDirty v) (require x s) (require x t) := by
  cases x with
  | ok a => exact .ok a h
  | error e => exact .error e h

theorem refer_withDirty (s : Store) (v : Bool) (table switch : Nat) :
    (s.withDirty v).refer table switch = (s.refer table switch).withDirty v := by
  unfold refer
  rw [order_withDirty]
  cases s.order[table]? with
  | none => rfl
  | some t => cases s.order[switch]? <;> rfl

theorem simulates_bindSwitch_sameButDirty (v : Bool) (k : Nat) :
    Simulates (SameButDirty v) (bindSwitch k) (bindSwitch k) := by
  rintro s _ rfl
  rw [bindSwitch, run_get_bind, run_get_bind, instruction?_withDirty]
  cases s.instruction? k with
  | none => exact .ok _ rfl
  | some i =>
    dsimp only
    cases i.switchTarget? with
    | none => exact .ok _ rfl
    | some label =>
      refine (agree_require_sameButDirty _ rfl).bind fun table => ?_
      rintro s₁ _ rfl
      rw [run_modify_bind, run_modify_bind, refer_withDirty]
      change Agree _ _ ((if (s.switchOf? table).isSome then _ else _ : StoreM Unit) _)
      split
      · exact .error _ rfl
      · exact .ok _ rfl

theorem simulates_sweepFrom_sameButDirty (v : Bool) (left index : Nat) :
    Simulates (SameButDirty v) (sweepFrom left index) (sweepFrom left index) := by
  induction left generalizing index with
  | zero =>
    rintro s _ rfl
    exact .ok _ rfl
  | succ left ih =>
    rintro s _ rfl
    rw [sweepFrom, run_get_bind, run_get_bind, repairAt_withDirty]
    refine (agree_require_sameButDirty _ rfl).bind fun action => ?_
    rintro s₁ _ rfl
    have hmend : Agree (SameButDirty v)
        ((do discard (sweepFrom left (s₁.repair index action).1); return true : StoreM Bool)
          (s₁.repair index action).2)
        ((do discard (sweepFrom left ((s₁.withDirty v).repair index action).1); return true :
          StoreM Bool) ((s₁.withDirty v).repair index action).2) := by
      rw [repair_withDirty]
      refine (ih (s₁.repair index action).1 _ _ rfl).discard.bind fun _ => ?_
      rintro s₂ _ rfl
      exact .ok true rfl
    cases action with
    | keep => exact ih (index + 1) _ _ rfl
    | _ => exact hmend

theorem simulates_bindTables_sameButDirty (v : Bool) :
    Simulates (SameButDirty v) bindTables bindTables := by
  rintro s _ rfl
  exact simulates_forM (simulates_bindSwitch_sameButDirty v) (List.range s.size) _ _ rfl

theorem simulates_sweep_sameButDirty (v : Bool) : Simulates (SameButDirty v) sweep sweep := by
  rintro s _ rfl
  exact simulates_sweepFrom_sameButDirty v s.size 0 _ _ rfl

/-- What succeeds with relaxation needed or not succeeds otherwise. -/
theorem exists_of_withDirty {α : Type} {x : StoreM α} (hx : Simulates (SameButDirty v) x x) {a : α}
    (hok : x (s.withDirty v) = .ok a t) : ∃ s', x s = .ok a s' ∧ t = s'.withDirty v := by
  have hagree := hx s (s.withDirty v) rfl
  rw [hok] at hagree
  generalize x s = r at hagree
  cases hagree with
  | ok a h => exact ⟨_, rfl, h⟩

end Store

end Dalvik
