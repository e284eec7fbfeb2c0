import Dalvik.Proofs.Store.Idempotence
import Dalvik.Proofs.Store.Remains

/-!
# The stages of relaxation

Relaxing a store looks at one cell after the other, repairs what it finds, and begins another sweep if
there was anything to repair (`Store.Stage.Next`).  From where the switches are bound to where nothing
is left to repair, it goes through a sequence of stages (`Store.Follows.stages_of_settle`).  What
becomes of cells up to a later stage is what becomes of them in single repairs
(`Store.Stage.Keeps.steps`), so that the form of a jump can be traced back to the stage at which the
jump got it (`Store.Stage.exists_widens`).
-/

namespace Dalvik

namespace Store

variable {s s' : Store} {d : Draft} {b : Bound}

/-- How far relaxation has come. -/
structure Stage where
  /-- The store as repaired so far. -/
  store : Store
  /-- The position to look at next. -/
  index : Nat
  /-- Whether anything has been repaired since the sweep began. -/
  changed : Bool

namespace Stage

/-- One step of relaxation. -/
inductive Next : Stage → Stage → Prop
  /-- The sweep does what the cell at the position needs, and goes on. -/
  | look {s : Store} {index : Nat} {changed : Bool} {action : Repair} (inside : index < s.size)
      (needs : s.repairAt index = .ok action) :
      Next ⟨s, index, changed⟩
        ⟨(s.repair index action).2, (s.repair index action).1, changed || action ≠ .keep⟩
  /-- The sweep has passed the last instruction and has changed something, so another one begins. -/
  | again {s : Store} {index : Nat} (done : s.size ≤ index) : Next ⟨s, index, true⟩ ⟨s, 0, false⟩

/-- A step that leaves the store alone. -/
theorem Next.keep {index : Nat} {changed : Bool} (inside : index < s.size)
    (needs : s.repairAt index = .ok .keep) :
    Next ⟨s, index, changed⟩ ⟨s, index + 1, changed⟩ := by
  have hstep : Next ⟨s, index, changed⟩ ⟨s, index + 1, changed || Repair.keep ≠ .keep⟩ :=
    .look inside needs
  rwa [decide_eq_false (not_not.2 rfl), Bool.or_false] at hstep

/-- A step that repairs something. -/
theorem Next.mend {index : Nat} {changed : Bool} {action : Repair} (inside : index < s.size)
    (needs : s.repairAt index = .ok action) (hne : action ≠ .keep) :
    Next ⟨s, index, changed⟩ ⟨(s.repair index action).2, (s.repair index action).1, true⟩ := by
  have hstep : Next ⟨s, index, changed⟩
      ⟨(s.repair index action).2, (s.repair index action).1, changed || action ≠ .keep⟩ :=
    .look inside needs
  rwa [decide_eq_true hne, Bool.or_true] at hstep

end Stage

open Relation (ReflTransGen)

/-! ### From the beginning to the end -/

/-- A cell that needs nothing is passed. -/
theorem sweepFrom_succ_of_keep {left index : Nat} (hneeds : s.repairAt index = .ok .keep) :
    sweepFrom (left + 1) index s = sweepFrom left (index + 1) s := by
  rw [sweepFrom, run_get_bind, run_bind_of_ok (require_eq_ok_iff.2 ⟨hneeds, rfl⟩)]

/-- One that needs something gets it, and the sweep goes on behind it. -/
theorem sweepFrom_succ_of_ne_keep {left index : Nat} {action : Repair} {mended : Bool}
    (hneeds : s.repairAt index = .ok action) (hne : action ≠ .keep) :
    sweepFrom (left + 1) index s = .ok mended s' ↔
      mended = true ∧ ∃ mended',
        sweepFrom left (s.repair index action).1 (s.repair index action).2 = .ok mended' s' := by
  have hrun : sweepFrom (left + 1) index s =
      (do discard (sweepFrom left (s.repair index action).1); return true)
        (s.repair index action).2 := by
    rw [sweepFrom, run_get_bind, run_bind_of_ok (require_eq_ok_iff.2 ⟨hneeds, rfl⟩)]
    cases action with
    | keep => exact absurd rfl hne
    | _ => rfl
  rw [hrun, run_bind_eq_ok_iff]
  constructor
  · rintro ⟨⟨⟩, s₁, hrest, hend⟩
    cases hend
    exact ⟨rfl, run_discard_eq_ok_iff.1 hrest⟩
  · rintro ⟨rfl, hrest⟩
    exact ⟨⟨⟩, s', run_discard_eq_ok_iff.2 hrest, rfl⟩

/-- A sweep goes from stage to stage. -/
theorem Follows.stages_of_sweepFrom (left : Nat) {index : Nat} {mended : Bool} (changed : Bool)
    (h : s.Follows d b) (hb : b.Ready d.id) (hsize : b.listing.size = index + left)
    (hok : sweepFrom left index s = .ok mended s') :
    ReflTransGen Stage.Next ⟨s, index, changed⟩ ⟨s', s'.size, changed || mended⟩ := by
  have hstore : s.size = b.listing.size := h.refines.tracks_size
  induction left generalizing s b index mended changed with
  | zero =>
    cases hok
    rw [hstore, hsize, Bool.or_false]
    exact .refl
  | succ left ih =>
    have hindex : index < b.listing.size := by omega
    have hinside : index < s.size := by omega
    have hdiagnosis := b.diagnosis hindex
    have hneeds := h.repairAt_eq hb hindex
    by_cases hkeep : b.repairAt b.listing.survey index = .keep
    · rw [hkeep] at hneeds
      rw [sweepFrom_succ_of_keep hneeds] at hok
      exact (ih changed h hb (by omega) hok hstore).head (.keep hinside hneeds)
    · obtain ⟨rfl, mended', hrest⟩ := (sweepFrom_succ_of_ne_keep hneeds hkeep).1 hok
      obtain ⟨hnext, hrepair⟩ := h.repair hb hindex
      rw [hnext] at hrest
      have hrun := ih true hrepair ((hdiagnosis.mends hkeep).ready hb)
        (hdiagnosis.size_repair hsize) hrest hrepair.refines.tracks_size
      rw [← hnext, Bool.true_or] at hrun
      rw [Bool.or_true]
      exact hrun.head (.mend hinside hneeds hkeep)

/-- One sweep after the other goes from stage to stage.  It ends behind a sweep that has changed
nothing, or when another one could begin. -/
theorem Follows.stages_of_settleWithin (limit : Nat) (h : s.Follows d b) (hb : b.Sound d.id)
    (hok : settleWithin limit s = .ok ⟨⟩ s') :
    ReflTransGen Stage.Next ⟨s, 0, false⟩ ⟨s', 0, false⟩ ∨
      ReflTransGen Stage.Next ⟨s, 0, false⟩ ⟨s', s'.size, false⟩ := by
  induction limit generalizing s b with
  | zero =>
    cases hok
    exact .inl .refl
  | succ limit ih =>
    rw [settleWithin] at hok
    obtain ⟨mended, s₁, hsweep, hrest⟩ := run_bind_eq_ok_iff.1 hok
    obtain ⟨s₁', hsweep', hfollows, -⟩ := h.exists_sweep hb.ready
    cases hsweep.symm.trans hsweep'
    have hstages : ReflTransGen Stage.Next ⟨s, 0, false⟩ ⟨s₁, s₁.size, false || b.sweep.2⟩ := by
      refine h.stages_of_sweepFrom b.listing.size false hb.ready (Nat.zero_add _).symm ?_
      rw [← hsweep, sweep, run_get_bind, h.refines.tracks_size]
      rfl
    rw [Bool.false_or] at hstages
    cases hmended : b.sweep.2 with
    | false =>
      rw [hmended] at hstages hrest
      cases hrest
      exact .inr hstages
    | true =>
      rw [hmended] at hstages hrest
      have hagain := hstages.tail (.again (Nat.le_refl s₁.size))
      have hbound := Bound.sound_of_mends (Bound.mends_sweep hb.ready).1 hb
      exact (ih hfollows hbound hrest).imp hagain.trans hagain.trans

/-- Settling goes from stage to stage, until a sweep has changed nothing. -/
theorem Follows.stages_of_settle (h : s.Follows d b) (hb : b.Sound d.id)
    (hok : settle s = .ok ⟨⟩ s') :
    ReflTransGen Stage.Next ⟨s, 0, false⟩ ⟨s', s'.size, false⟩ := by
  obtain ⟨s₁, hsettle, hfollows, -⟩ := h.exists_settle hb
  cases hok.symm.trans hsettle
  rw [settle, run_get_bind] at hok
  rcases h.stages_of_settleWithin _ hb hok with hbegin | hend
  · have hbound := Bound.sound_settle hb
    have hsize : b.settle.listing.size = s'.size := hfollows.refines.tracks_size.symm
    -- a sweep from there finds nothing
    have hsweep : sweepFrom s'.size 0 s' = .ok false s' := by
      refine sweepFrom_of_keep s'.size fun k _ hk => ?_
      have hlt : k < b.settle.listing.size := by omega
      rw [hfollows.repairAt_eq hbound.ready hlt, Bound.settled_settle hb k hlt]
    exact hbegin.trans (hfollows.stages_of_sweepFrom s'.size false hbound.ready (by omega) hsweep)
  · exact hend

/-- Relaxing a store comes through a stage on its way to what it makes of the store. -/
def Passes (s r : Store) (w : Stage) : Prop :=
  ∃ first last : Store, bindTables s = .ok ⟨⟩ first ∧
    ReflTransGen Stage.Next ⟨first, 0, false⟩ w ∧
      ReflTransGen Stage.Next w ⟨last, last.size, false⟩ ∧ r = { last with dirty := false }

/-! ### What becomes of cells -/

/-- The store of a stage keeps a listing that is in order. -/
def Stage.Keeps (w : Stage) (d : Draft) : Prop := ∃ b, w.store.Follows d b ∧ b.Sound d.id

namespace Stage

variable {w w' w'' : Stage}

/-- A step leaves everything in order, and the cells that are left as they were, but for longer jumps.
-/
theorem Keeps.next (h : w.Keeps d) (hnext : w.Next w') :
    w.store.Becomes w'.store ∧ w'.Keeps d := by
  obtain ⟨b, hfollows, hb⟩ := h
  cases hnext with
  | @look s index changed action hinside hneeds =>
    have hindex : index < b.listing.size := lt_of_lt_of_eq hinside hfollows.refines.tracks_size
    obtain rfl := Except.ok.inj (hneeds.symm.trans (hfollows.repairAt_eq hb.ready hindex))
    refine ⟨hfollows.becomes_repair hb.ready hindex, _, (hfollows.repair hb.ready hindex).2, ?_⟩
    by_cases hkeep : b.repairAt b.listing.survey index = .keep
    · rw [hkeep]
      exact hb
    · exact ((b.diagnosis hindex).mends hkeep).sound hb
  | again => exact ⟨.refl hfollows.refines.tracks.exact, b, hfollows, hb⟩

theorem Keeps.exact (h : w.Keeps d) : w.store.Exact := by
  obtain ⟨b, hfollows, -⟩ := h
  exact hfollows.refines.tracks.exact

/-- So do any number of steps. -/
theorem Keeps.steps (h : w.Keeps d) (hsteps : ReflTransGen Next w w') :
    w.store.Becomes w'.store ∧ w'.Keeps d := by
  induction hsteps with
  | refl => exact ⟨.refl h.exact, h⟩
  | tail _ hnext ih =>
    obtain ⟨hbecomes, hkeeps⟩ := ih
    obtain ⟨hstep, hkeeps'⟩ := hkeeps.next hnext
    exact ⟨hbecomes.trans h.exact hstep, hkeeps'⟩

/-- At this stage the jump in the cell of a handle gets another form. -/
structure Widens (w : Stage) (g : Handle) (r : Reach) (label : Label) : Prop where
  /-- The sweep has not passed the last instruction. -/
  inside : w.index < w.store.size
  /-- The sweep looks at the cell. -/
  here : w.store.order[w.index]? = some g
  /-- The cell needs a jump of this form. -/
  needs : w.store.repairAt w.index = .ok (.widen r label)

/-- A jump that is in a cell at a later stage has been there from the beginning, or has been put there
at a stage in between. -/
theorem exists_widens {g : Handle} {r : Reach} {label : Label} (hsteps : ReflTransGen Next w w')
    (hi : (w'.store.arena.get g).instruction? = some (.goto r label)) :
    (w.store.arena.get g).instruction? = some (.goto r label) ∨
      ∃ v : Stage, ReflTransGen Next w v ∧ v.Widens g r label ∧ ReflTransGen Next v w' := by
  induction hsteps with
  | refl => exact .inl hi
  | @tail v v' hsteps hnext ih =>
    have hearlier : (v.store.arena.get g).instruction? = some (.goto r label) →
        (w.store.arena.get g).instruction? = some (.goto r label) ∨
          ∃ u : Stage, ReflTransGen Next w u ∧ u.Widens g r label ∧ ReflTransGen Next u v' := by
      intro hi
      refine (ih hi).imp_right ?_
      rintro ⟨u, hbefore, hwidens, hafter⟩
      exact ⟨u, hbefore, hwidens, hafter.tail hnext⟩
    cases hnext with
    | look hinside hneeds =>
      rcases goto_of_repair hinside hi with hsame | ⟨hg, rfl⟩
      · exact hearlier hsame
      · exact .inr ⟨_, hsteps, ⟨hinside, hg, hneeds⟩, .single (.look hinside hneeds)⟩
    | again => exact hearlier hi

end Stage

end Store

end Dalvik
