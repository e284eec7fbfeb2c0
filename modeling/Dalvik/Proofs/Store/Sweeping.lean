import Dalvik.Proofs.Relaxation.Visible
import Dalvik.Proofs.Store.Idempotence
import Dalvik.Proofs.Store.Representation
import Dalvik.Proofs.Store.Stages
import Dalvik.Proofs.Strict.Relaxing

/-!
# One sweep

A sweep over a consistent store whose switches have been bound never fails.  Behind it all payloads are
aligned and all switch tables have their switches (`Store.Tidy`), it says whether it has changed
anything, and if it finds everything tidy and still changes something, some jump has become longer
(`Store.Swept`).  This holds of the first sweep and of all that follow
(`Store.swept_of_bindTables`).

The cells that the cursor has passed do not move any more, as in the listing that the store keeps
(`Store.Follows.order_sweepFrom`).
-/

namespace Dalvik

open Relation (ReflTransGen)

namespace Store

variable {s s' : Store} {d : Draft} {b : Bound} {j k : Nat}

/-! ### What is tidy -/

/-- All payloads are at even addresses, and all switch tables are referred to. -/
def Tidy (s : Store) : Prop :=
  ∀ g ∈ s.order, ∀ p, (s.arena.get g).instruction? = some (.data p) →
    (s.arena.get g).address % 2 = 0 ∧
      (p.isSwitchTable = true → (s.referrals.switchOf? g).isSome = true)

/-- A store is tidy if the listing is that it keeps. -/
theorem Follows.tidy_iff (h : s.Follows d b) : s.Tidy ↔ b.Tidy := by
  have htracks := h.refines.tracks
  have hcell : ∀ {k : Nat} {g : Handle}, s.order[k]? = some g →
      s.arena.get g = b.listing.cell k ∧
        (s.referrals.switchOf? g).isSome = (b.owners.of? k).isSome := fun hg =>
    ⟨(htracks.get_eq hg).2, Referrals.isSome_switchOf? htracks.exact.nodup h.owners hg⟩
  constructor
  · intro htidy k hk p hp
    obtain ⟨g, hg⟩ := h.refines.exists_handle (Nat.le_of_lt hk)
    obtain ⟨hget, hswitch⟩ := hcell hg
    have hdata := htidy g (Array.mem_of_getElem? hg) p
    rw [hget, hswitch] at hdata
    exact hdata ((Listing.getElem?_instructions _ _).symm.trans hp)
  · intro htidy g hg p hp
    obtain ⟨k, hk⟩ := Array.mem_iff_getElem?.1 hg
    obtain ⟨hget, hswitch⟩ := hcell hk
    rw [hget] at hp ⊢
    rw [hswitch]
    have hi : b.listing.instructions[k]? = some (.data p) :=
      (Listing.getElem?_instructions _ _).trans hp
    exact htidy k (Bound.lt_size_of_getElem? hi) p hi

/-! ### What the cursor has passed -/

namespace Follows

/-- A repair does not move the cells that are fixed. -/
theorem order_repair (h : s.Follows d b) (hk : k < b.listing.size) (hj : b.Fixed k j) :
    (s.repair k (b.repairAt b.listing.survey k)).2.order[j]? = s.order[j]? := by
  obtain ⟨hlt, hbefore⟩ := hj
  have herase : ∀ {n : Nat}, j < n → (s.order.eraseIdxIfInBounds n)[j]? = s.order[j]? := by
    intro n hn
    rw [← Array.getElem?_toList, Array.toList_eraseIdxIfInBounds,
      List.getElem?_eraseIdx_of_lt hn, Array.getElem?_toList]
  have hdiagnosis := b.diagnosis hk
  generalize b.repairAt b.listing.survey k = action at hdiagnosis
  cases hdiagnosis with
  | plain => rfl
  | near => rfl
  | @far o r wider label stop hi _ _ _ =>
    obtain ⟨arena, hset, -⟩ := h.refines.setInstruction hk (Instruction.valid_goto wider label)
      fun t ht => h.refines.coherent.targets _ (List.mem_of_getElem? hi) t ht
    rw [Store.repair, hset]
  | orphan =>
    obtain ⟨arena, gone, places, -, hremove, -⟩ := h.refines.removeCell hk
    rw [Store.repair, hremove]
    exact herase hlt
  | aligned => rfl
  | @gap p before hbefore' _ _ _ hnop =>
    subst hbefore'
    have hne : j ≠ before := by
      rintro rfl
      exact hbefore.elim (Nat.lt_irrefl _) fun hne => hne hnop
    obtain ⟨arena, gone, places, -, hremove, -⟩ :=
      h.refines.removeCell (Bound.lt_size_of_getElem? hnop)
    rw [Store.repair, Nat.add_sub_cancel, hremove]
    exact herase (by omega)
  | tight =>
    obtain ⟨arena, fresh, hinsert, -⟩ := h.refines.insertCell_of_lt hk Instruction.valid_nop
      fun t ht => absurd ht List.not_mem_nil
    have hle : k ≤ s.order.size := by
      rw [h.refines.tracks.size_order]
      exact Nat.le_succ_of_le (Nat.le_of_lt hk)
    rw [Store.repair, hinsert]
    change (s.order.insertIdxIfInBounds k fresh)[j]? = _
    rw [Array.insertIdxIfInBounds, dif_pos hle, ← Array.getElem?_toList, Array.toList_insertIdx,
      List.getElem?_insertIdx_of_lt hlt, Array.getElem?_toList]

/-- The rest of a sweep does not move them either. -/
theorem order_sweepFrom (left : Nat) {index : Nat} {changed : Bool} (h : s.Follows d b)
    (hb : b.Ready d.id) (hsize : b.listing.size = index + left) (hj : b.Fixed index j)
    (hok : sweepFrom left index s = .ok changed s') : s'.order[j]? = s.order[j]? := by
  induction left generalizing s b index changed with
  | zero =>
    cases hok
    rfl
  | succ left ih =>
    have hindex : index < b.listing.size := by omega
    have hdiagnosis := b.diagnosis hindex
    have hneeds := h.repairAt_eq hb hindex
    have hfixed := hj.mono (b.le_repair index (b.repairAt b.listing.survey index))
      (hdiagnosis.getElem?_repair hj)
    by_cases hkeep : b.repairAt b.listing.survey index = .keep
    · rw [hkeep] at hneeds hfixed
      rw [sweepFrom_succ_of_keep hneeds] at hok
      exact ih h hb (show _ = index + 1 + left by omega) hfixed hok
    · obtain ⟨-, changed', hrest⟩ := (sweepFrom_succ_of_ne_keep hneeds hkeep).1 hok
      obtain ⟨hnext, hrepair⟩ := h.repair hb hindex
      rw [hnext] at hrest
      have hsame := ih hrepair ((hdiagnosis.mends hkeep).ready hb) (hdiagnosis.size_repair hsize)
        hfixed hrest
      exact hsame.trans (h.order_repair hindex hj)

/-- In a tidy store a sweep makes the jump in some cell longer, if it changes anything. -/
theorem exists_longer (h : s.Follows d b) (hb : b.Ready d.id) (htidy : s.Tidy)
    (hok : sweep s = .ok true s') :
    ∃ (k : Nat) (g : Handle) (r wider : Reach) (label : Label), r.units < wider.units ∧
      s.order[k]? = some g ∧ s'.order[k]? = some g ∧
      (s.arena.get g).instruction? = some (.goto r label) ∧
      (s'.arena.get g).instruction? = some (.goto wider label) := by
  obtain ⟨s₁, hsweep, hfollows, -⟩ := h.exists_sweep hb
  obtain ⟨hchanged, rfl⟩ := EStateM.Result.ok.inj (hok.symm.trans hsweep)
  obtain ⟨k, r, wider, label, hshort, hpassed, haction, hi, hi'⟩ :=
    Bound.exists_longer_of_sweep hb (h.tidy_iff.1 htidy) hchanged.symm
  have hk := Bound.lt_size_of_getElem? hi
  obtain ⟨g, hg⟩ := h.refines.exists_handle (Nat.le_of_lt hk)
  obtain ⟨rest, hrest⟩ : ∃ rest, b.listing.size = k + (rest + 1) :=
    ⟨b.listing.size - (k + 1), by omega⟩
  have hneeds := h.repairAt_eq hb hk
  rw [haction] at hneeds
  have hne : Repair.widen wider label ≠ .keep := by simp
  -- the sweep comes to the jump without having changed anything, makes it longer and goes on
  have hstart : sweepFrom (rest + 1) k s = .ok true s' := by
    have hpass : sweepFrom (rest + 1 + k) 0 s = sweepFrom (rest + 1) (0 + k) s :=
      sweepFrom_add_of_keep (rest + 1) k fun j _ hj => by
        rw [Nat.zero_add] at hj
        rw [h.repairAt_eq hb (by omega), hpassed j hj]
    have hsize : s.size = b.listing.size := h.refines.tracks_size
    rw [Nat.zero_add] at hpass
    rw [← hpass, ← hok, sweep, run_get_bind, hsize, hrest, Nat.add_comm k]
  obtain ⟨-, changed, hend⟩ := (sweepFrom_succ_of_ne_keep hneeds hne).1 hstart
  obtain ⟨-, hrepair⟩ := h.repair hb hk
  have hdiagnosis := b.diagnosis hk
  have hleft := hdiagnosis.size_repair hrest
  rw [haction] at hrepair hdiagnosis hleft
  have hready := (hdiagnosis.mends hne).ready hb
  have hsame : s'.order[k]? = (s.setInstruction k (.goto wider label)).2.order[k]? :=
    hrepair.order_sweepFrom rest hready hleft (Bound.fixed_replaceAt_goto hi wider label).2 hend
  obtain ⟨arena, hset, -⟩ := h.refines.setInstruction hk (Instruction.valid_goto wider label)
    fun t ht => h.refines.coherent.targets _ (List.mem_of_getElem? hi) t ht
  rw [hset] at hsame
  have hg' : s'.order[k]? = some g := hsame.trans hg
  refine ⟨k, g, r, wider, label, hshort, hg, hg', ?_, ?_⟩
  · rw [h.refines.instruction?_get hg]
    exact hi
  · rw [hfollows.refines.instruction?_get hg']
    exact hi'

end Follows

/-! ### What a sweep guarantees -/

/-- What a sweep guarantees that has led from `s` to `s'` and says whether it has changed anything. -/
structure Swept (s : Store) (changed : Bool) (s' : Store) : Prop where
  /-- The store is consistent. -/
  consistent : s'.Consistent
  /-- All payloads are aligned, and no switch table is left that is not referred to. -/
  tidy : s'.Tidy
  /-- It says no exactly if the store is as it was. -/
  unchanged : changed = false ↔ s' = s
  /-- Whatever it has changed shows in the code. -/
  visible : changed = false ↔ s'.instructions = s.instructions
  /-- If the store was tidy and has been changed, the jump in some cell has become longer. -/
  longer : s.Tidy → changed = true →
    ∃ (k : Nat) (g : Handle) (r wider : Reach) (label : Label), r.units < wider.units ∧
      s.order[k]? = some g ∧ s'.order[k]? = some g ∧
      (s.arena.get g).instruction? = some (.goto r label) ∧
      (s'.arena.get g).instruction? = some (.goto wider label)

/-- A store that follows a listing, relaxation being needed or not, can be swept. -/
theorem Follows.exists_swept (h : (s.withDirty true).Follows d b) (hb : b.Ready d.id) :
    ∃ s', sweep s = .ok b.sweep.2 s' ∧ s.Swept b.sweep.2 s' ∧
      (s'.withDirty true).Follows d b.sweep.1 := by
  obtain ⟨t, ht, hfollows, -⟩ := h.exists_sweep hb
  obtain ⟨s', hs', rfl⟩ := exists_of_withDirty (simulates_sweep_sameButDirty true) ht
  have hunchanged : b.sweep.2 = false → s' = s := by
    intro hfalse
    have hsettled := Bound.sweep_eq_false_iff.1 hfalse
    have hstore : s.size = b.listing.size := h.refines.tracks_size
    have hkeep : sweep s = .ok false s := by
      rw [sweep, run_get_bind]
      refine sweepFrom_of_keep s.size fun k _ hk => ?_
      have hlt : k < b.listing.size := by omega
      exact (h.repairAt_eq hb hlt).trans (congrArg Except.ok (hsettled k hlt))
    exact (EStateM.Result.ok.inj (hs'.symm.trans hkeep)).2
  have hvisible : s'.instructions = s.instructions → b.sweep.2 = false := by
    intro hsame
    have hcode : s.instructions = b.listing.instructions := h.refines.tracks.instructions_eq
    have hcode' : s'.instructions = b.sweep.1.listing.instructions :=
      hfollows.refines.tracks.instructions_eq
    rw [Bool.eq_false_iff]
    intro htrue
    exact Bound.instructions_sweep_ne hb htrue (by rw [← hcode', hsame, hcode])
  refine ⟨s', hs', ?_, hfollows⟩
  exact
    { consistent := hfollows.refines.consistent.withDirty s'.dirty
      tidy := hfollows.tidy_iff.2 (Bound.mends_sweep hb).2
      unchanged := ⟨hunchanged, fun hsame => hvisible (by rw [hsame])⟩
      visible := ⟨fun hfalse => by rw [hunchanged hfalse], hvisible⟩
      longer := fun htidy htrue => by
        rw [htrue] at ht
        have hlonger := h.exists_longer hb htidy ht
        exact hlonger }

/-! ### After binding, and after every sweep -/

/-- One sweep, whatever it says. -/
def Sweeps (s s' : Store) : Prop := ∃ changed, sweep s = .ok changed s'

/-- Once its switches are bound, a consistent store in which all labels in use have been placed follows a
listing, and so it does after any number of sweeps. -/
theorem exists_follows_of_sweeps {first t : Store} (h : s.Consistent)
    (hplaced : s.checkPlaced = .ok ()) (hbind : bindTables s = .ok ⟨⟩ first)
    (hsweeps : ReflTransGen Sweeps first t) :
    ∃ d b, (t.withDirty true).Follows d b ∧ b.Ready d.id := by
  induction hsweeps with
  | refl =>
    have hrefines : (s.withDirty true).Refines (s.withDirty true).draft :=
      (h.withDirty true).refines_draft hplaced rfl
    have hready := hrefines.ready_of_checkPlaced hplaced
    obtain ⟨t, hbind', rfl⟩ :=
      (simulates_bindTables_sameButDirty true s _ rfl).exists_of_ok hbind
    have hbinding := hrefines.binding_bindTables rfl
    rw [hbind'] at hbinding
    generalize hfind : (s.withDirty true).draft.listing.findOwners (s.withDirty true).draft.locate =
      found at hbinding
    cases hbinding with
    | @ok _ owners h' howners =>
      exact ⟨(s.withDirty true).draft, ⟨s.listing, owners⟩, ⟨h', howners⟩, hready,
        Listing.linked_of_findOwners (fun _ _ hk => (Draft.locate_eq_ok_iff.1 hk).2) hfind⟩
  | tail _ hlast ih =>
    obtain ⟨d, b, hfollows, hb⟩ := ih
    obtain ⟨changed, hsweep⟩ := hlast
    obtain ⟨t, ht, -, hfollows'⟩ := hfollows.exists_swept hb
    obtain ⟨-, rfl⟩ := EStateM.Result.ok.inj (hsweep.symm.trans ht)
    exact ⟨d, _, hfollows', Bound.ready_of_mends (Bound.mends_sweep hb).1 hb⟩

/-- Once its switches are bound, a consistent store in which all labels in use have been placed can be
swept, and so it can be after any number of sweeps.  A sweep does not get stuck, it does not fail,
and it guarantees what `Store.Swept` says. -/
theorem swept_of_bindTables {first t : Store} (h : s.Consistent) (hplaced : s.checkPlaced = .ok ())
    (hbind : bindTables s = .ok ⟨⟩ first) (hsweeps : ReflTransGen Sweeps first t) :
    Faithful Strict.sweep sweep t ∧ ∃ changed t', sweep t = .ok changed t' ∧ t.Swept changed t' := by
  obtain ⟨d, b, hfollows, hb⟩ := exists_follows_of_sweeps h hplaced hbind hsweeps
  obtain ⟨t', ht', hswept, -⟩ := hfollows.exists_swept hb
  exact ⟨hfollows.faithful_sweep hb, _, t', ht', hswept⟩

/-- A jump that just reaches its target, behind data at an odd address. -/
def brink : Store :=
  (new 0 2).run (List.replicate 24 (.append (.op .constWide (.f51l 0 0))) ++
    [.append (.data (.array 1 [7])), .append (.op .returnVoid .f10x), .labelAt 26,
      .insert 0 (.goto .byte ⟨0, 0⟩)])

/-- The first sweep aligns the data, which takes the target out of reach.  So the second one finds
everything tidy, and makes the jump longer. -/
theorem swept_of_bindTables_brink :
    ∃ first t t', brink.Consistent ∧ brink.checkPlaced = .ok () ∧
      bindTables brink = .ok ⟨⟩ first ∧ Sweeps first t ∧ sweep t = .ok true t' ∧
        t.instruction? 25 = some .nop ∧ t'.instruction? 0 = some (.goto .word ⟨0, 0⟩) ∧
        Faithful Strict.sweep sweep t ∧ t.Swept true t' := by
  have hconsistent : brink.Consistent := by
    obtain ⟨d, -, hrefines⟩ := ((Reachable.new 0 2).run _ : brink.Reachable).exists_refines
    exact hrefines.consistent
  have hplaced : brink.checkPlaced = .ok () := by decide +kernel
  obtain ⟨⟨⟩, first, hbind⟩ := exists_of_succeeds (x := bindTables) (s := brink) (by decide +kernel)
  have hfirst : stateAfter bindTables brink = first := by rw [stateAfter, hbind]
  obtain ⟨changed, t, hsweep⟩ := exists_of_succeeds (x := sweep) (s := first) (by
    rw [← hfirst]
    decide +kernel)
  have ht : stateAfter sweep first = t := by rw [stateAfter, hsweep]
  rw [← hfirst] at ht
  have hsweeps : Sweeps first t := ⟨changed, hsweep⟩
  obtain ⟨hstrict, changed', t', hsweep', hswept⟩ :=
    swept_of_bindTables hconsistent hplaced hbind (.single hsweeps)
  have hchanged : outcome sweep t = .ok true := by
    rw [← ht]
    decide +kernel
  have hjump : (stateAfter sweep t).instruction? 0 = some (.goto .word ⟨0, 0⟩) := by
    rw [← ht]
    decide +kernel
  rw [outcome, hsweep'] at hchanged
  rw [stateAfter, hsweep'] at hjump
  obtain rfl := Except.ok.inj hchanged
  have hnop : t.instruction? 25 = some .nop := by
    rw [← ht]
    decide +kernel
  exact ⟨first, t, t', hconsistent, hplaced, hbind, hsweeps, hsweep', hnop, hjump, hstrict, hswept⟩

end Store

end Dalvik
