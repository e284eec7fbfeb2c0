import Dalvik.Proofs.Store.Binding

/-!
# Relaxing a store

Relaxing a store does what relaxing a draft does (`Store.agree_relax`).  Every repair of cells
follows the repair of the listing, and renumbers the owners along with the cells (`Store.Follows`);
hence so does every sweep, and so do all of them.
-/

namespace Dalvik

namespace Store

variable {s s' : Store} {d : Draft} {b : Bound} {l : Listing} {k : Nat} {i : Instruction Label}
  {owners : Owners}

/-- A store that is being relaxed keeps a listing whose tables have found their switches. -/
structure Follows (s : Store) (d : Draft) (b : Bound) : Prop where
  /-- The cells are those of the listing. -/
  refines : s.Refines (d.withListing b.listing)
  /-- The referrals are the owners. -/
  owners : List.Forall₂ (Referral.Of s.order) s.referrals b.owners

namespace Follows

/-- After an edit of the code, the store follows what has become of the listing and the owners. -/
theorem of_edit (h : s.Follows d b) (hdirty : s'.dirty = s.dirty)
    (hrefines : Refines { s' with dirty := true } (d.withListing l))
    (howners : List.Forall₂ (Referral.Of s'.order) s'.referrals owners) :
    s'.Follows d ⟨l, owners⟩ := by
  have htrue : s'.dirty = true := by rw [hdirty, h.refines.dirty]; rfl
  have hsame : { s' with dirty := true } = s' := by rw [← htrue]
  exact ⟨hsame ▸ hrefines, howners⟩

/-! ### One repair -/

theorem replaceAt (h : s.Follows d b) (hk : k < b.listing.size) (hvalid : i.Valid)
    (htargets : ∀ label ∈ i.targets, b.listing.Issued d.id label) :
    (s.setInstruction k i).2.Follows d (b.replaceAt k i) := by
  obtain ⟨arena, hset, hrefines⟩ := h.refines.setInstruction hk hvalid htargets
  refine h.of_edit (by rw [hset]) hrefines ?_
  rw [hset]
  exact h.owners

theorem insertAt (h : s.Follows d b) (hk : k < b.listing.size) (hvalid : i.Valid)
    (htargets : ∀ label ∈ i.targets, b.listing.Issued d.id label) :
    (s.insertCell k i).Follows d (b.insertAt k i) := by
  obtain ⟨arena, fresh, hinsert, hrefines⟩ := h.refines.insertCell_of_lt hk hvalid htargets
  refine h.of_edit (by rw [hinsert]) hrefines ?_
  rw [hinsert, Owners.insertAt_eq]
  have hle : k ≤ s.order.size := by
    rw [h.refines.tracks.size_order]
    exact Nat.le_succ_of_le (Nat.le_of_lt hk)
  have hshift : ∀ j, (s.order.insertIdxIfInBounds k fresh)[shiftUp k j]? = s.order[j]? := by
    intro j
    rw [Array.insertIdxIfInBounds, dif_pos hle, ← Array.getElem?_toList, Array.toList_insertIdx,
      getElem?_insertIdx_shiftUp, Array.getElem?_toList]
  exact Referrals.forall₂_map h.owners fun o _ => ⟨hshift _, hshift _⟩

theorem removeAt (h : s.Follows d b) (hk : k < b.listing.size) :
    (s.removeCell k).2.Follows d (b.removeAt k) := by
  obtain ⟨arena, gone, places, hgone, hremove, hrefines⟩ := h.refines.removeCell hk
  refine h.of_edit (by rw [hremove]) hrefines ?_
  rw [hremove, Owners.removeAt]
  have hshift : ∀ j, j ≠ k → (s.order.eraseIdxIfInBounds k)[shiftDown k j]? = s.order[j]? := by
    intro j hj
    rw [← Array.getElem?_toList, Array.toList_eraseIdxIfInBounds,
      getElem?_eraseIdx_shiftDown _ hj, Array.getElem?_toList]
  refine Referrals.forall₂_map (f := shiftDown k)
    (Referrals.forall₂_forget h.refines.tracks.exact.nodup h.owners hgone) fun o ho => ?_
  obtain ⟨-, hne⟩ := List.mem_filter.1 ho
  simp only [ne_eq, Bool.and_eq_true, decide_eq_true_eq] at hne
  exact ⟨hshift _ hne.1, hshift _ hne.2⟩

/-- A table has a switch if it has an owner. -/
theorem isSome_switchOf? (h : s.Follows d b) (hk : k ≤ b.listing.size) :
    (s.switchOf? k).isSome = (b.owners.of? k).isSome := by
  obtain ⟨t, ht⟩ := h.refines.exists_handle hk
  rw [← Referrals.isSome_switchOf? h.refines.tracks.exact.nodup h.owners ht, switchOf?, ht]
  rfl

/-- What a cell needs is what the instruction in it needs. -/
theorem repairAt_eq (h : s.Follows d b) (hb : b.Ready d.id) (hk : k < b.listing.size) :
    s.repairAt k = .ok (b.repairAt b.listing.survey k) := by
  have hle := Nat.le_of_lt hk
  obtain ⟨i, hi⟩ := b.listing.exists_instruction? hk
  have haddress : b.listing.survey.addresses[k]? = some (Code.address b.listing.instructions k) :=
    b.listing.getElem?_addresses hle
  have hcell : s.cell? k =
      some ⟨k, Code.address b.listing.instructions k, some i, b.listing.point k⟩ := by
    rw [← hi]
    exact h.refines.tracks.cell?_eq hle
  rw [Store.repairAt, hcell, Bound.repairAt, hi, haddress]
  cases i with
  | op o args =>
    cases args with
    | jump r label =>
      have hmem := List.mem_of_getElem? ((Listing.getElem?_instructions _ _).trans hi)
      have hissued := hb.listing.targets _ hmem label (List.mem_singleton_self label)
      obtain ⟨stop, hstop⟩ := hb.listing.exists_locate? hmem (List.mem_singleton_self label)
      have hlocate : (d.withListing b.listing).locate label = .ok stop :=
        Draft.locate_eq_ok_iff.2 ⟨hissued.1, hstop⟩
      have hsurvey : b.listing.survey.address? label =
          some (Code.address b.listing.instructions stop) := by
        rw [hb.listing.address?_survey hissued.1, hstop, Option.map_some]
      dsimp only [Bound.repairOf]
      rw [h.refines.cellOf_eq, hlocate, hsurvey]
      rfl
    | _ => rfl
  | data p =>
    have hnone : (s.switchOf? k).isNone = (b.owners.of? k).isNone := by
      rw [← Option.not_isSome, ← Option.not_isSome, h.isSome_switchOf? hle]
    have hnop : (0 < k && (s.instruction? (k - 1)).any Instruction.isNop) = b.followsNop k := by
      cases k with
      | zero => rfl
      | succ before =>
        rw [h.refines.tracks.instruction?_eq]
        rfl
    dsimp only [Bound.repairOf]
    rw [hnone, hnop]
    rfl

/-- Carrying out what a cell needs does so in the listing. -/
theorem repair (h : s.Follows d b) (hb : b.Ready d.id) (hk : k < b.listing.size) :
    (s.repair k (b.repairAt b.listing.survey k)).1 =
        (b.repair k (b.repairAt b.listing.survey k)).2 ∧
      (s.repair k (b.repairAt b.listing.survey k)).2.Follows d
        (b.repair k (b.repairAt b.listing.survey k)).1 := by
  have hdiagnosis := b.diagnosis hk
  generalize b.repairAt b.listing.survey k = action at hdiagnosis
  cases hdiagnosis with
  | plain => exact ⟨rfl, h⟩
  | near => exact ⟨rfl, h⟩
  | @far o r wider label stop hi _ _ _ =>
    refine ⟨rfl, h.replaceAt hk (Instruction.valid_goto wider label) fun t ht => ?_⟩
    exact hb.listing.targets _ (List.mem_of_getElem? hi) t ht
  | orphan => exact ⟨rfl, h.removeAt hk⟩
  | aligned => exact ⟨rfl, h⟩
  | gap => exact ⟨rfl, h.removeAt (by omega)⟩
  | tight =>
    exact ⟨rfl, h.insertAt hk Instruction.valid_nop fun t ht => absurd ht List.not_mem_nil⟩

/-- Removing what is neither a switch nor the table of one leaves the referrals as they are. -/
theorem referrals_removeCell (h : s.Follows d b) (hk : k < b.listing.size)
    (hne : ∀ o ∈ b.owners, o.table ≠ k ∧ o.switch ≠ k) :
    (s.removeCell k).2.referrals = s.referrals := by
  obtain ⟨arena, gone, places, hgone, hremove, -⟩ := h.refines.removeCell hk
  have hkept : b.owners.filter (fun o => o.table ≠ k && o.switch ≠ k) = b.owners := by
    rw [List.filter_eq_self]
    intro o ho
    simp [hne o ho]
  have hforget := Referrals.forall₂_forget h.refines.tracks.exact.nodup h.owners hgone
  rw [hkept] at hforget
  -- no fewer referrals are left than there were
  have hlength := hforget.length_eq.trans h.owners.length_eq.symm
  rw [hremove]
  exact List.filter_sublist.eq_of_length hlength

/-- No repair parts a table from its switch. -/
theorem referrals_repair (h : s.Follows d b) (hb : b.Ready d.id) (hk : k < b.listing.size) :
    (s.repair k (b.repairAt b.listing.survey k)).2.referrals = s.referrals := by
  have hdiagnosis := b.diagnosis hk
  generalize b.repairAt b.listing.survey k = action at hdiagnosis
  cases hdiagnosis with
  | plain => rfl
  | near => rfl
  | @far o r wider label stop hi _ _ _ =>
    obtain ⟨arena, hset, -⟩ := h.refines.setInstruction hk (Instruction.valid_goto wider label)
      fun t ht => hb.listing.targets _ (List.mem_of_getElem? hi) t ht
    rw [Store.repair, hset]
  | orphan hi _ hfree =>
    exact h.referrals_removeCell hk (hb.linked.owners_ne hi (Bound.switchTarget?_data _) hfree)
  | aligned => rfl
  | gap hbefore _ _ _ hnop =>
    subst hbefore
    exact h.referrals_removeCell (Bound.lt_size_of_getElem? hnop)
      (hb.linked.owners_ne hnop rfl (hb.linked.of?_of_nop hnop))
  | tight =>
    obtain ⟨arena, fresh, hinsert, -⟩ := h.refines.insertCell_of_lt hk Instruction.valid_nop
      fun t ht => absurd ht List.not_mem_nil
    rw [Store.repair, hinsert]

/-! ### All repairs -/

/-- Sweeping the rest of the cells sweeps the rest of the listing, and parts no table from its
switch. -/
theorem exists_sweepFrom (left : Nat) {index : Nat} (h : s.Follows d b) (hb : b.Ready d.id)
    (hsize : b.listing.size = index + left) :
    ∃ s', sweepFrom left index s = .ok (b.sweepFrom b.listing.survey left index).2 s' ∧
      s'.Follows d (b.sweepFrom b.listing.survey left index).1 ∧ s'.referrals = s.referrals := by
  induction left generalizing s b index with
  | zero =>
    rw [Bound.sweepFrom]
    exact ⟨s, rfl, h, rfl⟩
  | succ left ih =>
    have hindex : index < b.listing.size := by omega
    have hdiagnosis := b.diagnosis hindex
    obtain ⟨hnext, hrepair⟩ := h.repair hb hindex
    have hleft := hdiagnosis.size_repair hsize
    have hneeds : require (s.repairAt index) s = .ok (b.repairAt b.listing.survey index) s :=
      require_eq_ok_iff.2 ⟨h.repairAt_eq hb hindex, rfl⟩
    rw [sweepFrom, run_get_bind, run_bind_of_ok hneeds]
    by_cases hkeep : b.repairAt b.listing.survey index = .keep
    · rw [Bound.sweepFrom_of_keep hkeep, hkeep]
      exact ih h hb (by omega)
    · rw [Bound.sweepFrom_of_ne_keep hkeep]
      obtain ⟨s', hs', hfollows, hsame⟩ := ih hrepair ((hdiagnosis.mends hkeep).ready hb) hleft
      refine ⟨s', ?_, hfollows, hsame.trans (h.referrals_repair hb hindex)⟩
      rw [← hnext] at hs'
      generalize b.repairAt b.listing.survey index = action at hs' hkeep ⊢
      cases action with
      | keep => exact absurd rfl hkeep
      | _ => exact run_bind_of_ok (run_discard_of_ok hs') _

/-- Sweeping all cells sweeps the listing. -/
theorem exists_sweep (h : s.Follows d b) (hb : b.Ready d.id) :
    ∃ s', sweep s = .ok b.sweep.2 s' ∧ s'.Follows d b.sweep.1 ∧ s'.referrals = s.referrals := by
  have hsize : s.size = b.listing.size := h.refines.tracks_size
  rw [sweep, run_get_bind, hsize]
  exact h.exists_sweepFrom _ hb (Nat.zero_add _).symm

/-- Sweeping the cells again and again sweeps the listing again and again. -/
theorem exists_settleWithin (limit : Nat) (h : s.Follows d b) (hb : b.Sound d.id) :
    ∃ s', settleWithin limit s = .ok ⟨⟩ s' ∧ s'.Follows d (b.settleWithin limit) ∧
      s'.referrals = s.referrals := by
  induction limit generalizing s b with
  | zero => exact ⟨s, rfl, h, rfl⟩
  | succ limit ih =>
    obtain ⟨s', hs', hsweep, hsame⟩ := h.exists_sweep hb.ready
    rw [settleWithin, run_bind_of_ok hs', Bound.settleWithin_succ]
    cases b.sweep.2 with
    | true =>
      obtain ⟨s'', hs'', hfollows, hsame'⟩ :=
        ih hsweep (Bound.sound_of_mends (Bound.mends_sweep hb.ready).1 hb)
      exact ⟨s'', hs'', hfollows, hsame'.trans hsame⟩
    | false => exact ⟨s', rfl, hsweep, hsame⟩

/-- The jumps allow for as many sweeps in both. -/
theorem countJumps_eq (h : s.Follows d b) (reach : Reach) :
    s.countJumps reach = b.countJumps reach := by
  rw [countJumps, h.refines.tracks.instructions_eq]
  rfl

/-- Settling the cells settles the listing, and parts no table from its switch. -/
theorem exists_settle (h : s.Follows d b) (hb : b.Sound d.id) :
    ∃ s', settle s = .ok ⟨⟩ s' ∧ s'.Follows d b.settle ∧ s'.referrals = s.referrals := by
  rw [settle, run_get_bind, h.countJumps_eq, h.countJumps_eq]
  exact h.exists_settleWithin _ hb

/-- A store that has been settled is relaxed. -/
theorem relaxed (h : s.Follows d b) : Refines { s with dirty := false }
    { d with listing := b.listing, owners? := some b.owners } where
  id := h.refines.id
  registers := h.refines.registers
  tries := h.refines.tries
  dirty := rfl
  tracks := { h.refines.tracks with exact := h.refines.tracks.exact.congr rfl fun _ => Iff.rfl }
  coherent := h.refines.coherent
  live := h.refines.live
  owners owners howners := by
    obtain rfl := Option.some.inj howners
    exact h.owners

end Follows

/-- Once its switches are bound, a store follows the listing of the draft with the owners found there.
-/
theorem Refines.exists_follows_of_bindTables (h : s.Refines d) (hd : d.Sound)
    (howners? : d.owners? = none) (hok : bindTables s = .ok ⟨⟩ s') :
    ∃ owners, d.listing.findOwners d.locate = .ok owners ∧ s'.Refines d ∧
      s'.Follows d ⟨d.listing, owners⟩ ∧ Bound.Sound ⟨d.listing, owners⟩ d.id := by
  have hbinding := h.binding_bindTables howners?
  rw [hok] at hbinding
  generalize hfind : d.listing.findOwners d.locate = found at hbinding
  cases hbinding with
  | @ok _ owners h' howners =>
    have hsame : d.withListing d.listing = d := by rw [Draft.withListing, ← howners?]
    exact ⟨owners, rfl, h', ⟨hsame.symm ▸ h', howners⟩, hd.bound hfind⟩

/-- Binding the switches and settling, once all labels are known to be placed. -/
theorem agree_bindTables_settle (h : s.Refines d) (hd : d.Sound) (howners? : d.owners? = none) :
    Agree Refines
      ((do bindTables; settle; modify fun s => { s with dirty := false } : StoreM PUnit) s)
      ((do
        let owners ← Draft.require (d.listing.findOwners d.locate)
        set { d with
          listing := (Bound.settle ⟨d.listing, owners⟩).listing
          owners? := some (Bound.settle ⟨d.listing, owners⟩).owners } : DraftM PUnit) d) := by
  have hbinding := h.binding_bindTables howners?
  generalize hbind : bindTables s = r at hbinding
  generalize hfind : d.listing.findOwners d.locate = y at hbinding
  cases hbinding with
  | error e h' =>
    rw [run_bind_of_error hbind]
    exact .error e h'
  | @ok s₁ owners h' howners =>
    have hsame : d.withListing d.listing = d := by rw [Draft.withListing, ← howners?]
    have hfollows : s₁.Follows d ⟨d.listing, owners⟩ := ⟨hsame.symm ▸ h', howners⟩
    obtain ⟨s₂, hs₂, hsettled, -⟩ := hfollows.exists_settle (hd.bound hfind)
    rw [run_bind_of_ok hbind, run_bind_of_ok hs₂]
    exact .ok _ hsettled.relaxed

/-- Relaxing a store that refines a sound draft does what relaxing the draft does. -/
theorem agree_relax (h : s.Refines d) (hd : d.Sound) : Agree Refines (relax s) (Draft.relax d) := by
  have hdirty : s.dirty = d.owners?.isNone := h.dirty
  rw [relax, run_get_bind, hdirty]
  cases howners? : d.owners? with
  | some owners =>
    -- nothing is left to do
    rw [Draft.relax_of_relaxed_eq_ok (Draft.relaxed_of_owners?_eq_some howners?)]
    exact .ok _ h
  | none =>
    have hrelax : Draft.relax d = (do
        Draft.require s.checkPlaced
        let owners ← Draft.require (d.listing.findOwners d.locate)
        set { d with
          listing := (Bound.settle ⟨d.listing, owners⟩).listing
          owners? := some (Bound.settle ⟨d.listing, owners⟩).owners } : DraftM PUnit) d := by
      have hrelaxed : d.relaxed = (do
          s.checkPlaced
          let owners ← d.listing.findOwners d.locate
          return { d with
            listing := (Bound.settle ⟨d.listing, owners⟩).listing
            owners? := some (Bound.settle ⟨d.listing, owners⟩).owners }) := by
        rw [Draft.relaxed, howners?, h.checkPlaced_eq, bind_assoc]
        rfl
      rw [Draft.relax, run_get_bind, hrelaxed]
      cases s.checkPlaced with
      | error e => rfl
      | ok => cases d.listing.findOwners d.locate <;> rfl
    rw [hrelax]
    exact agree_require_bind rfl h fun _ _ => agree_bindTables_settle h hd howners?

end Store

end Dalvik
