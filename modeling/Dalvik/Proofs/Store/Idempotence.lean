import Dalvik.Proofs.Draft.Faults
import Dalvik.Proofs.Relaxation.Order
import Dalvik.Proofs.Store.Reachability

/-!
# Relaxing twice

A store that has been relaxed stays as it is when it is relaxed once more, even if it is made to
believe that there is something to do (`Store.relax_of_relax`).  Binding then changes nothing but the
referrals, and these say which cells the owners are; the owners that are found are the same, in the
same order.  Settling finds nothing to repair.
-/

namespace Dalvik

/-- The referrals are determined by the owners. -/
theorem Referrals.eq_of_forall₂ {order : Array Handle} {referrals referrals' : Referrals}
    {owners : Owners} (h : List.Forall₂ (Referral.Of order) referrals owners)
    (h' : List.Forall₂ (Referral.Of order) referrals' owners) : referrals = referrals' := by
  induction h generalizing referrals' with
  | nil => rw [List.forall₂_nil_right_iff.1 h']
  | @cons r o referrals owners hro _ ih =>
    obtain ⟨r', referrals', hro', hrest', rfl⟩ := List.forall₂_cons_right_iff.1 h'
    obtain ⟨t, g⟩ := r
    obtain ⟨t', g'⟩ := r'
    obtain rfl : t = t' := Option.some.inj (hro.1.symm.trans hro'.1)
    obtain rfl : g = g' := Option.some.inj (hro.2.symm.trans hro'.2)
    rw [ih hrest']

namespace Store

variable {s s' : Store} {d : Draft} {b : Bound} {k : Nat}

/-! ### Binding changes the referrals -/

/-- Nothing but the referrals differs. -/
def SameButReferrals (s s' : Store) : Prop := s' = { s with referrals := s'.referrals }

theorem SameButReferrals.trans {s₁ s₂ s₃ : Store} (h : s₁.SameButReferrals s₂)
    (h' : s₂.SameButReferrals s₃) : s₁.SameButReferrals s₃ := by
  rw [SameButReferrals] at h h' ⊢
  rw [h', h]

theorem sameButReferrals_refer (s : Store) (table switch : Nat) :
    s.SameButReferrals (s.refer table switch) := by
  rw [refer]
  split <;> rfl

theorem sameButReferrals_bindSwitch (hok : bindSwitch k s = .ok ⟨⟩ s') : s.SameButReferrals s' := by
  rw [bindSwitch, run_get_bind] at hok
  cases hi : s.instruction? k with
  | none =>
    rw [hi] at hok
    cases hok
    rfl
  | some i =>
    rw [hi] at hok
    dsimp only at hok
    cases hlabel : i.switchTarget? with
    | none =>
      rw [hlabel] at hok
      cases hok
      rfl
    | some label =>
      rw [hlabel] at hok
      obtain ⟨table, s₁, hfind, hrefer⟩ := run_bind_eq_ok_iff.1 hok
      obtain ⟨-, rfl⟩ := require_eq_ok_iff.1 hfind
      rw [run_modify_bind] at hrefer
      split at hrefer
      · cases hrefer
      · cases hrefer
        exact sameButReferrals_refer _ _ _

theorem sameButReferrals_forM (positions : List Nat)
    (hok : positions.forM bindSwitch s = .ok ⟨⟩ s') : s.SameButReferrals s' := by
  induction positions generalizing s with
  | nil =>
    cases hok
    rfl
  | cons k rest ih =>
    obtain ⟨⟨⟩, s₁, hfirst, hrest⟩ := run_bind_eq_ok_iff.1 hok
    exact (sameButReferrals_bindSwitch hfirst).trans (ih hrest)

theorem sameButReferrals_bindTables (hok : bindTables s = .ok ⟨⟩ s') : s.SameButReferrals s' := by
  have hstart : s.SameButReferrals { s with referrals := [] } := rfl
  exact hstart.trans (sameButReferrals_forM _ hok)

/-! ### Settling what is settled -/

/-- A sweep passes by what needs nothing. -/
theorem sweepFrom_add_of_keep (left passed : Nat) {index : Nat}
    (h : ∀ k, index ≤ k → k < index + passed → s.repairAt k = .ok .keep) :
    sweepFrom (left + passed) index s = sweepFrom left (index + passed) s := by
  induction passed generalizing index with
  | zero => rfl
  | succ passed ih =>
    rw [← Nat.add_assoc left, sweepFrom, run_get_bind, h index (Nat.le_refl _) (by omega),
      Nat.add_comm passed 1, ← Nat.add_assoc index]
    exact ih fun k hk hlt => h k (by omega) (by omega)

/-- A sweep that finds nothing to do does nothing. -/
theorem sweepFrom_of_keep (left : Nat) {index : Nat}
    (h : ∀ k, index ≤ k → k < index + left → s.repairAt k = .ok .keep) :
    sweepFrom left index s = .ok false s := by
  have hpassed := sweepFrom_add_of_keep 0 left h
  rwa [Nat.zero_add] at hpassed

/-- Where nothing is left to repair, settling does nothing. -/
theorem Follows.settle_of_settled (h : s.Follows d b) (hb : b.Sound d.id) (hsettled : b.Settled) :
    settle s = .ok ⟨⟩ s := by
  have hsize : s.size = b.listing.size := h.refines.tracks_size
  have hsweep : sweep s = .ok false s := by
    rw [sweep, run_get_bind]
    refine sweepFrom_of_keep s.size fun k _ hk => ?_
    have hk' : k < b.listing.size := by omega
    rw [h.repairAt_eq hb.ready hk', hsettled k hk']
  rw [settle, run_get_bind, Nat.add_assoc, Nat.add_comm 2, settleWithin, run_bind_of_ok hsweep]
  rfl

/-! ### Relaxing -/

/-- What is done with a store that needs relaxation. -/
theorem relax_of_dirty (hdirty : s.dirty = true) : relax s = (do
    require s.checkPlaced
    bindTables
    settle
    modify fun s => { s with dirty := false } : StoreM PUnit) s := by
  rw [relax, run_get_bind, hdirty]
  rfl

/-- What relaxing a store that needs it comes down to. -/
theorem relax_eq_ok_iff (hdirty : s.dirty = true) : relax s = .ok ⟨⟩ s' ↔
    s.checkPlaced = .ok () ∧ ∃ s₁ s₂, bindTables s = .ok ⟨⟩ s₁ ∧ settle s₁ = .ok ⟨⟩ s₂ ∧
      s' = { s₂ with dirty := false } := by
  rw [relax_of_dirty hdirty]
  constructor
  · intro h
    obtain ⟨⟨⟩, _, hcheck, h₁⟩ := run_bind_eq_ok_iff.1 h
    obtain ⟨hplaced, rfl⟩ := require_eq_ok_iff.1 hcheck
    obtain ⟨⟨⟩, s₁, hbind, h₂⟩ := run_bind_eq_ok_iff.1 h₁
    obtain ⟨⟨⟩, s₂, hsettle, h₃⟩ := run_bind_eq_ok_iff.1 h₂
    cases h₃
    exact ⟨hplaced, s₁, s₂, hbind, hsettle, rfl⟩
  · rintro ⟨hplaced, s₁, s₂, hbind, hsettle, rfl⟩
    rw [hplaced]
    rw [run_bind_of_ok (require_eq_ok_iff.2 ⟨rfl, rfl⟩), run_bind_of_ok hbind,
      run_bind_of_ok hsettle]
    rfl

/-- A store can be made to believe that there is something to do. -/
theorem Refines.forced (h : s.Refines d) :
    Refines { s with dirty := true } { d with owners? := none } where
  id := h.id
  registers := h.registers
  tries := h.tries
  dirty := rfl
  tracks := { h.tracks with exact := h.tracks.exact.congr rfl fun _ => Iff.rfl }
  coherent := h.coherent
  live := h.live
  owners owners howners := by cases howners

/-- A store in need of relaxation that is relaxed has been settled, the owners being in order. -/
theorem Refines.exists_follows_of_relax (h : s.Refines d) (hd : d.Sound) (howners? : d.owners? = none)
    (hok : relax s = .ok ⟨⟩ s') :
    ∃ (s₂ : Store) (b : Bound), s₂.Follows d b ∧ (d.withListing b.listing).Sound ∧ b.Sound d.id ∧
      b.Settled ∧ b.owners.Sorted ∧ s' = { s₂ with dirty := false } := by
  have hdirty := h.dirty_eq_true_iff.2 howners?
  obtain ⟨-, s₁, s₂, hbind, hsettle, hs'⟩ := (relax_eq_ok_iff hdirty).1 hok
  obtain ⟨owners, hfind, -, hfollows, hbound⟩ := h.exists_follows_of_bindTables hd howners? hbind
  obtain ⟨s₂', hsettle', hsettled, -⟩ := hfollows.exists_settle hbound
  rw [hsettle'] at hsettle
  cases hsettle
  have hrelaxed : d.relaxed = .ok { d with
      listing := (Bound.settle ⟨d.listing, owners⟩).listing
      owners? := some (Bound.settle ⟨d.listing, owners⟩).owners } := by
    rw [hd.relaxed_eq howners?, hfind]
    rfl
  exact ⟨_, _, hsettled, (hd.relaxed hrelaxed).1.forced, Bound.sound_settle hbound,
    Bound.settled_settle hbound,
    Bound.sorted_of_mends (Bound.mends_settle hbound) (Listing.sorted_findOwners hfind), hs'⟩

/-- A store that has been settled is relaxed without being changed. -/
theorem Follows.relax_of_settled (h : s.Follows d b) (hd : (d.withListing b.listing).Sound)
    (hb : b.Sound d.id) (hsettled : b.Settled) (hsorted : b.owners.Sorted) :
    relax s = .ok ⟨⟩ { s with dirty := false } := by
  have hdirty : s.dirty = true := h.refines.dirty
  have hplaced : s.checkPlaced = .ok () := by
    obtain ⟨hinstructions, htries⟩ := hd.placed
    rw [h.refines.checkPlaced_eq, hinstructions]
    exact htries
  have hfind : b.listing.findOwners (d.withListing b.listing).locate = .ok b.owners := by
    refine hb.linked.findOwners_eq hsorted (fun _ _ hk => (Draft.locate_eq_ok_iff.1 hk).2)
      fun i hi label hlabel k hk => ?_
    have hmem := Instruction.mem_targets_of_switchTarget? hlabel
    exact Draft.locate_eq_ok_iff.2 ⟨(hb.listing.targets i hi label hmem).1, hk⟩
  have hbinding := h.refines.binding_bindTables rfl
  have hbind : bindTables s = .ok ⟨⟩ s := by
    generalize hr : bindTables s = r at hbinding
    change Binding _ r (b.listing.findOwners (d.withListing b.listing).locate) at hbinding
    rw [hfind] at hbinding
    cases hbinding with
    | @ok s₁ _ h₁ howners =>
      -- the owners are the same, and hence the referrals
      have hsame := sameButReferrals_bindTables hr
      have horder : s₁.order = s.order := by rw [hsame]
      rw [horder] at howners
      rw [SameButReferrals, Referrals.eq_of_forall₂ howners h.owners] at hsame
      rw [hsame]
  exact (relax_eq_ok_iff hdirty).2
    ⟨hplaced, s, s, hbind, h.settle_of_settled hb hsettled, rfl⟩

/-- If relaxation of a reachable store succeeds, whether it is needed or not, a second relaxation
succeeds as well and leaves everything in the store as it is. -/
theorem relax_of_relax (h : s.Reachable) (hok : relax { s with dirty := true } = .ok ⟨⟩ s') :
    relax { s' with dirty := true } = .ok ⟨⟩ s' := by
  obtain ⟨d, hd, hrefines⟩ := h.exists_refines
  obtain ⟨s₂, b, hfollows, hsound, hb, hsettled, hsorted, rfl⟩ :=
    hrefines.forced.exists_follows_of_relax hd.sound.forced rfl hok
  have hdirty : s₂.dirty = true := hfollows.refines.dirty
  have hsame : { s₂ with dirty := true } = s₂ := by rw [← hdirty]
  change relax { s₂ with dirty := true } = _
  rw [hsame]
  exact hfollows.relax_of_settled hsound hb hsettled hsorted

/-- The sample is relaxed already; it is relaxed twice more, and nothing comes of it. -/
theorem relax_of_relax_sample :
    ∃ s', sample.Reachable ∧ relax { sample with dirty := true } = .ok ⟨⟩ s' ∧
      relax { s' with dirty := true } = .ok ⟨⟩ s' := by
  have hsample : sample.Reachable := (Reachable.new 0 1).run _
  obtain ⟨⟨⟩, s', hs'⟩ := exists_of_succeeds (x := relax) (s := { sample with dirty := true })
    (by decide +kernel)
  exact ⟨s', hsample, hs', relax_of_relax hsample hs'⟩

end Store

end Dalvik
