import Dalvik.Proofs.Store.Simulation
import Dalvik.Proofs.Draft.Soundness
import Dalvik.Store.Relaxation

/-!
# Binding the switches of a store

Before a store is relaxed, its labels are looked up and its switches are bound to their tables.
Lookups have the same outcome as in the draft, so the checks agree.  Binding gives referrals for
exactly the owners that are found, or fails with the same error (`Store.Binding`).
-/

namespace Dalvik

/-! ### Referrals and owners -/

namespace Referrals

variable {order order' : Array Handle} {referrals : Referrals} {owners : Owners} {k : Nat}

/-- A table is looked up by its handle as it is by its position. -/
theorem switchOf?_eq (hnodup : order.toList.Nodup)
    (h : List.Forall₂ (Referral.Of order) referrals owners) {t : Handle}
    (ht : order[k]? = some t) :
    referrals.switchOf? t = (owners.of? k).bind (order[·]?) := by
  induction h with
  | nil => rfl
  | @cons r o referrals owners hro _ ih =>
    by_cases hk : o.table = k
    · have htable : r.table = t := Option.some.inj (hro.1.symm.trans (hk ▸ ht))
      rw [switchOf?, Owners.of?, List.find?_cons_of_pos (by simpa using htable),
        List.find?_cons_of_pos (by simpa using hk)]
      exact hro.2.symm
    · have htable : r.table ≠ t := by
        rintro rfl
        have hlt : o.table < order.toList.length := by
          simpa using (Array.getElem?_eq_some_iff.1 hro.1).1
        have hsame : order.toList[o.table]? = order.toList[k]? := by
          rw [Array.getElem?_toList, Array.getElem?_toList, hro.1, ht]
        exact hk ((List.getElem?_inj hlt hnodup).1 hsame)
      rw [switchOf?, Owners.of?, List.find?_cons_of_neg (by simpa using htable),
        List.find?_cons_of_neg (by simpa using hk)]
      exact ih

/-- A table is taken in both or in neither. -/
theorem isSome_switchOf? (hnodup : order.toList.Nodup)
    (h : List.Forall₂ (Referral.Of order) referrals owners) {t : Handle}
    (ht : order[k]? = some t) : (referrals.switchOf? t).isSome = (owners.of? k).isSome := by
  rw [switchOf?_eq hnodup h ht]
  cases hof : owners.of? k with
  | none => rfl
  | some switch =>
    obtain ⟨o, ho, rfl⟩ := Option.map_eq_some_iff.1 hof
    obtain ⟨r, -, hro⟩ := forall₂_exists_left h (List.mem_of_find?_eq_some ho)
    rw [Option.bind_some, hro.2]
    rfl

/-- A table that is not taken gets its referral behind the others. -/
theorem insert_of_eq_none {t g : Handle} (h : referrals.switchOf? t = none) :
    referrals.insert t g = referrals ++ [⟨t, g⟩] := by
  rw [insert, h]
  rfl

/-- Nothing but the table and its switch comes to be mentioned. -/
theorem forall_mem_insert {t g : Handle} {p : Handle → Prop} (ht : p t) (hg : p g)
    (h : ∀ r ∈ referrals, p r.table ∧ p r.switch) :
    ∀ r ∈ referrals.insert t g, p r.table ∧ p r.switch := by
  intro r hr
  rw [insert] at hr
  split at hr
  · obtain ⟨r', hr', rfl⟩ := List.mem_map.1 hr
    split
    · exact ⟨ht, hg⟩
    · exact h r' hr'
  · rcases List.mem_append.1 hr with hr | hr
    · exact h r hr
    · obtain rfl := List.mem_singleton.1 hr
      exact ⟨ht, hg⟩

/-- If the cells are renumbered, so are the owners. -/
theorem forall₂_map {f : Nat → Nat} (h : List.Forall₂ (Referral.Of order) referrals owners)
    (hf : ∀ o ∈ owners, order'[f o.table]? = order[o.table]? ∧
      order'[f o.switch]? = order[o.switch]?) :
    List.Forall₂ (Referral.Of order') referrals
      (owners.map fun o => ⟨f o.table, f o.switch⟩) := by
  induction h with
  | nil => exact .nil
  | cons hro _ ih =>
    obtain ⟨htable, hswitch⟩ := hf _ List.mem_cons_self
    exact .cons ⟨htable.trans hro.1, hswitch.trans hro.2⟩
      (ih fun o ho => hf o (List.mem_cons_of_mem _ ho))

/-- Forgetting a cell is forgetting its position. -/
theorem forall₂_forget (hnodup : order.toList.Nodup)
    (h : List.Forall₂ (Referral.Of order) referrals owners) {gone : Handle}
    (hgone : order[k]? = some gone) :
    List.Forall₂ (Referral.Of order) (referrals.forget gone)
      (owners.filter fun o => o.table ≠ k && o.switch ≠ k) := by
  have hiff : ∀ {j : Nat} {g : Handle}, order[j]? = some g → (g = gone ↔ j = k) := by
    intro j g hj
    constructor
    · rintro rfl
      have hlt : j < order.toList.length := by
        simpa using (Array.getElem?_eq_some_iff.1 hj).1
      have hsame : order.toList[j]? = order.toList[k]? := by
        rw [Array.getElem?_toList, Array.getElem?_toList, hj, hgone]
      exact (List.getElem?_inj hlt hnodup).1 hsame
    · rintro rfl
      exact Option.some.inj (hj.symm.trans hgone)
  induction h with
  | nil => exact .nil
  | @cons r o referrals owners hro _ ih =>
    have hsame : (r.table ≠ gone && r.switch ≠ gone) = (o.table ≠ k && o.switch ≠ k) := by
      simp only [ne_eq, hiff hro.1, hiff hro.2]
    rw [forget, List.filter_cons, List.filter_cons, hsame]
    split
    · exact .cons hro ih
    · exact ih

end Referrals

namespace Store

variable {s s' : Store} {d : Draft} {b : Bound} {l : Listing} {k : Nat} {label : Label}

namespace Refines

/-! ### Looking up labels -/

/-- A label stands at the cell for its position. -/
theorem cellOf_eq (h : s.Refines d) (label : Label) :
    s.cellOf label = (d.locate label).map d.listing.cell := by
  rw [cellOf, Draft.locate, Draft.locateIn, h.id]
  by_cases hdraft : label.draft = d.id
  · rw [if_pos hdraft, if_pos hdraft]
    have hlabel : (⟨s.id, label.number⟩ : Label) = label := by rw [h.id, ← hdraft]
    rcases Nat.lt_or_ge label.number d.listing.issued with hlt | hge
    · have hplace := h.tracks.places label.number hlt
      have hlocate : d.listing.positions[label.number]? = some (d.listing.locate? label) := by
        rw [Listing.locate?, Array.getElem?_eq_getElem (by simpa using hlt)]
        rfl
      rw [hplace, hlabel, hlocate]
      cases hk : d.listing.locate? label with
      | none => rfl
      | some k =>
        have hcell := h.tracks.cell?_eq (h.coherent.locate?_le_size hdraft hk)
        obtain ⟨g, hg, hget⟩ := Option.map_eq_some_iff.1 hcell
        rw [Option.bind_some, hg]
        exact congrArg Except.ok hget
    · rw [Array.getElem?_eq_none (by rwa [h.tracks.issued]),
        Array.getElem?_eq_none (by simpa using hge)]
      rfl
  · rw [if_neg hdraft, if_neg hdraft]
    rfl

/-- Whether a label has been placed does not depend on where it is looked up. -/
theorem discard_cellOf_eq (h : s.Refines d) (label : Label) :
    (discard (s.cellOf label) : Except Error Unit) = discard (d.locate label) := by
  rw [h.cellOf_eq]
  cases d.locate label <;> rfl

theorem checkPlaced_eq (h : s.Refines d) : s.checkPlaced = (do
    d.listing.instructions.forM fun i => i.targets.forM fun label => discard (d.locate label)
    d.tries.toList.forM fun entry => entry.places.forM fun label => discard (d.locate label)) := by
  have hcheck : (fun label => (discard (s.cellOf label) : Except Error Unit)) =
      fun label => discard (d.locate label) := funext h.discard_cellOf_eq
  rw [checkPlaced, hcheck, h.tracks.instructions_eq, h.tries]

/-! ### Binding switches to their tables -/

/-- What is known about the cells does not depend on the referrals. -/
theorem withReferrals (h : s.Refines d) (hdirty : d.owners? = none) {referrals : Referrals}
    (hlive : ∀ r ∈ referrals, r.table ∈ s.order.toList ∧ r.switch ∈ s.order.toList) :
    Refines { s with referrals := referrals } d where
  id := h.id
  registers := h.registers
  tries := h.tries
  dirty := h.dirty
  tracks := { h.tracks with exact := h.tracks.exact.congr rfl fun _ => Iff.rfl }
  coherent := h.coherent
  live := hlive
  owners owners howners := by
    rw [hdirty] at howners
    cases howners

/-- The position of a table is found as in the listing, where it is then seen whether the table is
taken. -/
theorem findTable_eq (h : s.Refines d) (owners : Owners) (switch : Nat) (opcode : Opcode)
    (label : Label) :
    (d.locate label >>= d.listing.findTable owners switch opcode) =
      (s.findTable switch opcode label >>= fun table =>
        if (owners.of? table).isSome then .error (.ambiguousPayload table)
        else .ok ⟨table, switch⟩) := by
  rw [Store.findTable, h.cellOf_eq]
  cases hlocate : d.locate label with
  | error e => rfl
  | ok target =>
    obtain ⟨hdraft, hposition⟩ := Draft.locate_eq_ok_iff.1 hlocate
    have hle := h.coherent.locate?_le_size hdraft hposition
    have hsize : s.size = d.listing.size := h.tracks_size
    change d.listing.findTable owners switch opcode target =
      ((if target = s.size then _ else _) >>= _)
    rw [hsize, h.tracks.instructions_eq, h.tracks.instruction?_eq, Listing.findTable]
    rcases Nat.lt_or_eq_of_le hle with hlt | rfl
    · rw [if_neg (Nat.not_le_of_lt hlt), if_neg (Nat.ne_of_lt hlt)]
      have hindex : (d.listing.cell target).index = target := rfl
      rw [hindex]
      generalize Listing.skipNops target (d.listing.instructions.drop target) = table
      dsimp only
      cases d.listing.instruction? table with
      | none => rfl
      | some i =>
        cases i with
        | op o args => rfl
        | data p =>
          dsimp only
          by_cases hkind : p.opcode = opcode.table
          · rw [if_pos hkind, if_neg (not_not.2 hkind)]
            rfl
          · rw [if_neg hkind, if_pos hkind]
            rfl
    · rw [if_pos (Nat.le_refl _), if_pos rfl]
      rfl

/-- A table that is found is an instruction. -/
theorem lt_size_of_findTable (h : s.Refines d) {switch table : Nat} {opcode : Opcode}
    (hok : s.findTable switch opcode label = .ok table) : table < d.listing.size := by
  have hfound : d.locate label >>= d.listing.findTable [] switch opcode = .ok ⟨table, switch⟩ := by
    rw [h.findTable_eq, hok]
    rfl
  obtain ⟨target, -, hfind⟩ := bind_eq_ok_iff.1 hfound
  unfold Listing.findTable at hfind
  split at hfind
  · cases hfind
  · dsimp only at hfind
    split at hfind
    · next p hp =>
      split at hfind
      · cases hfind
      · split at hfind
        · cases hfind
        · obtain ⟨rfl, -⟩ := Owner.mk.inj (Except.ok.inj hfind)
          rw [← Listing.getElem?_instructions] at hp
          simpa using (List.getElem?_eq_some_iff.1 hp).1
    · cases hfind

/-- The cell at a position is listed. -/
theorem exists_handle (h : s.Refines d) (hk : k ≤ d.listing.size) : ∃ g, s.order[k]? = some g := by
  have hlt : k < s.order.size := by
    rw [h.tracks.size_order]
    exact Nat.lt_succ_of_le hk
  exact ⟨_, Array.getElem?_eq_getElem hlt⟩

end Refines

/-- Binding switches to their tables has come to the same outcome as finding the owners. -/
inductive Binding (d : Draft) : EStateM.Result Error Store PUnit → Except Error Owners → Prop
  /-- The referrals are the owners. -/
  | ok {s : Store} {owners : Owners} (h : s.Refines d)
      (howners : List.Forall₂ (Referral.Of s.order) s.referrals owners) :
      Binding d (.ok ⟨⟩ s) (.ok owners)
  /-- Both have failed. -/
  | error {s : Store} (e : Error) (h : s.Refines d) : Binding d (.error e s) (.error e)

theorem Binding.bind {x f : StoreM PUnit} {y : Except Error Owners}
    {g : Owners → Except Error Owners} (h : Binding d (x s) y)
    (hrest : ∀ s' owners, s'.Refines d →
      List.Forall₂ (Referral.Of s'.order) s'.referrals owners → Binding d (f s') (g owners)) :
    Binding d ((x >>= fun _ => f) s) (y >>= g) := by
  generalize hx : x s = r at h
  cases h with
  | ok h howners =>
    rw [run_bind_of_ok hx]
    exact hrest _ _ h howners
  | error e h =>
    rw [run_bind_of_error hx]
    exact .error e h

/-- Binding one switch. -/
theorem Refines.binding_bindSwitch (h : s.Refines d) (hdirty : d.owners? = none) {owners : Owners}
    (howners : List.Forall₂ (Referral.Of s.order) s.referrals owners) {i : Instruction Label}
    (hi : d.listing.instructions[k]? = some i) :
    Binding d (bindSwitch k s) (d.listing.bindStep d.locate owners (i, k)) := by
  have hinstruction : s.instruction? k = some i := by
    rw [h.tracks.instruction?_eq, ← Listing.getElem?_instructions, hi]
  rw [bindSwitch, run_get_bind, hinstruction, Listing.bindStep]
  dsimp only
  cases i.switchTarget? with
  | none => exact .ok h howners
  | some label =>
    have hstep : (do
        let owner ← d.listing.findTable owners k i.opcode (← d.locate label)
        return owners ++ [owner]) =
        ((d.locate label >>= d.listing.findTable owners k i.opcode) >>= fun owner =>
          .ok (owners ++ [owner]) : Except Error Owners) := by
      cases d.locate label <;> rfl
    dsimp only
    rw [hstep, h.findTable_eq]
    cases hfind : s.findTable k i.opcode label with
    | error e => exact .error e h
    | ok table =>
      obtain ⟨t, ht⟩ := h.exists_handle (Nat.le_of_lt (h.lt_size_of_findTable hfind))
      obtain ⟨g, hg⟩ := h.exists_handle (k := k) (by
        simpa using Nat.le_of_lt (List.getElem?_eq_some_iff.1 hi).1)
      have hrefer : s.refer table k = { s with referrals := s.referrals.insert t g } := by
        rw [refer, ht, hg]
      have hswitch : s.switchOf? table = s.referrals.switchOf? t := by
        rw [switchOf?, ht]
        rfl
      have htaken := Referrals.isSome_switchOf? h.tracks.exact.nodup howners ht
      have hrefines : (s.refer table k).Refines d := by
        rw [hrefer]
        exact h.withReferrals hdirty (Referrals.forall_mem_insert
          (Array.mem_toList_iff.2 (Array.mem_of_getElem? ht))
          (Array.mem_toList_iff.2 (Array.mem_of_getElem? hg)) h.live)
      change Binding d ((if (s.switchOf? table).isSome then throw (.ambiguousPayload table)
        else pure ⟨⟩ : StoreM PUnit) (s.refer table k)) ((if _ then _ else _) >>= _)
      rw [hswitch, htaken]
      cases hof : owners.of? table with
      | some switch => exact .error _ hrefines
      | none =>
        rw [hof, Option.isSome_none, Option.isSome_eq_false_iff, Option.isNone_iff_eq_none]
          at htaken
        refine .ok hrefines ?_
        rw [hrefer, Referrals.insert_of_eq_none htaken]
        exact List.rel_append howners (.cons ⟨ht, hg⟩ .nil)

/-- Binding the switches from a position on. -/
theorem Refines.binding_forM (hdirty : d.owners? = none) (rest : List (Instruction Label)) {n : Nat}
    (hrest : d.listing.instructions.drop n = rest) {s : Store} (h : s.Refines d) {owners : Owners}
    (howners : List.Forall₂ (Referral.Of s.order) s.referrals owners) :
    Binding d ((List.range' n rest.length).forM bindSwitch s)
      ((rest.zipIdx n).foldlM (d.listing.bindStep d.locate) owners) := by
  induction rest generalizing n s owners with
  | nil => exact .ok h howners
  | cons i rest ih =>
    have hi : d.listing.instructions[n]? = some i := by
      rw [← List.head?_drop, hrest, List.head?_cons]
    have hdrop : d.listing.instructions.drop (n + 1) = rest := by
      rw [← List.tail_drop, hrest, List.tail_cons]
    rw [List.zipIdx_cons, List.foldlM_cons, List.length_cons, List.range'_succ]
    exact (h.binding_bindSwitch hdirty howners hi).bind fun s' owners' h' howners' =>
      ih hdrop h' howners'

/-- Binding all switches. -/
theorem Refines.binding_bindTables (h : s.Refines d) (hdirty : d.owners? = none) :
    Binding d (bindTables s) (d.listing.findOwners d.locate) := by
  have hstart : Refines { s with referrals := [] } d :=
    h.withReferrals hdirty fun r hr => absurd hr List.not_mem_nil
  have hsize : s.size = d.listing.instructions.length := by
    rw [Listing.length_instructions]
    exact h.tracks_size
  have hrun : bindTables s =
      (List.range' 0 d.listing.instructions.length).forM bindSwitch { s with referrals := [] } := by
    rw [← hsize, ← List.range_eq_range']
    rfl
  rw [hrun]
  exact binding_forM hdirty d.listing.instructions rfl hstart .nil

end Store

end Dalvik
