import Dalvik.Proofs.Relaxation.Widening
import Dalvik.Proofs.Store.Consistency
import Dalvik.Proofs.Store.Reading

/-!
# What becomes of cells during relaxation

A cell keeps its handle while a store is relaxed, and no handle is handed out twice, so that a cell
can be told from others later on.  Only nops and the tables of no switch are removed.  The cells that
are left are in the same order as before, they hold the same but for longer jumps, and labels stand
between the same cells (`Store.Becomes`).  Every repair sees to this (`Store.Follows.becomes_repair`),
since it does no more than renumber cells (`Store.Renumbered`).  No repair but one that says so puts a
jump into a cell (`Store.goto_of_repair`).
-/

namespace Dalvik

/-- No jump has become longer. -/
theorem Instruction.rel_widened_refl {τ : Type} (i? : Option (Instruction τ)) :
    Option.Rel Widened i? i? := by
  cases i? with
  | none => exact .none
  | some i => exact .some (.refl i)

namespace Arena

variable {a : Arena} {f : Cell → Cell} {h g : Handle}

/-- A change that leaves instructions alone does so wherever it is made. -/
theorem instruction?_get_modify (hf : ∀ c, (f c).instruction? = c.instruction?) :
    ((a.modify h f).get g).instruction? = (a.get g).instruction? := by
  unfold get
  rw [get?_modify]
  split
  · cases a.get? g with
    | none => rfl
    | some c => exact hf c
  · rfl

end Arena

namespace Store

variable {s s' s'' : Store} {d d' : Draft} {b : Bound} {j k : Nat} {i : Instruction Label}
  {g : Handle}

/-! ### How many handles have been handed out -/

theorem size_layOut (arena : Arena) (index address : Nat) (handles : List Handle) :
    (layOut arena index address handles).cells.size = arena.cells.size := by
  induction handles generalizing arena index address with
  | nil => rfl
  | cons h rest ih =>
    rw [layOut, ih]
    exact Array.size_modify

theorem size_modifyCell (s : Store) (k : Nat) (f : Cell → Cell) :
    (s.modifyCell k f).arena.cells.size = s.arena.cells.size := by
  unfold modifyCell
  split
  · rfl
  · exact Array.size_modify

/-- Exchanging an instruction takes no handle. -/
theorem size_setInstruction (s : Store) (k : Nat) (i : Instruction Label) :
    (s.setInstruction k i).2.arena.cells.size = s.arena.cells.size :=
  (size_layOut _ _ _ _).trans (size_modifyCell s k _)

/-- Neither does removing a cell. -/
theorem size_removeCell (s : Store) (k : Nat) :
    (s.removeCell k).2.arena.cells.size = s.arena.cells.size := by
  unfold removeCell
  split
  · refine (size_layOut _ _ _ _).trans (Array.size_modify.trans ?_)
    exact Array.size_setIfInBounds
  · rfl

/-- Adding a cell takes the next one. -/
theorem insertCell_next (h : s.Refines d) (hk : k < d.listing.size) (i : Instruction Label) :
    (s.insertCell k i).arena.cells.size = s.arena.cells.size + 1 ∧
      (s.insertCell k i).order = s.order.insertIdxIfInBounds k ⟨s.arena.cells.size⟩ := by
  have hsize : s.size = d.listing.size := h.tracks.size_eq
  have hcell := h.tracks.cell?_eq (Nat.le_of_lt hk)
  unfold insertCell
  rw [if_neg (by omega), hcell]
  refine ⟨(size_layOut _ _ _ _).trans ?_, rfl⟩
  exact Array.size_push _

/-- The cells that there are have been handed out. -/
theorem Exact.number_lt (h : s.Exact) (hg : g ∈ s.order) : g.number < s.arena.cells.size := by
  have hlive := (h.live g).2 (Array.mem_toList_iff.2 hg)
  unfold Arena.Live Arena.get? at hlive
  refine Nat.lt_of_not_le fun hle => ?_
  rw [Array.getElem?_eq_none hle] at hlive
  cases hlive

/-- A handle is listed at one position only. -/
theorem Exact.index_unique (h : s.Exact) (hj : s.order[j]? = some g) (hk : s.order[k]? = some g) :
    j = k := by
  rw [← Array.getElem?_toList] at hj hk
  exact (List.getElem?_inj (List.getElem?_eq_some_iff.1 hj).1 h.nodup).1 (hj.trans hk.symm)

/-! ### What is left of a store -/

/-- Of the cells that are in both stores, the same are in front of two positions. -/
def SameAhead (s s' : Store) (q p : Nat) : Prop :=
  ∀ {j k : Nat} {g : Handle}, s.order[j]? = some g → s'.order[k]? = some g → (j < q ↔ k < p)

/-- Relaxation may remove the cell of a handle: it holds a nop, or the table of no switch. -/
def Removable (s : Store) (g : Handle) : Prop :=
  (s.arena.get g).instruction? = some .nop ∨ ∃ p : Payload Label,
    (s.arena.get g).instruction? = some (.data p) ∧ p.isSwitchTable = true ∧
      s.referrals.switchOf? g = none

/-- What has become of a store. -/
structure Becomes (s s' : Store) : Prop where
  /-- No handle is handed out twice. -/
  room : s.arena.cells.size ≤ s'.arena.cells.size
  /-- Any cell has been there before or is a new one. -/
  old : ∀ g ∈ s'.order, g ∈ s.order ∨ s.arena.cells.size ≤ g.number
  /-- Only a cell that may be removed is gone. -/
  gone : ∀ g ∈ s.order, g ∉ s'.order → s.Removable g
  /-- The cells that are left are in the same order. -/
  order : ∀ {q p : Nat} {g : Handle}, s.order[q]? = some g → s'.order[p]? = some g →
    s.SameAhead s' q p
  /-- They hold the same, but jumps may have become longer. -/
  instructions : ∀ g ∈ s.order, g ∈ s'.order → Option.Rel Instruction.Widened
    (s.arena.get g).instruction? (s'.arena.get g).instruction?
  /-- Tables have the same switches. -/
  referrals : s'.referrals = s.referrals
  /-- Labels stand between the same cells. -/
  labels : ∀ {label : Label} {q : Nat}, s.labelIndex label = .ok q →
    ∃ p, s'.labelIndex label = .ok p ∧ s.SameAhead s' q p

theorem Exact.sameAhead (h : s.Exact) (q : Nat) : s.SameAhead s q q := fun hj hk => by
  rw [h.index_unique hj hk]

namespace Becomes

theorem refl (h : s.Exact) : s.Becomes s where
  room := Nat.le_refl _
  old g hg := .inl hg
  gone g hg hnone := absurd hg hnone
  order {q p g} hq hp := by
    rw [h.index_unique hq hp]
    exact h.sameAhead p
  instructions g _ _ := Instruction.rel_widened_refl _
  referrals := rfl
  labels {label q} hq := ⟨q, hq, h.sameAhead q⟩

/-- A cell that is left takes up no less room. -/
theorem units_le (h : s.Becomes s') (hg : g ∈ s.order) (hg' : g ∈ s'.order) :
    (s.arena.get g).units ≤ (s'.arena.get g).units := by
  have hsame := h.instructions g hg hg'
  rw [Cell.units, Cell.units]
  generalize (s.arena.get g).instruction? = before at hsame ⊢
  generalize (s'.arena.get g).instruction? = after at hsame ⊢
  cases hsame with
  | none => exact Nat.le_refl _
  | some hwidened => exact hwidened.units_le

/-- A cell that may be removed later on could have been removed before. -/
theorem removable (h : s.Becomes s') (hg : g ∈ s.order) (hg' : g ∈ s'.order)
    (hr : s'.Removable g) : s.Removable g := by
  have hsame := h.instructions g hg hg'
  rw [Removable, h.referrals] at hr
  rw [Removable]
  generalize (s.arena.get g).instruction? = before at hsame ⊢
  generalize (s'.arena.get g).instruction? = after at hsame hr
  cases hsame with
  | none => exact hr
  | some hwidened =>
    rcases hwidened with rfl | ⟨r, wider, t, rfl, rfl, -⟩
    · exact hr
    · -- a jump is neither
      rcases hr with hnop | ⟨p, hp, -⟩
      · cases wider <;> cases hnop
      · cases hp

/-- A cell that is left in the end has been there all along. -/
theorem mem_of_mem (h : s.Becomes s') (hs : s.Exact) (h' : s'.Becomes s'') (hg : g ∈ s.order)
    (hg' : g ∈ s''.order) : g ∈ s'.order := by
  rcases h'.old g hg' with hmem | hnew
  · exact hmem
  · have hlt := hs.number_lt hg
    have hroom := h.room
    omega

/-- What is ahead stays ahead. -/
theorem sameAhead_trans (h : s.Becomes s') (hs : s.Exact) (h' : s'.Becomes s'') {q m p : Nat}
    (hahead : s.SameAhead s' q m) (hahead' : s'.SameAhead s'' m p) : s.SameAhead s'' q p := by
  intro j k g hj hk
  obtain ⟨n, hn⟩ := Array.mem_iff_getElem?.1
    (h.mem_of_mem hs h' (Array.mem_of_getElem? hj) (Array.mem_of_getElem? hk))
  exact (hahead hj hn).trans (hahead' hn hk)

theorem trans (h : s.Becomes s') (hs : s.Exact) (h' : s'.Becomes s'') : s.Becomes s'' where
  room := Nat.le_trans h.room h'.room
  old g hg := by
    rcases h'.old g hg with hmem | hnew
    · exact h.old g hmem
    · exact .inr (Nat.le_trans h.room hnew)
  gone g hg hnone := by
    by_cases hmem : g ∈ s'.order
    · exact h.removable hg hmem (h'.gone g hmem hnone)
    · exact h.gone g hg hmem
  order {q p g} hq hp := by
    obtain ⟨m, hm⟩ := Array.mem_iff_getElem?.1
      (h.mem_of_mem hs h' (Array.mem_of_getElem? hq) (Array.mem_of_getElem? hp))
    exact h.sameAhead_trans hs h' (h.order hq hm) (h'.order hm hp)
  instructions g hg hg' := by
    have hmem := h.mem_of_mem hs h' hg hg'
    have hbefore := h.instructions g hg hmem
    have hafter := h'.instructions g hmem hg'
    generalize (s.arena.get g).instruction? = first at hbefore ⊢
    generalize (s'.arena.get g).instruction? = second at hbefore hafter
    generalize (s''.arena.get g).instruction? = third at hafter ⊢
    cases hbefore with
    | none => exact hafter
    | some hwidened =>
      cases hafter with
      | some hwidened' => exact .some (hwidened.trans hwidened')
  referrals := h'.referrals.trans h.referrals
  labels {label q} hq := by
    obtain ⟨m, hm, hahead⟩ := h.labels hq
    obtain ⟨p, hp, hahead'⟩ := h'.labels hm
    exact ⟨p, hp, h.sameAhead_trans hs h' hahead hahead'⟩

end Becomes

/-- The cells that are kept have been renumbered by `f`, and the others are new. -/
structure Renumbered (s s' : Store) (d d' : Draft) (f : Nat → Nat) (kept : Nat → Prop) : Prop where
  /-- No handle is handed out twice. -/
  room : s.arena.cells.size ≤ s'.arena.cells.size
  /-- A cell that is kept has its new number. -/
  stays : ∀ j g, kept j → s.order[j]? = some g → s'.order[f j]? = some g
  /-- Every cell has been kept or is a new one. -/
  comes : ∀ k g, s'.order[k]? = some g →
    (∃ j, kept j ∧ f j = k ∧ s.order[j]? = some g) ∨ s.arena.cells.size ≤ g.number
  /-- Only a cell that may be removed is not kept. -/
  goes : ∀ j g, ¬ kept j → s.order[j]? = some g → s.Removable g
  /-- What is kept keeps its order. -/
  ahead : ∀ j q, kept j → (j < q ↔ f j < f q)
  /-- It holds the same, but jumps may have become longer. -/
  instructions : ∀ j, kept j → Option.Rel Instruction.Widened d.listing.instructions[j]?
    d'.listing.instructions[f j]?
  /-- Tables have the same switches. -/
  referrals : s'.referrals = s.referrals
  /-- Labels are renumbered as well. -/
  labels : ∀ label q, d.locate label = .ok q → d'.locate label = .ok (f q)

/-- What the handle at a position has is what the listing has. -/
theorem Refines.instruction?_get (h : s.Refines d) (hg : s.order[j]? = some g) :
    (s.arena.get g).instruction? = d.listing.instructions[j]? := by
  rw [(h.tracks.get_eq hg).2, Listing.getElem?_instructions]
  rfl

theorem Renumbered.becomes {f : Nat → Nat} {kept : Nat → Prop} (hr : s.Renumbered s' d d' f kept)
    (h : s.Refines d) (h' : s'.Refines d') : s.Becomes s' := by
  -- a cell that is left has been renumbered
  have hmoved : ∀ {j k : Nat} {g : Handle}, s.order[j]? = some g → s'.order[k]? = some g →
      kept j ∧ f j = k := by
    intro j k g hj hk
    rcases hr.comes k g hk with ⟨j', hkept, hfj, hj'⟩ | hnew
    · have hsame := h.tracks.exact.index_unique hj' hj
      exact ⟨hsame ▸ hkept, hsame ▸ hfj⟩
    · have hlt := h.tracks.exact.number_lt (Array.mem_of_getElem? hj)
      omega
  refine ⟨hr.room, fun g hg => ?_, fun g hg hnone => ?_, fun {q p g} hq hp {j k g'} hj hk => ?_,
    fun g hg hg' => ?_, hr.referrals, fun {label q} hq => ?_⟩
  · obtain ⟨k, hk⟩ := Array.mem_iff_getElem?.1 hg
    rcases hr.comes k g hk with ⟨j, -, -, hj⟩ | hnew
    · exact .inl (Array.mem_of_getElem? hj)
    · exact .inr hnew
  · obtain ⟨j, hj⟩ := Array.mem_iff_getElem?.1 hg
    exact hr.goes j g (fun hkept => hnone (Array.mem_of_getElem? (hr.stays j g hkept hj))) hj
  · obtain ⟨-, rfl⟩ := hmoved hq hp
    obtain ⟨hkept, rfl⟩ := hmoved hj hk
    exact hr.ahead j q hkept
  · obtain ⟨j, hj⟩ := Array.mem_iff_getElem?.1 hg
    obtain ⟨k, hk⟩ := Array.mem_iff_getElem?.1 hg'
    obtain ⟨hkept, rfl⟩ := hmoved hj hk
    rw [h.instruction?_get hj, h'.instruction?_get hk]
    exact hr.instructions j hkept
  · rw [h.labelIndex_eq] at hq
    refine ⟨f q, by rw [h'.labelIndex_eq, hr.labels label q hq], fun {j k g} hj hk => ?_⟩
    obtain ⟨hkept, rfl⟩ := hmoved hj hk
    exact hr.ahead j q hkept

/-! ### Single repairs -/

/-- Where labels have been renumbered, the places at which they stand have been. -/
theorem locate_withListing {l : Listing} {f : Nat → Nat}
    (hlocate : ∀ label, label.draft = d.id → l.locate? label = (b.listing.locate? label).map f)
    {label : Label} {q : Nat} (hq : (d.withListing b.listing).locate label = .ok q) :
    (d.withListing l).locate label = .ok (f q) := by
  obtain ⟨hdraft, hlabel⟩ := Draft.locate_eq_ok_iff.1 hq
  refine Draft.locate_eq_ok_iff.2 ⟨hdraft, ?_⟩
  change b.listing.locate? label = some q at hlabel
  change l.locate? label = some (f q)
  rw [hlocate label hdraft, hlabel, Option.map_some]

namespace Follows

/-- A jump can get longer. -/
theorem becomes_setInstruction (h : s.Follows d b) (hb : b.Ready d.id) {i' : Instruction Label}
    (hi : b.listing.instructions[k]? = some i) (hvalid : i'.Valid)
    (htargets : ∀ label ∈ i'.targets, b.listing.Issued d.id label) (hwidened : i.Widened i') :
    s.Becomes (s.setInstruction k i').2 := by
  have hk := Bound.lt_size_of_getElem? hi
  obtain ⟨arena, hset, -⟩ := h.refines.setInstruction hk hvalid htargets
  have horder : (s.setInstruction k i').2.order = s.order := by rw [hset]
  have hcoherent := hb.listing.toCoherent.replaceAt k hvalid htargets
  have hsame : s.Renumbered (s.setInstruction k i').2 (d.withListing b.listing)
      (d.withListing (b.replaceAt k i').listing) (fun n => n) fun _ => True := {
    room := Nat.le_of_eq (size_setInstruction s k i').symm
    stays := fun j g _ hj => horder ▸ hj
    comes := fun n g hn => .inl ⟨n, trivial, rfl, horder ▸ hn⟩
    goes := fun j g hgoes => absurd trivial hgoes
    ahead := fun _ _ _ => Iff.rfl
    instructions := fun j _ => by
      change Option.Rel _ b.listing.instructions[j]? (b.listing.replaceAt k i').instructions[j]?
      rw [Listing.instructions_replaceAt]
      rcases Decidable.eq_or_ne k j with rfl | hne
      · rw [hi, List.getElem?_set_self (List.getElem?_eq_some_iff.1 hi).1]
        exact .some hwidened
      · rw [List.getElem?_set_ne hne]
        exact Instruction.rel_widened_refl _
    referrals := by rw [hset]
    labels := fun label q => locate_withListing (f := fun n => n) fun label hlabel => by
      rw [Option.map_id']
      exact hb.listing.toCoherent.locate?_congr hcoherent hlabel fun n => by
        rw [Bound.replaceAt, Listing.marks_replaceAt] }
  exact hsame.becomes h.refines (h.replaceAt hk hvalid htargets).refines

/-- A cell can come in between. -/
theorem becomes_insertCell (h : s.Follows d b) (hb : b.Ready d.id) (hk : k < b.listing.size)
    (hvalid : i.Valid) (htargets : ∀ label ∈ i.targets, b.listing.Issued d.id label) :
    s.Becomes (s.insertCell k i) := by
  obtain ⟨hsize, horder⟩ := insertCell_next h.refines hk i
  obtain ⟨arena, fresh, hinsert, -⟩ := h.refines.insertCell_of_lt hk hvalid htargets
  have hcoherent := hb.listing.toCoherent.insertAt (Nat.le_of_lt hk) hvalid htargets
  have hle : k ≤ s.order.size := by
    rw [h.refines.tracks.size_order]
    exact Nat.le_succ_of_le (Nat.le_of_lt hk)
  have hshift : ∀ j, (s.insertCell k i).order[shiftUp k j]? = s.order[j]? := by
    intro j
    rw [horder, Array.insertIdxIfInBounds, dif_pos hle, ← Array.getElem?_toList,
      Array.toList_insertIdx, getElem?_insertIdx_shiftUp, Array.getElem?_toList]
  have hmoved : s.Renumbered (s.insertCell k i) (d.withListing b.listing)
      (d.withListing (b.insertAt k i).listing) (shiftUp k) fun _ => True := {
    room := hsize ▸ Nat.le_succ _
    stays := fun j g _ hj => (hshift j).trans hj
    comes := fun n g hn => by
      rcases Decidable.eq_or_ne n k with rfl | hne
      · rw [horder, Array.insertIdxIfInBounds, dif_pos hle, ← Array.getElem?_toList,
          Array.toList_insertIdx, List.getElem?_insertIdx_self, if_pos (by simpa using hle)] at hn
        exact .inr (Nat.le_of_eq (congrArg Handle.number (Option.some.inj hn)))
      · refine .inl ⟨shiftDown k n, trivial, shiftUp_shiftDown hne, ?_⟩
        rwa [← hshift, shiftUp_shiftDown hne]
    goes := fun j g hgoes => absurd trivial hgoes
    ahead := fun j q _ => by
      unfold shiftUp
      split <;> split <;> omega
    instructions := fun j _ => by
      change Option.Rel _ b.listing.instructions[j]?
        (b.listing.insertAt k i).instructions[shiftUp k j]?
      rw [Listing.instructions_insertAt _ (Nat.le_of_lt hk), getElem?_insertIdx_shiftUp]
      exact Instruction.rel_widened_refl _
    referrals := by rw [hinsert]
    labels := fun label q => locate_withListing fun label hlabel =>
      hb.listing.toCoherent.locate?_insertAt hk hcoherent hlabel }
  exact hmoved.becomes h.refines (h.insertAt hk hvalid htargets).refines

/-- A cell that may be removed, and is mentioned nowhere, can go. -/
theorem becomes_removeCell (h : s.Follows d b) (hb : b.Ready d.id) (hk : k < b.listing.size)
    (hne : ∀ o ∈ b.owners, o.table ≠ k ∧ o.switch ≠ k)
    (hremovable : ∀ g, s.order[k]? = some g → s.Removable g) :
    s.Becomes (s.removeCell k).2 := by
  obtain ⟨arena, gone, places, hgone, hremove, -⟩ := h.refines.removeCell hk
  have hshift : ∀ j, j ≠ k → (s.removeCell k).2.order[shiftDown k j]? = s.order[j]? := by
    intro j hj
    rw [hremove, ← Array.getElem?_toList, Array.toList_eraseIdxIfInBounds,
      getElem?_eraseIdx_shiftDown _ hj, Array.getElem?_toList]
  have hmoved : s.Renumbered (s.removeCell k).2 (d.withListing b.listing)
      (d.withListing (b.removeAt k).listing) (shiftDown k) (· ≠ k) := {
    room := Nat.le_of_eq (size_removeCell s k).symm
    stays := fun j g hj hg => (hshift j hj).trans hg
    comes := fun n g hn => by
      refine .inl ⟨shiftUp k n, shiftUp_ne k n, shiftDown_shiftUp k n, ?_⟩
      rwa [← hshift _ (shiftUp_ne k n), shiftDown_shiftUp]
    goes := fun j g hj hg => by
      obtain rfl := Decidable.not_not.1 hj
      exact hremovable g hg
    ahead := fun j q hj => by
      unfold shiftDown
      split <;> split <;> omega
    instructions := fun j hj => by
      change Option.Rel _ b.listing.instructions[j]?
        (b.listing.removeAt k).instructions[shiftDown k j]?
      rw [Listing.instructions_removeAt, getElem?_eraseIdx_shiftDown _ hj]
      exact Instruction.rel_widened_refl _
    referrals := h.referrals_removeCell hk hne
    labels := fun label q => locate_withListing fun label hlabel =>
      hb.listing.toCoherent.locate?_removeAt hk hlabel }
  exact hmoved.becomes h.refines (h.removeAt hk).refines

/-- Whatever a cell needs, the cells that are left are as they were, but for longer jumps. -/
theorem becomes_repair (h : s.Follows d b) (hb : b.Ready d.id) (hk : k < b.listing.size) :
    s.Becomes (s.repair k (b.repairAt b.listing.survey k)).2 := by
  have hdiagnosis := b.diagnosis hk
  generalize b.repairAt b.listing.survey k = action at hdiagnosis
  cases hdiagnosis with
  | plain => exact .refl h.refines.tracks.exact
  | near => exact .refl h.refines.tracks.exact
  | @far o r wider label stop hi _ _ hshort =>
    have hmem := List.mem_of_getElem? hi
    have htargets : ∀ t ∈ (Instruction.goto wider label).targets, b.listing.Issued d.id t :=
      fun t ht => hb.listing.targets _ hmem t ht
    rw [Instruction.eq_goto_of_valid (hb.listing.valid _ hmem)] at hi
    exact h.becomes_setInstruction hb hi (Instruction.valid_goto wider label) htargets
      (Instruction.widened_goto_iff.2 ⟨wider, rfl, Nat.le_of_lt hshort⟩)
  | @orphan p hi htable hfree =>
    have hne := hb.linked.owners_ne hi (Bound.switchTarget?_data _) hfree
    refine h.becomes_removeCell hb hk hne fun g hg => .inr ⟨p, ?_, htable, ?_⟩
    · rw [h.refines.instruction?_get hg, ← hi]
      rfl
    · have hnone := Referrals.isSome_switchOf? h.refines.tracks.exact.nodup h.owners hg
      rw [hfree] at hnone
      simpa using hnone
  | aligned => exact .refl h.refines.tracks.exact
  | gap hbefore _ _ _ hnop =>
    subst hbefore
    have hne := hb.linked.owners_ne hnop rfl (hb.linked.of?_of_nop hnop)
    refine h.becomes_removeCell hb (Bound.lt_size_of_getElem? hnop) hne fun g hg => .inl ?_
    rw [h.refines.instruction?_get hg, ← hnop]
    rfl
  | tight =>
    exact h.becomes_insertCell hb hk Instruction.valid_nop fun t ht => absurd ht List.not_mem_nil

end Follows

/-! ### The instructions in cells -/

variable {r : Reach} {label : Label} {action : Repair}

theorem instruction?_layOut (arena : Arena) (index address : Nat) (handles : List Handle) :
    ((layOut arena index address handles).get g).instruction? = (arena.get g).instruction? := by
  induction handles generalizing arena index address with
  | nil => rfl
  | cons h rest ih =>
    rw [layOut, ih]
    exact Arena.instruction?_get_modify fun _ => rfl

/-- A cell that has been given an instruction holds it, and no other cell has changed. -/
theorem instruction?_of_setInstruction {i j : Instruction Label}
    (hi : ((s.setInstruction k i).2.arena.get g).instruction? = some j) :
    (s.arena.get g).instruction? = some j ∨ s.order[k]? = some g ∧ j = i := by
  have hcell := (instruction?_layOut _ _ _ _).symm.trans hi
  unfold modifyCell at hcell
  cases hk : s.order[k]? with
  | none =>
    rw [hk] at hcell
    exact .inl hcell
  | some h =>
    rw [hk] at hcell
    dsimp only at hcell
    unfold Arena.get at hcell
    rw [Arena.get?_modify] at hcell
    split at hcell
    · next heq =>
      cases hget : s.arena.get? g with
      | none =>
        rw [hget] at hcell
        cases hcell
      | some c =>
        rw [hget] at hcell
        exact .inr ⟨congrArg some heq.symm, (Option.some.inj hcell).symm⟩
    · exact .inl hcell

/-- A cell that is not removed keeps its instruction. -/
theorem instruction?_of_removeCell {j : Instruction Label}
    (hi : ((s.removeCell k).2.arena.get g).instruction? = some j) :
    (s.arena.get g).instruction? = some j := by
  unfold removeCell at hi
  split at hi
  · next gone next hgone hnext =>
    dsimp only [reindexFrom] at hi
    rw [instruction?_layOut, Arena.instruction?_get_modify (f := (·.modifyPoint _)) fun _ => rfl]
      at hi
    unfold Arena.get at hi ⊢
    rw [Arena.get?_free] at hi
    split at hi
    · cases hi
    · exact hi
  · exact hi

/-- A cell that comes in between holds its instruction, and no other cell has changed. -/
theorem instruction?_of_insertCell (hk : k < s.size) {i j : Instruction Label}
    (hi : ((s.insertCell k i).arena.get g).instruction? = some j) :
    (s.arena.get g).instruction? = some j ∨ j = i := by
  unfold insertCell at hi
  rw [if_neg (Nat.ne_of_lt hk)] at hi
  split at hi
  · exact .inl hi
  · next behind hbehind =>
    replace hi := (instruction?_layOut _ _ _ _).symm.trans hi
    change ((s.arena.alloc ⟨k, behind.address, some i, ∅⟩).1.get g).instruction? = some j at hi
    unfold Arena.get at hi
    rw [Arena.get?_alloc] at hi
    split at hi
    · exact .inr (Option.some.inj hi).symm
    · exact .inl hi

/-- A jump is in a cell after a repair if it was there before, or if the repair made it what it is. -/
theorem goto_of_repair (hk : k < s.size)
    (hi : ((s.repair k action).2.arena.get g).instruction? = some (.goto r label)) :
    (s.arena.get g).instruction? = some (.goto r label) ∨
      s.order[k]? = some g ∧ action = .widen r label := by
  cases action with
  | keep => exact .inl hi
  | widen wider target =>
    rcases instruction?_of_setInstruction hi with hsame | ⟨hg, hgoto⟩
    · exact .inl hsame
    · obtain ⟨-, hjump⟩ := Instruction.op.inj hgoto
      obtain ⟨rfl, rfl⟩ := Operands.jump.inj hjump
      exact .inr ⟨hg, rfl⟩
  | drop => exact .inl (instruction?_of_removeCell hi)
  | closeGap => exact .inl (instruction?_of_removeCell hi)
  | openGap =>
    rcases instruction?_of_insertCell hk hi with hsame | hnop
    · exact .inl hsame
    · cases r <;> cases hnop

end Store

end Dalvik
