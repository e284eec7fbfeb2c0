import Dalvik.Proofs.Store.Consistency
import Dalvik.Proofs.Store.Binding

/-!
# What a consistent store stands for

The listing of a store is read off its cells (`Store.listing`).  If the store is consistent and all
labels in use have been placed, nothing is lost: the store keeps that listing, so it refines the draft
of it (`Store.Consistent.refines_draft`).  This is the converse of `Store.Refines.consistent`, and it
makes what is proved of drafts apply to every consistent store, wherever it comes from.

The draft has yet to be relaxed, and so the store is taken to need relaxation.
-/

namespace Dalvik

/-- Whatever has nothing in it takes up no room. -/
theorem sum_map_filterMap {α β : Type} (f : α → Option β) (g : β → Nat) (xs : List α) :
    ((xs.filterMap f).map g).sum = (xs.map fun x => ((f x).map g).getD 0).sum := by
  induction xs with
  | nil => rfl
  | cons x rest ih =>
    rw [List.map_cons, List.sum_cons, ← ih]
    cases hx : f x with
    | none => rw [List.filterMap_cons_none hx, Option.map_none, Option.getD_none, Nat.zero_add]
    | some y => rw [List.filterMap_cons_some hx, List.map_cons, List.sum_cons]; rfl

namespace Store

/-- The slot for a cell that holds an instruction. -/
def slotOf (c : Cell) : Slot := ⟨c.instruction?.getD .nop, c.point⟩

/-- The listing that the cells hold, the last one being that of the end. -/
def listing (s : Store) : Listing where
  slots := (s.cells.dropLast.map slotOf).toArray
  tail := (s.cells.getLast?.map (·.point)).getD ∅
  issued := s.places.size

/-- The draft that a store stands for, not relaxed. -/
def draft (s : Store) : Draft where
  id := s.id
  registers := s.registers
  listing := s.listing
  tries := s.tries
  owners? := none

variable {s : Store} {k : Nat} {g : Handle}

namespace Consistent

variable (h : s.Consistent)

include h

/-- The last cell is that of the end, and the others hold instructions. -/
theorem cells_eq_concat : ∃ front last, s.cells = front ++ [last] ∧ last.instruction? = none ∧
    ∀ c ∈ front, ∃ i, c.instruction? = some i := by
  have hnonempty : s.cells ≠ [] := by
    intro hnil
    refine h.nonempty (Array.toList_eq_nil_iff.1 ?_)
    rwa [cells, List.map_eq_nil_iff] at hnil
  have hcode : ∀ (j : Nat) (c : Cell), s.cells[j]? = some c →
      (c.instruction? = none ↔ j + 1 = s.cells.length) := by
    intro j c hc
    rw [cells, List.getElem?_map, Array.getElem?_toList] at hc
    obtain ⟨g, hg, rfl⟩ := Option.map_eq_some_iff.1 hc
    rw [length_cells]
    exact h.code j g hg
  obtain ⟨front, last, hcells⟩ := (List.eq_nil_or_concat' s.cells).resolve_left hnonempty
  rw [hcells] at hcode
  refine ⟨front, last, hcells, ?_, fun c hc => ?_⟩
  · exact (hcode front.length last List.getElem?_concat_length).2 (by simp)
  · obtain ⟨j, hj⟩ := List.mem_iff_getElem?.1 hc
    have hlt := (List.getElem?_eq_some_iff.1 hj).1
    have hne := mt (hcode j c ((List.getElem?_append_left hlt).trans hj)).1 (by simp; omega)
    exact Option.ne_none_iff_exists'.1 hne

theorem points_listing : s.listing.points = s.cells.map (·.point) := by
  obtain ⟨front, last, hcells, -, -⟩ := h.cells_eq_concat
  rw [Listing.points, listing, hcells]
  simp [slotOf]

theorem instructions_listing :
    s.cells.map (·.instruction?) = s.listing.instructions.map some ++ [none] := by
  obtain ⟨front, last, hcells, hlast, hfront⟩ := h.cells_eq_concat
  have hfilled : front.map (·.instruction?) = front.map fun c => some (slotOf c).instruction := by
    refine List.map_congr_left fun c hc => ?_
    obtain ⟨i, hi⟩ := hfront c hc
    rw [slotOf, hi]
    rfl
  have hslots : s.listing.instructions = front.map fun c => (slotOf c).instruction := by
    rw [Listing.instructions, listing, hcells]
    simp
  rw [hcells, hslots, List.map_append, hfilled, List.map_singleton, hlast, List.map_map]
  rfl

theorem size_listing : s.order.size = s.listing.size + 1 := by
  have hlength := congrArg List.length h.points_listing
  rw [Listing.length_points, List.length_map, length_cells] at hlength
  exact hlength.symm

/-- What is attached to a cell is attached to its position. -/
theorem point_listing (hg : s.order[k]? = some g) :
    k ≤ s.listing.size ∧ s.listing.point k = (s.arena.get g).point := by
  have hle : k ≤ s.listing.size := by
    have hlt := (Array.getElem?_eq_some_iff.1 hg).1
    rw [h.size_listing] at hlt
    exact Nat.le_of_lt_succ hlt
  have hpoint := s.listing.getElem?_points hle
  rw [h.points_listing, cells, List.map_map, List.getElem?_map, Array.getElem?_toList, hg] at hpoint
  exact ⟨hle, (Option.some.inj hpoint).symm⟩

/-- A label that is attached to a cell is entered in the table as standing there. -/
theorem place_of_attached (hg : s.order[k]? = some g) {label : Label}
    (hlabel : label ∈ (s.arena.get g).point.labels.toList) :
    label.draft = s.id ∧ s.places[label.number]? = some (some g) :=
  h.attached g (Array.mem_toList_iff.2 (Array.mem_of_getElem? hg)) label hlabel

/-- A label stands at a position of the listing if it is attached to the cell there. -/
theorem mem_marks_listing {label : Label} : (k, label) ∈ s.listing.marks ↔
    ∃ g, s.order[k]? = some g ∧ label ∈ (s.arena.get g).point.labels.toList := by
  rw [Listing.mem_marks]
  constructor
  · rintro ⟨hle, hlabel⟩
    have hlt : k < s.order.size := by
      rw [h.size_listing]
      exact Nat.lt_succ_of_le hle
    have hg := Array.getElem?_eq_getElem hlt
    exact ⟨_, hg, (h.point_listing hg).2 ▸ hlabel⟩
  · rintro ⟨g, hg, hlabel⟩
    obtain ⟨hle, hpoint⟩ := h.point_listing hg
    exact ⟨hle, hpoint ▸ hlabel⟩

/-- No label stands twice. -/
theorem nodup_listing : s.listing.labels.Nodup := by
  have hlabels : s.listing.labels =
      s.order.toList.flatMap fun g => (s.arena.get g).point.labels.toList := by
    rw [Listing.labels_eq_flatMap, h.points_listing, cells, List.map_map, List.flatMap_map]
    rfl
  rw [hlabels, List.nodup_flatMap]
  constructor
  · intro g hg
    rw [List.nodup_iff_count_le_one]
    intro label
    by_cases hlabel : label ∈ (s.arena.get g).point.labels.toList
    · obtain ⟨hdraft, hplace⟩ := h.attached g hg label hlabel
      have hcount := (h.placed label.number g hplace).2.1
      rw [← hdraft] at hcount
      exact Nat.le_of_eq hcount
    · rw [List.count_eq_zero_of_not_mem hlabel]
      exact Nat.zero_le 1
  · refine h.nodup.imp_of_mem fun {g g'} hg hg' hne => ?_
    intro label hlabel hlabel'
    have hplace := (h.attached g hg label hlabel).2
    have hplace' := (h.attached g' hg' label hlabel').2
    exact hne (Option.some.inj (Option.some.inj (hplace.symm.trans hplace')))

/-- The listing makes sense if the store has issued the targets of its instructions. -/
theorem coherent_listing (htargets : ∀ i ∈ s.listing.instructions, ∀ label ∈ i.targets,
    s.listing.Issued s.id label) : s.listing.Coherent s.id where
  valid i hi := by
    have hmem : some i ∈ s.cells.map (·.instruction?) := by
      rw [h.instructions_listing]
      exact List.mem_append_left _ (List.mem_map_of_mem hi)
    obtain ⟨c, hc, hci⟩ := List.mem_map.1 hmem
    obtain ⟨g, hg, rfl⟩ := List.mem_map.1 hc
    exact Instruction.validate_eq_ok_iff.1 (h.valid g hg i hci)
  targets := htargets
  own label hlabel := by
    obtain ⟨k, hmark⟩ := Listing.exists_mem_marks hlabel
    obtain ⟨g, hg, hattached⟩ := h.mem_marks_listing.1 hmark
    obtain ⟨hdraft, hplace⟩ := h.place_of_attached hg hattached
    exact ⟨hdraft, (Array.getElem?_eq_some_iff.1 hplace).1⟩
  nodup := h.nodup_listing

/-- The table says where the labels stand. -/
theorem places_listing (hc : s.listing.Coherent s.id) {n : Nat} (hn : n < s.listing.issued) :
    s.places[n]? = some ((s.listing.locate? ⟨s.id, n⟩).bind (s.order[·]?)) := by
  have hplace := Array.getElem?_eq_getElem (show n < s.places.size from hn)
  generalize s.places[n] = place? at hplace
  cases place? with
  | none =>
    have hnone : s.listing.locate? ⟨s.id, n⟩ = none := by
      rw [Option.eq_none_iff_forall_ne_some]
      intro k hk
      obtain ⟨g, hg, hattached⟩ := h.mem_marks_listing.1 ((hc.locate?_eq_some_iff rfl).1 hk)
      cases hplace.symm.trans (h.place_of_attached hg hattached).2
    rw [hplace, hnone]
    rfl
  | some g =>
    obtain ⟨hmem, hcount, -⟩ := h.placed n g hplace
    obtain ⟨k, hk⟩ := Array.mem_iff_getElem?.1 (Array.mem_toList_iff.1 hmem)
    have hattached : (⟨s.id, n⟩ : Label) ∈ (s.arena.get g).point.labels.toList :=
      List.count_pos_iff.1 (hcount ▸ Nat.one_pos)
    have hlocate := (hc.locate?_eq_some_iff rfl).2 (h.mem_marks_listing.2 ⟨g, hk, hattached⟩)
    rw [hplace, hlocate, Option.bind_some, hk]

/-- The cells are where they belong. -/
theorem laidOut : Cell.LaidOut s.cells := by
  rw [Cell.laidOut_iff]
  intro k c hc
  rw [cells, List.getElem?_map, Array.getElem?_toList] at hc
  obtain ⟨g, hg, rfl⟩ := Option.map_eq_some_iff.1 hc
  refine ⟨h.index k g hg, ?_⟩
  rw [h.address k g hg, sum_map_filterMap, cells, ← List.map_take, List.map_map]
  rfl

/-- A store keeps the listing that is read off its cells. -/
theorem tracks_listing (hc : s.listing.Coherent s.id) : s.Tracks s.listing where
  exact := ⟨h.nodup, h.live⟩
  points := h.points_listing.symm
  issued := rfl
  places _ hn := h.places_listing hc hn
  instructions := h.instructions_listing
  laid := h.laidOut

/-- The instructions of the cells are those of the listing. -/
theorem instructions_eq : s.instructions = s.listing.instructions :=
  instructions_of_cells h.instructions_listing

/-- If all labels in use have been placed, the targets of instructions have been issued. -/
theorem issued_of_checkPlaced (hplaced : s.checkPlaced = .ok ()) :
    ∀ i ∈ s.listing.instructions, ∀ label ∈ i.targets, s.listing.Issued s.id label := by
  intro i hi label hlabel
  obtain ⟨⟨⟩, hcode, -⟩ := bind_eq_ok_iff.1 hplaced
  rw [h.instructions_eq] at hcode
  have hcell := forM_eq_ok_iff.1 (forM_eq_ok_iff.1 hcode i hi) label hlabel
  obtain ⟨c, hc⟩ := discard_eq_ok_iff.1 hcell
  rw [cellOf] at hc
  split at hc
  · next hdraft =>
    refine ⟨hdraft, ?_⟩
    cases hplace : s.places[label.number]? with
    | none =>
      rw [hplace] at hc
      cases hc
    | some place? => exact (Array.getElem?_eq_some_iff.1 hplace).1
  · cases hc

/-- A consistent store that needs relaxation, all labels in use having been placed, refines the draft
that it stands for. -/
theorem refines_draft (hplaced : s.checkPlaced = .ok ()) (hdirty : s.dirty = true) :
    s.Refines s.draft := by
  have hc := h.coherent_listing (h.issued_of_checkPlaced hplaced)
  exact
    { id := rfl
      registers := rfl
      tries := rfl
      dirty := hdirty
      tracks := h.tracks_listing hc
      coherent := hc
      live := fun r hr => ⟨(h.live _).1 (h.referrals r hr).1, (h.live _).1 (h.referrals r hr).2⟩
      owners := fun owners howners => by cases howners }

end Consistent

/-- The targets of instructions stand somewhere if all labels in use have been placed. -/
theorem Refines.ready_of_checkPlaced {d : Draft} (h : s.Refines d)
    (hplaced : s.checkPlaced = .ok ()) : d.listing.Ready d.id where
  toCoherent := h.coherent
  placed i hi label hlabel := by
    rw [h.checkPlaced_eq] at hplaced
    obtain ⟨⟨⟩, hcode, -⟩ := bind_eq_ok_iff.1 hplaced
    have hlocate := forM_eq_ok_iff.1 (forM_eq_ok_iff.1 hcode i hi) label hlabel
    obtain ⟨k, hk⟩ := discard_eq_ok_iff.1 hlocate
    obtain ⟨hdraft, hposition⟩ := Draft.locate_eq_ok_iff.1 hk
    exact Listing.mem_labels_of_mem_marks ((h.coherent.locate?_eq_some_iff hdraft).1 hposition)

end Store

end Dalvik
