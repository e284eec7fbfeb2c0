import Dalvik.Proofs.Store.Simulation
import Dalvik.Proofs.Draft.Soundness

/-!
# Consistent stores

A store keeps some things twice: the order of the cells and their indices, the sizes of the
instructions and the addresses, the table of labels and the labels that are attached to the cells.
It also mentions cells by their handles.  `Store.Consistent` says, without mention of any listing,
that all of this fits together.  Every store that refines a draft is consistent
(`Store.Refines.consistent`).
-/

namespace Dalvik

namespace Store

/-- What a store keeps fits together. -/
structure Consistent (s : Store) : Prop where
  /-- There is a cell at least for the end. -/
  nonempty : s.order ≠ #[]
  /-- No cell is listed twice. -/
  nodup : s.order.toList.Nodup
  /-- The cells of the arena are listed, and no others. -/
  live : ∀ h, s.arena.Live h ↔ h ∈ s.order.toList
  /-- Exactly the last cell has no instruction. -/
  code : ∀ (k : Nat) (h : Handle), s.order[k]? = some h →
    ((s.arena.get h).instruction? = none ↔ k + 1 = s.order.size)
  /-- The index of a cell is its position. -/
  index : ∀ (k : Nat) (h : Handle), s.order[k]? = some h → (s.arena.get h).index = k
  /-- The address of a cell is the size of the instructions in front of it. -/
  address : ∀ (k : Nat) (h : Handle), s.order[k]? = some h → (s.arena.get h).address =
    (((s.order.toList.take k).filterMap fun g => (s.arena.get g).instruction?).map
      Instruction.units).sum
  /-- Hence addresses increase. -/
  increasing : ∀ (j k : Nat) (g h : Handle), j < k → s.order[j]? = some g → s.order[k]? = some h →
    (s.arena.get g).address < (s.arena.get h).address
  /-- A label that has been placed is attached once, to the cell that the table gives. -/
  placed : ∀ (n : Nat) (h : Handle), s.places[n]? = some (some h) → h ∈ s.order.toList ∧
    (s.arena.get h).point.labels.toList.count ⟨s.id, n⟩ = 1 ∧
    ∀ g ∈ s.order.toList, g ≠ h → ⟨s.id, n⟩ ∉ (s.arena.get g).point.labels.toList
  /-- A label that is attached to a cell has been placed there. -/
  attached : ∀ h ∈ s.order.toList, ∀ label ∈ (s.arena.get h).point.labels.toList,
    label.draft = s.id ∧ s.places[label.number]? = some (some h)
  /-- Referrals mention nothing but cells. -/
  referrals : ∀ r ∈ s.referrals, s.arena.Live r.table ∧ s.arena.Live r.switch
  /-- The instructions are valid. -/
  valid : ∀ h ∈ s.order.toList, ∀ i, (s.arena.get h).instruction? = some i → i.validate = .ok ()

end Store

namespace Listing

variable {l : Listing} {draft k : Nat}

/-- The labels of a listing are those of its points, front to back. -/
theorem labels_eq_flatMap (l : Listing) : l.labels = l.points.flatMap (·.labels.toList) := by
  have hmap : ∀ (points : List Point) (n : Nat),
      (attachments (·.labels.toList) points n).map (·.2) = points.flatMap (·.labels.toList) := by
    intro points n
    induction points generalizing n with
    | nil => rfl
    | cons p rest ih =>
      have hfirst : (p.labels.toList.map (n, ·)).map (·.2) = p.labels.toList := by
        rw [List.map_map]
        exact List.map_id _
      rw [attachments, List.zipIdx_cons, List.flatMap_cons, List.map_append, hfirst,
        List.flatMap_cons]
      exact congrArg _ (ih (n + 1))
  exact hmap l.points 0

/-- No label is attached to a position twice. -/
theorem Coherent.nodup_point (h : l.Coherent draft) (hk : k ≤ l.size) :
    (l.point k).labels.toList.Nodup := by
  have hnodup := h.nodup
  rw [labels_eq_flatMap, List.nodup_flatMap] at hnodup
  exact hnodup.1 _ (List.mem_of_getElem? (getElem?_points l hk))

end Listing

namespace Store

variable {s : Store} {d : Draft} {l : Listing} {k : Nat} {g : Handle}

/-- The cell of the handle at a position is that of the position. -/
theorem Tracks.get_eq (h : s.Tracks l) (hg : s.order[k]? = some g) :
    k ≤ l.size ∧ s.arena.get g = l.cell k := by
  have hle : k ≤ l.size := by
    have hlt := (Array.getElem?_eq_some_iff.1 hg).1
    rw [h.size_order] at hlt
    exact Nat.le_of_lt_succ hlt
  have hcell := h.cell?_eq hle
  rw [cell?, hg] at hcell
  exact ⟨hle, Option.some.inj hcell⟩

/-- The instructions in front of a position are those of the listing. -/
theorem Tracks.filterMap_take (h : s.Tracks l) (hk : k ≤ l.size) :
    (s.order.toList.take k).filterMap (fun g => (s.arena.get g).instruction?) =
      l.instructions.take k := by
  have hcode : (s.cells.map (·.instruction?)).take k = (l.instructions.take k).map some := by
    rw [h.instructions, List.take_append_of_le_length (by simpa using hk), List.map_take]
  have hcells : (s.order.toList.take k).map (fun g => (s.arena.get g).instruction?) =
      (s.cells.map (·.instruction?)).take k := by
    rw [cells, List.map_map, ← List.map_take]
    rfl
  have hfilter := congrArg (List.filterMap fun i? => i?) (hcells.trans hcode)
  rw [List.filterMap_map, List.filterMap_map] at hfilter
  exact hfilter.trans (by simp)

/-- A label that is attached to a cell has been placed there. -/
theorem Refines.places_of_mem_labels (h : s.Refines d) (hg : s.order[k]? = some g) {label : Label}
    (hlabel : label ∈ (s.arena.get g).point.labels.toList) :
    label.draft = s.id ∧ s.places[label.number]? = some (some g) := by
  have hc : d.listing.Coherent s.id := h.id ▸ h.coherent
  obtain ⟨hle, hget⟩ := h.tracks.get_eq hg
  rw [hget] at hlabel
  have hmark : (k, label) ∈ d.listing.marks := Listing.mem_marks.2 ⟨hle, hlabel⟩
  obtain ⟨hdraft, hnumber⟩ := hc.own label (Listing.mem_labels_of_mem_marks hmark)
  have hlocate := (hc.locate?_eq_some_iff hdraft).2 hmark
  have hsame : (⟨s.id, label.number⟩ : Label) = label := by rw [← hdraft]
  exact ⟨hdraft, by rw [h.tracks.places _ hnumber, hsame, hlocate, Option.bind_some, hg]⟩

/-- A label that has been placed is attached once to the cell that the table gives. -/
theorem Refines.count_labels (h : s.Refines d) {n : Nat} (hn : s.places[n]? = some (some g)) :
    g ∈ s.order.toList ∧ (s.arena.get g).point.labels.toList.count ⟨s.id, n⟩ = 1 := by
  have hc : d.listing.Coherent s.id := h.id ▸ h.coherent
  have hlt : n < d.listing.issued := by
    rw [← h.tracks.issued]
    exact (Array.getElem?_eq_some_iff.1 hn).1
  obtain ⟨k, hlocate, hk⟩ :=
    Option.bind_eq_some_iff.1 (Option.some.inj (hn.symm.trans (h.tracks.places n hlt))).symm
  obtain ⟨hle, hget⟩ := h.tracks.get_eq hk
  have hmark := Listing.mem_marks.1 ((hc.locate?_eq_some_iff rfl).1 hlocate)
  refine ⟨Array.mem_toList_iff.2 (Array.mem_of_getElem? hk), ?_⟩
  rw [hget]
  exact List.count_eq_one_of_mem (hc.nodup_point hle) hmark.2

/-- A store that keeps what a draft stands for is consistent. -/
theorem Refines.consistent (h : s.Refines d) : s.Consistent := by
  have ht := h.tracks
  have hmem : ∀ {g : Handle}, g ∈ s.order.toList → ∃ k : Nat, s.order[k]? = some g := by
    intro g hg
    obtain ⟨k, hk⟩ := List.mem_iff_getElem?.1 hg
    exact ⟨k, by rwa [Array.getElem?_toList] at hk⟩
  exact
    { nonempty := by
        have hsize := ht.size_order
        rintro hempty
        rw [hempty] at hsize
        simp at hsize
      nodup := ht.exact.nodup
      live := ht.exact.live
      code := fun k g hg => by
        obtain ⟨hle, hget⟩ := ht.get_eq hg
        rw [hget, ht.size_order, Nat.succ_inj, Listing.cell, ← Listing.getElem?_instructions,
          List.getElem?_eq_none_iff, Listing.length_instructions]
        omega
      index := fun k g hg => by rw [(ht.get_eq hg).2, Listing.cell]
      address := fun k g hg => by
        obtain ⟨hle, hget⟩ := ht.get_eq hg
        rw [hget, ht.filterMap_take hle]
        rfl
      increasing := fun j k g g' hjk hg hg' => by
        obtain ⟨-, hget⟩ := ht.get_eq hg
        obtain ⟨hle, hget'⟩ := ht.get_eq hg'
        rw [hget, hget']
        exact Code.address_lt_address hjk (by
          rw [Listing.length_instructions]
          exact Nat.lt_of_lt_of_le hjk hle)
      placed := fun n g hn => by
        obtain ⟨hg, hcount⟩ := h.count_labels hn
        refine ⟨hg, hcount, fun g' hg' hne hlabel => hne ?_⟩
        obtain ⟨k', hk'⟩ := hmem hg'
        have hn' := (h.places_of_mem_labels hk' hlabel).2
        exact Option.some.inj (Option.some.inj (hn'.symm.trans hn))
      attached := fun g hg label hlabel => by
        obtain ⟨k, hk⟩ := hmem hg
        exact h.places_of_mem_labels hk hlabel
      referrals := fun r hr =>
        ⟨(ht.exact.live _).2 (h.live r hr).1, (ht.exact.live _).2 (h.live r hr).2⟩
      valid := fun g hg i hi => by
        obtain ⟨k, hk⟩ := hmem hg
        rw [(ht.get_eq hk).2, Listing.cell, ← Listing.getElem?_instructions] at hi
        exact Instruction.validate_eq_ok_iff.2 (h.coherent.valid i (List.mem_of_getElem? hi)) }

end Store

end Dalvik
