import Dalvik.Proofs.Store.Tracking

/-!
# Labels and debug items in a store

Placing labels and pinning debug items changes what is attached to cells, and the table of labels,
but neither the instructions nor where the cells are (`Store.SameCode`).  So it is enough to see
what becomes of the points (`Store.Carries`).
-/

namespace Dalvik

/-- What is attached does not matter for where cells are. -/
theorem Cell.lay_modifyPoint (index address : Nat) (cells : List Cell) (k : Nat)
    (f : Point → Point) :
    lay index address (cells.modify k (·.modifyPoint f)) =
      (lay index address cells).modify k (·.modifyPoint f) := by
  induction cells generalizing index address k with
  | nil => simp [lay]
  | cons c rest ih =>
    cases k with
    | zero => rfl
    | succ k => simp only [List.modify_succ_cons, lay, ih]

/-- Where labels stand depends on the points and on how many labels there are. -/
theorem Listing.locate?_of_points_eq {l l' : Listing} (hpoints : l'.points = l.points)
    (hissued : l'.issued = l.issued) (label : Label) : l'.locate? label = l.locate? label := by
  rw [locate?, locate?, positions, positions, hpoints, hissued]

namespace Store

/-- Neither instructions nor places of cells differ. -/
structure SameCode (s' s : Store) : Prop where
  /-- The instructions are the same. -/
  instructions : s'.cells.map (·.instruction?) = s.cells.map (·.instruction?)
  /-- Cells that are where they belong stay there. -/
  laid : Cell.LaidOut s.cells → Cell.LaidOut s'.cells

variable {s s' s'' : Store} {l l' : Listing} {k : Nat} {label : Label}

namespace SameCode

theorem refl (s : Store) : s.SameCode s := ⟨rfl, fun h => h⟩

theorem trans (h : s''.SameCode s') (h' : s'.SameCode s) : s''.SameCode s :=
  ⟨h.instructions.trans h'.instructions, fun hlaid => h.laid (h'.laid hlaid)⟩

theorem of_cells_eq (h : s'.cells = s.cells) : s'.SameCode s := ⟨by rw [h], fun hlaid => h ▸ hlaid⟩

/-- A change of what is attached to one cell. -/
theorem of_modify {f : Point → Point} (h : s'.cells = s.cells.modify k (·.modifyPoint f)) :
    s'.SameCode s where
  instructions := by rw [h, Cell.map_instruction?_modifyPoint]
  laid hlaid := by rw [h, Cell.LaidOut, Cell.lay_modifyPoint, hlaid]

end SameCode

/-- If the code stays, and what is attached follows a listing with the same code, so does the store.
-/
theorem Tracks.annotate (h : s.Tracks l) (hcarries : s'.Carries l') (hsame : s'.SameCode s)
    (hinstructions : l'.instructions = l.instructions) : s'.Tracks l' where
  toCarries := hcarries
  instructions := by rw [hsame.instructions, h.instructions, hinstructions]
  laid := hsame.laid h.laid

namespace Carries

/-- What a store carries depends on the points and on how many labels there are. -/
theorem of_points_eq (h : s.Carries l) (hpoints : l'.points = l.points)
    (hissued : l'.issued = l.issued) : s.Carries l' where
  exact := h.exact
  points := h.points.trans hpoints.symm
  issued := h.issued.trans hissued.symm
  places n hn := by
    rw [Listing.locate?_of_points_eq hpoints hissued]
    exact h.places n (hissued ▸ hn)

/-- A store carries the same if its cells hold other instructions or are elsewhere. -/
theorem of_same (h : s.Carries l) (hexact : s'.Exact)
    (hpoints : s'.cells.map (·.point) = s.cells.map (·.point)) (hid : s'.id = s.id)
    (hplaces : s'.places = s.places) (horder : s'.order = s.order) : s'.Carries l where
  exact := hexact
  points := hpoints.trans h.points
  issued := hplaces ▸ h.issued
  places n hn := by rw [hplaces, hid, horder, h.places n hn]

/-! ### Labels -/

/-- Issuing a label adds it to the table. -/
theorem issueLabel (h : s.Carries l) (hl : l.Coherent s.id) :
    s.issueLabel.1 = l.nextLabel s.id ∧ s.issueLabel.2.Carries l.issue := by
  refine ⟨by rw [Store.issueLabel, h.issued]; rfl, h.exact.congr rfl fun _ => Iff.rfl, h.points, ?_,
    fun n hn => ?_⟩
  · rw [Store.issueLabel, Array.size_push, h.issued, Listing.issued_issue]
  · have hplaces : s.issueLabel.2.places = s.places.push none := rfl
    rw [hplaces, Array.getElem?_push, h.issued]
    have hlocate : l.issue.locate? ⟨s.id, n⟩ = l.locate? ⟨s.id, n⟩ :=
      hl.locate?_congr hl.issue rfl fun j => by rw [Listing.marks_issue]
    rcases Nat.lt_succ_iff_lt_or_eq.1 hn with hlt | rfl
    · rw [if_neg (Nat.ne_of_lt hlt), h.places n hlt]
      exact congrArg (fun k? => some (Option.bind k? (s.order[·]?))) hlocate.symm
    · have hnone : l.issue.locate? (l.nextLabel s.id) = none :=
        (hl.issue.locate?_eq_none_iff rfl).2 hl.nextLabel_notMem
      rw [if_pos rfl]
      exact congrArg (fun k? => some (Option.bind k? (s.order[·]?))) hnone.symm

/-- Placing a label enters it in the table. -/
theorem placeLabel (h : s.Carries l) (hl : l.Coherent s.id) (hk : k ≤ l.size)
    (hissued : l.Issued s.id label) (hnew : label ∉ l.labels) :
    (s.placeLabel label k).Carries (l.mark k label) := by
  have hcells : (s.placeLabel label k).cells = s.cells.modify k
      (·.modifyPoint fun point => { point with labels := point.labels.push label }) :=
    h.exact.cells_modifyCell k _
  obtain ⟨arena, hstore⟩ := Exact.modifyCell_eq s k
    (·.modifyPoint fun point => { point with labels := point.labels.push label })
  have hid : (s.placeLabel label k).id = s.id := by rw [Store.placeLabel, hstore]
  have horder : (s.placeLabel label k).order = s.order := by rw [Store.placeLabel, hstore]
  have hplaces : (s.placeLabel label k).places =
      s.places.setIfInBounds label.number s.order[k]? := by
    rw [Store.placeLabel]
  refine ⟨(h.exact.modifyCell k _).congr rfl fun _ => Iff.rfl, ?_, ?_, fun n hn => ?_⟩
  · rw [hcells, Cell.map_point_modifyPoint, h.points, Listing.mark, Listing.points_modifyPoint l hk]
  · rw [hplaces, Array.size_setIfInBounds, h.issued, Listing.issued_mark]
  · rw [Listing.issued_mark] at hn
    rw [hplaces, hid, horder]
    by_cases heq : label.number = n
    · subst heq
      have hlabel : (⟨s.id, label.number⟩ : Label) = label := by
        rw [← hissued.1]
      have hmem : (k, label) ∈ (l.mark k label).marks :=
        (Listing.marks_mark_perm hk label).mem_iff.2 List.mem_cons_self
      rw [hlabel, ((hl.mark hk hissued hnew).locate?_eq_some_iff hissued.1).2 hmem,
        Array.getElem?_setIfInBounds_self_of_lt (h.issued.symm ▸ hn), Option.bind_some]
    · have hne : (⟨s.id, n⟩ : Label) ≠ label := by
        rintro rfl
        exact heq rfl
      rw [Array.getElem?_setIfInBounds_ne heq, h.places n hn,
        hl.locate?_mark_of_ne hk hissued hnew rfl hne]

/-- Issuing a label for a position. -/
theorem issueLabelAt (h : s.Carries l) (hl : l.Coherent s.id) (hk : k ≤ l.size) :
    (s.issueLabelAt k).1 = l.nextLabel s.id ∧
      (s.issueLabelAt k).2.Carries (l.issue.mark k (l.nextLabel s.id)) := by
  obtain ⟨hlabel, hissue⟩ := h.issueLabel hl
  refine ⟨hlabel, ?_⟩
  have hstore : (s.issueLabelAt k).2 = s.issueLabel.2.placeLabel s.issueLabel.1 k := rfl
  rw [hstore, hlabel]
  exact hissue.placeLabel hl.issue hk (l.issued_nextLabel s.id) hl.nextLabel_notMem

/-! ### Debug items -/

/-- A change of the items at a position. -/
theorem modifyItems (h : s.Carries l) (hl : l.Coherent s.id) (hk : k ≤ l.size) {g : Point → Point}
    (hg : ∀ p, (g p).labels = p.labels) :
    (s.modifyCell k (·.modifyPoint g)).Carries (l.modifyPoint k g) := by
  have hsame := Listing.sameButItems_modifyPoint hk hg
  obtain ⟨arena, hstore⟩ := Exact.modifyCell_eq s k (·.modifyPoint g)
  have hid : (s.modifyCell k (·.modifyPoint g)).id = s.id := by rw [hstore]
  have hplaces : (s.modifyCell k (·.modifyPoint g)).places = s.places := by rw [hstore]
  have horder : (s.modifyCell k (·.modifyPoint g)).order = s.order := by rw [hstore]
  refine ⟨h.exact.modifyCell k _, ?_, hplaces.symm ▸ hsame.issued.symm ▸ h.issued, ?_⟩
  · rw [h.exact.cells_modifyCell, Cell.map_point_modifyPoint, h.points,
      Listing.points_modifyPoint l hk]
  · refine h.places_of_same hid hplaces hsame.issued fun n _ => ?_
    rw [horder, hl.locate?_congr (hsame.coherent hl) rfl fun j => by rw [hsame.marks]]

/-- Filtering the items. -/
theorem retainItems (h : s.Carries l) (hl : l.Coherent s.id) (keep : DebugItem → Bool) :
    (s.retainItems keep).Carries (l.retainItems keep) := by
  have hsame := Listing.sameButItems_retainItems l keep
  obtain ⟨hexact, hcells⟩ := h.exact.retainItems keep
  refine ⟨hexact, ?_, h.issued, ?_⟩
  · rw [hcells, List.map_map]
    have hpoints : (l.retainItems keep).points =
        l.points.map fun point => { point with items := point.items.retain keep } := by
      simp [Listing.retainItems, Listing.points, Function.comp_def]
    rw [hpoints, ← h.points, List.map_map]
    rfl
  · refine h.places_of_same rfl rfl rfl fun n _ => ?_
    rw [hl.locate?_congr (hsame.coherent hl) rfl fun j => by rw [hsame.marks]]
    rfl

end Carries

/-- Issuing a label changes nothing but cells and the table of labels. -/
theorem issueLabelAt_eq (s : Store) (k : Nat) :
    ∃ arena places, (s.issueLabelAt k).2 = { s with arena := arena, places := places } := by
  obtain ⟨arena, hmodify⟩ := Exact.modifyCell_eq s.issueLabel.2 k (·.modifyPoint fun point =>
    { point with labels := point.labels.push s.issueLabel.1 })
  have hissue : (s.issueLabelAt k).2 = s.issueLabel.2.placeLabel s.issueLabel.1 k := rfl
  rw [hissue, placeLabel, hmodify]
  exact ⟨_, _, rfl⟩

theorem sameCode_issueLabel (s : Store) : s.issueLabel.2.SameCode s := .of_cells_eq rfl

theorem Exact.sameCode_placeLabel (hs : s.Exact) (label : Label) (k : Nat) :
    (s.placeLabel label k).SameCode s :=
  .of_modify (hs.cells_modifyCell k _)

theorem Exact.sameCode_issueLabelAt (hs : s.Exact) (k : Nat) : (s.issueLabelAt k).2.SameCode s :=
  (Exact.sameCode_placeLabel (s := s.issueLabel.2) (hs.congr rfl fun _ => Iff.rfl) _ k).trans
    s.sameCode_issueLabel

theorem Exact.sameCode_modifyCell (hs : s.Exact) (k : Nat) (f : Point → Point) :
    (s.modifyCell k (·.modifyPoint f)).SameCode s :=
  .of_modify (hs.cells_modifyCell k _)

theorem Exact.sameCode_retainItems (hs : s.Exact) (keep : DebugItem → Bool) :
    (s.retainItems keep).SameCode s := by
  have hcells := (hs.retainItems keep).2
  refine ⟨by rw [hcells, List.map_map]; rfl, fun hlaid => ?_⟩
  rw [Cell.laidOut_iff] at hlaid ⊢
  intro j c' hc'
  rw [hcells, List.getElem?_map] at hc'
  obtain ⟨c, hc, rfl⟩ := Option.map_eq_some_iff.1 hc'
  rw [hcells, ← List.map_take, List.map_map]
  exact hlaid j c hc

end Store

end Dalvik
