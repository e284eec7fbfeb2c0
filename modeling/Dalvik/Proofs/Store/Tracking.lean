import Dalvik.Proofs.Store.Cells
import Dalvik.Proofs.Listing.Marking

/-!
# The listing that a store keeps

A store tracks a listing (`Store.Tracks`) if its cells, front to back, hold the instructions of the
listing and what is attached to them, each at its position and its address, and if its table gives
for every label the cell at which the label stands.  So a lookup in the store gives what is computed
from the listing (`Store.Tracks.getElem?_cells`).

Every edit of cells follows an edit of the listing.
-/

namespace Dalvik

namespace Cell

variable (cells : List Cell) (k : Nat)

theorem map_instruction?_withInstruction (i? : Option (Instruction Label)) :
    (cells.modify k (·.withInstruction i?)).map (·.instruction?) =
      (cells.map (·.instruction?)).set k i? :=
  map_modify_const (g := (·.withInstruction i?)) (fun _ => rfl) cells k

theorem map_point_withInstruction (i? : Option (Instruction Label)) :
    (cells.modify k (·.withInstruction i?)).map (·.point) = cells.map (·.point) :=
  map_modify_of_eq (g := (·.withInstruction i?)) (fun _ => rfl) cells k

theorem map_instruction?_modifyPoint (f : Point → Point) :
    (cells.modify k (·.modifyPoint f)).map (·.instruction?) = cells.map (·.instruction?) :=
  map_modify_of_eq (g := (·.modifyPoint f)) (fun _ => rfl) cells k

theorem map_point_modifyPoint (f : Point → Point) :
    (cells.modify k (·.modifyPoint f)).map (·.point) = (cells.map (·.point)).modify k f :=
  map_modify_of_comm (f := (·.point)) (g := (·.modifyPoint f)) (fun _ => rfl) cells k

end Cell

/-- The cell for a position of a listing. -/
def Listing.cell (l : Listing) (k : Nat) : Cell :=
  ⟨k, Code.address l.instructions k, l.instruction? k, l.point k⟩

namespace Store

/-- What is attached to the cells of a store, and where its labels stand, is as in a listing. -/
structure Carries (s : Store) (l : Listing) : Prop where
  /-- The order lists the cells. -/
  exact : s.Exact
  /-- The same is attached to them, front to back. -/
  points : s.cells.map (·.point) = l.points
  /-- As many labels have been issued. -/
  issued : s.places.size = l.issued
  /-- The table gives the cell for the position of each label. -/
  places : ∀ n < l.issued, s.places[n]? = some ((l.locate? ⟨s.id, n⟩).bind (s.order[·]?))

/-- A store keeps a listing. -/
structure Tracks (s : Store) (l : Listing) : Prop extends Carries s l where
  /-- The cells hold the instructions, and the end holds none. -/
  instructions : s.cells.map (·.instruction?) = l.instructions.map some ++ [none]
  /-- The cells are where they belong. -/
  laid : Cell.LaidOut s.cells

variable {s s' : Store} {l l' : Listing} {k : Nat} {i : Instruction Label}

namespace Carries

theorem size_order (h : s.Carries l) : s.order.size = l.size + 1 := by
  have hlength := congrArg List.length h.points
  rwa [List.length_map, length_cells, Listing.length_points] at hlength

theorem size_eq (h : s.Carries l) : s.size = l.size := by
  rw [size, h.size_order, Nat.add_sub_cancel]

/-- If the table and where the labels stand in the order are the same, the table is still right. -/
theorem places_of_same (h : s.Carries l) (hid : s'.id = s.id) (hplaces : s'.places = s.places)
    (hissued : l'.issued = l.issued)
    (hsame : ∀ n < l.issued, (l'.locate? ⟨s.id, n⟩).bind (s'.order[·]?) =
      (l.locate? ⟨s.id, n⟩).bind (s.order[·]?)) :
    ∀ n < l'.issued, s'.places[n]? = some ((l'.locate? ⟨s'.id, n⟩).bind (s'.order[·]?)) := by
  intro n hn
  rw [hissued] at hn
  rw [hplaces, hid, h.places n hn, hsame n hn]

end Carries

/-- The instructions of a store are those in its cells. -/
theorem instructions_of_cells {code : List (Instruction Label)}
    (h : s.cells.map (·.instruction?) = code.map some ++ [none]) : s.instructions = code := by
  have hfilter : s.instructions = (s.cells.map (·.instruction?)).filterMap fun i? => i? := by
    rw [Store.instructions, List.filterMap_map]
    rfl
  rw [hfilter, h]
  simp [List.filterMap_append]

namespace Tracks

/-- A lookup of a cell gives what the listing says. -/
theorem getElem?_cells (h : s.Tracks l) (hk : k ≤ l.size) : s.cells[k]? = some (l.cell k) := by
  have hlt : k < s.cells.length := by
    rw [length_cells, h.size_order]
    exact Nat.lt_succ_of_le hk
  have hcell := List.getElem?_eq_getElem hlt
  generalize s.cells[k] = c at hcell
  obtain ⟨hindex, haddress⟩ := Cell.laidOut_iff.1 h.laid k c hcell
  have hlength : k ≤ (l.instructions.map some).length := by simpa using hk
  have hunits : (s.cells.take k).map Cell.units =
      (l.instructions.take k).map Instruction.units := by
    have hcode : (s.cells.take k).map (·.instruction?) = (l.instructions.take k).map some := by
      rw [List.map_take, h.instructions, List.take_append_of_le_length hlength, List.map_take]
    have hsizes := congrArg (List.map fun i? => (i?.map Instruction.units).getD 0) hcode
    rwa [List.map_map, List.map_map] at hsizes
  have hinstruction : c.instruction? = l.instruction? k := by
    have hcode := congrArg (·[k]?) h.instructions
    simp only [List.getElem?_map, hcell, Option.map_some] at hcode
    rw [← Listing.getElem?_instructions]
    rcases Nat.lt_or_eq_of_le hk with hlt | rfl
    · rw [List.getElem?_append_left (by simpa using hlt), List.getElem?_map] at hcode
      obtain ⟨j, hj, hsome⟩ := Option.map_eq_some_iff.1 hcode.symm
      rw [hj, ← hsome]
    · rw [List.getElem?_append_right (by simp), List.length_map, Listing.length_instructions,
        Nat.sub_self] at hcode
      rw [List.getElem?_eq_none (by simp)]
      exact Option.some.inj hcode
  have hpoint : c.point = l.point k := by
    have hpoints := congrArg (·[k]?) h.points
    simp only [List.getElem?_map, hcell, Option.map_some] at hpoints
    rw [Listing.getElem?_points l hk] at hpoints
    exact Option.some.inj hpoints
  rw [hcell, Listing.cell, ← hinstruction, ← hpoint, Code.address, ← hunits, ← haddress]
  obtain ⟨index, address, i?, point⟩ := c
  obtain rfl : index = k := hindex
  rfl

theorem cell?_eq (h : s.Tracks l) (hk : k ≤ l.size) : s.cell? k = some (l.cell k) := by
  rw [← Store.getElem?_cells, h.getElem?_cells hk]

/-- There is no cell past the end. -/
theorem cell?_eq_none (h : s.Tracks l) (hk : l.size < k) : s.cell? k = none := by
  rw [← Store.getElem?_cells, List.getElem?_eq_none]
  rw [length_cells, h.size_order]
  exact hk

theorem instruction?_eq (h : s.Tracks l) (k : Nat) : s.instruction? k = l.instruction? k := by
  rw [instruction?]
  rcases Nat.lt_or_ge l.size k with hlt | hle
  · rw [h.cell?_eq_none hlt, ← Listing.getElem?_instructions, List.getElem?_eq_none]
    · rfl
    · rw [Listing.length_instructions]
      exact Nat.le_of_lt hlt
  · rw [h.cell?_eq hle]
    rfl

theorem instructions_eq (h : s.Tracks l) : s.instructions = l.instructions :=
  instructions_of_cells h.instructions

theorem units_eq (h : s.Tracks l) : s.units = l.units := by
  rw [units, h.size_eq, h.cell?_eq (Nat.le_refl _), Listing.units_eq]
  rfl

/-- The cells are those of the positions in order. -/
theorem cells_eq (h : s.Tracks l) : s.cells = (List.range (l.size + 1)).map l.cell := by
  refine List.ext_getElem? fun k => ?_
  rw [List.getElem?_map]
  rcases Nat.lt_or_ge l.size k with hlt | hle
  · rw [Store.getElem?_cells, h.cell?_eq_none hlt,
      List.getElem?_eq_none (by simpa using Nat.succ_le_of_lt hlt)]
    rfl
  · rw [h.getElem?_cells hle, List.getElem?_range (Nat.lt_succ_of_le hle)]
    rfl

/-! ### Edits of the code -/

/-- A store tracks a listing if its cells, before they were laid out, held what the listing says. -/
theorem of_lay (cells : List Cell) (hexact : s.Exact) (hcells : s.cells = Cell.lay 0 0 cells)
    (hinstructions : cells.map (·.instruction?) = l.instructions.map some ++ [none])
    (hpoints : cells.map (·.point) = l.points) (hissued : s.places.size = l.issued)
    (hplaces : ∀ n < l.issued, s.places[n]? = some ((l.locate? ⟨s.id, n⟩).bind (s.order[·]?))) :
    s.Tracks l where
  exact := hexact
  points := by rw [hcells, Cell.map_lay fun _ _ _ => rfl, hpoints]
  issued := hissued
  places := hplaces
  instructions := by rw [hcells, Cell.map_lay fun _ _ _ => rfl, hinstructions]
  laid := hcells ▸ Cell.laidOut_lay cells

/-- Exchanging an instruction in a cell exchanges one of the listing. -/
theorem setInstruction (h : s.Tracks l) (hl : l.Coherent s.id) (hk : k < l.size)
    (hl' : (l.replaceAt k i).Coherent s.id) :
    (s.setInstruction k i).1 = l.instruction? k ∧
      ∃ arena, (s.setInstruction k i).2 = { s with arena := arena } ∧
        (s.setInstruction k i).2.Tracks (l.replaceAt k i) := by
  have horder : k < s.order.size := by
    rw [h.size_order]
    exact Nat.lt_succ_of_lt hk
  obtain ⟨arena, hstore, hexact, hcells⟩ :=
    h.exact.reindexFrom_modifyCell horder h.laid (f := (·.withInstruction (some i)))
      fun _ => ⟨rfl, rfl⟩
  replace hstore : (s.setInstruction k i).2 = { s with arena := arena } := hstore
  refine ⟨h.instruction?_eq k, arena, hstore, ?_⟩
  have hid : (s.setInstruction k i).2.id = s.id := by rw [hstore]
  have hplaces : (s.setInstruction k i).2.places = s.places := by rw [hstore]
  have hsame : (s.setInstruction k i).2.order = s.order := by rw [hstore]
  refine of_lay _ hexact hcells ?_ ?_ (hplaces ▸ h.issued) ?_
  · rw [Cell.map_instruction?_withInstruction, h.instructions, Listing.instructions_replaceAt,
      List.set_append_left _ _ (by simpa using hk), List.map_set]
  · rw [Cell.map_point_withInstruction, h.points, Listing.points_replaceAt]
  · refine h.places_of_same hid hplaces rfl fun n _ => ?_
    have hlocate : (l.replaceAt k i).locate? ⟨s.id, n⟩ = l.locate? ⟨s.id, n⟩ :=
      hl.locate?_congr hl' rfl fun j => by rw [Listing.marks_replaceAt]
    rw [hlocate, hsame]

/-- Exchanging the instructions in two cells exchanges two of the listing. -/
theorem swapCells {k₁ k₂ : Nat} (h : s.Tracks l) (hl : l.Coherent s.id) (hk₁ : k₁ < l.size)
    (hk₂ : k₂ < l.size) (hl' : (l.swapAt k₁ k₂).Coherent s.id) :
    ∃ arena, s.swapCells k₁ k₂ = { s with arena := arena } ∧
      (s.swapCells k₁ k₂).Tracks (l.swapAt k₁ k₂) := by
  have horder : k₁ < s.order.size := by
    rw [h.size_order]
    exact Nat.lt_succ_of_lt hk₁
  obtain ⟨i₁, hi₁⟩ := l.exists_instruction? hk₁
  obtain ⟨i₂, hi₂⟩ := l.exists_instruction? hk₂
  have hswap : l.swapAt k₁ k₂ = (l.replaceAt k₁ i₂).replaceAt k₂ i₁ := by
    rw [Listing.swapAt, hi₁, hi₂]
  obtain ⟨arena, hstore, hexact, hcells⟩ := h.exact.swapCells k₂ horder h.laid
  rw [h.instruction?_eq k₁, h.instruction?_eq k₂, hi₁, hi₂] at hcells
  refine ⟨arena, hstore, ?_⟩
  have hid : (s.swapCells k₁ k₂).id = s.id := by rw [hstore]
  have hplaces : (s.swapCells k₁ k₂).places = s.places := by rw [hstore]
  have hsame : (s.swapCells k₁ k₂).order = s.order := by rw [hstore]
  rw [hswap] at hl' ⊢
  refine of_lay _ hexact hcells ?_ ?_ (hplaces ▸ h.issued) ?_
  · rw [Cell.map_instruction?_withInstruction, Cell.map_instruction?_withInstruction,
      h.instructions, Listing.instructions_replaceAt, Listing.instructions_replaceAt,
      List.set_append_left _ _ (by simpa using hk₁), List.set_append_left _ _ (by simpa using hk₂),
      List.map_set, List.map_set]
  · rw [Cell.map_point_withInstruction, Cell.map_point_withInstruction, h.points,
      Listing.points_replaceAt, Listing.points_replaceAt]
  · refine h.places_of_same hid hplaces rfl fun n _ => ?_
    have hlocate : ((l.replaceAt k₁ i₂).replaceAt k₂ i₁).locate? ⟨s.id, n⟩ =
        l.locate? ⟨s.id, n⟩ := hl.locate?_congr hl' rfl fun j => by
      rw [Listing.marks_replaceAt, Listing.marks_replaceAt]
    rw [hlocate, hsame]

/-- Adding a cell at the end adds an instruction at the end of the listing. -/
theorem appendCell (h : s.Tracks l) (hl : l.Coherent s.id) (hl' : (l.append i).Coherent s.id) :
    ∃ arena fresh, s.appendCell i = { s with arena := arena, order := s.order.push fresh } ∧
      (s.appendCell i).Tracks (l.append i) := by
  have hsize : 0 < s.order.size := by
    rw [h.size_order]
    exact Nat.succ_pos _
  obtain ⟨arena, fresh, index, address, hstore, hexact, hlaid, hcells⟩ :=
    h.exact.appendCell hsize h.laid i
  refine ⟨arena, fresh, hstore, ?_⟩
  have hid : (s.appendCell i).id = s.id := by rw [hstore]
  have hplaces : (s.appendCell i).places = s.places := by rw [hstore]
  have hpush : (s.appendCell i).order = s.order.push fresh := by rw [hstore]
  refine of_lay (s.appendCell i).cells hexact hlaid.symm ?_ ?_ (hplaces ▸ h.issued) ?_
  · rw [hcells, List.map_append, Cell.map_instruction?_withInstruction, h.instructions, h.size_eq,
      Listing.instructions_append, List.set_append_right _ _ (by simp)]
    simp
  · rw [hcells, List.map_append, Cell.map_point_withInstruction, h.points, Listing.points_append]
    rfl
  · refine h.places_of_same hid hplaces rfl fun n _ => ?_
    have hlocate : (l.append i).locate? ⟨s.id, n⟩ = l.locate? ⟨s.id, n⟩ :=
      hl.locate?_congr hl' rfl fun j => by rw [Listing.marks_append]
    rw [hlocate, hpush]
    cases hj : l.locate? ⟨s.id, n⟩ with
    | none => rfl
    | some j =>
      have hle := hl.locate?_le_size rfl hj
      have hlt : j < s.order.size := by
        rw [h.size_order]
        exact Nat.lt_succ_of_le hle
      rw [Option.bind_some, Option.bind_some, Array.getElem?_push_lt hlt,
        Array.getElem?_eq_getElem hlt]

/-- Adding a cell in front of a position adds an instruction there. -/
theorem insertCell (h : s.Tracks l) (hl : l.Coherent s.id) (hk : k < l.size)
    (hl' : (l.insertAt k i).Coherent s.id) :
    ∃ arena fresh,
      s.insertCell k i = { s with arena := arena, order := s.order.insertIdxIfInBounds k fresh } ∧
        (s.insertCell k i).Tracks (l.insertAt k i) := by
  obtain ⟨arena, fresh, index, address, hstore, hexact, hcells⟩ :=
    h.exact.insertCell (h.size_eq.symm ▸ hk) h.laid i
  refine ⟨arena, fresh, hstore, ?_⟩
  have hid : (s.insertCell k i).id = s.id := by rw [hstore]
  have hplaces : (s.insertCell k i).places = s.places := by rw [hstore]
  have horder : (s.insertCell k i).order.toList = s.order.toList.insertIdx k fresh := by
    have hle : k ≤ s.order.size := by
      rw [h.size_order]
      omega
    rw [hstore, Array.insertIdxIfInBounds, dif_pos hle, Array.toList_insertIdx]
  refine of_lay _ hexact hcells ?_ ?_ (hplaces.symm ▸ Listing.issued_insertAt l k i ▸ h.issued) ?_
  · rw [List.map_insertIdx, h.instructions, insertIdx_append_of_le (by simpa using Nat.le_of_lt hk),
      Listing.instructions_insertAt l (Nat.le_of_lt hk), List.map_insertIdx]
  · rw [List.map_insertIdx, h.points, Listing.points_insertAt l hk]
  · refine h.places_of_same hid hplaces (Listing.issued_insertAt l k i) fun n _ => ?_
    rw [hl.locate?_insertAt hk hl' rfl]
    cases hj : l.locate? ⟨s.id, n⟩ with
    | none => rfl
    | some j =>
      rw [Option.map_some, Option.bind_some, Option.bind_some, ← Array.getElem?_toList, horder,
        getElem?_insertIdx_shiftUp, Array.getElem?_toList]

end Tracks

/-! ### Removing a cell -/

theorem retarget_cons (places : Array (Option Handle)) (label : Label) (rest : List Label)
    (h : Handle) : retarget places (label :: rest) h =
      retarget (places.setIfInBounds label.number (some h)) rest h := rfl

theorem size_retarget (places : Array (Option Handle)) (labels : List Label) (h : Handle) :
    (retarget places labels h).size = places.size := by
  induction labels generalizing places with
  | nil => rfl
  | cons label rest ih => rw [retarget_cons, ih, Array.size_setIfInBounds]

/-- Labels that are not made to stand at a cell stay where they were. -/
theorem getElem?_retarget_of_notMem {places : Array (Option Handle)} {labels : List Label} {n : Nat}
    (hn : n ∉ labels.map Label.number) (h : Handle) :
    (retarget places labels h)[n]? = places[n]? := by
  induction labels generalizing places with
  | nil => rfl
  | cons label rest ih =>
    rw [List.map_cons, List.mem_cons, not_or] at hn
    rw [retarget_cons, ih hn.2, Array.getElem?_setIfInBounds_ne (Ne.symm hn.1)]

/-- Labels that are made to stand at a cell are found there. -/
theorem getElem?_retarget_of_mem {places : Array (Option Handle)} {labels : List Label} {n : Nat}
    (hn : n ∈ labels.map Label.number) (hsize : n < places.size) (h : Handle) :
    (retarget places labels h)[n]? = some (some h) := by
  induction labels generalizing places with
  | nil => simp at hn
  | cons label rest ih =>
    rw [retarget_cons]
    by_cases hrest : n ∈ rest.map Label.number
    · exact ih hrest (by simpa using hsize)
    · rw [List.map_cons, List.mem_cons, or_iff_left hrest] at hn
      subst hn
      rw [getElem?_retarget_of_notMem hrest, Array.getElem?_setIfInBounds_self_of_lt hsize]

end Store

namespace Listing

variable {l : Listing} {draft k n : Nat}

/-- A label of the draft stands at a position exactly if its number is among those of the labels
there. -/
theorem Coherent.mem_numbers_iff (h : l.Coherent draft) (hk : k ≤ l.size) :
    n ∈ (l.point k).labels.toList.map Label.number ↔ l.locate? ⟨draft, n⟩ = some k := by
  rw [h.locate?_eq_some_iff rfl, mem_marks, and_iff_right hk, List.mem_map]
  constructor
  · rintro ⟨⟨draft', n'⟩, hlabel, rfl⟩
    have hmem : (k, ⟨draft', n'⟩) ∈ l.marks := mem_marks.2 ⟨hk, hlabel⟩
    obtain rfl := (h.own _ (mem_labels_of_mem_marks hmem)).1
    exact hlabel
  · intro hlabel
    exact ⟨_, hlabel, rfl⟩

end Listing

namespace Store

variable {s : Store} {l : Listing} {k : Nat}

/-- The labels of a position that goes are found behind it, and all others where they were. -/
theorem Carries.places_retarget (h : s.Carries l) (hl : l.Coherent s.id) (hk : k < l.size)
    {next : Handle} (hnext : s.order[k + 1]? = some next) {n : Nat} (hn : n < l.issued) :
    (retarget s.places (l.point k).labels.toList next)[n]? =
      some ((l.locate? ⟨s.id, n⟩).bind fun j =>
        (s.order.eraseIdxIfInBounds k)[shiftDown k j]?) := by
  have horder : ∀ j, (s.order.eraseIdxIfInBounds k)[j]? = (s.order.toList.eraseIdx k)[j]? :=
    fun j => by rw [← Array.getElem?_toList, Array.toList_eraseIdxIfInBounds]
  by_cases hthere : l.locate? ⟨s.id, n⟩ = some k
  · rw [getElem?_retarget_of_mem ((hl.mem_numbers_iff (Nat.le_of_lt hk)).2 hthere)
        (h.issued.symm ▸ hn), hthere, Option.bind_some, shiftDown_of_le (Nat.le_refl k), horder,
      List.getElem?_eraseIdx_of_ge (Nat.le_refl k), Array.getElem?_toList, hnext]
  · rw [getElem?_retarget_of_notMem (mt (hl.mem_numbers_iff (Nat.le_of_lt hk)).1 hthere),
      h.places n hn]
    cases hj : l.locate? ⟨s.id, n⟩ with
    | none => rfl
    | some j =>
      have hne : j ≠ k := fun heq => hthere (heq ▸ hj)
      rw [Option.bind_some, Option.bind_some, horder, getElem?_eraseIdx_shiftDown _ hne,
        Array.getElem?_toList]

/-- Removing a cell removes an instruction of the listing. -/
theorem Tracks.removeCell (h : s.Tracks l) (hl : l.Coherent s.id) (hk : k < l.size) :
    ∃ arena gone places, s.order[k]? = some gone ∧
      s.removeCell k = (l.instruction? k,
        { s with
          arena := arena
          order := s.order.eraseIdxIfInBounds k
          places := places
          referrals := s.referrals.forget gone }) ∧
      (s.removeCell k).2.Tracks (l.removeAt k) := by
  obtain ⟨arena, gone, next, hgone, hnext, hstore, hexact, hcells⟩ :=
    h.exact.removeCell (h.size_eq.symm ▸ hk) h.laid
  have hcell : s.arena.get gone = l.cell k := by
    have hcell := h.cell?_eq (Nat.le_of_lt hk)
    rw [cell?, hgone] at hcell
    exact Option.some.inj hcell
  have hpoint : (s.arena.get gone).point = l.point k := by rw [hcell, Listing.cell]
  have hinstruction : (s.arena.get gone).instruction? = l.instruction? k := by
    rw [hcell, Listing.cell]
  rw [hinstruction] at hstore
  rw [hpoint] at hcells hstore
  refine ⟨arena, gone, _, hgone, hstore, ?_⟩
  have hid : (s.removeCell k).2.id = s.id := by rw [hstore]
  have hplaces : (s.removeCell k).2.places =
      retarget s.places (l.point k).labels.toList next := by rw [hstore]
  have horder : (s.removeCell k).2.order = s.order.eraseIdxIfInBounds k := by rw [hstore]
  refine of_lay _ hexact hcells ?_ ?_ ?_ fun n hn => ?_
  · rw [Cell.map_instruction?_modifyPoint, ← List.eraseIdx_map, h.instructions,
      Listing.instructions_removeAt, List.eraseIdx_append_of_lt_length (by simpa using hk),
      List.eraseIdx_map]
  · rw [Cell.map_point_modifyPoint, ← List.eraseIdx_map, h.points, Listing.points_removeAt l hk]
  · rw [hplaces, size_retarget, h.issued, Listing.issued_removeAt]
  · rw [Listing.issued_removeAt] at hn
    rw [hplaces, hid, horder, h.places_retarget hl hk hnext hn, hl.locate?_removeAt hk rfl,
      Option.bind_map]
    rfl

end Store

end Dalvik
