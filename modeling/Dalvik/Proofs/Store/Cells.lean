import Dalvik.Proofs.Store.Layout

/-!
# What an edit does to the cells

For every edit of cells one lemma says what becomes of the list of cells, given that the store is
exact and its cells are laid out.  Apart from places in the layout, which are recomputed, an edit
does to the list just what its name says.  The store stays exact.
-/

namespace Dalvik

namespace Cell

variable {cells cells' front : List Cell} {c : Cell}

theorem laidOut_concat_iff : LaidOut (front ++ [c]) ↔
    LaidOut front ∧ c.index = front.length ∧ c.address = (front.map units).sum := by
  have hmove : moveTo front.length (front.map units).sum c = c ↔
      c.index = front.length ∧ c.address = (front.map units).sum := by
    obtain ⟨index, address, i?, point⟩ := c
    simp [moveTo, eq_comm]
  rw [LaidOut, lay_append, ← hmove, Nat.zero_add, Nat.zero_add]
  constructor
  · intro h
    obtain ⟨hfront, hc⟩ := List.append_inj h (length_lay 0 0 front)
    exact ⟨hfront, List.head_eq_of_cons_eq hc⟩
  · rintro ⟨hfront, hc⟩
    rw [hfront, lay, hc]
    rfl

/-- Cells up to position `k` are laid out if they are where laid out cells are, and those in front
of the last one are as long as these. -/
theorem LaidOut.take_of_same (h : LaidOut cells) {k : Nat}
    (hsame : ∀ j < k, ∀ c', cells'[j]? = some c' → ∃ c, cells[j]? = some c ∧ c'.index = c.index ∧
      c'.address = c.address ∧ (j + 1 < k → c'.units = c.units)) :
    LaidOut (cells'.take k) := by
  rw [laidOut_iff] at h ⊢
  intro j c' hc'
  rw [List.getElem?_take] at hc'
  split at hc'
  · next hj =>
    obtain ⟨c, hc, hindex, haddress, -⟩ := hsame j hj c' hc'
    have hunits : (cells'.take j).map units = (cells.take j).map units := by
      refine List.ext_getElem? fun i => ?_
      rw [List.getElem?_map, List.getElem?_map, List.getElem?_take, List.getElem?_take]
      split
      · next hi =>
        have hlt : i < cells'.length := Nat.lt_trans hi (List.getElem?_eq_some_iff.1 hc').1
        obtain ⟨d, hd, -, -, hdunits⟩ :=
          hsame i (Nat.lt_trans hi hj) _ (List.getElem?_eq_getElem hlt)
        rw [hd, List.getElem?_eq_getElem hlt, Option.map_some, Option.map_some,
          hdunits (Nat.lt_of_le_of_lt hi hj)]
      · rfl
    rw [List.take_take, Nat.min_eq_left (Nat.le_of_lt hj), hunits, hindex, haddress]
    exact h j c hc
  · cases hc'

end Cell

namespace Store

variable {s : Store} {k : Nat}

theorem size_order (hs : 0 < s.order.size) : s.order.size = s.size + 1 := by
  rw [size]
  omega

theorem size_le_order (s : Store) : s.size ≤ s.order.size := Nat.sub_le _ _

theorem lt_order_of_lt_size (hk : k < s.size) : k + 1 < s.order.size := by
  rw [size] at hk
  omega

namespace Exact

variable (hs : s.Exact)

include hs

/-- A new cell does not show as long as it is not listed. -/
theorem map_get_alloc (c : Cell) : s.order.toList.map (s.arena.alloc c).1.get = s.cells :=
  Arena.map_get_alloc fun hmem => Arena.not_live_alloc ((hs.live _).2 hmem)

/-- A new cell is listed somewhere. -/
theorem alloc {c : Cell} {order : Array Handle}
    (horder : order.toList.Perm ((s.arena.alloc c).2 :: s.order.toList)) :
    Exact { s with arena := (s.arena.alloc c).1, order := order } := by
  have hfresh : (s.arena.alloc c).2 ∉ s.order.toList := fun hmem =>
    Arena.not_live_alloc ((hs.live _).2 hmem)
  refine ⟨horder.nodup_iff.2 (List.nodup_cons.2 ⟨hfresh, hs.nodup⟩), fun h => ?_⟩
  rw [Arena.live_alloc_iff, horder.mem_iff, List.mem_cons, hs.live h]

/-- A new cell is listed last. -/
theorem alloc_push (c : Cell) :
    Exact { s with arena := (s.arena.alloc c).1, order := s.order.push (s.arena.alloc c).2 } ∧
      cells { s with arena := (s.arena.alloc c).1, order := s.order.push (s.arena.alloc c).2 } =
        s.cells ++ [c] := by
  refine ⟨hs.alloc (by rw [Array.toList_push]; exact List.perm_append_singleton _ _), ?_⟩
  rw [cells, Array.toList_push, List.map_append, hs.map_get_alloc, List.map_singleton,
    Arena.get_alloc_self]

/-- A new cell is listed in front of a position. -/
theorem alloc_insertIdx (hk : k ≤ s.order.size) (c : Cell) :
    Exact { s with
        arena := (s.arena.alloc c).1
        order := s.order.insertIdxIfInBounds k (s.arena.alloc c).2 } ∧
      cells { s with
        arena := (s.arena.alloc c).1
        order := s.order.insertIdxIfInBounds k (s.arena.alloc c).2 } = s.cells.insertIdx k c := by
  have horder : (s.order.insertIdxIfInBounds k (s.arena.alloc c).2).toList =
      s.order.toList.insertIdx k (s.arena.alloc c).2 := by
    rw [Array.insertIdxIfInBounds, dif_pos hk, Array.toList_insertIdx]
  refine ⟨hs.alloc (horder ▸ List.perm_insertIdx _ _ (by simpa using hk)), ?_⟩
  rw [cells, horder, List.map_insertIdx, hs.map_get_alloc, Arena.get_alloc_self]

/-- A cell that is freed is taken off the list. -/
theorem free_eraseIdx {gone : Handle} (hgone : s.order[k]? = some gone) :
    Exact { s with arena := s.arena.free gone, order := s.order.eraseIdxIfInBounds k } ∧
      cells { s with arena := s.arena.free gone, order := s.order.eraseIdxIfInBounds k } =
        s.cells.eraseIdx k := by
  obtain ⟨hk, rfl⟩ := Array.getElem?_eq_some_iff.1 hgone
  have horder : (s.order.eraseIdxIfInBounds k).toList = s.order.toList.eraseIdx k :=
    Array.toList_eraseIdxIfInBounds ..
  have hmem : ∀ h, h ∈ s.order.toList.eraseIdx k ↔ h ≠ s.order[k] ∧ h ∈ s.order.toList := by
    intro h
    rw [← hs.nodup.erase_getElem k hk, hs.nodup.mem_erase_iff]
    rfl
  refine ⟨⟨horder ▸ hs.nodup.sublist (List.eraseIdx_sublist _ _), fun h => ?_⟩, ?_⟩
  · rw [Arena.live_free_iff, horder, hmem, hs.live]
  · rw [cells, horder, Arena.map_get_free fun hmem' => ((hmem _).1 hmem').1 rfl,
      ← List.eraseIdx_map, cells]

/-! ### Edits of the code -/

/-- Appending gives the last cell an instruction and adds a cell behind it. -/
theorem appendCell (hsize : 0 < s.order.size) (hlaid : Cell.LaidOut s.cells)
    (i : Instruction Label) :
    ∃ arena fresh index address,
      s.appendCell i = { s with arena := arena, order := s.order.push fresh } ∧
        (s.appendCell i).Exact ∧ Cell.LaidOut (s.appendCell i).cells ∧
        (s.appendCell i).cells =
          s.cells.modify s.size (·.withInstruction (some i)) ++ [⟨index, address, none, ∅⟩] := by
  obtain ⟨last, hlast⟩ : ∃ last, s.order[s.size]? = some last :=
    ⟨_, Array.getElem?_eq_getElem (by rw [size]; omega)⟩
  have hback : s.order.back? = some last := by
    rw [Array.back?_eq_getElem?]
    exact hlast
  obtain ⟨front, c, hfront⟩ : ∃ front c, s.cells = front ++ [c] := by
    refine ⟨_, _, (List.dropLast_append_getLast ?_).symm⟩
    exact List.ne_nil_of_length_pos (by rwa [length_cells])
  have hlength : front.length = s.size := by
    have hlength := length_cells s
    rw [hfront, List.length_append, List.length_singleton, size_order hsize] at hlength
    omega
  have hc : s.arena.get last = c := by
    have hcell := getElem?_cells s s.size
    rw [hfront, ← hlength, List.getElem?_concat_length, hlength, cell?, hlast] at hcell
    exact (Option.some.inj hcell).symm
  have hfilled : (s.arena.modify last (·.withInstruction (some i))).get last =
      c.withInstruction (some i) := by
    rw [Arena.get_modify_self (hs.live_of_getElem? hlast), hc]
  -- in between, the last cell has got its instruction
  have hmid : (s.modifyCell s.size (·.withInstruction (some i))) =
      { s with arena := s.arena.modify last (·.withInstruction (some i)) } := by
    rw [Store.modifyCell, hlast]
  have hexact := hs.modifyCell s.size (·.withInstruction (some i))
  have hcells := hs.cells_modifyCell s.size (·.withInstruction (some i))
  rw [hmid] at hexact hcells
  have hmodify : s.cells.modify s.size (·.withInstruction (some i)) =
      front ++ [c.withInstruction (some i)] := by
    rw [hfront, ← hlength, List.modify_eq_take_cons_drop (by simp)]
    simp
  obtain ⟨hexact', hcells'⟩ :=
    hexact.alloc_push ⟨c.index + 1, (c.withInstruction (some i)).stop, none, ∅⟩
  rw [hcells] at hcells'
  rw [Store.appendCell, hback]
  simp only [hfilled]
  refine ⟨_, _, _, _, rfl, hexact', ?_, hcells'⟩
  refine (congrArg Cell.LaidOut hcells').mpr ?_
  rw [hfront, Cell.laidOut_concat_iff] at hlaid
  obtain ⟨hlaid, hindex, haddress⟩ := hlaid
  rw [hmodify, Cell.laidOut_concat_iff, Cell.laidOut_concat_iff]
  refine ⟨⟨hlaid, hindex, haddress⟩, ?_, ?_⟩
  · rw [hindex, List.length_append, List.length_singleton]
  · rw [Cell.stop_eq, List.map_append, List.sum_append]
    simp [Cell.withInstruction, haddress]

/-- Inserting adds a cell in front of another. -/
theorem insertCell (hk : k < s.size) (hlaid : Cell.LaidOut s.cells) (i : Instruction Label) :
    ∃ arena fresh index address,
      s.insertCell k i =
          { s with arena := arena, order := s.order.insertIdxIfInBounds k fresh } ∧
        (s.insertCell k i).Exact ∧
        (s.insertCell k i).cells =
          Cell.lay 0 0 (s.cells.insertIdx k ⟨index, address, some i, ∅⟩) := by
  have horder : k < s.order.size := Nat.lt_of_lt_of_le hk (size_le_order s)
  have hlength : k ≤ s.cells.length := by simpa using Nat.le_of_lt horder
  have hbehind := cell?_eq_some horder
  obtain ⟨hexact, hcells⟩ := hs.alloc_insertIdx (Nat.le_of_lt horder)
    ⟨k, (s.arena.get s.order[k]).address, some i, ∅⟩
  rw [Store.insertCell, if_neg (Nat.ne_of_lt hk), hbehind]
  refine ⟨_, _, k, (s.arena.get s.order[k]).address, rfl, hexact.reindexFrom _, ?_⟩
  refine (hexact.cells_reindexFrom ?_ ?_).trans (congrArg _ hcells)
  · rw [← length_cells, hcells, List.length_insertIdx_of_le_length hlength, length_cells]
    exact Nat.succ_le_succ (Nat.le_of_lt horder)
  · rw [hcells]
    refine hlaid.take_of_same fun j hj c' hc' => ?_
    rcases Nat.lt_succ_iff_lt_or_eq.1 hj with hlt | rfl
    · rw [List.getElem?_insertIdx_of_lt hlt] at hc'
      exact ⟨c', hc', rfl, rfl, fun _ => rfl⟩
    · rw [List.getElem?_insertIdx_self, if_pos hlength] at hc'
      obtain rfl := Option.some.inj hc'
      have hcell := (getElem?_cells s j).trans hbehind
      exact ⟨_, hcell, (Cell.laidOut_iff.1 hlaid j _ hcell).1.symm, rfl,
        fun h => absurd h (Nat.lt_irrefl _)⟩

omit hs in
/-- Changing a cell leaves everything but the arena as it is. -/
theorem modifyCell_eq (s : Store) (k : Nat) (f : Cell → Cell) :
    ∃ arena, s.modifyCell k f = { s with arena := arena } := by
  unfold Store.modifyCell
  split
  · exact ⟨_, rfl⟩
  · exact ⟨_, rfl⟩

/-- A change of one cell after which those behind it are laid out again. -/
theorem reindexFrom_modifyCell (hk : k < s.order.size) (hlaid : Cell.LaidOut s.cells)
    {f : Cell → Cell} (hf : ∀ c, (f c).index = c.index ∧ (f c).address = c.address) :
    ∃ arena, (s.modifyCell k f).reindexFrom (k + 1) = { s with arena := arena } ∧
      ((s.modifyCell k f).reindexFrom (k + 1)).Exact ∧
      ((s.modifyCell k f).reindexFrom (k + 1)).cells = Cell.lay 0 0 (s.cells.modify k f) := by
  obtain ⟨arena, hstore⟩ := modifyCell_eq s k f
  have horder : (s.modifyCell k f).order = s.order := by rw [hstore]
  refine ⟨_, by rw [hstore]; rfl, (hs.modifyCell k f).reindexFrom _, ?_⟩
  rw [(hs.modifyCell k f).cells_reindexFrom (by rw [horder]; exact hk), hs.cells_modifyCell]
  rw [hs.cells_modifyCell]
  refine hlaid.take_of_same fun j hj c' hc' => ?_
  rw [List.getElem?_modify] at hc'
  obtain ⟨c, hc, rfl⟩ := Option.map_eq_some_iff.1 hc'
  refine ⟨c, hc, ?_⟩
  split
  · next heq => exact ⟨(hf c).1, (hf c).2, fun h => absurd h (by omega)⟩
  · exact ⟨rfl, rfl, fun _ => rfl⟩

/-- Swapping exchanges the instructions in two cells. -/
theorem swapCells {k₁ : Nat} (k₂ : Nat) (hk₁ : k₁ < s.order.size)
    (hlaid : Cell.LaidOut s.cells) :
    ∃ arena, s.swapCells k₁ k₂ = { s with arena := arena } ∧ (s.swapCells k₁ k₂).Exact ∧
      (s.swapCells k₁ k₂).cells = Cell.lay 0 0
        ((s.cells.modify k₁ (·.withInstruction (s.instruction? k₂))).modify k₂
          (·.withInstruction (s.instruction? k₁))) := by
  obtain ⟨arena₁, hstore₁⟩ := modifyCell_eq s k₁ (·.withInstruction (s.instruction? k₂))
  have hexact₁ := hs.modifyCell k₁ (·.withInstruction (s.instruction? k₂))
  have hcells₁ := hs.cells_modifyCell k₁ (·.withInstruction (s.instruction? k₂))
  rw [hstore₁] at hexact₁ hcells₁
  obtain ⟨arena₂, hstore₂⟩ :=
    modifyCell_eq { s with arena := arena₁ } k₂ (·.withInstruction (s.instruction? k₁))
  have hexact₂ := hexact₁.modifyCell k₂ (·.withInstruction (s.instruction? k₁))
  have hcells₂ := hexact₁.cells_modifyCell k₂ (·.withInstruction (s.instruction? k₁))
  rw [hcells₁] at hcells₂
  rw [hstore₂] at hexact₂ hcells₂
  have hstore : s.swapCells k₁ k₂ =
      Store.reindexFrom { s with arena := arena₂ } (min k₁ k₂ + 1) := by
    unfold Store.swapCells
    simp only [hstore₁, hstore₂]
  rw [hstore]
  refine ⟨_, rfl, hexact₂.reindexFrom _, ?_⟩
  have hmin : min k₁ k₂ + 1 ≤ s.order.size :=
    Nat.succ_le_of_lt (Nat.lt_of_le_of_lt (Nat.min_le_left _ _) hk₁)
  refine (hexact₂.cells_reindexFrom hmin ?_).trans (congrArg _ hcells₂)
  rw [hcells₂]
  refine hlaid.take_of_same fun j hj c' hc' => ?_
  rw [List.getElem?_modify, List.getElem?_modify] at hc'
  obtain ⟨c₁, hc₁, rfl⟩ := Option.map_eq_some_iff.1 hc'
  obtain ⟨c, hc, rfl⟩ := Option.map_eq_some_iff.1 hc₁
  refine ⟨c, hc, ?_, ?_, fun hlt => ?_⟩
  · by_cases h₁ : k₁ = j <;> by_cases h₂ : k₂ = j <;> simp [h₁, h₂, Cell.withInstruction]
  · by_cases h₁ : k₁ = j <;> by_cases h₂ : k₂ = j <;> simp [h₁, h₂, Cell.withInstruction]
  · -- both positions are further on
    have h₁ : k₁ ≠ j := by omega
    have h₂ : k₂ ≠ j := by omega
    simp [h₁, h₂]

/-- Removing takes a cell away and attaches what was attached to it to the cell behind it. -/
theorem removeCell (hk : k < s.size) (hlaid : Cell.LaidOut s.cells) :
    ∃ arena gone next, s.order[k]? = some gone ∧ s.order[k + 1]? = some next ∧
      s.removeCell k = ((s.arena.get gone).instruction?,
        { s with
          arena := arena
          order := s.order.eraseIdxIfInBounds k
          places := retarget s.places (s.arena.get gone).point.labels.toList next
          referrals := s.referrals.forget gone }) ∧
      (s.removeCell k).2.Exact ∧
      (s.removeCell k).2.cells = Cell.lay 0 0 ((s.cells.eraseIdx k).modify k
        (·.modifyPoint (s.arena.get gone).point.mergeInto)) := by
  have hnext := lt_order_of_lt_size hk
  have horder : k < s.order.size := Nat.lt_of_succ_lt hnext
  have hgone' : s.order[k]? = some s.order[k] := Array.getElem?_eq_getElem horder
  have hnext' : s.order[k + 1]? = some s.order[k + 1] := Array.getElem?_eq_getElem hnext
  generalize s.order[k] = gone at hgone'
  generalize s.order[k + 1] = next at hnext'
  -- in between, the cell is gone, and what was attached to it is attached to the one behind it
  obtain ⟨hexact, hcells⟩ := hs.free_eraseIdx hgone'
  have hmid : Store.modifyCell
      { s with arena := s.arena.free gone, order := s.order.eraseIdxIfInBounds k } k
        (·.modifyPoint (s.arena.get gone).point.mergeInto) =
      { s with
        arena := (s.arena.free gone).modify next
          (·.modifyPoint (s.arena.get gone).point.mergeInto)
        order := s.order.eraseIdxIfInBounds k } := by
    have hbehind : (s.order.eraseIdxIfInBounds k)[k]? = some next := by
      rw [← Array.getElem?_toList, Array.toList_eraseIdxIfInBounds,
        List.getElem?_eraseIdx_of_ge (Nat.le_refl k), Array.getElem?_toList, hnext']
    rw [Store.modifyCell, hbehind]
  have hexact' := hexact.modifyCell k (·.modifyPoint (s.arena.get gone).point.mergeInto)
  have hcells' := hexact.cells_modifyCell k (·.modifyPoint (s.arena.get gone).point.mergeInto)
  rw [hmid] at hexact' hcells'
  rw [hcells] at hcells'
  have hfinal : Exact { s with
      order := s.order.eraseIdxIfInBounds k
      arena := (s.arena.free gone).modify next
        (·.modifyPoint (s.arena.get gone).point.mergeInto)
      places := retarget s.places (s.arena.get gone).point.labels.toList next
      referrals := s.referrals.forget gone } := hexact'.congr rfl fun _ => Iff.rfl
  rw [Store.removeCell, hgone', hnext']
  refine ⟨_, gone, next, rfl, rfl, rfl, hfinal.reindexFrom k, ?_⟩
  refine (hfinal.cells_reindexFrom ?_ ?_).trans (congrArg _ hcells')
  · rw [← length_cells]
    refine Nat.le_trans ?_ (Nat.le_of_eq (congrArg List.length hcells').symm)
    rw [List.length_modify, List.length_eraseIdx_of_lt (by rwa [length_cells]), length_cells]
    exact Nat.le_sub_one_of_lt horder
  · refine (congrArg (fun cells => Cell.LaidOut (cells.take k)) hcells').mpr ?_
    refine hlaid.take_of_same fun j hj c' hc' => ?_
    rw [List.getElem?_modify, List.getElem?_eraseIdx_of_lt hj] at hc'
    exact ⟨c', by simpa [Nat.ne_of_gt hj] using hc', rfl, rfl, fun _ => rfl⟩

/-! ### Edits of what is attached -/

/-- Filtering the items filters them in every cell. -/
theorem retainItems (keep : DebugItem → Bool) :
    (s.retainItems keep).Exact ∧ (s.retainItems keep).cells = s.cells.map
      (·.modifyPoint fun point => { point with items := point.items.retain keep }) := by
  have hspec := Arena.foldl_modify hs.nodup
    (Cell.modifyPoint fun point => { point with items := point.items.retain keep }) s.arena
    fun h hh => (hs.live h).2 hh
  rw [Array.foldl_toList] at hspec
  exact ⟨hs.congr rfl hspec.2.2, hspec.1⟩

end Exact

end Store

end Dalvik
