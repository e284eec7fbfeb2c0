import Dalvik.Store.Basic
import Mathlib.Data.List.Nodup
import Mathlib.Algebra.BigOperators.Group.List.Basic
import Mathlib.Algebra.GroupWithZero.Nat

/-!
# Cells in order

The cells of a store are seen as one list, `Store.cells`.  A store is exact (`Store.Exact`) if its
order lists the handle of every cell once and no other handles; then a change of one cell changes
the list at one position only.  Cells are laid out (`Cell.LaidOut`) if each is where the cells
before it leave room: its index is its position, and its address is the sum of the sizes before it.

Laying out from some position on (`Store.reindexFrom`) is enough if the cells in front of it are
laid out already (`Store.Exact.cells_reindexFrom`).  This is what every edit relies on.
-/

namespace Dalvik

namespace Cell

/-- Room that a cell takes up. -/
def units (c : Cell) : Nat := (c.instruction?.map Instruction.units).getD 0

theorem stop_eq (c : Cell) : c.stop = c.address + c.units := rfl

/-- Moves cells to the positions from `index` on and to the addresses from `address` on, one behind
the other. -/
def lay (index address : Nat) : List Cell → List Cell
  | [] => []
  | c :: rest => c.moveTo index address :: lay (index + 1) (address + c.units) rest

/-- Every cell is where the cells before it leave room. -/
def LaidOut (cells : List Cell) : Prop := lay 0 0 cells = cells

variable {cells : List Cell}

@[simp] theorem length_lay (index address : Nat) (cells : List Cell) :
    (lay index address cells).length = cells.length := by
  induction cells generalizing index address with
  | nil => rfl
  | cons c rest ih => rw [lay, List.length_cons, ih, List.length_cons]

/-- Laying out moves each cell by itself. -/
theorem getElem?_lay (index address : Nat) (cells : List Cell) (k : Nat) :
    (lay index address cells)[k]? =
      cells[k]?.map (moveTo (index + k) (address + ((cells.take k).map units).sum)) := by
  induction cells generalizing index address k with
  | nil => rfl
  | cons c rest ih =>
    cases k with
    | zero => rfl
    | succ k =>
      rw [lay, List.getElem?_cons_succ, ih, List.getElem?_cons_succ, List.take_succ_cons,
        List.map_cons, List.sum_cons, Nat.add_right_comm, ← Nat.add_assoc, ← Nat.add_assoc]

/-- Whatever does not depend on where a cell is stays. -/
theorem map_lay {α : Type} {f : Cell → α} (hf : ∀ index address c, f (moveTo index address c) = f c)
    (index address : Nat) (cells : List Cell) : (lay index address cells).map f = cells.map f := by
  induction cells generalizing index address with
  | nil => rfl
  | cons c rest ih => rw [lay, List.map_cons, List.map_cons, hf, ih]

theorem lay_append (index address : Nat) (front rest : List Cell) :
    lay index address (front ++ rest) = lay index address front ++
      lay (index + front.length) (address + (front.map units).sum) rest := by
  induction front generalizing index address with
  | nil => simp [lay]
  | cons c front ih =>
    simp only [List.cons_append, lay, ih, List.length_cons, List.map_cons, List.sum_cons]
    rw [Nat.add_right_comm, Nat.add_assoc address, ← Nat.add_assoc index]

/-- What cells were before does not matter when they are laid out. -/
theorem lay_lay (index address index' address' : Nat) (cells : List Cell) :
    lay index address (lay index' address' cells) = lay index address cells := by
  induction cells generalizing index address index' address' with
  | nil => rfl
  | cons c rest ih =>
    have hunits : (moveTo index' address' c).units = c.units := rfl
    rw [lay, lay, lay, ih, hunits]
    rfl

theorem laidOut_lay (cells : List Cell) : LaidOut (lay 0 0 cells) := lay_lay 0 0 0 0 cells

theorem laidOut_iff : LaidOut cells ↔
    ∀ k c, cells[k]? = some c → c.index = k ∧ c.address = ((cells.take k).map units).sum := by
  have hmove : ∀ {index address : Nat} {c : Cell},
      moveTo index address c = c ↔ c.index = index ∧ c.address = address := by
    rintro index address ⟨index', address', i?, point⟩
    simp [moveTo, eq_comm]
  constructor
  · intro h k c hc
    have hk := getElem?_lay 0 0 cells k
    rw [h, hc, Nat.zero_add, Nat.zero_add, Option.map_some] at hk
    exact hmove.1 (Option.some.inj hk).symm
  · intro h
    refine List.ext_getElem? fun k => ?_
    rw [getElem?_lay, Nat.zero_add, Nat.zero_add]
    cases hc : cells[k]? with
    | none => rfl
    | some c => rw [Option.map_some, hmove.2 (h k c hc)]

end Cell

/-! ### Changing one cell among others -/

namespace Arena

variable {a : Arena} {c : Cell} {f : Cell → Cell} {h : Handle} {handles : List Handle}

/-- A cell of which there is no handle may change. -/
theorem map_get_modify_of_notMem (hmem : h ∉ handles) :
    handles.map (a.modify h f).get = handles.map a.get :=
  List.map_congr_left fun _ hg => get_modify_of_ne (ne_of_mem_of_not_mem hg hmem)

theorem map_get_free (hmem : h ∉ handles) : handles.map (a.free h).get = handles.map a.get :=
  List.map_congr_left fun _ hg => get_free_of_ne (ne_of_mem_of_not_mem hg hmem)

theorem map_get_alloc (hmem : (a.alloc c).2 ∉ handles) :
    handles.map (a.alloc c).1.get = handles.map a.get :=
  List.map_congr_left fun _ hg => get_alloc_of_ne (ne_of_mem_of_not_mem hg hmem)

/-- If no handle comes twice, a change of one cell shows at one position. -/
theorem map_get_modify (hnodup : handles.Nodup) {k : Nat} (hk : handles[k]? = some h)
    (hlive : a.Live h) : handles.map (a.modify h f).get = (handles.map a.get).modify k f := by
  refine List.ext_getElem? fun j => ?_
  rw [List.getElem?_map, List.getElem?_modify, List.getElem?_map]
  rcases Decidable.eq_or_ne k j with rfl | hne
  · simp [hk, get_modify_self hlive]
  · cases hj : handles[j]? with
    | none => rfl
    | some g =>
      have hlt := (List.getElem?_eq_some_iff.1 hk).1
      have hgh : g ≠ h := by
        rintro rfl
        exact hne ((List.getElem?_inj hlt hnodup).1 (hk.trans hj.symm))
      simp [hne, get_modify_of_ne hgh]

/-- Changing the cells of some handles one after the other changes these and no others. -/
theorem foldl_modify {handles : List Handle} (hnodup : handles.Nodup) (f : Cell → Cell)
    (a : Arena) (hlive : ∀ h ∈ handles, a.Live h) :
    handles.map (handles.foldl (fun a h => a.modify h f) a).get =
        (handles.map a.get).map f ∧
      (∀ h ∉ handles, (handles.foldl (fun a h => a.modify h f) a).get h = a.get h) ∧
      ∀ h, (handles.foldl (fun a h => a.modify h f) a).Live h ↔ a.Live h := by
  induction handles generalizing a with
  | nil => exact ⟨rfl, fun _ _ => rfl, fun _ => Iff.rfl⟩
  | cons h rest ih =>
    obtain ⟨hfresh, hrest⟩ := List.nodup_cons.1 hnodup
    obtain ⟨hcells, hothers, hlive'⟩ := ih hrest (a.modify h f)
      fun g hg => live_modify_iff.2 (hlive g (List.mem_cons_of_mem h hg))
    refine ⟨?_, fun g hg => ?_, fun g => ?_⟩
    · rw [List.foldl_cons, List.map_cons, List.map_cons, List.map_cons, hcells, hothers h hfresh,
        get_modify_self (hlive h List.mem_cons_self), map_get_modify_of_notMem hfresh]
    · rw [List.mem_cons, not_or] at hg
      rw [List.foldl_cons, hothers g hg.2, get_modify_of_ne hg.1]
    · rw [List.foldl_cons, hlive' g, live_modify_iff]

end Arena

namespace Store

/-- Laying out some cells moves these and no others. -/
theorem layOut_spec {handles : List Handle} (hnodup : handles.Nodup) (arena : Arena)
    (hlive : ∀ h ∈ handles, arena.Live h) (index address : Nat) :
    handles.map (layOut arena index address handles).get =
        Cell.lay index address (handles.map arena.get) ∧
      (∀ h ∉ handles, (layOut arena index address handles).get h = arena.get h) ∧
      ∀ h, (layOut arena index address handles).Live h ↔ arena.Live h := by
  induction handles generalizing arena index address with
  | nil => exact ⟨rfl, fun _ _ => rfl, fun _ => Iff.rfl⟩
  | cons h rest ih =>
    obtain ⟨hfresh, hrest⟩ := List.nodup_cons.1 hnodup
    have hhead : (arena.modify h (Cell.moveTo index address)).get h =
        (arena.get h).moveTo index address :=
      Arena.get_modify_self (hlive h List.mem_cons_self)
    obtain ⟨hcells, hothers, hlive'⟩ := ih hrest (arena.modify h (Cell.moveTo index address))
      (fun g hg => Arena.live_modify_iff.2 (hlive g (List.mem_cons_of_mem h hg))) (index + 1)
      ((arena.modify h (Cell.moveTo index address)).get h).stop
    have hstop : ((arena.get h).moveTo index address).stop = address + (arena.get h).units := rfl
    refine ⟨?_, fun g hg => ?_, fun g => ?_⟩
    · rw [layOut, List.map_cons, List.map_cons, Cell.lay, hcells, hothers h hfresh, hhead, hstop,
        Arena.map_get_modify_of_notMem hfresh]
    · rw [List.mem_cons, not_or] at hg
      rw [layOut, hothers g hg.2, Arena.get_modify_of_ne hg.1]
    · rw [layOut, hlive' g, Arena.live_modify_iff]

/-- The order of a store lists the handle of every cell once, and no other handles. -/
structure Exact (s : Store) : Prop where
  /-- No handle is listed twice. -/
  nodup : s.order.toList.Nodup
  /-- A handle is listed exactly if it has a cell. -/
  live : ∀ h, s.arena.Live h ↔ h ∈ s.order.toList

variable {s s' : Store} {k : Nat}

@[simp] theorem length_cells (s : Store) : s.cells.length = s.order.size := by simp [cells]

@[simp] theorem getElem?_cells (s : Store) (k : Nat) : s.cells[k]? = s.cell? k := by
  simp [cells, cell?]

theorem cell?_eq_some (hk : k < s.order.size) : s.cell? k = some (s.arena.get s.order[k]) := by
  rw [cell?, Array.getElem?_eq_getElem hk, Option.map_some]

namespace Exact

/-- A store stays exact if its order stays and no cell comes or goes. -/
theorem congr (hs : s.Exact) (horder : s'.order = s.order)
    (hlive : ∀ h, s'.arena.Live h ↔ s.arena.Live h) : s'.Exact where
  nodup := by
    rw [horder]
    exact hs.nodup
  live h := by rw [hlive h, hs.live h, horder]

theorem live_of_getElem? (hs : s.Exact) {h : Handle} (hk : s.order[k]? = some h) : s.arena.Live h :=
  (hs.live h).2 (List.mem_of_getElem? ((Array.getElem?_toList ..).trans hk))

theorem modifyCell (hs : s.Exact) (k : Nat) (f : Cell → Cell) : (s.modifyCell k f).Exact := by
  unfold Store.modifyCell
  split
  · exact hs
  · exact hs.congr rfl fun h => Arena.live_modify_iff

/-- Changing a cell changes the list of cells at its position. -/
theorem cells_modifyCell (hs : s.Exact) (k : Nat) (f : Cell → Cell) :
    (s.modifyCell k f).cells = s.cells.modify k f := by
  unfold Store.modifyCell
  split
  · next hnone =>
    have hlength : s.cells.length ≤ k := by
      rw [length_cells]
      exact Array.getElem?_eq_none_iff.1 hnone
    rw [List.modify_eq_self hlength]
  · next h hk =>
    exact Arena.map_get_modify hs.nodup ((Array.getElem?_toList ..).trans hk)
      (hs.live_of_getElem? hk)

theorem reindexFrom (hs : s.Exact) (k : Nat) : (s.reindexFrom k).Exact :=
  hs.congr rfl (layOut_spec (hs.nodup.sublist (List.drop_sublist k _)) s.arena
    (fun h hh => (hs.live h).2 (List.mem_of_mem_drop hh)) k _).2.2

/-- If the cells in front of a position are laid out, it is enough to lay out those from there on.
-/
theorem cells_reindexFrom (hs : s.Exact) (hk : k ≤ s.order.size)
    (hfront : Cell.LaidOut (s.cells.take k)) : (s.reindexFrom k).cells = Cell.lay 0 0 s.cells := by
  have hlength : (s.cells.take k).length = k := by
    rw [List.length_take, length_cells, Nat.min_eq_left hk]
  have hspec := layOut_spec (hs.nodup.sublist (List.drop_sublist k _)) s.arena
    (fun h hh => (hs.live h).2 (List.mem_of_mem_drop hh)) k
  -- where the last cell in front ends, those from `k` on start
  have hstart : s.startOf k = ((s.cells.take k).map Cell.units).sum := by
    cases k with
    | zero => rfl
    | succ before =>
      have hcell := cell?_eq_some (s := s) (k := before) hk
      rw [← getElem?_cells] at hcell
      have htake : (s.cells.take (before + 1))[before]? = some (s.arena.get s.order[before]) := by
        rw [List.getElem?_take, if_pos (Nat.lt_succ_self before), hcell]
      obtain ⟨-, hat⟩ := Cell.laidOut_iff.1 hfront before _ htake
      rw [List.take_take, Nat.min_eq_left (Nat.le_succ before)] at hat
      rw [startOf, ← getElem?_cells, hcell, Option.map_some, Option.getD_some, Cell.stop_eq, hat,
        List.take_add_one, hcell]
      simp
  obtain ⟨hmoved, hothers, -⟩ := hspec ((s.cells.take k).map Cell.units).sum
  have hlay : Cell.lay 0 0 s.cells = s.cells.take k ++
      Cell.lay k ((s.cells.take k).map Cell.units).sum (s.cells.drop k) := by
    conv_lhs => rw [← List.take_append_drop k s.cells]
    rw [Cell.lay_append, hfront, hlength, Nat.zero_add, Nat.zero_add]
  rw [← hstart] at hmoved hothers hlay
  have hsplit : (s.reindexFrom k).cells =
      (s.order.toList.take k).map (s.reindexFrom k).arena.get ++
        (s.order.toList.drop k).map (s.reindexFrom k).arena.get := by
    rw [← List.map_append, List.take_append_drop]
    rfl
  have hkept : (s.order.toList.take k).map (s.reindexFrom k).arena.get = s.cells.take k := by
    rw [cells, ← List.map_take]
    refine List.map_congr_left fun h hh => hothers h fun hdrop => ?_
    exact List.disjoint_take_drop hs.nodup (Nat.le_refl k) hh hdrop
  rw [hsplit, hkept, hlay, cells, ← List.map_drop]
  exact congrArg _ hmoved

end Exact

end Store

end Dalvik
