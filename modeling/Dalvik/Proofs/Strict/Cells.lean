import Dalvik.Proofs.Store.Cells

/-!
# Strict lookups

The functions of a store answer every lookup, if need be with a cell that has nothing in it, and leave
alone what does not exist.  The functions here do the same work, but they get stuck, with `none`, when
they come across a handle whose cell was freed, a position that the order does not list, a label
without an entry in the table, or a difference that would be negative.

In a store whose order lists exactly its cells they do not get stuck, as long as they are used for
positions that exist, and then they give what the functions of the store give.
-/

namespace Dalvik

/-- Changes a cell, which must not have been freed. -/
def Arena.modify? (a : Arena) (h : Handle) (f : Cell → Cell) : Option Arena :=
  (a.get? h).map fun _ => a.modify h f

theorem Arena.Live.modify?_eq {a : Arena} {h : Handle} (hlive : a.Live h) (f : Cell → Cell) :
    a.modify? h f = some (a.modify h f) := by
  rw [modify?, hlive.get?_eq]
  rfl

namespace Store

namespace Strict

/-- The cell at a position. -/
def cell (s : Store) (index : Nat) : Option Cell := do s.arena.get? (← s.order[index]?)

/-- The cells in order. -/
def cells (s : Store) : Option (List Cell) := s.order.toList.mapM s.arena.get?

/-- Number of instructions, one less than there are cells. -/
def size (s : Store) : Option Nat := if s.order.size = 0 then none else some (s.order.size - 1)

/-! ### Laying out -/

/-- Moves the cells of some handles. -/
def layOut (arena : Arena) (index address : Nat) : List Handle → Option Arena
  | [] => some arena
  | h :: rest => do
    let moved ← arena.modify? h (Cell.moveTo index address)
    layOut moved (index + 1) (← moved.get? h).stop rest

/-- The address at which the cell at a position belongs. -/
def startOf (s : Store) : (index : Nat) → Option Nat
  | 0 => some 0
  | before + 1 => return (← cell s before).stop

/-- Lays out the cells from a position on. -/
def reindexFrom (s : Store) (index : Nat) : Option Store := do
  let arena ← layOut s.arena index (← startOf s index) (s.order.toList.drop index)
  return { s with arena }

/-! ### Cells that come and go -/

/-- Changes the cell at a position. -/
def modifyCell (s : Store) (index : Nat) (f : Cell → Cell) : Option Store := do
  let arena ← s.arena.modify? (← s.order[index]?) f
  return { s with arena }

/-- Fills the cell of the end, and adds another cell for the end. -/
def appendCell (s : Store) (i : Instruction Label) : Option Store := do
  let last ← s.order[← size s]?
  let arena ← s.arena.modify? last (·.withInstruction (some i))
  let filled ← arena.get? last
  let (arena, fresh) := arena.alloc { index := filled.index + 1, address := filled.stop }
  return { s with arena, order := s.order.push fresh }

/-- Adds a cell in front of a position. -/
def insertCell (s : Store) (index : Nat) (i : Instruction Label) : Option Store := do
  if index = (← size s) then appendCell s i
  else
    let behind ← cell s index
    let (arena, fresh) :=
      s.arena.alloc { index, address := behind.address, instruction? := some i }
    reindexFrom { s with arena, order := s.order.insertIdxIfInBounds index fresh } (index + 1)

/-- Puts an instruction into the cell at a position. -/
def setInstruction (s : Store) (index : Nat) (i : Instruction Label) :
    Option (Option (Instruction Label) × Store) := do
  let old ← cell s index
  let filled ← modifyCell s index (·.withInstruction (some i))
  return (old.instruction?, ← reindexFrom filled (index + 1))

/-- Exchanges the instructions in two cells. -/
def swapCells (s : Store) (index₁ index₂ : Nat) : Option Store := do
  let cell₁ ← cell s index₁
  let cell₂ ← cell s index₂
  let s ← modifyCell s index₁ (·.withInstruction cell₂.instruction?)
  let s ← modifyCell s index₂ (·.withInstruction cell₁.instruction?)
  reindexFrom s (min index₁ index₂ + 1)

/-- Makes labels stand at a cell, in the table. -/
def retarget (places : Array (Option Handle)) (labels : List Label) (h : Handle) :
    Option (Array (Option Handle)) :=
  labels.foldlM (fun places label =>
    if label.number < places.size then some (places.setIfInBounds label.number (some h)) else none)
    places

/-- Removes the cell at a position. -/
def removeCell (s : Store) (index : Nat) : Option (Option (Instruction Label) × Store) := do
  let gone ← s.order[index]?
  let order := s.order.eraseIdxIfInBounds index
  let removed ← s.arena.get? gone
  let next ← order[index]?
  let places ← retarget s.places removed.point.labels.toList next
  let arena ← (s.arena.free gone).modify? next (·.modifyPoint removed.point.mergeInto)
  let left := { s with order, arena, places, referrals := s.referrals.forget gone }
  return (removed.instruction?, ← reindexFrom left index)

/-! ### What is attached -/

/-- Makes a label stand at a position. -/
def placeLabel (s : Store) (label : Label) (index : Nat) : Option Store := do
  let h ← s.order[index]?
  let places ← retarget s.places [label] h
  let arena ← s.arena.modify? h (·.modifyPoint fun point =>
    { point with labels := point.labels.push label })
  return { s with arena, places }

/-- Issues a label for a position. -/
def issueLabelAt (s : Store) (index : Nat) : Option (Label × Store) := do
  let (label, s) := s.issueLabel
  return (label, ← placeLabel s label index)

/-- Pins a debug item to a position. -/
def pinItem (s : Store) (index : Nat) (item : DebugItem) : Option Store :=
  modifyCell s index (·.modifyPoint fun point => { point with items := point.items.push item })

/-- Detaches the debug items from a position. -/
def takeItems (s : Store) (index : Nat) : Option (List DebugItem × Store) := do
  let taken ← cell s index
  let left ← modifyCell s index
    (·.modifyPoint fun point => { point with items := point.items.take.2 })
  return (taken.point.items.take.1, left)

/-- Keeps the debug items that satisfy a predicate. -/
def retainItems (s : Store) (keep : DebugItem → Bool) : Option Store := do
  let arena ← s.order.toList.foldlM (fun arena h => arena.modify? h (·.modifyPoint fun point =>
    { point with items := point.items.retain keep })) s.arena
  return { s with arena }

end Strict

/-! ### Where nothing gets stuck -/

variable {s : Store} {k k₁ k₂ : Nat}

theorem Strict.size_eq (hsize : 0 < s.order.size) : Strict.size s = some s.size :=
  if_neg (Nat.ne_of_gt hsize)

/-- As long as the handles have cells, these can be laid out. -/
theorem Strict.layOut_eq {arena : Arena} {handles : List Handle}
    (hlive : ∀ h ∈ handles, arena.Live h) (index address : Nat) :
    Strict.layOut arena index address handles = some (Store.layOut arena index address handles) := by
  induction handles generalizing arena index address with
  | nil => rfl
  | cons h rest ih =>
    have hhead := hlive h List.mem_cons_self
    have hmoved : (arena.modify h (Cell.moveTo index address)).Live h :=
      Arena.live_modify_iff.2 hhead
    rw [Strict.layOut, Store.layOut]
    simp only [hhead.modify?_eq, hmoved.get?_eq, Option.bind_eq_bind, Option.bind_some]
    exact ih (fun g hg => Arena.live_modify_iff.2 (hlive g (List.mem_cons_of_mem h hg))) _ _

/-- Labels that have entries in the table can be made to stand somewhere else. -/
theorem Strict.retarget_eq {places : Array (Option Handle)} {labels : List Label}
    (hlabels : ∀ label ∈ labels, label.number < places.size) (h : Handle) :
    Strict.retarget places labels h = some (Store.retarget places labels h) := by
  induction labels generalizing places with
  | nil => rfl
  | cons label rest ih =>
    obtain ⟨hlabel, hrest⟩ := List.forall_mem_cons.1 hlabels
    rw [Strict.retarget, List.foldlM_cons, if_pos hlabel]
    exact ih fun label' hlabel' => by simpa using hrest label' hlabel'

namespace Exact

variable (hs : s.Exact)

include hs

theorem strict_cell (k : Nat) : Strict.cell s k = s.cell? k := by
  rw [Strict.cell, cell?]
  cases hk : s.order[k]? with
  | none => rfl
  | some h => exact (hs.live_of_getElem? hk).get?_eq

theorem strict_cells : Strict.cells s = some s.cells := by
  rw [Strict.cells, Store.cells]
  have hlive : ∀ h ∈ s.order.toList, s.arena.Live h := fun h => (hs.live h).2
  generalize s.order.toList = handles at hlive
  induction handles with
  | nil => rfl
  | cons h rest ih =>
    obtain ⟨hhead, hrest⟩ := List.forall_mem_cons.1 hlive
    rw [List.mapM_cons, hhead.get?_eq, ih hrest]
    rfl

theorem strict_reindexFrom (hk : k ≤ s.order.size) :
    Strict.reindexFrom s k = some (s.reindexFrom k) := by
  have hstart : Strict.startOf s k = some (s.startOf k) := by
    cases k with
    | zero => rfl
    | succ before =>
      rw [Strict.startOf, hs.strict_cell, cell?_eq_some hk, startOf, cell?_eq_some hk]
      rfl
  have hlayOut : Strict.layOut s.arena k (s.startOf k) (s.order.toList.drop k) =
      some (Store.layOut s.arena k (s.startOf k) (s.order.toList.drop k)) :=
    Strict.layOut_eq (fun h hh => (hs.live h).2 (List.mem_of_mem_drop hh)) _ _
  rw [Strict.reindexFrom]
  simp only [hstart, hlayOut, Option.bind_eq_bind, Option.bind_some]
  rfl

theorem strict_modifyCell (hk : k < s.order.size) (f : Cell → Cell) :
    Strict.modifyCell s k f = some (s.modifyCell k f) := by
  have hhandle := Array.getElem?_eq_getElem hk
  have hmodify := (hs.live_of_getElem? hhandle).modify?_eq f
  rw [Strict.modifyCell, Store.modifyCell]
  simp only [hhandle, hmodify, Option.bind_eq_bind, Option.bind_some]
  rfl

theorem strict_appendCell (hsize : 0 < s.order.size) (i : Instruction Label) :
    Strict.appendCell s i = some (s.appendCell i) := by
  obtain ⟨last, hlast⟩ : ∃ last, s.order[s.size]? = some last :=
    ⟨_, Array.getElem?_eq_getElem (by rw [Store.size]; omega)⟩
  have hlive := hs.live_of_getElem? hlast
  have hfilled : (s.arena.modify last (·.withInstruction (some i))).Live last :=
    Arena.live_modify_iff.2 hlive
  have hback : s.order.back? = some last := by
    rw [Array.back?_eq_getElem?]
    exact hlast
  rw [Strict.appendCell, Store.appendCell, hback]
  simp only [Strict.size_eq hsize, hlast, hlive.modify?_eq, hfilled.get?_eq, Option.bind_eq_bind,
    Option.bind_some]
  rfl

theorem strict_insertCell (hsize : 0 < s.order.size) (hk : k ≤ s.size) (i : Instruction Label) :
    Strict.insertCell s k i = some (s.insertCell k i) := by
  rw [Strict.insertCell, Store.insertCell]
  simp only [Strict.size_eq hsize, Option.bind_eq_bind, Option.bind_some]
  by_cases hend : k = s.size
  · rw [if_pos hend, if_pos hend]
    exact hs.strict_appendCell hsize i
  · have hlt : k < s.order.size := by
      rw [Store.size] at hk hend
      omega
    obtain ⟨hexact, hcells⟩ := hs.alloc_insertIdx (Nat.le_of_lt hlt)
      ⟨k, (s.arena.get s.order[k]).address, some i, ∅⟩
    rw [if_neg hend, if_neg hend, hs.strict_cell, cell?_eq_some hlt]
    refine hexact.strict_reindexFrom ?_
    rw [← length_cells, hcells, List.length_insertIdx_of_le_length (by simpa using Nat.le_of_lt hlt),
      length_cells]
    exact Nat.succ_le_succ (Nat.le_of_lt hlt)

theorem strict_setInstruction (hk : k < s.order.size) (i : Instruction Label) :
    Strict.setInstruction s k i = some (s.setInstruction k i) := by
  obtain ⟨arena, hstore⟩ := modifyCell_eq s k (·.withInstruction (some i))
  have hreindex := (hs.modifyCell k (·.withInstruction (some i))).strict_reindexFrom
    (k := k + 1) (by rw [hstore]; exact hk)
  rw [Strict.setInstruction, Store.setInstruction, Store.instruction?]
  simp only [hs.strict_cell, cell?_eq_some hk, hs.strict_modifyCell hk, hreindex,
    Option.bind_eq_bind, Option.bind_some]
  rfl

theorem strict_swapCells (hk₁ : k₁ < s.order.size) (hk₂ : k₂ < s.order.size) :
    Strict.swapCells s k₁ k₂ = some (s.swapCells k₁ k₂) := by
  obtain ⟨arena, hstore⟩ := modifyCell_eq s k₁
    (·.withInstruction (s.arena.get s.order[k₂]).instruction?)
  have hexact := hs.modifyCell k₁ (·.withInstruction (s.arena.get s.order[k₂]).instruction?)
  have hmodify := hs.strict_modifyCell hk₁
    (·.withInstruction (s.arena.get s.order[k₂]).instruction?)
  rw [hstore] at hexact hmodify
  obtain ⟨arena', hstore'⟩ := modifyCell_eq { s with arena := arena } k₂
    (·.withInstruction (s.arena.get s.order[k₁]).instruction?)
  have hexact' := hexact.modifyCell k₂
    (·.withInstruction (s.arena.get s.order[k₁]).instruction?)
  have hmodify' := hexact.strict_modifyCell hk₂
    (·.withInstruction (s.arena.get s.order[k₁]).instruction?)
  rw [hstore'] at hexact' hmodify'
  have hreindex := hexact'.strict_reindexFrom (k := min k₁ k₂ + 1)
    (Nat.succ_le_of_lt (Nat.lt_of_le_of_lt (Nat.min_le_left _ _) hk₁))
  rw [Strict.swapCells, Store.swapCells, Store.instruction?, Store.instruction?]
  simp only [hs.strict_cell, cell?_eq_some hk₁, cell?_eq_some hk₂, hmodify, hmodify', hreindex,
    Option.bind_eq_bind, Option.bind_some, hstore, hstore']

/-- A cell can be removed if there is one behind it and its labels have entries in the table. -/
theorem strict_removeCell (hk : k < s.size)
    (hlabels : ∀ c, s.cell? k = some c → ∀ label ∈ c.point.labels.toList,
      label.number < s.places.size) :
    Strict.removeCell s k = some (s.removeCell k) := by
  have hnext := lt_order_of_lt_size hk
  have hgone := Array.getElem?_eq_getElem (Nat.lt_of_succ_lt hnext)
  have hnext' := Array.getElem?_eq_getElem hnext
  have hretarget := hlabels _ (cell?_eq_some (Nat.lt_of_succ_lt hnext))
  generalize s.order[k + 1] = next at hnext'
  generalize s.order[k] = gone at hgone hretarget
  have hbehind : (s.order.eraseIdxIfInBounds k)[k]? = some next := by
    rw [← Array.getElem?_toList, Array.toList_eraseIdxIfInBounds,
      List.getElem?_eraseIdx_of_ge (Nat.le_refl k), Array.getElem?_toList, hnext']
  have hexact := (hs.free_eraseIdx hgone).1
  have hlive : (s.arena.free gone).Live next := hexact.live_of_getElem? hbehind
  have hleft : Exact { s with
      order := s.order.eraseIdxIfInBounds k
      arena := (s.arena.free gone).modify next
        (·.modifyPoint (s.arena.get gone).point.mergeInto)
      places := retarget s.places (s.arena.get gone).point.labels.toList next
      referrals := s.referrals.forget gone } :=
    hexact.congr rfl fun _ => Arena.live_modify_iff
  have hreindex := hleft.strict_reindexFrom (k := k)
    (Nat.le_of_lt (Array.getElem?_eq_some_iff.1 hbehind).1)
  rw [Strict.removeCell, Store.removeCell]
  simp only [hgone, hnext', (hs.live_of_getElem? hgone).get?_eq, hbehind,
    Strict.retarget_eq hretarget, hlive.modify?_eq, hreindex, Option.bind_eq_bind, Option.bind_some]
  rfl

theorem strict_placeLabel (label : Label) (hk : k < s.order.size)
    (hlabel : label.number < s.places.size) :
    Strict.placeLabel s label k = some (s.placeLabel label k) := by
  have hhandle := Array.getElem?_eq_getElem hk
  have hnumber : ∀ l ∈ [label], l.number < s.places.size := by simpa using hlabel
  have hretarget := Strict.retarget_eq hnumber s.order[k]
  rw [Strict.placeLabel, Store.placeLabel, Store.modifyCell]
  simp only [hhandle, hretarget, (hs.live_of_getElem? hhandle).modify?_eq, Option.bind_eq_bind,
    Option.bind_some]
  rfl

theorem strict_issueLabelAt (hk : k < s.order.size) :
    Strict.issueLabelAt s k = some (s.issueLabelAt k) := by
  have hissue : s.issueLabel.2.Exact := hs.congr rfl fun _ => Iff.rfl
  have hplace := hissue.strict_placeLabel s.issueLabel.1 hk (by simp [issueLabel])
  rw [Strict.issueLabelAt]
  simp only [hplace, Option.bind_eq_bind, Option.bind_some]
  rfl

theorem strict_takeItems (hk : k < s.order.size) :
    Strict.takeItems s k = some (s.takeItems k) := by
  rw [Strict.takeItems, Store.takeItems]
  simp only [hs.strict_cell, cell?_eq_some hk, hs.strict_modifyCell hk, Option.bind_eq_bind,
    Option.bind_some]
  rfl

theorem strict_retainItems (keep : DebugItem → Bool) :
    Strict.retainItems s keep = some (s.retainItems keep) := by
  have hmodify : ∀ (f : Cell → Cell) (handles : List Handle) (arena : Arena),
      (∀ h ∈ handles, arena.Live h) → handles.foldlM (fun arena h => arena.modify? h f) arena =
        some (handles.foldl (fun arena h => arena.modify h f) arena) := by
    intro f handles
    induction handles with
    | nil => exact fun _ _ => rfl
    | cons h rest ih =>
      intro arena hlive
      obtain ⟨hhead, hrest⟩ := List.forall_mem_cons.1 hlive
      rw [List.foldlM_cons, hhead.modify?_eq, List.foldl_cons]
      exact ih _ fun g hg => Arena.live_modify_iff.2 (hrest g hg)
  rw [Strict.retainItems, hmodify _ _ _ fun h hh => (hs.live h).2 hh, Store.retainItems,
    ← Array.foldl_toList]
  rfl

end Exact

end Store

end Dalvik
