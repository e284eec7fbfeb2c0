import Dalvik.Listing.Basic

/-!
# The arena of cells

A cell is what a method that is being edited keeps for a position: the instruction, what is attached
to it, and the position and the address at which it currently is.  Cells are owned by an arena and
go by handles, which stay the same while cells are added and removed elsewhere.  The handle of a
cell that was freed is never handed out again.
-/

namespace Dalvik

/-- The name of a cell. -/
structure Handle where
  /-- Number of the cell among those of its arena. -/
  number : Nat
  deriving DecidableEq, Inhabited

/-- A position of a method that is being edited. -/
structure Cell where
  /-- The position. -/
  index : Nat
  /-- Its address. -/
  address : Nat
  /-- The instruction, which the end does not have. -/
  instruction? : Option (Instruction Label) := none
  /-- What is attached to the position. -/
  point : Point := ∅
  deriving DecidableEq, Inhabited

namespace Cell

/-- The address of the cell behind this one. -/
def stop (c : Cell) : Nat := c.address + (c.instruction?.map Instruction.units).getD 0

/-- The cell with another instruction. -/
def withInstruction (c : Cell) (i? : Option (Instruction Label)) : Cell :=
  { c with instruction? := i? }

/-- The cell with something else attached to it. -/
def modifyPoint (f : Point → Point) (c : Cell) : Cell := { c with point := f c.point }

/-- The cell at another place. -/
def moveTo (index address : Nat) (c : Cell) : Cell := { c with index, address }

end Cell

/-- Owner of cells. -/
structure Arena where
  /-- The cells by number; those that were freed are gone. -/
  cells : Array (Option Cell) := #[]
  deriving DecidableEq, Inhabited

instance : EmptyCollection Arena := ⟨{}⟩

namespace Arena

variable {a : Arena} {c : Cell} {f : Cell → Cell} {h g : Handle}

/-- The cell of a handle, unless it was freed. -/
def get? (a : Arena) (h : Handle) : Option Cell := a.cells[h.number]?.join

/-- The cell of a handle; that of a handle whose cell was freed has nothing in it. -/
def get (a : Arena) (h : Handle) : Cell := (a.get? h).getD default

/-- Adds a cell, and gives its handle. -/
def alloc (a : Arena) (c : Cell) : Arena × Handle := (⟨a.cells.push (some c)⟩, ⟨a.cells.size⟩)

/-- Frees a cell. -/
def free (a : Arena) (h : Handle) : Arena := ⟨a.cells.setIfInBounds h.number none⟩

/-- Changes a cell. -/
def modify (a : Arena) (h : Handle) (f : Cell → Cell) : Arena :=
  ⟨a.cells.modify h.number (Option.map f)⟩

/-- Whether there is a cell for a handle. -/
def Live (a : Arena) (h : Handle) : Prop := (a.get? h).isSome = true

instance (a : Arena) (h : Handle) : Decidable (a.Live h) := inferInstanceAs (Decidable (_ = true))

/-! ### What the operations do to a cell -/

theorem get?_alloc : (a.alloc c).1.get? h = if h = (a.alloc c).2 then some c else a.get? h := by
  have heq : h = ⟨a.cells.size⟩ ↔ h.number = a.cells.size := by
    cases h
    simp
  simp only [get?, alloc, Array.getElem?_push, heq]
  split <;> rfl

theorem get?_free : (a.free h).get? g = if g = h then none else a.get? g := by
  have heq : g = h ↔ h.number = g.number := by
    cases g
    cases h
    simp [eq_comm]
  simp only [get?, free, Array.getElem?_setIfInBounds, heq]
  split
  · split <;> rfl
  · rfl

theorem get?_modify : (a.modify h f).get? g = if g = h then (a.get? g).map f else a.get? g := by
  have heq : g = h ↔ h.number = g.number := by
    cases g
    cases h
    simp [eq_comm]
  simp only [get?, modify, Array.getElem?_modify, heq]
  split
  · cases a.cells[g.number]? with
    | none => rfl
    | some c? => cases c? <;> rfl
  · rfl

/-- A new cell has a new handle. -/
theorem not_live_alloc : ¬ a.Live (a.alloc c).2 := by
  simp [Live, get?, alloc]

theorem live_alloc_iff : (a.alloc c).1.Live h ↔ h = (a.alloc c).2 ∨ a.Live h := by
  rw [Live, get?_alloc]
  split
  · next heq => simp [heq]
  · next hne => rw [← Live, or_iff_right hne]

theorem live_free_iff : (a.free h).Live g ↔ g ≠ h ∧ a.Live g := by
  rw [Live, get?_free]
  split
  · next heq => simp [heq]
  · next hne => rw [← Live, and_iff_right hne]

@[simp] theorem live_modify_iff : (a.modify h f).Live g ↔ a.Live g := by
  rw [Live, get?_modify]
  split
  · rw [Option.isSome_map, Live]
  · rw [Live]

/-- A handle that has a cell gives it. -/
theorem Live.get?_eq (hlive : a.Live h) : a.get? h = some (a.get h) := by
  obtain ⟨c, hc⟩ := Option.isSome_iff_exists.1 hlive
  rw [get, hc]
  rfl

@[simp] theorem get_alloc_self : (a.alloc c).1.get (a.alloc c).2 = c := by
  rw [get, get?_alloc, if_pos rfl]
  rfl

theorem get_alloc_of_ne (hne : h ≠ (a.alloc c).2) : (a.alloc c).1.get h = a.get h := by
  rw [get, get?_alloc, if_neg hne, get]

theorem get_free_of_ne (hne : g ≠ h) : (a.free h).get g = a.get g := by
  rw [get, get?_free, if_neg hne, get]

theorem get_modify_self (hlive : a.Live h) : (a.modify h f).get h = f (a.get h) := by
  rw [get, get?_modify, if_pos rfl, hlive.get?_eq]
  rfl

theorem get_modify_of_ne (hne : g ≠ h) : (a.modify h f).get g = a.get g := by
  rw [get, get?_modify, if_neg hne, get]

end Arena

end Dalvik
