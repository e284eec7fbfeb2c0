import Dalvik.Store.Edit
import Dalvik.Assembler

/-!
# Assembling a store from top to bottom

Names are kept as for drafts; what is assembled is a store.
-/

namespace Dalvik

/-- A method that is being assembled in a store. -/
structure StoreAssembler where
  /-- What has been assembled so far. -/
  store : Store
  /-- The names in use; the one at position `n` stands for the label with number `n`. -/
  names : Array NamedLabel := #[]
  deriving DecidableEq, Inhabited

/-- An action that assembles a part of a method and may fail. -/
abbrev StoreAssemblerM := EStateM Error StoreAssembler

namespace StoreAssembler

variable {α : Type}

/-- The assembler of a method with nothing in it. -/
def new (id : Nat) (registers : UInt16) : StoreAssembler := { store := .new id registers }

/-- Carries out an edit at what has been assembled so far. -/
def edit (action : StoreM α) : StoreAssemblerM α := fun s =>
  let names := s.names
  match action s.store with
  | .ok a store => .ok a ⟨store, names⟩
  | .error e store => .error e ⟨store, names⟩

/-- The label for a name, issued on first use. -/
def label (name : String) : StoreAssemblerM Label := do
  let s ← get
  match s.names.findIdx? (·.name = name) with
  | some number => return ⟨s.store.id, number⟩
  | none =>
    modify fun s => { s with names := s.names.push ⟨name, false⟩ }
    edit (modifyGet Store.issueLabel)

/-- Places a name here.  It can be placed once. -/
def place (name : String) : StoreAssemblerM Label := do
  let label ← label name
  if (← get).names.any fun n => n.name = name && n.placed then
    throw (.duplicateLabel name)
  else
    modify fun s =>
      { store := s.store.placeLabel label s.store.size
        names := s.names.map fun n => if n.name = name then { n with placed := true } else n }
    return label

/-- Adds an instruction. -/
def add (i : Instruction Label) : StoreAssemblerM Unit := edit (Store.append i)

/-- Adds an exception handler for the instructions between two names. -/
def addCatch (type? : Option UInt32) (start stop handler : String) : StoreAssemblerM Unit := do
  let start ← label start
  let stop ← label stop
  let handler ← label handler
  edit (Store.addTry { start, stop, type?, handler })

/-- Adds a debug item. -/
def addDebugItem (item : DebugItem) : StoreAssemblerM Unit := do
  let here := (← get).store.size
  edit (Store.addDebugItem here item)

/-- Starts a source line. -/
def addLine (line : UInt32) : StoreAssemblerM Unit := addDebugItem (.line line)

/-- The names that were used and never placed, in alphabetical order. -/
def unplaced (s : StoreAssembler) : List String :=
  ((s.names.toList.filter (!·.placed)).map (·.name)).mergeSort

/-- The finished store.  Every name in use must have been placed. -/
def build (s : StoreAssembler) : Except Error Store :=
  match s.unplaced with
  | [] => .ok s.store
  | names => .error (.methodNotFinished names)

end StoreAssembler

end Dalvik
