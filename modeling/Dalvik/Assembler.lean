import Dalvik.Draft.Edit

/-!
# Assembling a method from top to bottom

Labels go by names here, and a name can be used before it is placed, so forward jumps are written
like backward ones.  A name is placed in front of whatever is added next.
-/

namespace Dalvik

/-- A name for a label. -/
structure NamedLabel where
  /-- The name. -/
  name : String
  /-- Whether it has been placed. -/
  placed : Bool
  deriving DecidableEq, Inhabited

/-- A method that is being assembled. -/
structure Assembler where
  /-- What has been assembled so far. -/
  draft : Draft
  /-- The names in use; the one at position `n` stands for the label with number `n`. -/
  names : Array NamedLabel := #[]
  deriving DecidableEq, Inhabited

/-- An action that assembles a part of a method and may fail. -/
abbrev AssemblerM := EStateM Error Assembler

namespace Assembler

variable {α : Type}

/-- The assembler of a method with nothing in it. -/
def new (id : Nat) (registers : UInt16) : Assembler := { draft := .new id registers }

/-- Carries out an edit at what has been assembled so far. -/
def edit (action : DraftM α) : AssemblerM α := fun s =>
  let names := s.names
  match action s.draft with
  | .ok a d => .ok a ⟨d, names⟩
  | .error e d => .error e ⟨d, names⟩

/-- The label for a name, issued on first use. -/
def label (name : String) : AssemblerM Label := do
  let s ← get
  match s.names.findIdx? (·.name = name) with
  | some number => return ⟨s.draft.id, number⟩
  | none =>
    modify fun s => { s with names := s.names.push ⟨name, false⟩ }
    edit Draft.issueLabel

/-- Places a name here.  It can be placed once. -/
def place (name : String) : AssemblerM Label := do
  let label ← label name
  if (← get).names.any fun n => n.name = name && n.placed then
    throw (.duplicateLabel name)
  else
    modify fun s =>
      { draft := { s.draft with listing := s.draft.listing.mark s.draft.size label }
        names := s.names.map fun n => if n.name = name then { n with placed := true } else n }
    return label

/-- Adds an instruction. -/
def add (i : Instruction Label) : AssemblerM Unit := edit (Draft.append i)

/-- Adds an exception handler for the instructions between two names. -/
def addCatch (type? : Option UInt32) (start stop handler : String) : AssemblerM Unit := do
  let start ← label start
  let stop ← label stop
  let handler ← label handler
  edit (Draft.addTry { start, stop, type?, handler })

/-- Adds a debug item. -/
def addDebugItem (item : DebugItem) : AssemblerM Unit := do
  let here := (← get).draft.size
  edit (Draft.addDebugItem here item)

/-- Starts a source line. -/
def addLine (line : UInt32) : AssemblerM Unit := addDebugItem (.line line)

/-- The names that were used and never placed, in alphabetical order. -/
def unplaced (s : Assembler) : List String :=
  ((s.names.toList.filter (!·.placed)).map (·.name)).mergeSort

/-- The finished draft.  Every name in use must have been placed. -/
def build (s : Assembler) : Except Error Draft :=
  match s.unplaced with
  | [] => .ok s.draft
  | names => .error (.methodNotFinished names)

end Assembler

end Dalvik
