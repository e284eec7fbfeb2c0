import Dalvik.Assembler
import Dalvik.Draft.OfOutline

/-!
# The registry of drafts

Labels are recognised by the identity of the draft that issued them, so identities must not be
shared by accident.  A registry hands them out; only a copy of a draft has the identity of another.
-/

namespace Dalvik

/-- Hands out identities for drafts. -/
structure Registry where
  /-- Number of identities handed out, which is also the next one. -/
  issued : Nat := 0
  deriving DecidableEq, Inhabited

namespace Registry

/-- The registry after the next identity has been handed out. -/
def next (r : Registry) : Registry := ⟨r.issued + 1⟩

/-- Starts a draft with nothing in it. -/
def newDraft (r : Registry) (registers : UInt16) : Draft × Registry :=
  (.new r.issued registers, r.next)

/-- Starts to assemble a method. -/
def newAssembler (r : Registry) (registers : UInt16) : Assembler × Registry :=
  (.new r.issued registers, r.next)

/-- Opens a finished method for editing. -/
def openMethod (r : Registry) (m : Method) : Except Error Draft × Registry :=
  (Draft.ofMethod r.issued m, r.next)

end Registry

end Dalvik
