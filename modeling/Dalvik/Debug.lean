/-!
# Debug information

The items from which a debugger learns about lines and local variables.  Names and types are
indices into pools; a missing one means that nothing is known.
-/

namespace Dalvik

/-- One piece of debug information, which takes effect where it is pinned. -/
inductive DebugItem where
  /-- A local variable starts to live in a register. -/
  | startLocal (register : UInt16) (name type signature : Option UInt32)
  /-- The variable in a register ceases to live. -/
  | endLocal (register : UInt16)
  /-- The variable that last lived in a register lives there again. -/
  | restartLocal (register : UInt16)
  /-- The method's own code starts. -/
  | prologueEnd
  /-- The method is about to return. -/
  | epilogueBegin
  /-- The following lines are in another source file. -/
  | sourceFile (file : Option UInt32)
  /-- A source line starts. -/
  | line (line : UInt32)
  deriving DecidableEq, Inhabited

end Dalvik
