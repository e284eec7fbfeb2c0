import Dalvik.Format

/-!
# Opcodes

One table, `Opcode.info`, says everything that is fixed about an opcode: its value in the code, its
mnemonic, its format and what executing it may do.  The last three opcodes are no instructions; they
mark the data that switches and array initialisers point at, and only a whole code unit tells them
from `nop`.
-/

namespace Dalvik

/-- What executing an instruction may do. -/
inductive Flag where
  /-- It may throw an exception. -/
  | canThrow
  /-- Execution may go on with the next instruction. -/
  | canContinue
  /-- It sets the hidden result register, which the `move-result` family reads. -/
  | setsResult
  /-- It writes its first register. -/
  | setsRegister
  /-- It writes a pair of registers. -/
  | setsWideRegister
  deriving DecidableEq

/-- The bit that stands for a flag in a set of flags. -/
def Flag.bit : Flag → Nat
  | canThrow => 1
  | canContinue => 2
  | setsResult => 4
  | setsRegister => 8
  | setsWideRegister => 16

/-- Operation of an instruction, or kind of a payload. -/
inductive Opcode where
  | nop | move | moveFrom16 | move16 | moveWide | moveWideFrom16 | moveWide16 | moveObject
  | moveObjectFrom16 | moveObject16 | moveResult | moveResultWide | moveResultObject | moveException
  | returnVoid | returnValue | returnWide | returnObject | const4 | const16 | const | constHigh16
  | constWide16 | constWide32 | constWide | constWideHigh16 | constString | constStringJumbo
  | constClass | monitorEnter | monitorExit | checkCast | instanceOf | arrayLength | newInstance
  | newArray | filledNewArray | filledNewArrayRange | fillArrayData | throw | goto | goto16 | goto32
  | packedSwitch | sparseSwitch | cmplFloat | cmpgFloat | cmplDouble | cmpgDouble | cmpLong | ifEq
  | ifNe | ifLt | ifGe | ifGt | ifLe | ifEqz | ifNez | ifLtz | ifGez | ifGtz | ifLez | aget
  | agetWide | agetObject | agetBoolean | agetByte | agetChar | agetShort | aput | aputWide
  | aputObject | aputBoolean | aputByte | aputChar | aputShort | iget | igetWide | igetObject
  | igetBoolean | igetByte | igetChar | igetShort | iput | iputWide | iputObject | iputBoolean
  | iputByte | iputChar | iputShort | sget | sgetWide | sgetObject | sgetBoolean | sgetByte
  | sgetChar | sgetShort | sput | sputWide | sputObject | sputBoolean | sputByte | sputChar
  | sputShort | invokeVirtual | invokeSuper | invokeDirect | invokeStatic | invokeInterface
  | invokeVirtualRange | invokeSuperRange | invokeDirectRange | invokeStaticRange
  | invokeInterfaceRange | negInt | notInt | negLong | notLong | negFloat | negDouble | intToLong
  | intToFloat | intToDouble | longToInt | longToFloat | longToDouble | floatToInt | floatToLong
  | floatToDouble | doubleToInt | doubleToLong | doubleToFloat | intToByte | intToChar | intToShort
  | addInt | subInt | mulInt | divInt | remInt | andInt | orInt | xorInt | shlInt | shrInt | ushrInt
  | addLong | subLong | mulLong | divLong | remLong | andLong | orLong | xorLong | shlLong | shrLong
  | ushrLong | addFloat | subFloat | mulFloat | divFloat | remFloat | addDouble | subDouble
  | mulDouble | divDouble | remDouble | addInt2Addr | subInt2Addr | mulInt2Addr | divInt2Addr
  | remInt2Addr | andInt2Addr | orInt2Addr | xorInt2Addr | shlInt2Addr | shrInt2Addr | ushrInt2Addr
  | addLong2Addr | subLong2Addr | mulLong2Addr | divLong2Addr | remLong2Addr | andLong2Addr
  | orLong2Addr | xorLong2Addr | shlLong2Addr | shrLong2Addr | ushrLong2Addr | addFloat2Addr
  | subFloat2Addr | mulFloat2Addr | divFloat2Addr | remFloat2Addr | addDouble2Addr | subDouble2Addr
  | mulDouble2Addr | divDouble2Addr | remDouble2Addr | addIntLit16 | rsubInt | mulIntLit16
  | divIntLit16 | remIntLit16 | andIntLit16 | orIntLit16 | xorIntLit16 | addIntLit8 | rsubIntLit8
  | mulIntLit8 | divIntLit8 | remIntLit8 | andIntLit8 | orIntLit8 | xorIntLit8 | shlIntLit8
  | shrIntLit8 | ushrIntLit8 | igetVolatile | iputVolatile | sgetVolatile | sputVolatile
  | igetObjectVolatile | igetWideVolatile | iputWideVolatile | sgetWideVolatile | sputWideVolatile
  | throwVerificationError | executeInline | executeInlineRange | invokeObjectInitRange
  | returnVoidBarrier | igetQuick | igetWideQuick | igetObjectQuick | iputQuick | iputWideQuick
  | iputObjectQuick | invokeVirtualQuick | invokeVirtualQuickRange | invokePolymorphic
  | invokePolymorphicRange | invokeCustom | invokeCustomRange | constMethodHandle | constMethodType
  | packedSwitchPayload | sparseSwitchPayload | arrayPayload
  deriving DecidableEq, Inhabited

namespace Opcode

/-- The fixed facts about an opcode. -/
structure Info where
  /-- Value in the code: the low byte of the first code unit, or all of it for a payload. -/
  value : UInt16
  /-- Mnemonic. -/
  name : String
  /-- Format of every instruction with this opcode. -/
  format : Format
  /-- What executing it may do. -/
  flags : List Flag

/-- The table of opcodes. -/
def info : Opcode → Info
  | nop => ⟨0x00, "nop", .f10x, [.canContinue]⟩
  | move => ⟨0x01, "move", .f12x, [.canContinue, .setsRegister]⟩
  | moveFrom16 => ⟨0x02, "move/from16", .f22x, [.canContinue, .setsRegister]⟩
  | move16 => ⟨0x03, "move/16", .f32x, [.canContinue, .setsRegister]⟩
  | moveWide => ⟨0x04, "move-wide", .f12x, [.canContinue, .setsRegister, .setsWideRegister]⟩
  | moveWideFrom16 => ⟨0x05, "move-wide/from16", .f22x, [.canContinue, .setsRegister, .setsWideRegister]⟩
  | moveWide16 => ⟨0x06, "move-wide/16", .f32x, [.canContinue, .setsRegister, .setsWideRegister]⟩
  | moveObject => ⟨0x07, "move-object", .f12x, [.canContinue, .setsRegister]⟩
  | moveObjectFrom16 => ⟨0x08, "move-object/from16", .f22x, [.canContinue, .setsRegister]⟩
  | moveObject16 => ⟨0x09, "move-object/16", .f32x, [.canContinue, .setsRegister]⟩
  | moveResult => ⟨0x0a, "move-result", .f11x, [.canContinue, .setsRegister]⟩
  | moveResultWide => ⟨0x0b, "move-result-wide", .f11x, [.canContinue, .setsRegister, .setsWideRegister]⟩
  | moveResultObject => ⟨0x0c, "move-result-object", .f11x, [.canContinue, .setsRegister]⟩
  | moveException => ⟨0x0d, "move-exception", .f11x, [.canContinue, .setsRegister]⟩
  | returnVoid => ⟨0x0e, "return-void", .f10x, []⟩
  | returnValue => ⟨0x0f, "return", .f11x, []⟩
  | returnWide => ⟨0x10, "return-wide", .f11x, []⟩
  | returnObject => ⟨0x11, "return-object", .f11x, []⟩
  | const4 => ⟨0x12, "const/4", .f11n, [.canContinue, .setsRegister]⟩
  | const16 => ⟨0x13, "const/16", .f21s, [.canContinue, .setsRegister]⟩
  | const => ⟨0x14, "const", .f31i, [.canContinue, .setsRegister]⟩
  | constHigh16 => ⟨0x15, "const/high16", .f21ih, [.canContinue, .setsRegister]⟩
  | constWide16 => ⟨0x16, "const-wide/16", .f21s, [.canContinue, .setsRegister, .setsWideRegister]⟩
  | constWide32 => ⟨0x17, "const-wide/32", .f31i, [.canContinue, .setsRegister, .setsWideRegister]⟩
  | constWide => ⟨0x18, "const-wide", .f51l, [.canContinue, .setsRegister, .setsWideRegister]⟩
  | constWideHigh16 => ⟨0x19, "const-wide/high16", .f21lh, [.canContinue, .setsRegister, .setsWideRegister]⟩
  | constString => ⟨0x1a, "const-string", .f21c, [.canThrow, .canContinue, .setsRegister]⟩
  | constStringJumbo => ⟨0x1b, "const-string/jumbo", .f31c, [.canThrow, .canContinue, .setsRegister]⟩
  | constClass => ⟨0x1c, "const-class", .f21c, [.canThrow, .canContinue, .setsRegister]⟩
  | monitorEnter => ⟨0x1d, "monitor-enter", .f11x, [.canThrow, .canContinue]⟩
  | monitorExit => ⟨0x1e, "monitor-exit", .f11x, [.canThrow, .canContinue]⟩
  | checkCast => ⟨0x1f, "check-cast", .f21c, [.canThrow, .canContinue, .setsRegister]⟩
  | instanceOf => ⟨0x20, "instance-of", .f22c, [.canThrow, .canContinue, .setsRegister]⟩
  | arrayLength => ⟨0x21, "array-length", .f12x, [.canThrow, .canContinue, .setsRegister]⟩
  | newInstance => ⟨0x22, "new-instance", .f21c, [.canThrow, .canContinue, .setsRegister]⟩
  | newArray => ⟨0x23, "new-array", .f22c, [.canThrow, .canContinue, .setsRegister]⟩
  | filledNewArray => ⟨0x24, "filled-new-array", .f35c, [.canThrow, .canContinue, .setsResult]⟩
  | filledNewArrayRange => ⟨0x25, "filled-new-array/range", .f3rc, [.canThrow, .canContinue, .setsResult]⟩
  | fillArrayData => ⟨0x26, "fill-array-data", .f31t, [.canThrow, .canContinue]⟩
  | throw => ⟨0x27, "throw", .f11x, [.canThrow]⟩
  | goto => ⟨0x28, "goto", .f10t, []⟩
  | goto16 => ⟨0x29, "goto/16", .f20t, []⟩
  | goto32 => ⟨0x2a, "goto/32", .f30t, []⟩
  | packedSwitch => ⟨0x2b, "packed-switch", .f31t, [.canContinue]⟩
  | sparseSwitch => ⟨0x2c, "sparse-switch", .f31t, [.canContinue]⟩
  | cmplFloat => ⟨0x2d, "cmpl-float", .f23x, [.canContinue, .setsRegister]⟩
  | cmpgFloat => ⟨0x2e, "cmpg-float", .f23x, [.canContinue, .setsRegister]⟩
  | cmplDouble => ⟨0x2f, "cmpl-double", .f23x, [.canContinue, .setsRegister]⟩
  | cmpgDouble => ⟨0x30, "cmpg-double", .f23x, [.canContinue, .setsRegister]⟩
  | cmpLong => ⟨0x31, "cmp-long", .f23x, [.canContinue, .setsRegister]⟩
  | ifEq => ⟨0x32, "if-eq", .f22t, [.canContinue]⟩
  | ifNe => ⟨0x33, "if-ne", .f22t, [.canContinue]⟩
  | ifLt => ⟨0x34, "if-lt", .f22t, [.canContinue]⟩
  | ifGe => ⟨0x35, "if-ge", .f22t, [.canContinue]⟩
  | ifGt => ⟨0x36, "if-gt", .f22t, [.canContinue]⟩
  | ifLe => ⟨0x37, "if-le", .f22t, [.canContinue]⟩
  | ifEqz => ⟨0x38, "if-eqz", .f21t, [.canContinue]⟩
  | ifNez => ⟨0x39, "if-nez", .f21t, [.canContinue]⟩
  | ifLtz => ⟨0x3a, "if-ltz", .f21t, [.canContinue]⟩
  | ifGez => ⟨0x3b, "if-gez", .f21t, [.canContinue]⟩
  | ifGtz => ⟨0x3c, "if-gtz", .f21t, [.canContinue]⟩
  | ifLez => ⟨0x3d, "if-lez", .f21t, [.canContinue]⟩
  | aget => ⟨0x44, "aget", .f23x, [.canThrow, .canContinue, .setsRegister]⟩
  | agetWide => ⟨0x45, "aget-wide", .f23x, [.canThrow, .canContinue, .setsRegister, .setsWideRegister]⟩
  | agetObject => ⟨0x46, "aget-object", .f23x, [.canThrow, .canContinue, .setsRegister]⟩
  | agetBoolean => ⟨0x47, "aget-boolean", .f23x, [.canThrow, .canContinue, .setsRegister]⟩
  | agetByte => ⟨0x48, "aget-byte", .f23x, [.canThrow, .canContinue, .setsRegister]⟩
  | agetChar => ⟨0x49, "aget-char", .f23x, [.canThrow, .canContinue, .setsRegister]⟩
  | agetShort => ⟨0x4a, "aget-short", .f23x, [.canThrow, .canContinue, .setsRegister]⟩
  | aput => ⟨0x4b, "aput", .f23x, [.canThrow, .canContinue]⟩
  | aputWide => ⟨0x4c, "aput-wide", .f23x, [.canThrow, .canContinue]⟩
  | aputObject => ⟨0x4d, "aput-object", .f23x, [.canThrow, .canContinue]⟩
  | aputBoolean => ⟨0x4e, "aput-boolean", .f23x, [.canThrow, .canContinue]⟩
  | aputByte => ⟨0x4f, "aput-byte", .f23x, [.canThrow, .canContinue]⟩
  | aputChar => ⟨0x50, "aput-char", .f23x, [.canThrow, .canContinue]⟩
  | aputShort => ⟨0x51, "aput-short", .f23x, [.canThrow, .canContinue]⟩
  | iget => ⟨0x52, "iget", .f22c, [.canThrow, .canContinue, .setsRegister]⟩
  | igetWide => ⟨0x53, "iget-wide", .f22c, [.canThrow, .canContinue, .setsRegister, .setsWideRegister]⟩
  | igetObject => ⟨0x54, "iget-object", .f22c, [.canThrow, .canContinue, .setsRegister]⟩
  | igetBoolean => ⟨0x55, "iget-boolean", .f22c, [.canThrow, .canContinue, .setsRegister]⟩
  | igetByte => ⟨0x56, "iget-byte", .f22c, [.canThrow, .canContinue, .setsRegister]⟩
  | igetChar => ⟨0x57, "iget-char", .f22c, [.canThrow, .canContinue, .setsRegister]⟩
  | igetShort => ⟨0x58, "iget-short", .f22c, [.canThrow, .canContinue, .setsRegister]⟩
  | iput => ⟨0x59, "iput", .f22c, [.canThrow, .canContinue]⟩
  | iputWide => ⟨0x5a, "iput-wide", .f22c, [.canThrow, .canContinue]⟩
  | iputObject => ⟨0x5b, "iput-object", .f22c, [.canThrow, .canContinue]⟩
  | iputBoolean => ⟨0x5c, "iput-boolean", .f22c, [.canThrow, .canContinue]⟩
  | iputByte => ⟨0x5d, "iput-byte", .f22c, [.canThrow, .canContinue]⟩
  | iputChar => ⟨0x5e, "iput-char", .f22c, [.canThrow, .canContinue]⟩
  | iputShort => ⟨0x5f, "iput-short", .f22c, [.canThrow, .canContinue]⟩
  | sget => ⟨0x60, "sget", .f21c, [.canThrow, .canContinue, .setsRegister]⟩
  | sgetWide => ⟨0x61, "sget-wide", .f21c, [.canThrow, .canContinue, .setsRegister, .setsWideRegister]⟩
  | sgetObject => ⟨0x62, "sget-object", .f21c, [.canThrow, .canContinue, .setsRegister]⟩
  | sgetBoolean => ⟨0x63, "sget-boolean", .f21c, [.canThrow, .canContinue, .setsRegister]⟩
  | sgetByte => ⟨0x64, "sget-byte", .f21c, [.canThrow, .canContinue, .setsRegister]⟩
  | sgetChar => ⟨0x65, "sget-char", .f21c, [.canThrow, .canContinue, .setsRegister]⟩
  | sgetShort => ⟨0x66, "sget-short", .f21c, [.canThrow, .canContinue, .setsRegister]⟩
  | sput => ⟨0x67, "sput", .f21c, [.canThrow, .canContinue]⟩
  | sputWide => ⟨0x68, "sput-wide", .f21c, [.canThrow, .canContinue]⟩
  | sputObject => ⟨0x69, "sput-object", .f21c, [.canThrow, .canContinue]⟩
  | sputBoolean => ⟨0x6a, "sput-boolean", .f21c, [.canThrow, .canContinue]⟩
  | sputByte => ⟨0x6b, "sput-byte", .f21c, [.canThrow, .canContinue]⟩
  | sputChar => ⟨0x6c, "sput-char", .f21c, [.canThrow, .canContinue]⟩
  | sputShort => ⟨0x6d, "sput-short", .f21c, [.canThrow, .canContinue]⟩
  | invokeVirtual => ⟨0x6e, "invoke-virtual", .f35c, [.canThrow, .canContinue, .setsResult]⟩
  | invokeSuper => ⟨0x6f, "invoke-super", .f35c, [.canThrow, .canContinue, .setsResult]⟩
  | invokeDirect => ⟨0x70, "invoke-direct", .f35c, [.canThrow, .canContinue, .setsResult]⟩
  | invokeStatic => ⟨0x71, "invoke-static", .f35c, [.canThrow, .canContinue, .setsResult]⟩
  | invokeInterface => ⟨0x72, "invoke-interface", .f35c, [.canThrow, .canContinue, .setsResult]⟩
  | invokeVirtualRange => ⟨0x74, "invoke-virtual/range", .f3rc, [.canThrow, .canContinue, .setsResult]⟩
  | invokeSuperRange => ⟨0x75, "invoke-super/range", .f3rc, [.canThrow, .canContinue, .setsResult]⟩
  | invokeDirectRange => ⟨0x76, "invoke-direct/range", .f3rc, [.canThrow, .canContinue, .setsResult]⟩
  | invokeStaticRange => ⟨0x77, "invoke-static/range", .f3rc, [.canThrow, .canContinue, .setsResult]⟩
  | invokeInterfaceRange => ⟨0x78, "invoke-interface/range", .f3rc, [.canThrow, .canContinue, .setsResult]⟩
  | negInt => ⟨0x7b, "neg-int", .f12x, [.canContinue, .setsRegister]⟩
  | notInt => ⟨0x7c, "not-int", .f12x, [.canContinue, .setsRegister]⟩
  | negLong => ⟨0x7d, "neg-long", .f12x, [.canContinue, .setsRegister, .setsWideRegister]⟩
  | notLong => ⟨0x7e, "not-long", .f12x, [.canContinue, .setsRegister, .setsWideRegister]⟩
  | negFloat => ⟨0x7f, "neg-float", .f12x, [.canContinue, .setsRegister]⟩
  | negDouble => ⟨0x80, "neg-double", .f12x, [.canContinue, .setsRegister, .setsWideRegister]⟩
  | intToLong => ⟨0x81, "int-to-long", .f12x, [.canContinue, .setsRegister, .setsWideRegister]⟩
  | intToFloat => ⟨0x82, "int-to-float", .f12x, [.canContinue, .setsRegister]⟩
  | intToDouble => ⟨0x83, "int-to-double", .f12x, [.canContinue, .setsRegister, .setsWideRegister]⟩
  | longToInt => ⟨0x84, "long-to-int", .f12x, [.canContinue, .setsRegister]⟩
  | longToFloat => ⟨0x85, "long-to-float", .f12x, [.canContinue, .setsRegister]⟩
  | longToDouble => ⟨0x86, "long-to-double", .f12x, [.canContinue, .setsRegister, .setsWideRegister]⟩
  | floatToInt => ⟨0x87, "float-to-int", .f12x, [.canContinue, .setsRegister]⟩
  | floatToLong => ⟨0x88, "float-to-long", .f12x, [.canContinue, .setsRegister, .setsWideRegister]⟩
  | floatToDouble => ⟨0x89, "float-to-double", .f12x, [.canContinue, .setsRegister, .setsWideRegister]⟩
  | doubleToInt => ⟨0x8a, "double-to-int", .f12x, [.canContinue, .setsRegister]⟩
  | doubleToLong => ⟨0x8b, "double-to-long", .f12x, [.canContinue, .setsRegister, .setsWideRegister]⟩
  | doubleToFloat => ⟨0x8c, "double-to-float", .f12x, [.canContinue, .setsRegister]⟩
  | intToByte => ⟨0x8d, "int-to-byte", .f12x, [.canContinue, .setsRegister]⟩
  | intToChar => ⟨0x8e, "int-to-char", .f12x, [.canContinue, .setsRegister]⟩
  | intToShort => ⟨0x8f, "int-to-short", .f12x, [.canContinue, .setsRegister]⟩
  | addInt => ⟨0x90, "add-int", .f23x, [.canContinue, .setsRegister]⟩
  | subInt => ⟨0x91, "sub-int", .f23x, [.canContinue, .setsRegister]⟩
  | mulInt => ⟨0x92, "mul-int", .f23x, [.canContinue, .setsRegister]⟩
  | divInt => ⟨0x93, "div-int", .f23x, [.canThrow, .canContinue, .setsRegister]⟩
  | remInt => ⟨0x94, "rem-int", .f23x, [.canThrow, .canContinue, .setsRegister]⟩
  | andInt => ⟨0x95, "and-int", .f23x, [.canContinue, .setsRegister]⟩
  | orInt => ⟨0x96, "or-int", .f23x, [.canContinue, .setsRegister]⟩
  | xorInt => ⟨0x97, "xor-int", .f23x, [.canContinue, .setsRegister]⟩
  | shlInt => ⟨0x98, "shl-int", .f23x, [.canContinue, .setsRegister]⟩
  | shrInt => ⟨0x99, "shr-int", .f23x, [.canContinue, .setsRegister]⟩
  | ushrInt => ⟨0x9a, "ushr-int", .f23x, [.canContinue, .setsRegister]⟩
  | addLong => ⟨0x9b, "add-long", .f23x, [.canContinue, .setsRegister, .setsWideRegister]⟩
  | subLong => ⟨0x9c, "sub-long", .f23x, [.canContinue, .setsRegister, .setsWideRegister]⟩
  | mulLong => ⟨0x9d, "mul-long", .f23x, [.canContinue, .setsRegister, .setsWideRegister]⟩
  | divLong => ⟨0x9e, "div-long", .f23x, [.canThrow, .canContinue, .setsRegister, .setsWideRegister]⟩
  | remLong => ⟨0x9f, "rem-long", .f23x, [.canThrow, .canContinue, .setsRegister, .setsWideRegister]⟩
  | andLong => ⟨0xa0, "and-long", .f23x, [.canContinue, .setsRegister, .setsWideRegister]⟩
  | orLong => ⟨0xa1, "or-long", .f23x, [.canContinue, .setsRegister, .setsWideRegister]⟩
  | xorLong => ⟨0xa2, "xor-long", .f23x, [.canContinue, .setsRegister, .setsWideRegister]⟩
  | shlLong => ⟨0xa3, "shl-long", .f23x, [.canContinue, .setsRegister, .setsWideRegister]⟩
  | shrLong => ⟨0xa4, "shr-long", .f23x, [.canContinue, .setsRegister, .setsWideRegister]⟩
  | ushrLong => ⟨0xa5, "ushr-long", .f23x, [.canContinue, .setsRegister, .setsWideRegister]⟩
  | addFloat => ⟨0xa6, "add-float", .f23x, [.canContinue, .setsRegister]⟩
  | subFloat => ⟨0xa7, "sub-float", .f23x, [.canContinue, .setsRegister]⟩
  | mulFloat => ⟨0xa8, "mul-float", .f23x, [.canContinue, .setsRegister]⟩
  | divFloat => ⟨0xa9, "div-float", .f23x, [.canContinue, .setsRegister]⟩
  | remFloat => ⟨0xaa, "rem-float", .f23x, [.canContinue, .setsRegister]⟩
  | addDouble => ⟨0xab, "add-double", .f23x, [.canContinue, .setsRegister, .setsWideRegister]⟩
  | subDouble => ⟨0xac, "sub-double", .f23x, [.canContinue, .setsRegister, .setsWideRegister]⟩
  | mulDouble => ⟨0xad, "mul-double", .f23x, [.canContinue, .setsRegister, .setsWideRegister]⟩
  | divDouble => ⟨0xae, "div-double", .f23x, [.canContinue, .setsRegister, .setsWideRegister]⟩
  | remDouble => ⟨0xaf, "rem-double", .f23x, [.canContinue, .setsRegister, .setsWideRegister]⟩
  | addInt2Addr => ⟨0xb0, "add-int/2addr", .f12x, [.canContinue, .setsRegister]⟩
  | subInt2Addr => ⟨0xb1, "sub-int/2addr", .f12x, [.canContinue, .setsRegister]⟩
  | mulInt2Addr => ⟨0xb2, "mul-int/2addr", .f12x, [.canContinue, .setsRegister]⟩
  | divInt2Addr => ⟨0xb3, "div-int/2addr", .f12x, [.canThrow, .canContinue, .setsRegister]⟩
  | remInt2Addr => ⟨0xb4, "rem-int/2addr", .f12x, [.canThrow, .canContinue, .setsRegister]⟩
  | andInt2Addr => ⟨0xb5, "and-int/2addr", .f12x, [.canContinue, .setsRegister]⟩
  | orInt2Addr => ⟨0xb6, "or-int/2addr", .f12x, [.canContinue, .setsRegister]⟩
  | xorInt2Addr => ⟨0xb7, "xor-int/2addr", .f12x, [.canContinue, .setsRegister]⟩
  | shlInt2Addr => ⟨0xb8, "shl-int/2addr", .f12x, [.canContinue, .setsRegister]⟩
  | shrInt2Addr => ⟨0xb9, "shr-int/2addr", .f12x, [.canContinue, .setsRegister]⟩
  | ushrInt2Addr => ⟨0xba, "ushr-int/2addr", .f12x, [.canContinue, .setsRegister]⟩
  | addLong2Addr => ⟨0xbb, "add-long/2addr", .f12x, [.canContinue, .setsRegister, .setsWideRegister]⟩
  | subLong2Addr => ⟨0xbc, "sub-long/2addr", .f12x, [.canContinue, .setsRegister, .setsWideRegister]⟩
  | mulLong2Addr => ⟨0xbd, "mul-long/2addr", .f12x, [.canContinue, .setsRegister, .setsWideRegister]⟩
  | divLong2Addr => ⟨0xbe, "div-long/2addr", .f12x, [.canThrow, .canContinue, .setsRegister, .setsWideRegister]⟩
  | remLong2Addr => ⟨0xbf, "rem-long/2addr", .f12x, [.canThrow, .canContinue, .setsRegister, .setsWideRegister]⟩
  | andLong2Addr => ⟨0xc0, "and-long/2addr", .f12x, [.canContinue, .setsRegister, .setsWideRegister]⟩
  | orLong2Addr => ⟨0xc1, "or-long/2addr", .f12x, [.canContinue, .setsRegister, .setsWideRegister]⟩
  | xorLong2Addr => ⟨0xc2, "xor-long/2addr", .f12x, [.canContinue, .setsRegister, .setsWideRegister]⟩
  | shlLong2Addr => ⟨0xc3, "shl-long/2addr", .f12x, [.canContinue, .setsRegister, .setsWideRegister]⟩
  | shrLong2Addr => ⟨0xc4, "shr-long/2addr", .f12x, [.canContinue, .setsRegister, .setsWideRegister]⟩
  | ushrLong2Addr => ⟨0xc5, "ushr-long/2addr", .f12x, [.canContinue, .setsRegister, .setsWideRegister]⟩
  | addFloat2Addr => ⟨0xc6, "add-float/2addr", .f12x, [.canContinue, .setsRegister]⟩
  | subFloat2Addr => ⟨0xc7, "sub-float/2addr", .f12x, [.canContinue, .setsRegister]⟩
  | mulFloat2Addr => ⟨0xc8, "mul-float/2addr", .f12x, [.canContinue, .setsRegister]⟩
  | divFloat2Addr => ⟨0xc9, "div-float/2addr", .f12x, [.canContinue, .setsRegister]⟩
  | remFloat2Addr => ⟨0xca, "rem-float/2addr", .f12x, [.canContinue, .setsRegister]⟩
  | addDouble2Addr => ⟨0xcb, "add-double/2addr", .f12x, [.canContinue, .setsRegister, .setsWideRegister]⟩
  | subDouble2Addr => ⟨0xcc, "sub-double/2addr", .f12x, [.canContinue, .setsRegister, .setsWideRegister]⟩
  | mulDouble2Addr => ⟨0xcd, "mul-double/2addr", .f12x, [.canContinue, .setsRegister, .setsWideRegister]⟩
  | divDouble2Addr => ⟨0xce, "div-double/2addr", .f12x, [.canContinue, .setsRegister, .setsWideRegister]⟩
  | remDouble2Addr => ⟨0xcf, "rem-double/2addr", .f12x, [.canContinue, .setsRegister, .setsWideRegister]⟩
  | addIntLit16 => ⟨0xd0, "add-int/lit16", .f22s, [.canContinue, .setsRegister]⟩
  | rsubInt => ⟨0xd1, "rsub-int", .f22s, [.canContinue, .setsRegister]⟩
  | mulIntLit16 => ⟨0xd2, "mul-int/lit16", .f22s, [.canContinue, .setsRegister]⟩
  | divIntLit16 => ⟨0xd3, "div-int/lit16", .f22s, [.canThrow, .canContinue, .setsRegister]⟩
  | remIntLit16 => ⟨0xd4, "rem-int/lit16", .f22s, [.canThrow, .canContinue, .setsRegister]⟩
  | andIntLit16 => ⟨0xd5, "and-int/lit16", .f22s, [.canContinue, .setsRegister]⟩
  | orIntLit16 => ⟨0xd6, "or-int/lit16", .f22s, [.canContinue, .setsRegister]⟩
  | xorIntLit16 => ⟨0xd7, "xor-int/lit16", .f22s, [.canContinue, .setsRegister]⟩
  | addIntLit8 => ⟨0xd8, "add-int/lit8", .f22b, [.canContinue, .setsRegister]⟩
  | rsubIntLit8 => ⟨0xd9, "rsub-int/lit8", .f22b, [.canContinue, .setsRegister]⟩
  | mulIntLit8 => ⟨0xda, "mul-int/lit8", .f22b, [.canContinue, .setsRegister]⟩
  | divIntLit8 => ⟨0xdb, "div-int/lit8", .f22b, [.canThrow, .canContinue, .setsRegister]⟩
  | remIntLit8 => ⟨0xdc, "rem-int/lit8", .f22b, [.canThrow, .canContinue, .setsRegister]⟩
  | andIntLit8 => ⟨0xdd, "and-int/lit8", .f22b, [.canContinue, .setsRegister]⟩
  | orIntLit8 => ⟨0xde, "or-int/lit8", .f22b, [.canContinue, .setsRegister]⟩
  | xorIntLit8 => ⟨0xdf, "xor-int/lit8", .f22b, [.canContinue, .setsRegister]⟩
  | shlIntLit8 => ⟨0xe0, "shl-int/lit8", .f22b, [.canContinue, .setsRegister]⟩
  | shrIntLit8 => ⟨0xe1, "shr-int/lit8", .f22b, [.canContinue, .setsRegister]⟩
  | ushrIntLit8 => ⟨0xe2, "ushr-int/lit8", .f22b, [.canContinue, .setsRegister]⟩
  | igetVolatile => ⟨0xe3, "iget-volatile", .f22c, [.canThrow, .canContinue, .setsRegister]⟩
  | iputVolatile => ⟨0xe4, "iput-volatile", .f22c, [.canThrow, .canContinue]⟩
  | sgetVolatile => ⟨0xe5, "sget-volatile", .f21c, [.canThrow, .canContinue, .setsRegister]⟩
  | sputVolatile => ⟨0xe6, "sput-volatile", .f21c, [.canThrow, .canContinue]⟩
  | igetObjectVolatile => ⟨0xe7, "iget-object-volatile", .f22c, [.canThrow, .canContinue, .setsRegister]⟩
  | igetWideVolatile => ⟨0xe8, "iget-wide-volatile", .f22c, [.canThrow, .canContinue, .setsRegister, .setsWideRegister]⟩
  | iputWideVolatile => ⟨0xe9, "iput-wide-volatile", .f22c, [.canThrow, .canContinue]⟩
  | sgetWideVolatile => ⟨0xea, "sget-wide-volatile", .f21c, [.canThrow, .canContinue, .setsRegister, .setsWideRegister]⟩
  | sputWideVolatile => ⟨0xeb, "sput-wide-volatile", .f21c, [.canThrow, .canContinue]⟩
  | throwVerificationError => ⟨0xed, "throw-verification-error", .f20bc, [.canThrow]⟩
  | executeInline => ⟨0xee, "execute-inline", .f35mi, [.canThrow, .canContinue, .setsResult]⟩
  | executeInlineRange => ⟨0xef, "execute-inline/range", .f3rmi, [.canThrow, .canContinue, .setsResult]⟩
  | invokeObjectInitRange => ⟨0xf0, "invoke-object-init/range", .f3rc, [.canThrow, .canContinue, .setsResult]⟩
  | returnVoidBarrier => ⟨0xf1, "return-void-barrier", .f10x, []⟩
  | igetQuick => ⟨0xf2, "iget-quick", .f22cs, [.canThrow, .canContinue, .setsRegister]⟩
  | igetWideQuick => ⟨0xf3, "iget-wide-quick", .f22cs, [.canThrow, .canContinue, .setsRegister, .setsWideRegister]⟩
  | igetObjectQuick => ⟨0xf4, "iget-object-quick", .f22cs, [.canThrow, .canContinue, .setsRegister]⟩
  | iputQuick => ⟨0xf5, "iput-quick", .f22cs, [.canThrow, .canContinue]⟩
  | iputWideQuick => ⟨0xf6, "iput-wide-quick", .f22cs, [.canThrow, .canContinue]⟩
  | iputObjectQuick => ⟨0xf7, "iput-object-quick", .f22cs, [.canThrow, .canContinue]⟩
  | invokeVirtualQuick => ⟨0xf8, "invoke-virtual-quick", .f35ms, [.canThrow, .canContinue, .setsResult]⟩
  | invokeVirtualQuickRange => ⟨0xf9, "invoke-virtual-quick/range", .f3rms, [.canThrow, .canContinue, .setsResult]⟩
  | invokePolymorphic => ⟨0xfa, "invoke-polymorphic", .f45cc, [.canThrow, .canContinue, .setsResult]⟩
  | invokePolymorphicRange => ⟨0xfb, "invoke-polymorphic/range", .f4rcc, [.canThrow, .canContinue, .setsResult]⟩
  | invokeCustom => ⟨0xfc, "invoke-custom", .f35c, [.canThrow, .canContinue, .setsResult]⟩
  | invokeCustomRange => ⟨0xfd, "invoke-custom/range", .f3rc, [.canThrow, .canContinue, .setsResult]⟩
  | constMethodHandle => ⟨0xfe, "const-method-handle", .f21c, [.canThrow, .canContinue, .setsRegister]⟩
  | constMethodType => ⟨0xff, "const-method-type", .f21c, [.canThrow, .canContinue, .setsRegister]⟩
  | packedSwitchPayload => ⟨0x0100, "packed-switch-payload", .packedSwitch, []⟩
  | sparseSwitchPayload => ⟨0x0200, "sparse-switch-payload", .sparseSwitch, []⟩
  | arrayPayload => ⟨0x0300, "array-payload", .arrayData, []⟩

/-- Value in the code. -/
def value (op : Opcode) : UInt16 := op.info.value

/-- Mnemonic. -/
def name (op : Opcode) : String := op.info.name

/-- Format of every instruction with this opcode. -/
def format (op : Opcode) : Format := op.info.format

/-- What executing the instruction may do. -/
def flags (op : Opcode) : List Flag := op.info.flags

/-- The set of flags as a number. -/
def flagBits (op : Opcode) : Nat := op.flags.foldl (fun bits flag => bits + flag.bit) 0

/-- Whether an instruction with this opcode may throw an exception. -/
def canThrow (op : Opcode) : Bool := op.flags.contains .canThrow

/-- Whether execution may go on after an instruction with this opcode. -/
def canContinue (op : Opcode) : Bool := op.flags.contains .canContinue

/-- Every opcode, by increasing value. -/
def all : List Opcode :=
  [nop, move, moveFrom16, move16, moveWide, moveWideFrom16, moveWide16, moveObject,
   moveObjectFrom16, moveObject16, moveResult, moveResultWide, moveResultObject, moveException,
   returnVoid, returnValue, returnWide, returnObject, const4, const16, const, constHigh16,
   constWide16, constWide32, constWide, constWideHigh16, constString, constStringJumbo,
   constClass, monitorEnter, monitorExit, checkCast, instanceOf, arrayLength, newInstance,
   newArray, filledNewArray, filledNewArrayRange, fillArrayData, throw, goto, goto16, goto32,
   packedSwitch, sparseSwitch, cmplFloat, cmpgFloat, cmplDouble, cmpgDouble, cmpLong, ifEq, ifNe,
   ifLt, ifGe, ifGt, ifLe, ifEqz, ifNez, ifLtz, ifGez, ifGtz, ifLez, aget, agetWide, agetObject,
   agetBoolean, agetByte, agetChar, agetShort, aput, aputWide, aputObject, aputBoolean, aputByte,
   aputChar, aputShort, iget, igetWide, igetObject, igetBoolean, igetByte, igetChar, igetShort,
   iput, iputWide, iputObject, iputBoolean, iputByte, iputChar, iputShort, sget, sgetWide,
   sgetObject, sgetBoolean, sgetByte, sgetChar, sgetShort, sput, sputWide, sputObject,
   sputBoolean, sputByte, sputChar, sputShort, invokeVirtual, invokeSuper, invokeDirect,
   invokeStatic, invokeInterface, invokeVirtualRange, invokeSuperRange, invokeDirectRange,
   invokeStaticRange, invokeInterfaceRange, negInt, notInt, negLong, notLong, negFloat,
   negDouble, intToLong, intToFloat, intToDouble, longToInt, longToFloat, longToDouble,
   floatToInt, floatToLong, floatToDouble, doubleToInt, doubleToLong, doubleToFloat, intToByte,
   intToChar, intToShort, addInt, subInt, mulInt, divInt, remInt, andInt, orInt, xorInt, shlInt,
   shrInt, ushrInt, addLong, subLong, mulLong, divLong, remLong, andLong, orLong, xorLong,
   shlLong, shrLong, ushrLong, addFloat, subFloat, mulFloat, divFloat, remFloat, addDouble,
   subDouble, mulDouble, divDouble, remDouble, addInt2Addr, subInt2Addr, mulInt2Addr,
   divInt2Addr, remInt2Addr, andInt2Addr, orInt2Addr, xorInt2Addr, shlInt2Addr, shrInt2Addr,
   ushrInt2Addr, addLong2Addr, subLong2Addr, mulLong2Addr, divLong2Addr, remLong2Addr,
   andLong2Addr, orLong2Addr, xorLong2Addr, shlLong2Addr, shrLong2Addr, ushrLong2Addr,
   addFloat2Addr, subFloat2Addr, mulFloat2Addr, divFloat2Addr, remFloat2Addr, addDouble2Addr,
   subDouble2Addr, mulDouble2Addr, divDouble2Addr, remDouble2Addr, addIntLit16, rsubInt,
   mulIntLit16, divIntLit16, remIntLit16, andIntLit16, orIntLit16, xorIntLit16, addIntLit8,
   rsubIntLit8, mulIntLit8, divIntLit8, remIntLit8, andIntLit8, orIntLit8, xorIntLit8,
   shlIntLit8, shrIntLit8, ushrIntLit8, igetVolatile, iputVolatile, sgetVolatile, sputVolatile,
   igetObjectVolatile, igetWideVolatile, iputWideVolatile, sgetWideVolatile, sputWideVolatile,
   throwVerificationError, executeInline, executeInlineRange, invokeObjectInitRange,
   returnVoidBarrier, igetQuick, igetWideQuick, igetObjectQuick, iputQuick, iputWideQuick,
   iputObjectQuick, invokeVirtualQuick, invokeVirtualQuickRange, invokePolymorphic,
   invokePolymorphicRange, invokeCustom, invokeCustomRange, constMethodHandle, constMethodType,
   packedSwitchPayload, sparseSwitchPayload, arrayPayload]

/-- The opcode with a given value. -/
def ofValue? (value : UInt16) : Option Opcode := all.find? (·.value == value)

/-- The opcode with a given mnemonic. -/
def ofName? (name : String) : Option Opcode := all.find? (·.name == name)

/-- Unconditional jumps, the only branches that may be given a longer form. -/
def isGoto : Opcode → Bool
  | goto | goto16 | goto32 => true
  | _ => false

/-- Instructions that pick a target from a table of keys. -/
def isSwitch : Opcode → Bool
  | packedSwitch | sparseSwitch => true
  | _ => false

end Opcode

/-- The jump with a given reach. -/
def Reach.goto : Reach → Opcode
  | byte => .goto
  | word => .goto16
  | long => .goto32

end Dalvik
