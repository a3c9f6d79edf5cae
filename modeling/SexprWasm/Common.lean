import Mathlib.Algebra.Group.Int.Defs
import Mathlib.Algebra.Group.Nat.Defs
import Mathlib.Data.List.Basic

/-!
# Types, limits and the opcode table

The data of `common.h` and `binary.h` that every other module reads:
the value types with the codes the binary format gives them, external
kinds, limits, and the opcode table. `WasmOpcode.info` is
`WASM_FOREACH_OPCODE` row by row; `WasmOpcode.group` is the grouping
of the opcodes by the switch of `read_function_body`.

`ValueType` is the set `is_concrete_type` accepts. Signatures, locals
and block signatures hold value types only, so the check made when
they are read is carried by the type from there on; `WasmType` keeps
the markers (`void`, `any`) the two type checkers work with.
-/

namespace SexprWasm

def maxU32 : Nat := 2 ^ 32
def maxU64 : Nat := 2 ^ 64

/-- `WASM_INVALID_INDEX` and `WASM_INVALID_OFFSET`: all ones in 32 bits. -/
def invalidIndex : Nat := 2 ^ 32 - 1
def invalidOffset : Nat := 2 ^ 32 - 1

def wasmPageSize : Nat := 0x10000
def wasmMaxPages : Nat := 0x10000

/-- `WASM_USE_NATURAL_ALIGNMENT`. -/
def useNaturalAlignment : Nat := 0xffffffff

/-- Conversion to `uint32_t`. -/
def u32 (n : Nat) : Nat := n % maxU32

theorem u32_lt (n : Nat) : u32 n < maxU32 :=
  Nat.mod_lt _ (by decide)

theorem u32_of_lt {n : Nat} (h : n < maxU32) : u32 n = n :=
  Nat.mod_eq_of_lt h

/-- Conversion to `int`. -/
def cInt (n : Int) : Int := n.bmod maxU32

theorem cInt_lt (n : Int) : cInt n < 2 ^ 31 := by
  have hlt := Int.bmod_lt (x := n) (Nat.two_pow_pos 32)
  simp only [cInt, maxU32]
  omega

theorem cInt_of_lt {n : Int} (h₀ : 0 ≤ n) (h : n < 2 ^ 31) : cInt n = n := by
  rw [cInt]
  refine Int.bmod_eq_of_le ?_ ?_ <;> simp only [maxU32] <;> omega

/-! ## Types -/

inductive ValueType
  | i32 | i64 | f32 | f64
  deriving DecidableEq, Repr, Inhabited

/-- `WasmType`; `any` is 0, the value of zeroed memory. -/
inductive WasmType
  | i32 | i64 | f32 | f64 | anyfunc | func | void | any
  deriving DecidableEq, Repr, Inhabited

def WasmType.code : WasmType → Int
  | .i32 => -0x01
  | .i64 => -0x02
  | .f32 => -0x03
  | .f64 => -0x04
  | .anyfunc => -0x10
  | .func => -0x20
  | .void => -0x40
  | .any => 0

def ValueType.toType : ValueType → WasmType
  | .i32 => .i32
  | .i64 => .i64
  | .f32 => .f32
  | .f64 => .f64

instance : Coe ValueType WasmType := ⟨ValueType.toType⟩

def ValueType.code (t : ValueType) : Int := t.toType.code

@[simp] theorem ValueType.toType_ne_any (t : ValueType) : t.toType ≠ .any := by
  cases t <;> decide

@[simp] theorem ValueType.toType_ne_void (t : ValueType) : t.toType ≠ .void := by
  cases t <;> decide

theorem ValueType.toType_injective : Function.Injective ValueType.toType := by
  intro a b h
  cases a <;> cases b <;> first | rfl | cases h

@[simp] theorem ValueType.toType_inj {a b : ValueType} : a.toType = b.toType ↔ a = b :=
  ValueType.toType_injective.eq_iff

/-- `is_concrete_type`, with the type the code stands for. -/
def concreteType? (code : Int) : Option ValueType :=
  if code = -0x01 then some .i32
  else if code = -0x02 then some .i64
  else if code = -0x03 then some .f32
  else if code = -0x04 then some .f64
  else none

@[simp] theorem concreteType?_code (t : ValueType) : concreteType? t.code = some t := by
  cases t <;> rfl

inductive ExternalKind
  | func | table | memory | global
  deriving DecidableEq, Repr

def ExternalKind.code : ExternalKind → Nat
  | .func => 0
  | .table => 1
  | .memory => 2
  | .global => 3

/-- `WasmLimits`. -/
structure Limits where
  initial : Nat
  max : Nat
  hasMax : Bool
  deriving DecidableEq, Repr, Inhabited

/-- `WasmFuncSignature` and `WasmInterpreterFuncSignature`. -/
structure FuncSignature where
  paramTypes : List ValueType
  resultTypes : List ValueType
  deriving DecidableEq, Repr, Inhabited

/-! ## Opcodes -/

structure OpcodeInfo where
  resultType : WasmType
  param1Type : WasmType
  param2Type : WasmType
  memorySize : Nat
  code : Nat
  deriving DecidableEq, Repr

inductive WasmOpcode
  | unreachable | nop | block | loop | if_ | else_ | end_ | br | brIf | brTable | return_
  | call | callIndirect | drop | select | getLocal | setLocal | teeLocal | getGlobal
  | setGlobal | i32Load | i64Load | f32Load | f64Load | i32Load8S | i32Load8U | i32Load16S
  | i32Load16U | i64Load8S | i64Load8U | i64Load16S | i64Load16U | i64Load32S | i64Load32U
  | i32Store | i64Store | f32Store | f64Store | i32Store8 | i32Store16 | i64Store8 | i64Store16
  | i64Store32 | currentMemory | growMemory | i32Const | i64Const | f32Const | f64Const
  | i32Eqz | i32Eq | i32Ne | i32LtS | i32LtU | i32GtS | i32GtU | i32LeS | i32LeU | i32GeS
  | i32GeU | i64Eqz | i64Eq | i64Ne | i64LtS | i64LtU | i64GtS | i64GtU | i64LeS | i64LeU
  | i64GeS | i64GeU | f32Eq | f32Ne | f32Lt | f32Gt | f32Le | f32Ge | f64Eq | f64Ne | f64Lt
  | f64Gt | f64Le | f64Ge | i32Clz | i32Ctz | i32Popcnt | i32Add | i32Sub | i32Mul | i32DivS
  | i32DivU | i32RemS | i32RemU | i32And | i32Or | i32Xor | i32Shl | i32ShrS | i32ShrU
  | i32Rotl | i32Rotr | i64Clz | i64Ctz | i64Popcnt | i64Add | i64Sub | i64Mul | i64DivS
  | i64DivU | i64RemS | i64RemU | i64And | i64Or | i64Xor | i64Shl | i64ShrS | i64ShrU
  | i64Rotl | i64Rotr | f32Abs | f32Neg | f32Ceil | f32Floor | f32Trunc | f32Nearest | f32Sqrt
  | f32Add | f32Sub | f32Mul | f32Div | f32Min | f32Max | f32Copysign | f64Abs | f64Neg
  | f64Ceil | f64Floor | f64Trunc | f64Nearest | f64Sqrt | f64Add | f64Sub | f64Mul | f64Div
  | f64Min | f64Max | f64Copysign | i32WrapI64 | i32TruncSF32 | i32TruncUF32 | i32TruncSF64
  | i32TruncUF64 | i64ExtendSI32 | i64ExtendUI32 | i64TruncSF32 | i64TruncUF32 | i64TruncSF64
  | i64TruncUF64 | f32ConvertSI32 | f32ConvertUI32 | f32ConvertSI64 | f32ConvertUI64
  | f32DemoteF64 | f64ConvertSI32 | f64ConvertUI32 | f64ConvertSI64 | f64ConvertUI64
  | f64PromoteF32 | i32ReinterpretF32 | i64ReinterpretF64 | f32ReinterpretI32
  | f64ReinterpretI64
  deriving DecidableEq, Repr

/-- `WASM_FOREACH_OPCODE`: result type, parameter types, memory size and code. -/
def WasmOpcode.info : WasmOpcode → OpcodeInfo
  | .unreachable => ⟨.void, .void, .void, 0, 0x00⟩
  | .nop => ⟨.void, .void, .void, 0, 0x01⟩
  | .block => ⟨.void, .void, .void, 0, 0x02⟩
  | .loop => ⟨.void, .void, .void, 0, 0x03⟩
  | .if_ => ⟨.void, .void, .void, 0, 0x04⟩
  | .else_ => ⟨.void, .void, .void, 0, 0x05⟩
  | .end_ => ⟨.void, .void, .void, 0, 0x0b⟩
  | .br => ⟨.void, .void, .void, 0, 0x0c⟩
  | .brIf => ⟨.void, .void, .void, 0, 0x0d⟩
  | .brTable => ⟨.void, .void, .void, 0, 0x0e⟩
  | .return_ => ⟨.void, .void, .void, 0, 0x0f⟩
  | .call => ⟨.void, .void, .void, 0, 0x10⟩
  | .callIndirect => ⟨.void, .void, .void, 0, 0x11⟩
  | .drop => ⟨.void, .void, .void, 0, 0x1a⟩
  | .select => ⟨.void, .void, .void, 0, 0x1b⟩
  | .getLocal => ⟨.void, .void, .void, 0, 0x20⟩
  | .setLocal => ⟨.void, .void, .void, 0, 0x21⟩
  | .teeLocal => ⟨.void, .void, .void, 0, 0x22⟩
  | .getGlobal => ⟨.void, .void, .void, 0, 0x23⟩
  | .setGlobal => ⟨.void, .void, .void, 0, 0x24⟩
  | .i32Load => ⟨.i32, .i32, .void, 4, 0x28⟩
  | .i64Load => ⟨.i64, .i32, .void, 8, 0x29⟩
  | .f32Load => ⟨.f32, .i32, .void, 4, 0x2a⟩
  | .f64Load => ⟨.f64, .i32, .void, 8, 0x2b⟩
  | .i32Load8S => ⟨.i32, .i32, .void, 1, 0x2c⟩
  | .i32Load8U => ⟨.i32, .i32, .void, 1, 0x2d⟩
  | .i32Load16S => ⟨.i32, .i32, .void, 2, 0x2e⟩
  | .i32Load16U => ⟨.i32, .i32, .void, 2, 0x2f⟩
  | .i64Load8S => ⟨.i64, .i32, .void, 1, 0x30⟩
  | .i64Load8U => ⟨.i64, .i32, .void, 1, 0x31⟩
  | .i64Load16S => ⟨.i64, .i32, .void, 2, 0x32⟩
  | .i64Load16U => ⟨.i64, .i32, .void, 2, 0x33⟩
  | .i64Load32S => ⟨.i64, .i32, .void, 4, 0x34⟩
  | .i64Load32U => ⟨.i64, .i32, .void, 4, 0x35⟩
  | .i32Store => ⟨.void, .i32, .i32, 4, 0x36⟩
  | .i64Store => ⟨.void, .i32, .i64, 8, 0x37⟩
  | .f32Store => ⟨.void, .i32, .f32, 4, 0x38⟩
  | .f64Store => ⟨.void, .i32, .f64, 8, 0x39⟩
  | .i32Store8 => ⟨.void, .i32, .i32, 1, 0x3a⟩
  | .i32Store16 => ⟨.void, .i32, .i32, 2, 0x3b⟩
  | .i64Store8 => ⟨.void, .i32, .i64, 1, 0x3c⟩
  | .i64Store16 => ⟨.void, .i32, .i64, 2, 0x3d⟩
  | .i64Store32 => ⟨.void, .i32, .i64, 4, 0x3e⟩
  | .currentMemory => ⟨.i32, .void, .void, 0, 0x3f⟩
  | .growMemory => ⟨.i32, .i32, .void, 0, 0x40⟩
  | .i32Const => ⟨.i32, .void, .void, 0, 0x41⟩
  | .i64Const => ⟨.i64, .void, .void, 0, 0x42⟩
  | .f32Const => ⟨.f32, .void, .void, 0, 0x43⟩
  | .f64Const => ⟨.f64, .void, .void, 0, 0x44⟩
  | .i32Eqz => ⟨.i32, .i32, .void, 0, 0x45⟩
  | .i32Eq => ⟨.i32, .i32, .i32, 0, 0x46⟩
  | .i32Ne => ⟨.i32, .i32, .i32, 0, 0x47⟩
  | .i32LtS => ⟨.i32, .i32, .i32, 0, 0x48⟩
  | .i32LtU => ⟨.i32, .i32, .i32, 0, 0x49⟩
  | .i32GtS => ⟨.i32, .i32, .i32, 0, 0x4a⟩
  | .i32GtU => ⟨.i32, .i32, .i32, 0, 0x4b⟩
  | .i32LeS => ⟨.i32, .i32, .i32, 0, 0x4c⟩
  | .i32LeU => ⟨.i32, .i32, .i32, 0, 0x4d⟩
  | .i32GeS => ⟨.i32, .i32, .i32, 0, 0x4e⟩
  | .i32GeU => ⟨.i32, .i32, .i32, 0, 0x4f⟩
  | .i64Eqz => ⟨.i32, .i64, .void, 0, 0x50⟩
  | .i64Eq => ⟨.i32, .i64, .i64, 0, 0x51⟩
  | .i64Ne => ⟨.i32, .i64, .i64, 0, 0x52⟩
  | .i64LtS => ⟨.i32, .i64, .i64, 0, 0x53⟩
  | .i64LtU => ⟨.i32, .i64, .i64, 0, 0x54⟩
  | .i64GtS => ⟨.i32, .i64, .i64, 0, 0x55⟩
  | .i64GtU => ⟨.i32, .i64, .i64, 0, 0x56⟩
  | .i64LeS => ⟨.i32, .i64, .i64, 0, 0x57⟩
  | .i64LeU => ⟨.i32, .i64, .i64, 0, 0x58⟩
  | .i64GeS => ⟨.i32, .i64, .i64, 0, 0x59⟩
  | .i64GeU => ⟨.i32, .i64, .i64, 0, 0x5a⟩
  | .f32Eq => ⟨.i32, .f32, .f32, 0, 0x5b⟩
  | .f32Ne => ⟨.i32, .f32, .f32, 0, 0x5c⟩
  | .f32Lt => ⟨.i32, .f32, .f32, 0, 0x5d⟩
  | .f32Gt => ⟨.i32, .f32, .f32, 0, 0x5e⟩
  | .f32Le => ⟨.i32, .f32, .f32, 0, 0x5f⟩
  | .f32Ge => ⟨.i32, .f32, .f32, 0, 0x60⟩
  | .f64Eq => ⟨.i32, .f64, .f64, 0, 0x61⟩
  | .f64Ne => ⟨.i32, .f64, .f64, 0, 0x62⟩
  | .f64Lt => ⟨.i32, .f64, .f64, 0, 0x63⟩
  | .f64Gt => ⟨.i32, .f64, .f64, 0, 0x64⟩
  | .f64Le => ⟨.i32, .f64, .f64, 0, 0x65⟩
  | .f64Ge => ⟨.i32, .f64, .f64, 0, 0x66⟩
  | .i32Clz => ⟨.i32, .i32, .void, 0, 0x67⟩
  | .i32Ctz => ⟨.i32, .i32, .void, 0, 0x68⟩
  | .i32Popcnt => ⟨.i32, .i32, .void, 0, 0x69⟩
  | .i32Add => ⟨.i32, .i32, .i32, 0, 0x6a⟩
  | .i32Sub => ⟨.i32, .i32, .i32, 0, 0x6b⟩
  | .i32Mul => ⟨.i32, .i32, .i32, 0, 0x6c⟩
  | .i32DivS => ⟨.i32, .i32, .i32, 0, 0x6d⟩
  | .i32DivU => ⟨.i32, .i32, .i32, 0, 0x6e⟩
  | .i32RemS => ⟨.i32, .i32, .i32, 0, 0x6f⟩
  | .i32RemU => ⟨.i32, .i32, .i32, 0, 0x70⟩
  | .i32And => ⟨.i32, .i32, .i32, 0, 0x71⟩
  | .i32Or => ⟨.i32, .i32, .i32, 0, 0x72⟩
  | .i32Xor => ⟨.i32, .i32, .i32, 0, 0x73⟩
  | .i32Shl => ⟨.i32, .i32, .i32, 0, 0x74⟩
  | .i32ShrS => ⟨.i32, .i32, .i32, 0, 0x75⟩
  | .i32ShrU => ⟨.i32, .i32, .i32, 0, 0x76⟩
  | .i32Rotl => ⟨.i32, .i32, .i32, 0, 0x77⟩
  | .i32Rotr => ⟨.i32, .i32, .i32, 0, 0x78⟩
  | .i64Clz => ⟨.i64, .i64, .i64, 0, 0x79⟩
  | .i64Ctz => ⟨.i64, .i64, .i64, 0, 0x7a⟩
  | .i64Popcnt => ⟨.i64, .i64, .i64, 0, 0x7b⟩
  | .i64Add => ⟨.i64, .i64, .i64, 0, 0x7c⟩
  | .i64Sub => ⟨.i64, .i64, .i64, 0, 0x7d⟩
  | .i64Mul => ⟨.i64, .i64, .i64, 0, 0x7e⟩
  | .i64DivS => ⟨.i64, .i64, .i64, 0, 0x7f⟩
  | .i64DivU => ⟨.i64, .i64, .i64, 0, 0x80⟩
  | .i64RemS => ⟨.i64, .i64, .i64, 0, 0x81⟩
  | .i64RemU => ⟨.i64, .i64, .i64, 0, 0x82⟩
  | .i64And => ⟨.i64, .i64, .i64, 0, 0x83⟩
  | .i64Or => ⟨.i64, .i64, .i64, 0, 0x84⟩
  | .i64Xor => ⟨.i64, .i64, .i64, 0, 0x85⟩
  | .i64Shl => ⟨.i64, .i64, .i64, 0, 0x86⟩
  | .i64ShrS => ⟨.i64, .i64, .i64, 0, 0x87⟩
  | .i64ShrU => ⟨.i64, .i64, .i64, 0, 0x88⟩
  | .i64Rotl => ⟨.i64, .i64, .i64, 0, 0x89⟩
  | .i64Rotr => ⟨.i64, .i64, .i64, 0, 0x8a⟩
  | .f32Abs => ⟨.f32, .f32, .f32, 0, 0x8b⟩
  | .f32Neg => ⟨.f32, .f32, .f32, 0, 0x8c⟩
  | .f32Ceil => ⟨.f32, .f32, .f32, 0, 0x8d⟩
  | .f32Floor => ⟨.f32, .f32, .f32, 0, 0x8e⟩
  | .f32Trunc => ⟨.f32, .f32, .f32, 0, 0x8f⟩
  | .f32Nearest => ⟨.f32, .f32, .f32, 0, 0x90⟩
  | .f32Sqrt => ⟨.f32, .f32, .f32, 0, 0x91⟩
  | .f32Add => ⟨.f32, .f32, .f32, 0, 0x92⟩
  | .f32Sub => ⟨.f32, .f32, .f32, 0, 0x93⟩
  | .f32Mul => ⟨.f32, .f32, .f32, 0, 0x94⟩
  | .f32Div => ⟨.f32, .f32, .f32, 0, 0x95⟩
  | .f32Min => ⟨.f32, .f32, .f32, 0, 0x96⟩
  | .f32Max => ⟨.f32, .f32, .f32, 0, 0x97⟩
  | .f32Copysign => ⟨.f32, .f32, .f32, 0, 0x98⟩
  | .f64Abs => ⟨.f64, .f64, .f64, 0, 0x99⟩
  | .f64Neg => ⟨.f64, .f64, .f64, 0, 0x9a⟩
  | .f64Ceil => ⟨.f64, .f64, .f64, 0, 0x9b⟩
  | .f64Floor => ⟨.f64, .f64, .f64, 0, 0x9c⟩
  | .f64Trunc => ⟨.f64, .f64, .f64, 0, 0x9d⟩
  | .f64Nearest => ⟨.f64, .f64, .f64, 0, 0x9e⟩
  | .f64Sqrt => ⟨.f64, .f64, .f64, 0, 0x9f⟩
  | .f64Add => ⟨.f64, .f64, .f64, 0, 0xa0⟩
  | .f64Sub => ⟨.f64, .f64, .f64, 0, 0xa1⟩
  | .f64Mul => ⟨.f64, .f64, .f64, 0, 0xa2⟩
  | .f64Div => ⟨.f64, .f64, .f64, 0, 0xa3⟩
  | .f64Min => ⟨.f64, .f64, .f64, 0, 0xa4⟩
  | .f64Max => ⟨.f64, .f64, .f64, 0, 0xa5⟩
  | .f64Copysign => ⟨.f64, .f64, .f64, 0, 0xa6⟩
  | .i32WrapI64 => ⟨.i32, .i64, .void, 0, 0xa7⟩
  | .i32TruncSF32 => ⟨.i32, .f32, .void, 0, 0xa8⟩
  | .i32TruncUF32 => ⟨.i32, .f32, .void, 0, 0xa9⟩
  | .i32TruncSF64 => ⟨.i32, .f64, .void, 0, 0xaa⟩
  | .i32TruncUF64 => ⟨.i32, .f64, .void, 0, 0xab⟩
  | .i64ExtendSI32 => ⟨.i64, .i32, .void, 0, 0xac⟩
  | .i64ExtendUI32 => ⟨.i64, .i32, .void, 0, 0xad⟩
  | .i64TruncSF32 => ⟨.i64, .f32, .void, 0, 0xae⟩
  | .i64TruncUF32 => ⟨.i64, .f32, .void, 0, 0xaf⟩
  | .i64TruncSF64 => ⟨.i64, .f64, .void, 0, 0xb0⟩
  | .i64TruncUF64 => ⟨.i64, .f64, .void, 0, 0xb1⟩
  | .f32ConvertSI32 => ⟨.f32, .i32, .void, 0, 0xb2⟩
  | .f32ConvertUI32 => ⟨.f32, .i32, .void, 0, 0xb3⟩
  | .f32ConvertSI64 => ⟨.f32, .i64, .void, 0, 0xb4⟩
  | .f32ConvertUI64 => ⟨.f32, .i64, .void, 0, 0xb5⟩
  | .f32DemoteF64 => ⟨.f32, .f64, .void, 0, 0xb6⟩
  | .f64ConvertSI32 => ⟨.f64, .i32, .void, 0, 0xb7⟩
  | .f64ConvertUI32 => ⟨.f64, .i32, .void, 0, 0xb8⟩
  | .f64ConvertSI64 => ⟨.f64, .i64, .void, 0, 0xb9⟩
  | .f64ConvertUI64 => ⟨.f64, .i64, .void, 0, 0xba⟩
  | .f64PromoteF32 => ⟨.f64, .f32, .void, 0, 0xbb⟩
  | .i32ReinterpretF32 => ⟨.i32, .f32, .void, 0, 0xbc⟩
  | .i64ReinterpretF64 => ⟨.i64, .f64, .void, 0, 0xbd⟩
  | .f32ReinterpretI32 => ⟨.f32, .i32, .void, 0, 0xbe⟩
  | .f64ReinterpretI64 => ⟨.f64, .i64, .void, 0, 0xbf⟩

def WasmOpcode.code (op : WasmOpcode) : Nat := op.info.code

def WasmOpcode.all : List WasmOpcode :=
  [.unreachable, .nop, .block, .loop, .if_, .else_, .end_, .br, .brIf, .brTable, .return_,
   .call, .callIndirect, .drop, .select, .getLocal, .setLocal, .teeLocal, .getGlobal,
   .setGlobal, .i32Load, .i64Load, .f32Load, .f64Load, .i32Load8S, .i32Load8U, .i32Load16S,
   .i32Load16U, .i64Load8S, .i64Load8U, .i64Load16S, .i64Load16U, .i64Load32S, .i64Load32U,
   .i32Store, .i64Store, .f32Store, .f64Store, .i32Store8, .i32Store16, .i64Store8,
   .i64Store16, .i64Store32, .currentMemory, .growMemory, .i32Const, .i64Const, .f32Const,
   .f64Const, .i32Eqz, .i32Eq, .i32Ne, .i32LtS, .i32LtU, .i32GtS, .i32GtU, .i32LeS, .i32LeU,
   .i32GeS, .i32GeU, .i64Eqz, .i64Eq, .i64Ne, .i64LtS, .i64LtU, .i64GtS, .i64GtU, .i64LeS,
   .i64LeU, .i64GeS, .i64GeU, .f32Eq, .f32Ne, .f32Lt, .f32Gt, .f32Le, .f32Ge, .f64Eq, .f64Ne,
   .f64Lt, .f64Gt, .f64Le, .f64Ge, .i32Clz, .i32Ctz, .i32Popcnt, .i32Add, .i32Sub, .i32Mul,
   .i32DivS, .i32DivU, .i32RemS, .i32RemU, .i32And, .i32Or, .i32Xor, .i32Shl, .i32ShrS,
   .i32ShrU, .i32Rotl, .i32Rotr, .i64Clz, .i64Ctz, .i64Popcnt, .i64Add, .i64Sub, .i64Mul,
   .i64DivS, .i64DivU, .i64RemS, .i64RemU, .i64And, .i64Or, .i64Xor, .i64Shl, .i64ShrS,
   .i64ShrU, .i64Rotl, .i64Rotr, .f32Abs, .f32Neg, .f32Ceil, .f32Floor, .f32Trunc, .f32Nearest,
   .f32Sqrt, .f32Add, .f32Sub, .f32Mul, .f32Div, .f32Min, .f32Max, .f32Copysign, .f64Abs,
   .f64Neg, .f64Ceil, .f64Floor, .f64Trunc, .f64Nearest, .f64Sqrt, .f64Add, .f64Sub, .f64Mul,
   .f64Div, .f64Min, .f64Max, .f64Copysign, .i32WrapI64, .i32TruncSF32, .i32TruncUF32,
   .i32TruncSF64, .i32TruncUF64, .i64ExtendSI32, .i64ExtendUI32, .i64TruncSF32, .i64TruncUF32,
   .i64TruncSF64, .i64TruncUF64, .f32ConvertSI32, .f32ConvertUI32, .f32ConvertSI64,
   .f32ConvertUI64, .f32DemoteF64, .f64ConvertSI32, .f64ConvertUI32, .f64ConvertSI64,
   .f64ConvertUI64, .f64PromoteF32, .i32ReinterpretF32, .i64ReinterpretF64, .f32ReinterpretI32,
   .f64ReinterpretI64]

/-- The opcode with a given byte, if there is one. -/
def WasmOpcode.ofCode? (code : Nat) : Option WasmOpcode :=
  all.find? fun op => op.code = code

theorem WasmOpcode.code_of_ofCode? {n : Nat} {op : WasmOpcode} (h : ofCode? n = some op) :
    op.code = n := by
  simpa using List.find?_some h

@[simp] theorem WasmOpcode.ofCode?_code (op : WasmOpcode) : ofCode? op.code = some op := by
  cases op <;> rfl

theorem WasmOpcode.code_lt (op : WasmOpcode) : op.code < 0xc0 := by
  cases op <;> decide

/-- The case groups of the switch in `read_function_body`: the opcodes of one group are
read the same way and end in the same callback. -/
inductive OpcodeGroup
  | unreachable | nop | block | loop | if_ | else_ | end_ | br | brIf | brTable | return_
  | call | callIndirect | drop | select | getLocal | setLocal | teeLocal | getGlobal
  | setGlobal | load | store | currentMemory | growMemory | i32Const | i64Const | f32Const
  | f64Const | convert | compare | unary | binary
  deriving DecidableEq, Repr

def WasmOpcode.group : WasmOpcode → OpcodeGroup
  | .unreachable => .unreachable
  | .nop => .nop
  | .block => .block
  | .loop => .loop
  | .if_ => .if_
  | .else_ => .else_
  | .end_ => .end_
  | .br => .br
  | .brIf => .brIf
  | .brTable => .brTable
  | .return_ => .return_
  | .call => .call
  | .callIndirect => .callIndirect
  | .drop => .drop
  | .select => .select
  | .getLocal => .getLocal
  | .setLocal => .setLocal
  | .teeLocal => .teeLocal
  | .getGlobal => .getGlobal
  | .setGlobal => .setGlobal
  | .i32Load | .i64Load | .f32Load | .f64Load | .i32Load8S | .i32Load8U | .i32Load16S
  | .i32Load16U | .i64Load8S | .i64Load8U | .i64Load16S | .i64Load16U | .i64Load32S
  | .i64Load32U => .load
  | .i32Store | .i64Store | .f32Store | .f64Store | .i32Store8 | .i32Store16 | .i64Store8
  | .i64Store16 | .i64Store32 => .store
  | .currentMemory => .currentMemory
  | .growMemory => .growMemory
  | .i32Const => .i32Const
  | .i64Const => .i64Const
  | .f32Const => .f32Const
  | .f64Const => .f64Const
  | .i32Eqz | .i64Eqz | .i32WrapI64 | .i32TruncSF32 | .i32TruncUF32 | .i32TruncSF64
  | .i32TruncUF64 | .i64ExtendSI32 | .i64ExtendUI32 | .i64TruncSF32 | .i64TruncUF32
  | .i64TruncSF64 | .i64TruncUF64 | .f32ConvertSI32 | .f32ConvertUI32 | .f32ConvertSI64
  | .f32ConvertUI64 | .f32DemoteF64 | .f64ConvertSI32 | .f64ConvertUI32 | .f64ConvertSI64
  | .f64ConvertUI64 | .f64PromoteF32 | .i32ReinterpretF32 | .i64ReinterpretF64
  | .f32ReinterpretI32 | .f64ReinterpretI64 => .convert
  | .i32Eq | .i32Ne | .i32LtS | .i32LtU | .i32GtS | .i32GtU | .i32LeS | .i32LeU | .i32GeS
  | .i32GeU | .i64Eq | .i64Ne | .i64LtS | .i64LtU | .i64GtS | .i64GtU | .i64LeS | .i64LeU
  | .i64GeS | .i64GeU | .f32Eq | .f32Ne | .f32Lt | .f32Gt | .f32Le | .f32Ge | .f64Eq
  | .f64Ne | .f64Lt | .f64Gt | .f64Le | .f64Ge => .compare
  | .i32Clz | .i32Ctz | .i32Popcnt | .i64Clz | .i64Ctz | .i64Popcnt | .f32Abs | .f32Neg
  | .f32Ceil | .f32Floor | .f32Trunc | .f32Nearest | .f32Sqrt | .f64Abs | .f64Neg
  | .f64Ceil | .f64Floor | .f64Trunc | .f64Nearest | .f64Sqrt => .unary
  | .i32Add | .i32Sub | .i32Mul | .i32DivS | .i32DivU | .i32RemS | .i32RemU | .i32And
  | .i32Or | .i32Xor | .i32Shl | .i32ShrS | .i32ShrU | .i32Rotl | .i32Rotr | .i64Add
  | .i64Sub | .i64Mul | .i64DivS | .i64DivU | .i64RemS | .i64RemU | .i64And | .i64Or
  | .i64Xor | .i64Shl | .i64ShrS | .i64ShrU | .i64Rotl | .i64Rotr | .f32Add | .f32Sub
  | .f32Mul | .f32Div | .f32Min | .f32Max | .f32Copysign | .f64Add | .f64Sub | .f64Mul
  | .f64Div | .f64Min | .f64Max | .f64Copysign => .binary

/-- The opcode of a group of one. -/
def OpcodeGroup.only? : OpcodeGroup → Option WasmOpcode
  | .unreachable => some .unreachable
  | .block => some .block
  | .loop => some .loop
  | .if_ => some .if_
  | .else_ => some .else_
  | .select => some .select
  | .br => some .br
  | .brIf => some .brIf
  | .brTable => some .brTable
  | .return_ => some .return_
  | .nop => some .nop
  | .drop => some .drop
  | .end_ => some .end_
  | .i32Const => some .i32Const
  | .i64Const => some .i64Const
  | .f32Const => some .f32Const
  | .f64Const => some .f64Const
  | .getGlobal => some .getGlobal
  | .getLocal => some .getLocal
  | .setGlobal => some .setGlobal
  | .setLocal => some .setLocal
  | .call => some .call
  | .callIndirect => some .callIndirect
  | .teeLocal => some .teeLocal
  | .currentMemory => some .currentMemory
  | .growMemory => some .growMemory
  | _ => none

theorem WasmOpcode.eq_of_group {op op' : WasmOpcode} (h : op.group.only? = some op') :
    op = op' := by
  cases op <;> first | exact Option.some.inj h | cases h

/-- The opcodes that share a case of the reader's switch. -/
abbrev OpcodeOf (g : OpcodeGroup) : Type := { op : WasmOpcode // op.group = g }

end SexprWasm
