import SexprWasm.BinaryWriter.Leb128

/-!
# Local declarations, writing

`write_func_locals` of `binary-writer.c`. The locals are written as runs
of equal types; one loop counts the runs, the next writes them. Both
count up an `uint32_t` over the indices of the locals, which follow
those of the parameters. The second goes on to the index after the last,
where it takes the type to be `void`.
-/

namespace SexprWasm

namespace BinaryWriter

/-- What `write_func_locals` writes, in order. -/
structure LocalDecls where
  localDeclCount : Nat
  decls : List (Nat × WasmType)
  deriving DecidableEq

section WriteFuncLocals

variable (numParams : Nat) (localTypes : List ValueType)

/-- `GET_LOCAL_TYPE`; `none` past the end of the vector. -/
def getLocalType (x : Nat) : Option WasmType :=
  (localTypes[u32 (x + maxU32 - numParams)]?).map (·.toType)

/-- `LAST_LOCAL_INDEX`, the sum of an `uint32_t` and a `size_t`. -/
def lastLocalIndex : Nat := numParams + localTypes.length

/-- The first loop; `none` where it goes on after `fuel` turns. -/
def countLocalDecls : Nat → Nat → WasmType → Nat → Option Nat
  | 0, _, _, _ => none
  | fuel + 1, i, currentType, localDeclCount =>
    if i < lastLocalIndex numParams localTypes then
      match getLocalType numParams localTypes i with
      | none => none
      | some type =>
        if currentType ≠ type then
          countLocalDecls fuel (u32 (i + 1)) type (u32 (localDeclCount + 1))
        else
          countLocalDecls fuel (u32 (i + 1)) currentType localDeclCount
    else
      some localDeclCount

/-- The second loop; `none` where it goes on after `fuel` turns. -/
def writeLocalDecls : Nat → Nat → WasmType → Nat → Option (List (Nat × WasmType))
  | 0, _, _, _ => none
  | fuel + 1, i, currentType, localTypeCount =>
    if i ≤ lastLocalIndex numParams localTypes then
      match if i = lastLocalIndex numParams localTypes then some WasmType.void
        else getLocalType numParams localTypes i with
      | none => none
      | some type =>
        if currentType = type then
          writeLocalDecls fuel (u32 (i + 1)) currentType (u32 (localTypeCount + 1))
        else
          (writeLocalDecls fuel (u32 (i + 1)) type 1).map ((localTypeCount, currentType) :: ·)
    else
      some []

end WriteFuncLocals

/-- `write_func_locals`. -/
def writeFuncLocals (fuel numParams : Nat) (localTypes : List ValueType) : Option LocalDecls :=
  if localTypes.length = 0 then
    some { localDeclCount := 0, decls := [] }
  else do
    let numParams := u32 numParams
    let firstType ← getLocalType numParams localTypes numParams
    let localDeclCount ← countLocalDecls numParams localTypes fuel (u32 (numParams + 1)) firstType 1
    let decls ← writeLocalDecls numParams localTypes fuel (u32 (numParams + 1)) firstType 1
    return { localDeclCount, decls }

/-- `wasm_write_u32_leb128` and `wasm_write_type` for one run. -/
def localDeclBytes (decl : Nat × WasmType) : Option (List UInt8) := do
  let count ← wasmWriteU32Leb128 decl.1
  let type ← wasmWriteI32Leb128 decl.2.code
  return count ++ type

def declsBytes : List (Nat × WasmType) → Option (List UInt8)
  | [] => some []
  | decl :: decls => do
    let first ← localDeclBytes decl
    let rest ← declsBytes decls
    return first ++ rest

/-- The bytes in the stream. -/
def LocalDecls.bytes (w : LocalDecls) : Option (List UInt8) := do
  let count ← wasmWriteU32Leb128 w.localDeclCount
  let decls ← declsBytes w.decls
  return count ++ decls

end BinaryWriter

end SexprWasm
