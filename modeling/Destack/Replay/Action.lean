import Destack.Bytecode.Opcode
import Destack.Code.Expr

namespace Destack

inductive Frame
  | locals
  | params
  deriving DecidableEq, Repr

def Frame.value : Frame → UInt16 → Value
  | .locals, index => .localVar index
  | .params, index => .param index

inductive AccessType
  | fixed (type : Ty)
  | operand
  | inferred
  deriving DecidableEq, Repr

inductive Action
  | skip
  | unsupported
  | loadNull
  | loadInt32 (implicit : Option Int32)
  | loadInt64
  | loadFloat32
  | loadFloat64
  | loadString
  | load (frame : Frame) (implicit : Option UInt16)
  | store (frame : Frame) (implicit : Option UInt16)
  | loadAddress (frame : Frame)
  | duplicate
  | discard
  | binary (op : BinaryOp) (checked unsigned : Bool)
  | unary (op : UnaryOp)
  | convert (dest : Ty) (checked unsigned : Bool)
  | compare (op : BinaryOp) (unsigned : Bool)
  | jump
  | branchIf (op : BinaryOp)
  | branchOn (op : BinaryOp) (unsigned : Bool)
  | switch
  | leave
  | ret
  | throw
  | rethrow
  | endFinally
  | endFilter
  | loadIndirect (access : AccessType)
  | storeIndirect (access : AccessType)
  | copyObject
  | initObject
  | loadField
  | loadFieldAddress
  | storeField
  | loadStatic
  | loadStaticAddress
  | storeStatic
  | newArray
  | arrayLength
  | loadElement (access : AccessType)
  | loadElementAddress
  | storeElement (access : AccessType)
  | call (isVirtual : Bool)
  | newObject
  | loadFunction
  | loadVirtualFunction
  | castClass
  | isInstance
  | box
  | unbox (any : Bool)
  | sizeOf
  | loadHandle
  deriving DecidableEq, Repr

def Opcode.action : Opcode → Action
  -- Without effect; modifiers only annotate the next instruction
  | .nop | .breakpoint | .volatile | .unaligned | .tail | .constrained | .readonly | .no => .skip
  | .cpblk | .initblk | .calli | .jmp | .arglist | .localloc | .mkrefany | .refanyval
  | .refanytype => .unsupported
  -- Constants
  | .ldnull => .loadNull
  | .ldcI4M1 => .loadInt32 (some (-1))
  | .ldcI4_0 => .loadInt32 (some 0)
  | .ldcI4_1 => .loadInt32 (some 1)
  | .ldcI4_2 => .loadInt32 (some 2)
  | .ldcI4_3 => .loadInt32 (some 3)
  | .ldcI4_4 => .loadInt32 (some 4)
  | .ldcI4_5 => .loadInt32 (some 5)
  | .ldcI4_6 => .loadInt32 (some 6)
  | .ldcI4_7 => .loadInt32 (some 7)
  | .ldcI4_8 => .loadInt32 (some 8)
  | .ldcI4S | .ldcI4 => .loadInt32 none
  | .ldcI8 => .loadInt64
  | .ldcR4 => .loadFloat32
  | .ldcR8 => .loadFloat64
  | .ldstr => .loadString
  -- Variables
  | .ldarg0 => .load .params (some 0)
  | .ldarg1 => .load .params (some 1)
  | .ldarg2 => .load .params (some 2)
  | .ldarg3 => .load .params (some 3)
  | .ldargS | .ldarg => .load .params none
  | .ldloc0 => .load .locals (some 0)
  | .ldloc1 => .load .locals (some 1)
  | .ldloc2 => .load .locals (some 2)
  | .ldloc3 => .load .locals (some 3)
  | .ldlocS | .ldloc => .load .locals none
  | .stloc0 => .store .locals (some 0)
  | .stloc1 => .store .locals (some 1)
  | .stloc2 => .store .locals (some 2)
  | .stloc3 => .store .locals (some 3)
  | .stlocS | .stloc => .store .locals none
  | .stargS | .starg => .store .params none
  | .ldargaS | .ldarga => .loadAddress .params
  | .ldlocaS | .ldloca => .loadAddress .locals
  -- The stack itself
  | .dup => .duplicate
  | .pop => .discard
  -- Arithmetic
  | .add => .binary .add false false
  | .addOvf => .binary .add true false
  | .addOvfUn => .binary .add true true
  | .sub => .binary .sub false false
  | .subOvf => .binary .sub true false
  | .subOvfUn => .binary .sub true true
  | .mul => .binary .mul false false
  | .mulOvf => .binary .mul true false
  | .mulOvfUn => .binary .mul true true
  | .div => .binary .div false false
  | .divUn => .binary .div false true
  | .rem => .binary .rem false false
  | .remUn => .binary .rem false true
  | .and => .binary .and false false
  | .or => .binary .or false false
  | .xor => .binary .xor false false
  | .shl => .binary .shl false false
  | .shr => .binary .shr false false
  | .shrUn => .binary .shr false true
  | .neg => .unary .neg
  | .not => .unary .not
  | .ckfinite => .unary .ckfinite
  -- Conversions
  | .convI1 => .convert .int8 false false
  | .convI2 => .convert .int16 false false
  | .convI4 => .convert .int32 false false
  | .convI8 => .convert .int64 false false
  | .convR4 => .convert .float32 false false
  | .convR8 => .convert .float64 false false
  | .convU1 => .convert .uint8 false false
  | .convU2 => .convert .uint16 false false
  | .convU4 => .convert .uint32 false false
  | .convU8 => .convert .uint64 false false
  | .convI => .convert .nativeInt false false
  | .convU => .convert .nativeUInt false false
  | .convRUn => .convert .float64 false true
  | .convOvfI1 => .convert .int8 true false
  | .convOvfI2 => .convert .int16 true false
  | .convOvfI4 => .convert .int32 true false
  | .convOvfI8 => .convert .int64 true false
  | .convOvfU1 => .convert .uint8 true false
  | .convOvfU2 => .convert .uint16 true false
  | .convOvfU4 => .convert .uint32 true false
  | .convOvfU8 => .convert .uint64 true false
  | .convOvfI => .convert .nativeInt true false
  | .convOvfU => .convert .nativeUInt true false
  | .convOvfI1Un => .convert .int8 true true
  | .convOvfI2Un => .convert .int16 true true
  | .convOvfI4Un => .convert .int32 true true
  | .convOvfI8Un => .convert .int64 true true
  | .convOvfU1Un => .convert .uint8 true true
  | .convOvfU2Un => .convert .uint16 true true
  | .convOvfU4Un => .convert .uint32 true true
  | .convOvfU8Un => .convert .uint64 true true
  | .convOvfIUn => .convert .nativeInt true true
  | .convOvfUUn => .convert .nativeUInt true true
  -- Comparisons
  | .ceq => .compare .eq false
  | .cgt => .compare .gt false
  | .cgtUn => .compare .gt true
  | .clt => .compare .lt false
  | .cltUn => .compare .lt true
  -- Control flow
  | .brS | .br => .jump
  | .brtrueS | .brtrue => .branchIf .ne
  | .brfalseS | .brfalse => .branchIf .eq
  | .beqS | .beq => .branchOn .eq false
  | .bgeS | .bge => .branchOn .ge false
  | .bgtS | .bgt => .branchOn .gt false
  | .bleS | .ble => .branchOn .le false
  | .bltS | .blt => .branchOn .lt false
  | .bneUnS | .bneUn => .branchOn .ne true
  | .bgeUnS | .bgeUn => .branchOn .ge true
  | .bgtUnS | .bgtUn => .branchOn .gt true
  | .bleUnS | .bleUn => .branchOn .le true
  | .bltUnS | .bltUn => .branchOn .lt true
  | .switch => .switch
  | .leaveS | .leave => .leave
  | .ret => .ret
  | .throw => .throw
  | .rethrow => .rethrow
  | .endfinally => .endFinally
  | .endfilter => .endFilter
  -- Memory
  | .ldindI1 => .loadIndirect (.fixed .int8)
  | .ldindU1 => .loadIndirect (.fixed .uint8)
  | .ldindI2 => .loadIndirect (.fixed .int16)
  | .ldindU2 => .loadIndirect (.fixed .uint16)
  | .ldindI4 => .loadIndirect (.fixed .int32)
  | .ldindU4 => .loadIndirect (.fixed .uint32)
  | .ldindI8 => .loadIndirect (.fixed .int64)
  | .ldindI => .loadIndirect (.fixed .nativeInt)
  | .ldindR4 => .loadIndirect (.fixed .float32)
  | .ldindR8 => .loadIndirect (.fixed .float64)
  | .ldindRef => .loadIndirect .inferred
  | .ldobj => .loadIndirect .operand
  | .stindI1 => .storeIndirect (.fixed .int8)
  | .stindI2 => .storeIndirect (.fixed .int16)
  | .stindI4 => .storeIndirect (.fixed .int32)
  | .stindI8 => .storeIndirect (.fixed .int64)
  | .stindI => .storeIndirect (.fixed .nativeInt)
  | .stindR4 => .storeIndirect (.fixed .float32)
  | .stindR8 => .storeIndirect (.fixed .float64)
  | .stindRef => .storeIndirect .inferred
  | .stobj => .storeIndirect .operand
  | .cpobj => .copyObject
  | .initobj => .initObject
  -- Fields
  | .ldfld => .loadField
  | .ldflda => .loadFieldAddress
  | .stfld => .storeField
  | .ldsfld => .loadStatic
  | .ldsflda => .loadStaticAddress
  | .stsfld => .storeStatic
  -- Arrays
  | .newarr => .newArray
  | .ldlen => .arrayLength
  | .ldelemI1 => .loadElement (.fixed .int8)
  | .ldelemU1 => .loadElement (.fixed .uint8)
  | .ldelemI2 => .loadElement (.fixed .int16)
  | .ldelemU2 => .loadElement (.fixed .uint16)
  | .ldelemI4 => .loadElement (.fixed .int32)
  | .ldelemU4 => .loadElement (.fixed .uint32)
  | .ldelemI8 => .loadElement (.fixed .int64)
  | .ldelemI => .loadElement (.fixed .nativeInt)
  | .ldelemR4 => .loadElement (.fixed .float32)
  | .ldelemR8 => .loadElement (.fixed .float64)
  | .ldelemRef => .loadElement .inferred
  | .ldelem => .loadElement .operand
  | .ldelema => .loadElementAddress
  | .stelemI1 => .storeElement (.fixed .int8)
  | .stelemI2 => .storeElement (.fixed .int16)
  | .stelemI4 => .storeElement (.fixed .int32)
  | .stelemI8 => .storeElement (.fixed .int64)
  | .stelemI => .storeElement (.fixed .nativeInt)
  | .stelemR4 => .storeElement (.fixed .float32)
  | .stelemR8 => .storeElement (.fixed .float64)
  | .stelemRef => .storeElement .inferred
  | .stelem => .storeElement .operand
  -- Calls and objects
  | .call => .call false
  | .callvirt => .call true
  | .newobj => .newObject
  | .ldftn => .loadFunction
  | .ldvirtftn => .loadVirtualFunction
  | .castclass => .castClass
  | .isinst => .isInstance
  | .box => .box
  | .unbox => .unbox false
  | .unboxAny => .unbox true
  | .sizeof => .sizeOf
  | .ldtoken => .loadHandle

end Destack
