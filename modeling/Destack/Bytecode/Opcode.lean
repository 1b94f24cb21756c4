namespace Destack

inductive OperandKind
  | none | shortInt | int32 | int64 | float32 | float64 | shortVar | var | shortBranch | branch
  | switch | token | byte
  deriving DecidableEq, Repr

namespace OperandKind

def size? : OperandKind → Option Nat
  | .none => some 0
  | .shortInt | .shortVar | .shortBranch | .byte => some 1
  | .var => some 2
  | .int32 | .float32 | .branch | .token => some 4
  | .int64 | .float64 => some 8
  | .switch => Option.none

def name : OperandKind → String
  | .none => "None"
  | .shortInt => "ShortInt"
  | .int32 => "Int32"
  | .int64 => "Int64"
  | .float32 => "Float32"
  | .float64 => "Float64"
  | .shortVar => "ShortVar"
  | .var => "Var"
  | .shortBranch => "ShortBranch"
  | .branch => "Branch"
  | .switch => "Switch"
  | .token => "Token"
  | .byte => "Byte"

end OperandKind

inductive Flow
  | next
  | call
  | jump
  | branch
  | switch
  | ret
  | raise
  | leave
  | endHandler
  | modifier
  deriving DecidableEq, Repr

namespace Flow

def endsBlock : Flow → Bool
  | .jump | .branch | .switch | .ret | .raise | .leave | .endHandler => true
  | .next | .call | .modifier => false

def fallsThrough : Flow → Bool
  | .next | .call | .branch | .switch | .modifier => true
  | .jump | .ret | .raise | .leave | .endHandler => false

def takesTargets : Flow → Bool
  | .jump | .branch | .switch => true
  | _ => false

def name : Flow → String
  | .next => "Next"
  | .call => "Call"
  | .jump => "Branch"
  | .branch => "CondBranch"
  | .switch => "Switch"
  | .ret => "Return"
  | .raise => "Throw"
  | .leave => "Leave"
  | .endHandler => "EndHandler"
  | .modifier => "Meta"

end Flow

inductive Encoding
  | short (byte : UInt8)
  | extended (byte : UInt8)
  deriving DecidableEq, Repr

namespace Encoding

def escape : UInt8 := 0xfe

def bytes : Encoding → List UInt8
  | .short byte => [byte]
  | .extended byte => [escape, byte]

end Encoding

inductive Opcode
  | nop | breakpoint | ldarg0 | ldarg1 | ldarg2 | ldarg3 | ldloc0 | ldloc1 | ldloc2 | ldloc3
  | stloc0 | stloc1 | stloc2 | stloc3 | ldargS | ldargaS | stargS | ldlocS | ldlocaS | stlocS
  | ldnull | ldcI4M1 | ldcI4_0 | ldcI4_1 | ldcI4_2 | ldcI4_3 | ldcI4_4 | ldcI4_5 | ldcI4_6
  | ldcI4_7 | ldcI4_8 | ldcI4S | ldcI4 | ldcI8 | ldcR4 | ldcR8 | dup | pop | jmp | call | calli
  | ret | brS | brfalseS | brtrueS | beqS | bgeS | bgtS | bleS | bltS | bneUnS | bgeUnS | bgtUnS
  | bleUnS | bltUnS | br | brfalse | brtrue | beq | bge | bgt | ble | blt | bneUn | bgeUn | bgtUn
  | bleUn | bltUn | switch | ldindI1 | ldindU1 | ldindI2 | ldindU2 | ldindI4 | ldindU4 | ldindI8
  | ldindI | ldindR4 | ldindR8 | ldindRef | stindRef | stindI1 | stindI2 | stindI4 | stindI8
  | stindR4 | stindR8 | add | sub | mul | div | divUn | rem | remUn | and | or | xor | shl | shr
  | shrUn | neg | not | convI1 | convI2 | convI4 | convI8 | convR4 | convR8 | convU4 | convU8
  | callvirt | cpobj | ldobj | ldstr | newobj | castclass | isinst | convRUn | unbox | throw
  | ldfld | ldflda | stfld | ldsfld | ldsflda | stsfld | stobj | convOvfI1Un | convOvfI2Un
  | convOvfI4Un | convOvfI8Un | convOvfU1Un | convOvfU2Un | convOvfU4Un | convOvfU8Un | convOvfIUn
  | convOvfUUn | box | newarr | ldlen | ldelema | ldelemI1 | ldelemU1 | ldelemI2 | ldelemU2
  | ldelemI4 | ldelemU4 | ldelemI8 | ldelemI | ldelemR4 | ldelemR8 | ldelemRef | stelemI | stelemI1
  | stelemI2 | stelemI4 | stelemI8 | stelemR4 | stelemR8 | stelemRef | ldelem | stelem | unboxAny
  | convOvfI1 | convOvfU1 | convOvfI2 | convOvfU2 | convOvfI4 | convOvfU4 | convOvfI8 | convOvfU8
  | refanyval | ckfinite | mkrefany | ldtoken | convU2 | convU1 | convI | convOvfI | convOvfU
  | addOvf | addOvfUn | mulOvf | mulOvfUn | subOvf | subOvfUn | endfinally | leave | leaveS
  | stindI | convU | arglist | ceq | cgt | cgtUn | clt | cltUn | ldftn | ldvirtftn | ldarg | ldarga
  | starg | ldloc | ldloca | stloc | localloc | endfilter | unaligned | volatile | tail | initobj
  | constrained | cpblk | initblk | no | rethrow | sizeof | refanytype | readonly
  deriving DecidableEq, Repr

namespace Opcode

structure Row where
  encoding : Encoding
  mnemonic : String
  kind : OperandKind
  flow : Flow

def row : Opcode → Row
  | .nop => ⟨.short 0x00, "nop", .none, .next⟩
  | .breakpoint => ⟨.short 0x01, "break", .none, .next⟩
  | .ldarg0 => ⟨.short 0x02, "ldarg.0", .none, .next⟩
  | .ldarg1 => ⟨.short 0x03, "ldarg.1", .none, .next⟩
  | .ldarg2 => ⟨.short 0x04, "ldarg.2", .none, .next⟩
  | .ldarg3 => ⟨.short 0x05, "ldarg.3", .none, .next⟩
  | .ldloc0 => ⟨.short 0x06, "ldloc.0", .none, .next⟩
  | .ldloc1 => ⟨.short 0x07, "ldloc.1", .none, .next⟩
  | .ldloc2 => ⟨.short 0x08, "ldloc.2", .none, .next⟩
  | .ldloc3 => ⟨.short 0x09, "ldloc.3", .none, .next⟩
  | .stloc0 => ⟨.short 0x0a, "stloc.0", .none, .next⟩
  | .stloc1 => ⟨.short 0x0b, "stloc.1", .none, .next⟩
  | .stloc2 => ⟨.short 0x0c, "stloc.2", .none, .next⟩
  | .stloc3 => ⟨.short 0x0d, "stloc.3", .none, .next⟩
  | .ldargS => ⟨.short 0x0e, "ldarg.s", .shortVar, .next⟩
  | .ldargaS => ⟨.short 0x0f, "ldarga.s", .shortVar, .next⟩
  | .stargS => ⟨.short 0x10, "starg.s", .shortVar, .next⟩
  | .ldlocS => ⟨.short 0x11, "ldloc.s", .shortVar, .next⟩
  | .ldlocaS => ⟨.short 0x12, "ldloca.s", .shortVar, .next⟩
  | .stlocS => ⟨.short 0x13, "stloc.s", .shortVar, .next⟩
  | .ldnull => ⟨.short 0x14, "ldnull", .none, .next⟩
  | .ldcI4M1 => ⟨.short 0x15, "ldc.i4.m1", .none, .next⟩
  | .ldcI4_0 => ⟨.short 0x16, "ldc.i4.0", .none, .next⟩
  | .ldcI4_1 => ⟨.short 0x17, "ldc.i4.1", .none, .next⟩
  | .ldcI4_2 => ⟨.short 0x18, "ldc.i4.2", .none, .next⟩
  | .ldcI4_3 => ⟨.short 0x19, "ldc.i4.3", .none, .next⟩
  | .ldcI4_4 => ⟨.short 0x1a, "ldc.i4.4", .none, .next⟩
  | .ldcI4_5 => ⟨.short 0x1b, "ldc.i4.5", .none, .next⟩
  | .ldcI4_6 => ⟨.short 0x1c, "ldc.i4.6", .none, .next⟩
  | .ldcI4_7 => ⟨.short 0x1d, "ldc.i4.7", .none, .next⟩
  | .ldcI4_8 => ⟨.short 0x1e, "ldc.i4.8", .none, .next⟩
  | .ldcI4S => ⟨.short 0x1f, "ldc.i4.s", .shortInt, .next⟩
  | .ldcI4 => ⟨.short 0x20, "ldc.i4", .int32, .next⟩
  | .ldcI8 => ⟨.short 0x21, "ldc.i8", .int64, .next⟩
  | .ldcR4 => ⟨.short 0x22, "ldc.r4", .float32, .next⟩
  | .ldcR8 => ⟨.short 0x23, "ldc.r8", .float64, .next⟩
  | .dup => ⟨.short 0x25, "dup", .none, .next⟩
  | .pop => ⟨.short 0x26, "pop", .none, .next⟩
  | .jmp => ⟨.short 0x27, "jmp", .token, .call⟩
  | .call => ⟨.short 0x28, "call", .token, .call⟩
  | .calli => ⟨.short 0x29, "calli", .token, .call⟩
  | .ret => ⟨.short 0x2a, "ret", .none, .ret⟩
  | .brS => ⟨.short 0x2b, "br.s", .shortBranch, .jump⟩
  | .brfalseS => ⟨.short 0x2c, "brfalse.s", .shortBranch, .branch⟩
  | .brtrueS => ⟨.short 0x2d, "brtrue.s", .shortBranch, .branch⟩
  | .beqS => ⟨.short 0x2e, "beq.s", .shortBranch, .branch⟩
  | .bgeS => ⟨.short 0x2f, "bge.s", .shortBranch, .branch⟩
  | .bgtS => ⟨.short 0x30, "bgt.s", .shortBranch, .branch⟩
  | .bleS => ⟨.short 0x31, "ble.s", .shortBranch, .branch⟩
  | .bltS => ⟨.short 0x32, "blt.s", .shortBranch, .branch⟩
  | .bneUnS => ⟨.short 0x33, "bne.un.s", .shortBranch, .branch⟩
  | .bgeUnS => ⟨.short 0x34, "bge.un.s", .shortBranch, .branch⟩
  | .bgtUnS => ⟨.short 0x35, "bgt.un.s", .shortBranch, .branch⟩
  | .bleUnS => ⟨.short 0x36, "ble.un.s", .shortBranch, .branch⟩
  | .bltUnS => ⟨.short 0x37, "blt.un.s", .shortBranch, .branch⟩
  | .br => ⟨.short 0x38, "br", .branch, .jump⟩
  | .brfalse => ⟨.short 0x39, "brfalse", .branch, .branch⟩
  | .brtrue => ⟨.short 0x3a, "brtrue", .branch, .branch⟩
  | .beq => ⟨.short 0x3b, "beq", .branch, .branch⟩
  | .bge => ⟨.short 0x3c, "bge", .branch, .branch⟩
  | .bgt => ⟨.short 0x3d, "bgt", .branch, .branch⟩
  | .ble => ⟨.short 0x3e, "ble", .branch, .branch⟩
  | .blt => ⟨.short 0x3f, "blt", .branch, .branch⟩
  | .bneUn => ⟨.short 0x40, "bne.un", .branch, .branch⟩
  | .bgeUn => ⟨.short 0x41, "bge.un", .branch, .branch⟩
  | .bgtUn => ⟨.short 0x42, "bgt.un", .branch, .branch⟩
  | .bleUn => ⟨.short 0x43, "ble.un", .branch, .branch⟩
  | .bltUn => ⟨.short 0x44, "blt.un", .branch, .branch⟩
  | .switch => ⟨.short 0x45, "switch", .switch, .switch⟩
  | .ldindI1 => ⟨.short 0x46, "ldind.i1", .none, .next⟩
  | .ldindU1 => ⟨.short 0x47, "ldind.u1", .none, .next⟩
  | .ldindI2 => ⟨.short 0x48, "ldind.i2", .none, .next⟩
  | .ldindU2 => ⟨.short 0x49, "ldind.u2", .none, .next⟩
  | .ldindI4 => ⟨.short 0x4a, "ldind.i4", .none, .next⟩
  | .ldindU4 => ⟨.short 0x4b, "ldind.u4", .none, .next⟩
  | .ldindI8 => ⟨.short 0x4c, "ldind.i8", .none, .next⟩
  | .ldindI => ⟨.short 0x4d, "ldind.i", .none, .next⟩
  | .ldindR4 => ⟨.short 0x4e, "ldind.r4", .none, .next⟩
  | .ldindR8 => ⟨.short 0x4f, "ldind.r8", .none, .next⟩
  | .ldindRef => ⟨.short 0x50, "ldind.ref", .none, .next⟩
  | .stindRef => ⟨.short 0x51, "stind.ref", .none, .next⟩
  | .stindI1 => ⟨.short 0x52, "stind.i1", .none, .next⟩
  | .stindI2 => ⟨.short 0x53, "stind.i2", .none, .next⟩
  | .stindI4 => ⟨.short 0x54, "stind.i4", .none, .next⟩
  | .stindI8 => ⟨.short 0x55, "stind.i8", .none, .next⟩
  | .stindR4 => ⟨.short 0x56, "stind.r4", .none, .next⟩
  | .stindR8 => ⟨.short 0x57, "stind.r8", .none, .next⟩
  | .add => ⟨.short 0x58, "add", .none, .next⟩
  | .sub => ⟨.short 0x59, "sub", .none, .next⟩
  | .mul => ⟨.short 0x5a, "mul", .none, .next⟩
  | .div => ⟨.short 0x5b, "div", .none, .next⟩
  | .divUn => ⟨.short 0x5c, "div.un", .none, .next⟩
  | .rem => ⟨.short 0x5d, "rem", .none, .next⟩
  | .remUn => ⟨.short 0x5e, "rem.un", .none, .next⟩
  | .and => ⟨.short 0x5f, "and", .none, .next⟩
  | .or => ⟨.short 0x60, "or", .none, .next⟩
  | .xor => ⟨.short 0x61, "xor", .none, .next⟩
  | .shl => ⟨.short 0x62, "shl", .none, .next⟩
  | .shr => ⟨.short 0x63, "shr", .none, .next⟩
  | .shrUn => ⟨.short 0x64, "shr.un", .none, .next⟩
  | .neg => ⟨.short 0x65, "neg", .none, .next⟩
  | .not => ⟨.short 0x66, "not", .none, .next⟩
  | .convI1 => ⟨.short 0x67, "conv.i1", .none, .next⟩
  | .convI2 => ⟨.short 0x68, "conv.i2", .none, .next⟩
  | .convI4 => ⟨.short 0x69, "conv.i4", .none, .next⟩
  | .convI8 => ⟨.short 0x6a, "conv.i8", .none, .next⟩
  | .convR4 => ⟨.short 0x6b, "conv.r4", .none, .next⟩
  | .convR8 => ⟨.short 0x6c, "conv.r8", .none, .next⟩
  | .convU4 => ⟨.short 0x6d, "conv.u4", .none, .next⟩
  | .convU8 => ⟨.short 0x6e, "conv.u8", .none, .next⟩
  | .callvirt => ⟨.short 0x6f, "callvirt", .token, .call⟩
  | .cpobj => ⟨.short 0x70, "cpobj", .token, .next⟩
  | .ldobj => ⟨.short 0x71, "ldobj", .token, .next⟩
  | .ldstr => ⟨.short 0x72, "ldstr", .token, .next⟩
  | .newobj => ⟨.short 0x73, "newobj", .token, .call⟩
  | .castclass => ⟨.short 0x74, "castclass", .token, .next⟩
  | .isinst => ⟨.short 0x75, "isinst", .token, .next⟩
  | .convRUn => ⟨.short 0x76, "conv.r.un", .none, .next⟩
  | .unbox => ⟨.short 0x79, "unbox", .token, .next⟩
  | .throw => ⟨.short 0x7a, "throw", .none, .raise⟩
  | .ldfld => ⟨.short 0x7b, "ldfld", .token, .next⟩
  | .ldflda => ⟨.short 0x7c, "ldflda", .token, .next⟩
  | .stfld => ⟨.short 0x7d, "stfld", .token, .next⟩
  | .ldsfld => ⟨.short 0x7e, "ldsfld", .token, .next⟩
  | .ldsflda => ⟨.short 0x7f, "ldsflda", .token, .next⟩
  | .stsfld => ⟨.short 0x80, "stsfld", .token, .next⟩
  | .stobj => ⟨.short 0x81, "stobj", .token, .next⟩
  | .convOvfI1Un => ⟨.short 0x82, "conv.ovf.i1.un", .none, .next⟩
  | .convOvfI2Un => ⟨.short 0x83, "conv.ovf.i2.un", .none, .next⟩
  | .convOvfI4Un => ⟨.short 0x84, "conv.ovf.i4.un", .none, .next⟩
  | .convOvfI8Un => ⟨.short 0x85, "conv.ovf.i8.un", .none, .next⟩
  | .convOvfU1Un => ⟨.short 0x86, "conv.ovf.u1.un", .none, .next⟩
  | .convOvfU2Un => ⟨.short 0x87, "conv.ovf.u2.un", .none, .next⟩
  | .convOvfU4Un => ⟨.short 0x88, "conv.ovf.u4.un", .none, .next⟩
  | .convOvfU8Un => ⟨.short 0x89, "conv.ovf.u8.un", .none, .next⟩
  | .convOvfIUn => ⟨.short 0x8a, "conv.ovf.i.un", .none, .next⟩
  | .convOvfUUn => ⟨.short 0x8b, "conv.ovf.u.un", .none, .next⟩
  | .box => ⟨.short 0x8c, "box", .token, .next⟩
  | .newarr => ⟨.short 0x8d, "newarr", .token, .next⟩
  | .ldlen => ⟨.short 0x8e, "ldlen", .none, .next⟩
  | .ldelema => ⟨.short 0x8f, "ldelema", .token, .next⟩
  | .ldelemI1 => ⟨.short 0x90, "ldelem.i1", .none, .next⟩
  | .ldelemU1 => ⟨.short 0x91, "ldelem.u1", .none, .next⟩
  | .ldelemI2 => ⟨.short 0x92, "ldelem.i2", .none, .next⟩
  | .ldelemU2 => ⟨.short 0x93, "ldelem.u2", .none, .next⟩
  | .ldelemI4 => ⟨.short 0x94, "ldelem.i4", .none, .next⟩
  | .ldelemU4 => ⟨.short 0x95, "ldelem.u4", .none, .next⟩
  | .ldelemI8 => ⟨.short 0x96, "ldelem.i8", .none, .next⟩
  | .ldelemI => ⟨.short 0x97, "ldelem.i", .none, .next⟩
  | .ldelemR4 => ⟨.short 0x98, "ldelem.r4", .none, .next⟩
  | .ldelemR8 => ⟨.short 0x99, "ldelem.r8", .none, .next⟩
  | .ldelemRef => ⟨.short 0x9a, "ldelem.ref", .none, .next⟩
  | .stelemI => ⟨.short 0x9b, "stelem.i", .none, .next⟩
  | .stelemI1 => ⟨.short 0x9c, "stelem.i1", .none, .next⟩
  | .stelemI2 => ⟨.short 0x9d, "stelem.i2", .none, .next⟩
  | .stelemI4 => ⟨.short 0x9e, "stelem.i4", .none, .next⟩
  | .stelemI8 => ⟨.short 0x9f, "stelem.i8", .none, .next⟩
  | .stelemR4 => ⟨.short 0xa0, "stelem.r4", .none, .next⟩
  | .stelemR8 => ⟨.short 0xa1, "stelem.r8", .none, .next⟩
  | .stelemRef => ⟨.short 0xa2, "stelem.ref", .none, .next⟩
  | .ldelem => ⟨.short 0xa3, "ldelem", .token, .next⟩
  | .stelem => ⟨.short 0xa4, "stelem", .token, .next⟩
  | .unboxAny => ⟨.short 0xa5, "unbox.any", .token, .next⟩
  | .convOvfI1 => ⟨.short 0xb3, "conv.ovf.i1", .none, .next⟩
  | .convOvfU1 => ⟨.short 0xb4, "conv.ovf.u1", .none, .next⟩
  | .convOvfI2 => ⟨.short 0xb5, "conv.ovf.i2", .none, .next⟩
  | .convOvfU2 => ⟨.short 0xb6, "conv.ovf.u2", .none, .next⟩
  | .convOvfI4 => ⟨.short 0xb7, "conv.ovf.i4", .none, .next⟩
  | .convOvfU4 => ⟨.short 0xb8, "conv.ovf.u4", .none, .next⟩
  | .convOvfI8 => ⟨.short 0xb9, "conv.ovf.i8", .none, .next⟩
  | .convOvfU8 => ⟨.short 0xba, "conv.ovf.u8", .none, .next⟩
  | .refanyval => ⟨.short 0xc2, "refanyval", .token, .next⟩
  | .ckfinite => ⟨.short 0xc3, "ckfinite", .none, .next⟩
  | .mkrefany => ⟨.short 0xc6, "mkrefany", .token, .next⟩
  | .ldtoken => ⟨.short 0xd0, "ldtoken", .token, .next⟩
  | .convU2 => ⟨.short 0xd1, "conv.u2", .none, .next⟩
  | .convU1 => ⟨.short 0xd2, "conv.u1", .none, .next⟩
  | .convI => ⟨.short 0xd3, "conv.i", .none, .next⟩
  | .convOvfI => ⟨.short 0xd4, "conv.ovf.i", .none, .next⟩
  | .convOvfU => ⟨.short 0xd5, "conv.ovf.u", .none, .next⟩
  | .addOvf => ⟨.short 0xd6, "add.ovf", .none, .next⟩
  | .addOvfUn => ⟨.short 0xd7, "add.ovf.un", .none, .next⟩
  | .mulOvf => ⟨.short 0xd8, "mul.ovf", .none, .next⟩
  | .mulOvfUn => ⟨.short 0xd9, "mul.ovf.un", .none, .next⟩
  | .subOvf => ⟨.short 0xda, "sub.ovf", .none, .next⟩
  | .subOvfUn => ⟨.short 0xdb, "sub.ovf.un", .none, .next⟩
  | .endfinally => ⟨.short 0xdc, "endfinally", .none, .endHandler⟩
  | .leave => ⟨.short 0xdd, "leave", .branch, .leave⟩
  | .leaveS => ⟨.short 0xde, "leave.s", .shortBranch, .leave⟩
  | .stindI => ⟨.short 0xdf, "stind.i", .none, .next⟩
  | .convU => ⟨.short 0xe0, "conv.u", .none, .next⟩
  | .arglist => ⟨.extended 0x00, "arglist", .none, .next⟩
  | .ceq => ⟨.extended 0x01, "ceq", .none, .next⟩
  | .cgt => ⟨.extended 0x02, "cgt", .none, .next⟩
  | .cgtUn => ⟨.extended 0x03, "cgt.un", .none, .next⟩
  | .clt => ⟨.extended 0x04, "clt", .none, .next⟩
  | .cltUn => ⟨.extended 0x05, "clt.un", .none, .next⟩
  | .ldftn => ⟨.extended 0x06, "ldftn", .token, .next⟩
  | .ldvirtftn => ⟨.extended 0x07, "ldvirtftn", .token, .next⟩
  | .ldarg => ⟨.extended 0x09, "ldarg", .var, .next⟩
  | .ldarga => ⟨.extended 0x0a, "ldarga", .var, .next⟩
  | .starg => ⟨.extended 0x0b, "starg", .var, .next⟩
  | .ldloc => ⟨.extended 0x0c, "ldloc", .var, .next⟩
  | .ldloca => ⟨.extended 0x0d, "ldloca", .var, .next⟩
  | .stloc => ⟨.extended 0x0e, "stloc", .var, .next⟩
  | .localloc => ⟨.extended 0x0f, "localloc", .none, .next⟩
  | .endfilter => ⟨.extended 0x11, "endfilter", .none, .endHandler⟩
  | .unaligned => ⟨.extended 0x12, "unaligned.", .byte, .modifier⟩
  | .volatile => ⟨.extended 0x13, "volatile.", .none, .modifier⟩
  | .tail => ⟨.extended 0x14, "tail.", .none, .modifier⟩
  | .initobj => ⟨.extended 0x15, "initobj", .token, .next⟩
  | .constrained => ⟨.extended 0x16, "constrained.", .token, .modifier⟩
  | .cpblk => ⟨.extended 0x17, "cpblk", .none, .next⟩
  | .initblk => ⟨.extended 0x18, "initblk", .none, .next⟩
  | .no => ⟨.extended 0x19, "no.", .byte, .modifier⟩
  | .rethrow => ⟨.extended 0x1a, "rethrow", .none, .raise⟩
  | .sizeof => ⟨.extended 0x1c, "sizeof", .token, .next⟩
  | .refanytype => ⟨.extended 0x1d, "refanytype", .none, .next⟩
  | .readonly => ⟨.extended 0x1e, "readonly.", .none, .modifier⟩

def encoding (op : Opcode) : Encoding := op.row.encoding
def mnemonic (op : Opcode) : String := op.row.mnemonic
def kind (op : Opcode) : OperandKind := op.row.kind
def flow (op : Opcode) : Flow := op.row.flow

def all : List Opcode :=
  [.nop, .breakpoint, .ldarg0, .ldarg1, .ldarg2, .ldarg3, .ldloc0, .ldloc1, .ldloc2, .ldloc3,
   .stloc0, .stloc1, .stloc2, .stloc3, .ldargS, .ldargaS, .stargS, .ldlocS, .ldlocaS, .stlocS,
   .ldnull, .ldcI4M1, .ldcI4_0, .ldcI4_1, .ldcI4_2, .ldcI4_3, .ldcI4_4, .ldcI4_5, .ldcI4_6,
   .ldcI4_7, .ldcI4_8, .ldcI4S, .ldcI4, .ldcI8, .ldcR4, .ldcR8, .dup, .pop, .jmp, .call, .calli,
   .ret, .brS, .brfalseS, .brtrueS, .beqS, .bgeS, .bgtS, .bleS, .bltS, .bneUnS, .bgeUnS, .bgtUnS,
   .bleUnS, .bltUnS, .br, .brfalse, .brtrue, .beq, .bge, .bgt, .ble, .blt, .bneUn, .bgeUn, .bgtUn,
   .bleUn, .bltUn, .switch, .ldindI1, .ldindU1, .ldindI2, .ldindU2, .ldindI4, .ldindU4, .ldindI8,
   .ldindI, .ldindR4, .ldindR8, .ldindRef, .stindRef, .stindI1, .stindI2, .stindI4, .stindI8,
   .stindR4, .stindR8, .add, .sub, .mul, .div, .divUn, .rem, .remUn, .and, .or, .xor, .shl, .shr,
   .shrUn, .neg, .not, .convI1, .convI2, .convI4, .convI8, .convR4, .convR8, .convU4, .convU8,
   .callvirt, .cpobj, .ldobj, .ldstr, .newobj, .castclass, .isinst, .convRUn, .unbox, .throw,
   .ldfld, .ldflda, .stfld, .ldsfld, .ldsflda, .stsfld, .stobj, .convOvfI1Un, .convOvfI2Un,
   .convOvfI4Un, .convOvfI8Un, .convOvfU1Un, .convOvfU2Un, .convOvfU4Un, .convOvfU8Un, .convOvfIUn,
   .convOvfUUn, .box, .newarr, .ldlen, .ldelema, .ldelemI1, .ldelemU1, .ldelemI2, .ldelemU2,
   .ldelemI4, .ldelemU4, .ldelemI8, .ldelemI, .ldelemR4, .ldelemR8, .ldelemRef, .stelemI,
   .stelemI1, .stelemI2, .stelemI4, .stelemI8, .stelemR4, .stelemR8, .stelemRef, .ldelem, .stelem,
   .unboxAny, .convOvfI1, .convOvfU1, .convOvfI2, .convOvfU2, .convOvfI4, .convOvfU4, .convOvfI8,
   .convOvfU8, .refanyval, .ckfinite, .mkrefany, .ldtoken, .convU2, .convU1, .convI, .convOvfI,
   .convOvfU, .addOvf, .addOvfUn, .mulOvf, .mulOvfUn, .subOvf, .subOvfUn, .endfinally, .leave,
   .leaveS, .stindI, .convU, .arglist, .ceq, .cgt, .cgtUn, .clt, .cltUn, .ldftn, .ldvirtftn,
   .ldarg, .ldarga, .starg, .ldloc, .ldloca, .stloc, .localloc, .endfilter, .unaligned, .volatile,
   .tail, .initobj, .constrained, .cpblk, .initblk, .no, .rethrow, .sizeof, .refanytype, .readonly]

def ofEncoding? (encoding : Encoding) : Option Opcode :=
  all.find? fun op => op.encoding = encoding

def ofMnemonic? (mnemonic : String) : Option Opcode :=
  all.find? fun op => op.mnemonic = mnemonic

def longForm : Opcode → Opcode
  | .brS => .br
  | .brfalseS => .brfalse
  | .brtrueS => .brtrue
  | .beqS => .beq
  | .bgeS => .bge
  | .bgtS => .bgt
  | .bleS => .ble
  | .bltS => .blt
  | .bneUnS => .bneUn
  | .bgeUnS => .bgeUn
  | .bgtUnS => .bgtUn
  | .bleUnS => .bleUn
  | .bltUnS => .bltUn
  | .leaveS => .leave
  | .ldargS => .ldarg
  | .ldargaS => .ldarga
  | .stargS => .starg
  | .ldlocS => .ldloc
  | .ldlocaS => .ldloca
  | .stlocS => .stloc
  | op => op

def size? (op : Opcode) : Option Nat := op.kind.size?.map (op.encoding.bytes.length + ·)

def isBranch (op : Opcode) : Bool := op.kind = .branch || op.kind = .shortBranch

def isModifier (op : Opcode) : Bool := op.flow = .modifier

end Opcode
end Destack
