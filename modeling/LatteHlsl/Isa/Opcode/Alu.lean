/-!
# ALU operations

Operations with two and with three operands, and the traits that decide on which unit they run and
how their operands and results are read.
-/

namespace LatteHlsl.Isa

/-- How 32 bits of a register are read as a number. -/
inductive Domain where
  | float | int | uint
deriving DecidableEq

/-- Static properties of an ALU operation. -/
structure AluTraits where
  /-- The lanes X to W compute one result together. -/
  reduction : Bool := false
  /-- Only the T unit can run it. -/
  transOnly : Bool := false
  /-- How the operands are read. -/
  reads : Domain := .float
  /-- How the result is to be read. -/
  writes : Domain := .float
deriving DecidableEq

namespace AluTraits

/-- The traits as one bit each: reduction, T only, signed operands, signed result, unsigned
operands, unsigned result. -/
def bits (t : AluTraits) : Nat :=
  (if t.reduction then 1 else 0) + (if t.transOnly then 2 else 0)
    + (if t.reads = .int then 4 else 0) + (if t.writes = .int then 8 else 0)
    + (if t.reads = .uint then 16 else 0) + (if t.writes = .uint then 32 else 0)

end AluTraits

/-- ALU operations with two operands. -/
inductive AluOp2 where
  | add | mul | mulIeee | max | min | maxDx10 | minDx10 | sete | setgt | setge | setne | seteDx10
  | setgtDx10 | setgeDx10 | setneDx10 | fract | trunc | ceil | rndne | floor | mova | movaFloor
  | movaInt | mov | nop | predSetgtUint | predSetgeUint | predSete | predSetgt | predSetge
  | predSetne | predSetInv | predSetPop | predSetClr | predSetRestore | predSetePush
  | predSetgtPush | predSetgePush | predSetnePush | kille | killgt | killge | killne | andInt
  | orInt | xorInt | notInt | addInt | subInt | maxInt | minInt | maxUint | minUint | seteInt
  | setgtInt | setgeInt | setneInt | setgtUint | setgeUint | killgtUint | killgeUint
  | predSeteInt | predSetgtInt | predSetgeInt | predSetneInt | killeInt | killgtInt | killgeInt
  | killneInt | predSetePushInt | predSetgtPushInt | predSetgePushInt | predSetnePushInt
  | predSetltPushInt | predSetlePushInt | dot4 | dot4Ieee | cube | max4 | movaGprInt | expIeee
  | logClamped | logIeee | recipClamped | recipFf | recipIeee | recipsqrtClamped | recipsqrtFf
  | recipsqrtIeee | sqrtIeee | fltToInt | intToFlt | uintToFlt | sin | cos | ashrInt | lshrInt
  | lshlInt | mulloInt | mulhiInt | mulloUint | mulhiUint | recipInt | recipUint | fltToUint
deriving DecidableEq

namespace AluOp2

/-- The operations in the order of their ids. -/
def all : List AluOp2 :=
  [.add, .mul, .mulIeee, .max, .min, .maxDx10, .minDx10, .sete, .setgt, .setge, .setne, .seteDx10,
   .setgtDx10, .setgeDx10, .setneDx10, .fract, .trunc, .ceil, .rndne, .floor, .mova, .movaFloor,
   .movaInt, .mov, .nop, .predSetgtUint, .predSetgeUint, .predSete, .predSetgt, .predSetge,
   .predSetne, .predSetInv, .predSetPop, .predSetClr, .predSetRestore, .predSetePush,
   .predSetgtPush, .predSetgePush, .predSetnePush, .kille, .killgt, .killge, .killne, .andInt,
   .orInt, .xorInt, .notInt, .addInt, .subInt, .maxInt, .minInt, .maxUint, .minUint, .seteInt,
   .setgtInt, .setgeInt, .setneInt, .setgtUint, .setgeUint, .killgtUint, .killgeUint,
   .predSeteInt, .predSetgtInt, .predSetgeInt, .predSetneInt, .killeInt, .killgtInt, .killgeInt,
   .killneInt, .predSetePushInt, .predSetgtPushInt, .predSetgePushInt, .predSetnePushInt,
   .predSetltPushInt, .predSetlePushInt, .dot4, .dot4Ieee, .cube, .max4, .movaGprInt, .expIeee,
   .logClamped, .logIeee, .recipClamped, .recipFf, .recipIeee, .recipsqrtClamped, .recipsqrtFf,
   .recipsqrtIeee, .sqrtIeee, .fltToInt, .intToFlt, .uintToFlt, .sin, .cos, .ashrInt, .lshrInt,
   .lshlInt, .mulloInt, .mulhiInt, .mulloUint, .mulhiUint, .recipInt, .recipUint, .fltToUint]

/-- Id and mnemonic. -/
def entry : AluOp2 → Nat × String
  | .add => (0, "ADD")
  | .mul => (1, "MUL")
  | .mulIeee => (2, "MUL_IEEE")
  | .max => (3, "MAX")
  | .min => (4, "MIN")
  | .maxDx10 => (5, "MAX_DX10")
  | .minDx10 => (6, "MIN_DX10")
  | .sete => (8, "SETE")
  | .setgt => (9, "SETGT")
  | .setge => (10, "SETGE")
  | .setne => (11, "SETNE")
  | .seteDx10 => (12, "SETE_DX10")
  | .setgtDx10 => (13, "SETGT_DX10")
  | .setgeDx10 => (14, "SETGE_DX10")
  | .setneDx10 => (15, "SETNE_DX10")
  | .fract => (16, "FRACT")
  | .trunc => (17, "TRUNC")
  | .ceil => (18, "CEIL")
  | .rndne => (19, "RNDNE")
  | .floor => (20, "FLOOR")
  | .mova => (21, "MOVA")
  | .movaFloor => (22, "MOVA_FLOOR")
  | .movaInt => (24, "MOVA_INT")
  | .mov => (25, "MOV")
  | .nop => (26, "NOP")
  | .predSetgtUint => (30, "PRED_SETGT_UINT")
  | .predSetgeUint => (31, "PRED_SETGE_UINT")
  | .predSete => (32, "PRED_SETE")
  | .predSetgt => (33, "PRED_SETGT")
  | .predSetge => (34, "PRED_SETGE")
  | .predSetne => (35, "PRED_SETNE")
  | .predSetInv => (36, "PRED_SET_INV")
  | .predSetPop => (37, "PRED_SET_POP")
  | .predSetClr => (38, "PRED_SET_CLR")
  | .predSetRestore => (39, "PRED_SET_RESTORE")
  | .predSetePush => (40, "PRED_SETE_PUSH")
  | .predSetgtPush => (41, "PRED_SETGT_PUSH")
  | .predSetgePush => (42, "PRED_SETGE_PUSH")
  | .predSetnePush => (43, "PRED_SETNE_PUSH")
  | .kille => (44, "KILLE")
  | .killgt => (45, "KILLGT")
  | .killge => (46, "KILLGE")
  | .killne => (47, "KILLNE")
  | .andInt => (48, "AND_INT")
  | .orInt => (49, "OR_INT")
  | .xorInt => (50, "XOR_INT")
  | .notInt => (51, "NOT_INT")
  | .addInt => (52, "ADD_INT")
  | .subInt => (53, "SUB_INT")
  | .maxInt => (54, "MAX_INT")
  | .minInt => (55, "MIN_INT")
  | .maxUint => (56, "MAX_UINT")
  | .minUint => (57, "MIN_UINT")
  | .seteInt => (58, "SETE_INT")
  | .setgtInt => (59, "SETGT_INT")
  | .setgeInt => (60, "SETGE_INT")
  | .setneInt => (61, "SETNE_INT")
  | .setgtUint => (62, "SETGT_UINT")
  | .setgeUint => (63, "SETGE_UINT")
  | .killgtUint => (64, "KILLGT_UINT")
  | .killgeUint => (65, "KILLGE_UINT")
  | .predSeteInt => (66, "PRED_SETE_INT")
  | .predSetgtInt => (67, "PRED_SETGT_INT")
  | .predSetgeInt => (68, "PRED_SETGE_INT")
  | .predSetneInt => (69, "PRED_SETNE_INT")
  | .killeInt => (70, "KILLE_INT")
  | .killgtInt => (71, "KILLGT_INT")
  | .killgeInt => (72, "KILLGE_INT")
  | .killneInt => (73, "KILLNE_INT")
  | .predSetePushInt => (74, "PRED_SETE_PUSH_INT")
  | .predSetgtPushInt => (75, "PRED_SETGT_PUSH_INT")
  | .predSetgePushInt => (76, "PRED_SETGE_PUSH_INT")
  | .predSetnePushInt => (77, "PRED_SETNE_PUSH_INT")
  | .predSetltPushInt => (78, "PRED_SETLT_PUSH_INT")
  | .predSetlePushInt => (79, "PRED_SETLE_PUSH_INT")
  | .dot4 => (80, "DOT4")
  | .dot4Ieee => (81, "DOT4_IEEE")
  | .cube => (82, "CUBE")
  | .max4 => (83, "MAX4")
  | .movaGprInt => (96, "MOVA_GPR_INT")
  | .expIeee => (97, "EXP_IEEE")
  | .logClamped => (98, "LOG_CLAMPED")
  | .logIeee => (99, "LOG_IEEE")
  | .recipClamped => (100, "RECIP_CLAMPED")
  | .recipFf => (101, "RECIP_FF")
  | .recipIeee => (102, "RECIP_IEEE")
  | .recipsqrtClamped => (103, "RECIPSQRT_CLAMPED")
  | .recipsqrtFf => (104, "RECIPSQRT_FF")
  | .recipsqrtIeee => (105, "RECIPSQRT_IEEE")
  | .sqrtIeee => (106, "SQRT_IEEE")
  | .fltToInt => (107, "FLT_TO_INT")
  | .intToFlt => (108, "INT_TO_FLT")
  | .uintToFlt => (109, "UINT_TO_FLT")
  | .sin => (110, "SIN")
  | .cos => (111, "COS")
  | .ashrInt => (112, "ASHR_INT")
  | .lshrInt => (113, "LSHR_INT")
  | .lshlInt => (114, "LSHL_INT")
  | .mulloInt => (115, "MULLO_INT")
  | .mulhiInt => (116, "MULHI_INT")
  | .mulloUint => (117, "MULLO_UINT")
  | .mulhiUint => (118, "MULHI_UINT")
  | .recipInt => (119, "RECIP_INT")
  | .recipUint => (120, "RECIP_UINT")
  | .fltToUint => (121, "FLT_TO_UINT")

/-- The id in the instruction word. -/
def id (op : AluOp2) : Nat := (entry op).1

/-- The mnemonic. -/
def name (op : AluOp2) : String := (entry op).2

/-- The operation with the given id. -/
def ofId? (n : Nat) : Option AluOp2 := all.find? (·.id == n)

/-- The operation with the given mnemonic. -/
def ofName? (s : String) : Option AluOp2 := all.find? (·.name == s)

/-- How the operation treats its operands and its result, and where it can run. -/
def traits : AluOp2 → AluTraits
  | .seteDx10 | .setgtDx10 | .setgeDx10 | .setneDx10 =>
    { writes := .int }
  | .movaInt | .predSeteInt | .predSetgtInt | .predSetgeInt | .predSetneInt
  | .killeInt | .killgtInt | .killgeInt | .killneInt | .predSetePushInt
  | .predSetgtPushInt | .predSetgePushInt | .predSetnePushInt
  | .predSetltPushInt | .predSetlePushInt | .movaGprInt =>
    { reads := .int }
  | .predSetgtUint | .predSetgeUint | .killgtUint | .killgeUint =>
    { reads := .uint }
  | .andInt | .orInt | .xorInt | .notInt | .addInt | .subInt | .maxInt
  | .minInt | .seteInt | .setgtInt | .setgeInt | .setneInt | .ashrInt
  | .lshlInt =>
    { reads := .int, writes := .int }
  | .maxUint | .minUint | .lshrInt =>
    { reads := .uint, writes := .uint }
  | .setgtUint | .setgeUint =>
    { reads := .uint, writes := .int }
  | .dot4 | .dot4Ieee | .cube | .max4 =>
    { reduction := true }
  | .expIeee | .logClamped | .logIeee | .recipClamped | .recipFf | .recipIeee
  | .recipsqrtClamped | .recipsqrtFf | .recipsqrtIeee | .sqrtIeee | .sin | .cos =>
    { transOnly := true }
  | .fltToInt =>
    { transOnly := true, writes := .int }
  | .intToFlt =>
    { transOnly := true, reads := .int }
  | .uintToFlt =>
    { transOnly := true, reads := .uint }
  | .mulloInt | .mulhiInt | .recipInt =>
    { transOnly := true, reads := .int, writes := .int }
  | .mulloUint | .mulhiUint | .recipUint =>
    { transOnly := true, reads := .uint, writes := .uint }
  | .fltToUint =>
    { transOnly := true, writes := .uint }
  | _ => {}

end AluOp2

/-- ALU operations with three operands. -/
inductive AluOp3 where
  | mulLit | mulLitM2 | mulLitM4 | mulLitD2 | muladd | muladdM2 | muladdM4 | muladdD2
  | muladdIeee | muladdIeeeM2 | muladdIeeeM4 | muladdIeeeD2 | cnde | cndgt | cndge | cndeInt
  | cndgtInt | cndgeInt
deriving DecidableEq

namespace AluOp3

/-- The operations in the order of their ids. -/
def all : List AluOp3 :=
  [.mulLit, .mulLitM2, .mulLitM4, .mulLitD2, .muladd, .muladdM2, .muladdM4, .muladdD2,
   .muladdIeee, .muladdIeeeM2, .muladdIeeeM4, .muladdIeeeD2, .cnde, .cndgt, .cndge, .cndeInt,
   .cndgtInt, .cndgeInt]

/-- Id and mnemonic. -/
def entry : AluOp3 → Nat × String
  | .mulLit => (12, "MUL_LIT")
  | .mulLitM2 => (13, "MUL_LIT_M2")
  | .mulLitM4 => (14, "MUL_LIT_M4")
  | .mulLitD2 => (15, "MUL_LIT_D2")
  | .muladd => (16, "MULADD")
  | .muladdM2 => (17, "MULADD_M2")
  | .muladdM4 => (18, "MULADD_M4")
  | .muladdD2 => (19, "MULADD_D2")
  | .muladdIeee => (20, "MULADD_IEEE")
  | .muladdIeeeM2 => (21, "MULADD_IEEE_M2")
  | .muladdIeeeM4 => (22, "MULADD_IEEE_M4")
  | .muladdIeeeD2 => (23, "MULADD_IEEE_D2")
  | .cnde => (24, "CNDE")
  | .cndgt => (25, "CNDGT")
  | .cndge => (26, "CNDGE")
  | .cndeInt => (28, "CNDE_INT")
  | .cndgtInt => (29, "CNDGT_INT")
  | .cndgeInt => (30, "CNDGE_INT")

/-- The id in the instruction word. -/
def id (op : AluOp3) : Nat := (entry op).1

/-- The mnemonic. -/
def name (op : AluOp3) : String := (entry op).2

/-- The operation with the given id. -/
def ofId? (n : Nat) : Option AluOp3 := all.find? (·.id == n)

/-- The operation with the given mnemonic. -/
def ofName? (s : String) : Option AluOp3 := all.find? (·.name == s)

/-- How the operation treats its operands and its result, and where it can run. -/
def traits : AluOp3 → AluTraits
  | .mulLit | .mulLitM2 | .mulLitM4 | .mulLitD2 =>
    { transOnly := true }
  | .cndeInt | .cndgtInt | .cndgeInt =>
    { reads := .int }
  | _ => {}

end AluOp3

/-- An ALU operation of either form. -/
inductive AluOp where
  | op2 (op : AluOp2)
  | op3 (op : AluOp3)
deriving DecidableEq

namespace AluOp

/-- The mnemonic. -/
def name : AluOp → String
  | .op2 op => op.name
  | .op3 op => op.name

/-- How the operation treats its operands and its result, and where it can run. -/
def traits : AluOp → AluTraits
  | .op2 op => op.traits
  | .op3 op => op.traits

end AluOp

end LatteHlsl.Isa
