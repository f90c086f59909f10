/-!
# Operation codes

The first byte of an instruction names an operation. Operations that differ only in a width, a
condition or an arithmetic function share a constructor; `shape` says how the bytes after the
operation code are laid out.
-/
namespace ServiceVm

/-- Number of bytes moved by a store. -/
inductive Width where
  | w8 | w16 | w32 | w64
deriving DecidableEq, Repr

def Width.bytes : Width → Nat
  | .w8 => 1
  | .w16 => 2
  | .w32 => 4
  | .w64 => 8

/-- Width of a load and whether it extends the sign. -/
inductive LoadKind where
  | u8 | i8 | u16 | i16 | u32 | i32 | u64
deriving DecidableEq, Repr

def LoadKind.bytes : LoadKind → Nat
  | .u8 | .i8 => 1
  | .u16 | .i16 => 2
  | .u32 | .i32 => 4
  | .u64 => 8

def LoadKind.isSigned : LoadKind → Bool
  | .i8 | .i16 | .i32 => true
  | _ => false

/-- Conditions of branches that compare a register with an immediate. -/
inductive ImmCondition where
  | eq | ne | ltU | leU | geU | gtU | ltS | leS | geS | gtS
deriving DecidableEq, Repr

/-- Conditions of branches that compare two registers. -/
inductive Condition where
  | eq | ne | ltU | ltS | geU | geS
deriving DecidableEq, Repr

/-- Functions of one register. -/
inductive UnaryOp where
  | countSetBits64 | countSetBits32 | leadingZeroBits64 | leadingZeroBits32 | trailingZeroBits64
  | trailingZeroBits32 | signExtend8 | signExtend16 | zeroExtend16 | reverseBytes
deriving DecidableEq, Repr

/-- Functions of a register and an immediate. -/
inductive ImmOp where
  | add32 | and | xor | or | mul32 | setLtU | setLtS
  | shloL32 | shloR32 | sharR32 | negAdd32 | setGtU | setGtS | shloLAlt32
  | shloRAlt32 | sharRAlt32 | cmovIz | cmovNz | add64 | mul64 | shloL64
  | shloR64 | sharR64 | negAdd64 | shloLAlt64 | shloRAlt64 | sharRAlt64 | rotR64
  | rotR64Alt | rotR32 | rotR32Alt
deriving DecidableEq, Repr

/-- Functions of two registers. -/
inductive BinaryOp where
  | add32 | sub32 | mul32 | divU32 | divS32 | remU32 | remS32
  | shloL32 | shloR32 | sharR32 | add64 | sub64 | mul64 | divU64
  | divS64 | remU64 | remS64 | shloL64 | shloR64 | sharR64 | and
  | xor | or | mulUpperSS | mulUpperUU | mulUpperSU | setLtU | setLtS
  | cmovIz | cmovNz | rotL64 | rotL32 | rotR64 | rotR32 | andInv
  | orInv | xnor | max | maxU | min | minU
deriving DecidableEq, Repr

inductive Opcode where
  | trap
  | fallthrough
  | ecalli
  | loadImm64
  | storeImm (width : Width)
  | jump
  | jumpInd
  | loadImm
  | load (kind : LoadKind)
  | store (width : Width)
  | storeImmInd (width : Width)
  | loadImmJump
  | branchImm (condition : ImmCondition)
  | moveReg
  | sbrk
  | unary (op : UnaryOp)
  | storeInd (width : Width)
  | loadInd (kind : LoadKind)
  | aluImm (op : ImmOp)
  | branch (condition : Condition)
  | loadImmJumpInd
  | alu (op : BinaryOp)
deriving DecidableEq, Repr

/-- Layout of the operand bytes. -/
inductive Shape where
  | noArgs
  | oneImmediate
  | registerExtendedImmediate
  | twoImmediates
  | oneOffset
  | registerImmediate
  | registerTwoImmediates
  | registerImmediateOffset
  | twoRegisters
  | twoRegistersImmediate
  | twoRegistersOffset
  | twoRegistersTwoImmediates
  | threeRegisters
deriving DecidableEq, Repr

namespace Opcode

def shape : Opcode → Shape
  | .trap | .fallthrough => .noArgs
  | .ecalli => .oneImmediate
  | .loadImm64 => .registerExtendedImmediate
  | .storeImm _ => .twoImmediates
  | .jump => .oneOffset
  | .jumpInd | .loadImm | .load _ | .store _ => .registerImmediate
  | .storeImmInd _ => .registerTwoImmediates
  | .loadImmJump | .branchImm _ => .registerImmediateOffset
  | .moveReg | .sbrk | .unary _ => .twoRegisters
  | .storeInd _ | .loadInd _ | .aluImm _ => .twoRegistersImmediate
  | .branch _ => .twoRegistersOffset
  | .loadImmJumpInd => .twoRegistersTwoImmediates
  | .alu _ => .threeRegisters

/-- Whether the operation ends a basic block. -/
def isTerminator : Opcode → Bool
  | .trap | .fallthrough | .jump | .jumpInd | .loadImmJump | .branchImm _ | .branch _
  | .loadImmJumpInd => true
  | _ => false

/-- Code byte and written name. -/
def entry : Opcode → UInt8 × String
  | .trap => (0, "trap")
  | .fallthrough => (1, "fallthrough")
  | .ecalli => (10, "ecalli")
  | .loadImm64 => (20, "load_imm_64")
  | .storeImm .w8 => (30, "store_imm_u8")
  | .storeImm .w16 => (31, "store_imm_u16")
  | .storeImm .w32 => (32, "store_imm_u32")
  | .storeImm .w64 => (33, "store_imm_u64")
  | .jump => (40, "jump")
  | .jumpInd => (50, "jump_ind")
  | .loadImm => (51, "load_imm")
  | .load .u8 => (52, "load_u8")
  | .load .i8 => (53, "load_i8")
  | .load .u16 => (54, "load_u16")
  | .load .i16 => (55, "load_i16")
  | .load .u32 => (56, "load_u32")
  | .load .i32 => (57, "load_i32")
  | .load .u64 => (58, "load_u64")
  | .store .w8 => (59, "store_u8")
  | .store .w16 => (60, "store_u16")
  | .store .w32 => (61, "store_u32")
  | .store .w64 => (62, "store_u64")
  | .storeImmInd .w8 => (70, "store_imm_ind_u8")
  | .storeImmInd .w16 => (71, "store_imm_ind_u16")
  | .storeImmInd .w32 => (72, "store_imm_ind_u32")
  | .storeImmInd .w64 => (73, "store_imm_ind_u64")
  | .loadImmJump => (80, "load_imm_jump")
  | .branchImm .eq => (81, "branch_eq_imm")
  | .branchImm .ne => (82, "branch_ne_imm")
  | .branchImm .ltU => (83, "branch_lt_u_imm")
  | .branchImm .leU => (84, "branch_le_u_imm")
  | .branchImm .geU => (85, "branch_ge_u_imm")
  | .branchImm .gtU => (86, "branch_gt_u_imm")
  | .branchImm .ltS => (87, "branch_lt_s_imm")
  | .branchImm .leS => (88, "branch_le_s_imm")
  | .branchImm .geS => (89, "branch_ge_s_imm")
  | .branchImm .gtS => (90, "branch_gt_s_imm")
  | .moveReg => (100, "move_reg")
  | .sbrk => (101, "sbrk")
  | .unary .countSetBits64 => (102, "count_set_bits_64")
  | .unary .countSetBits32 => (103, "count_set_bits_32")
  | .unary .leadingZeroBits64 => (104, "leading_zero_bits_64")
  | .unary .leadingZeroBits32 => (105, "leading_zero_bits_32")
  | .unary .trailingZeroBits64 => (106, "trailing_zero_bits_64")
  | .unary .trailingZeroBits32 => (107, "trailing_zero_bits_32")
  | .unary .signExtend8 => (108, "sign_extend_8")
  | .unary .signExtend16 => (109, "sign_extend_16")
  | .unary .zeroExtend16 => (110, "zero_extend_16")
  | .unary .reverseBytes => (111, "reverse_bytes")
  | .storeInd .w8 => (120, "store_ind_u8")
  | .storeInd .w16 => (121, "store_ind_u16")
  | .storeInd .w32 => (122, "store_ind_u32")
  | .storeInd .w64 => (123, "store_ind_u64")
  | .loadInd .u8 => (124, "load_ind_u8")
  | .loadInd .i8 => (125, "load_ind_i8")
  | .loadInd .u16 => (126, "load_ind_u16")
  | .loadInd .i16 => (127, "load_ind_i16")
  | .loadInd .u32 => (128, "load_ind_u32")
  | .loadInd .i32 => (129, "load_ind_i32")
  | .loadInd .u64 => (130, "load_ind_u64")
  | .aluImm .add32 => (131, "add_imm_32")
  | .aluImm .and => (132, "and_imm")
  | .aluImm .xor => (133, "xor_imm")
  | .aluImm .or => (134, "or_imm")
  | .aluImm .mul32 => (135, "mul_imm_32")
  | .aluImm .setLtU => (136, "set_lt_u_imm")
  | .aluImm .setLtS => (137, "set_lt_s_imm")
  | .aluImm .shloL32 => (138, "shlo_l_imm_32")
  | .aluImm .shloR32 => (139, "shlo_r_imm_32")
  | .aluImm .sharR32 => (140, "shar_r_imm_32")
  | .aluImm .negAdd32 => (141, "neg_add_imm_32")
  | .aluImm .setGtU => (142, "set_gt_u_imm")
  | .aluImm .setGtS => (143, "set_gt_s_imm")
  | .aluImm .shloLAlt32 => (144, "shlo_l_imm_alt_32")
  | .aluImm .shloRAlt32 => (145, "shlo_r_imm_alt_32")
  | .aluImm .sharRAlt32 => (146, "shar_r_imm_alt_32")
  | .aluImm .cmovIz => (147, "cmov_iz_imm")
  | .aluImm .cmovNz => (148, "cmov_nz_imm")
  | .aluImm .add64 => (149, "add_imm_64")
  | .aluImm .mul64 => (150, "mul_imm_64")
  | .aluImm .shloL64 => (151, "shlo_l_imm_64")
  | .aluImm .shloR64 => (152, "shlo_r_imm_64")
  | .aluImm .sharR64 => (153, "shar_r_imm_64")
  | .aluImm .negAdd64 => (154, "neg_add_imm_64")
  | .aluImm .shloLAlt64 => (155, "shlo_l_imm_alt_64")
  | .aluImm .shloRAlt64 => (156, "shlo_r_imm_alt_64")
  | .aluImm .sharRAlt64 => (157, "shar_r_imm_alt_64")
  | .aluImm .rotR64 => (158, "rot_r_64_imm")
  | .aluImm .rotR64Alt => (159, "rot_r_64_imm_alt")
  | .aluImm .rotR32 => (160, "rot_r_32_imm")
  | .aluImm .rotR32Alt => (161, "rot_r_32_imm_alt")
  | .branch .eq => (170, "branch_eq")
  | .branch .ne => (171, "branch_ne")
  | .branch .ltU => (172, "branch_lt_u")
  | .branch .ltS => (173, "branch_lt_s")
  | .branch .geU => (174, "branch_ge_u")
  | .branch .geS => (175, "branch_ge_s")
  | .loadImmJumpInd => (180, "load_imm_jump_ind")
  | .alu .add32 => (190, "add_32")
  | .alu .sub32 => (191, "sub_32")
  | .alu .mul32 => (192, "mul_32")
  | .alu .divU32 => (193, "div_u_32")
  | .alu .divS32 => (194, "div_s_32")
  | .alu .remU32 => (195, "rem_u_32")
  | .alu .remS32 => (196, "rem_s_32")
  | .alu .shloL32 => (197, "shlo_l_32")
  | .alu .shloR32 => (198, "shlo_r_32")
  | .alu .sharR32 => (199, "shar_r_32")
  | .alu .add64 => (200, "add_64")
  | .alu .sub64 => (201, "sub_64")
  | .alu .mul64 => (202, "mul_64")
  | .alu .divU64 => (203, "div_u_64")
  | .alu .divS64 => (204, "div_s_64")
  | .alu .remU64 => (205, "rem_u_64")
  | .alu .remS64 => (206, "rem_s_64")
  | .alu .shloL64 => (207, "shlo_l_64")
  | .alu .shloR64 => (208, "shlo_r_64")
  | .alu .sharR64 => (209, "shar_r_64")
  | .alu .and => (210, "and")
  | .alu .xor => (211, "xor")
  | .alu .or => (212, "or")
  | .alu .mulUpperSS => (213, "mul_upper_s_s")
  | .alu .mulUpperUU => (214, "mul_upper_u_u")
  | .alu .mulUpperSU => (215, "mul_upper_s_u")
  | .alu .setLtU => (216, "set_lt_u")
  | .alu .setLtS => (217, "set_lt_s")
  | .alu .cmovIz => (218, "cmov_iz")
  | .alu .cmovNz => (219, "cmov_nz")
  | .alu .rotL64 => (220, "rot_l_64")
  | .alu .rotL32 => (221, "rot_l_32")
  | .alu .rotR64 => (222, "rot_r_64")
  | .alu .rotR32 => (223, "rot_r_32")
  | .alu .andInv => (224, "and_inv")
  | .alu .orInv => (225, "or_inv")
  | .alu .xnor => (226, "xnor")
  | .alu .max => (227, "max")
  | .alu .maxU => (228, "max_u")
  | .alu .min => (229, "min")
  | .alu .minU => (230, "min_u")

def toByte (op : Opcode) : UInt8 := op.entry.1

def name (op : Opcode) : String := op.entry.2

def ofByte? : UInt8 → Option Opcode
  | 0 => some .trap
  | 1 => some .fallthrough
  | 10 => some .ecalli
  | 20 => some .loadImm64
  | 30 => some (.storeImm .w8)
  | 31 => some (.storeImm .w16)
  | 32 => some (.storeImm .w32)
  | 33 => some (.storeImm .w64)
  | 40 => some .jump
  | 50 => some .jumpInd
  | 51 => some .loadImm
  | 52 => some (.load .u8)
  | 53 => some (.load .i8)
  | 54 => some (.load .u16)
  | 55 => some (.load .i16)
  | 56 => some (.load .u32)
  | 57 => some (.load .i32)
  | 58 => some (.load .u64)
  | 59 => some (.store .w8)
  | 60 => some (.store .w16)
  | 61 => some (.store .w32)
  | 62 => some (.store .w64)
  | 70 => some (.storeImmInd .w8)
  | 71 => some (.storeImmInd .w16)
  | 72 => some (.storeImmInd .w32)
  | 73 => some (.storeImmInd .w64)
  | 80 => some .loadImmJump
  | 81 => some (.branchImm .eq)
  | 82 => some (.branchImm .ne)
  | 83 => some (.branchImm .ltU)
  | 84 => some (.branchImm .leU)
  | 85 => some (.branchImm .geU)
  | 86 => some (.branchImm .gtU)
  | 87 => some (.branchImm .ltS)
  | 88 => some (.branchImm .leS)
  | 89 => some (.branchImm .geS)
  | 90 => some (.branchImm .gtS)
  | 100 => some .moveReg
  | 101 => some .sbrk
  | 102 => some (.unary .countSetBits64)
  | 103 => some (.unary .countSetBits32)
  | 104 => some (.unary .leadingZeroBits64)
  | 105 => some (.unary .leadingZeroBits32)
  | 106 => some (.unary .trailingZeroBits64)
  | 107 => some (.unary .trailingZeroBits32)
  | 108 => some (.unary .signExtend8)
  | 109 => some (.unary .signExtend16)
  | 110 => some (.unary .zeroExtend16)
  | 111 => some (.unary .reverseBytes)
  | 120 => some (.storeInd .w8)
  | 121 => some (.storeInd .w16)
  | 122 => some (.storeInd .w32)
  | 123 => some (.storeInd .w64)
  | 124 => some (.loadInd .u8)
  | 125 => some (.loadInd .i8)
  | 126 => some (.loadInd .u16)
  | 127 => some (.loadInd .i16)
  | 128 => some (.loadInd .u32)
  | 129 => some (.loadInd .i32)
  | 130 => some (.loadInd .u64)
  | 131 => some (.aluImm .add32)
  | 132 => some (.aluImm .and)
  | 133 => some (.aluImm .xor)
  | 134 => some (.aluImm .or)
  | 135 => some (.aluImm .mul32)
  | 136 => some (.aluImm .setLtU)
  | 137 => some (.aluImm .setLtS)
  | 138 => some (.aluImm .shloL32)
  | 139 => some (.aluImm .shloR32)
  | 140 => some (.aluImm .sharR32)
  | 141 => some (.aluImm .negAdd32)
  | 142 => some (.aluImm .setGtU)
  | 143 => some (.aluImm .setGtS)
  | 144 => some (.aluImm .shloLAlt32)
  | 145 => some (.aluImm .shloRAlt32)
  | 146 => some (.aluImm .sharRAlt32)
  | 147 => some (.aluImm .cmovIz)
  | 148 => some (.aluImm .cmovNz)
  | 149 => some (.aluImm .add64)
  | 150 => some (.aluImm .mul64)
  | 151 => some (.aluImm .shloL64)
  | 152 => some (.aluImm .shloR64)
  | 153 => some (.aluImm .sharR64)
  | 154 => some (.aluImm .negAdd64)
  | 155 => some (.aluImm .shloLAlt64)
  | 156 => some (.aluImm .shloRAlt64)
  | 157 => some (.aluImm .sharRAlt64)
  | 158 => some (.aluImm .rotR64)
  | 159 => some (.aluImm .rotR64Alt)
  | 160 => some (.aluImm .rotR32)
  | 161 => some (.aluImm .rotR32Alt)
  | 170 => some (.branch .eq)
  | 171 => some (.branch .ne)
  | 172 => some (.branch .ltU)
  | 173 => some (.branch .ltS)
  | 174 => some (.branch .geU)
  | 175 => some (.branch .geS)
  | 180 => some .loadImmJumpInd
  | 190 => some (.alu .add32)
  | 191 => some (.alu .sub32)
  | 192 => some (.alu .mul32)
  | 193 => some (.alu .divU32)
  | 194 => some (.alu .divS32)
  | 195 => some (.alu .remU32)
  | 196 => some (.alu .remS32)
  | 197 => some (.alu .shloL32)
  | 198 => some (.alu .shloR32)
  | 199 => some (.alu .sharR32)
  | 200 => some (.alu .add64)
  | 201 => some (.alu .sub64)
  | 202 => some (.alu .mul64)
  | 203 => some (.alu .divU64)
  | 204 => some (.alu .divS64)
  | 205 => some (.alu .remU64)
  | 206 => some (.alu .remS64)
  | 207 => some (.alu .shloL64)
  | 208 => some (.alu .shloR64)
  | 209 => some (.alu .sharR64)
  | 210 => some (.alu .and)
  | 211 => some (.alu .xor)
  | 212 => some (.alu .or)
  | 213 => some (.alu .mulUpperSS)
  | 214 => some (.alu .mulUpperUU)
  | 215 => some (.alu .mulUpperSU)
  | 216 => some (.alu .setLtU)
  | 217 => some (.alu .setLtS)
  | 218 => some (.alu .cmovIz)
  | 219 => some (.alu .cmovNz)
  | 220 => some (.alu .rotL64)
  | 221 => some (.alu .rotL32)
  | 222 => some (.alu .rotR64)
  | 223 => some (.alu .rotR32)
  | 224 => some (.alu .andInv)
  | 225 => some (.alu .orInv)
  | 226 => some (.alu .xnor)
  | 227 => some (.alu .max)
  | 228 => some (.alu .maxU)
  | 229 => some (.alu .min)
  | 230 => some (.alu .minU)
  | _ => none

theorem ofByte?_toByte (op : Opcode) : ofByte? op.toByte = some op := by
  cases op with
  | storeImm w | store w | storeImmInd w | storeInd w => cases w <;> rfl
  | load k | loadInd k => cases k <;> rfl
  | branchImm c => cases c <;> rfl
  | branch c => cases c <;> rfl
  | unary f => cases f <;> rfl
  | aluImm f => cases f <;> rfl
  | alu f => cases f <;> rfl
  | _ => rfl

end Opcode

/-- Whether a code byte ends a basic block. Bytes that name no operation do not. -/
def isTerminatorByte (b : UInt8) : Bool :=
  match Opcode.ofByte? b with
  | some op => op.isTerminator
  | none => false

end ServiceVm
