import Panopticon.Amd64.Tables

/-! The tables indexed by the ModRM byte: opcode groups by its `reg` field, and the x87 opcodes
with a register operand (64 entries) or a memory operand (8 entries). -/

namespace Panopticon.Amd64

def group1Opc80 : OpcodeTable where
  size := 8
  entries := [(0, op2 .none "add" ⟨.E, .b⟩ ⟨.I, .b⟩), (1, op2 .none "or" ⟨.E, .b⟩ ⟨.I, .b⟩),
    (2, op2 .none "adc" ⟨.E, .b⟩ ⟨.I, .b⟩), (3, op2 .none "sbb" ⟨.E, .b⟩ ⟨.I, .b⟩),
    (4, op2 .none "and" ⟨.E, .b⟩ ⟨.I, .b⟩), (5, op2 .none "sub" ⟨.E, .b⟩ ⟨.I, .b⟩),
    (6, op2 .none "xor" ⟨.E, .b⟩ ⟨.I, .b⟩), (7, op2 .none "cmp" ⟨.E, .b⟩ ⟨.I, .b⟩)]

def group1Opc81 : OpcodeTable where
  size := 8
  entries := [(0, op2 .none "add" ⟨.E, .v⟩ ⟨.I, .z⟩), (1, op2 .none "or" ⟨.E, .v⟩ ⟨.I, .z⟩),
    (2, op2 .none "adc" ⟨.E, .v⟩ ⟨.I, .z⟩), (3, op2 .none "sbb" ⟨.E, .v⟩ ⟨.I, .z⟩),
    (4, op2 .none "and" ⟨.E, .v⟩ ⟨.I, .z⟩), (5, op2 .none "sub" ⟨.E, .v⟩ ⟨.I, .z⟩),
    (6, op2 .none "xor" ⟨.E, .v⟩ ⟨.I, .z⟩), (7, op2 .none "cmp" ⟨.E, .v⟩ ⟨.I, .z⟩)]

def group1Opc82 : OpcodeTable where
  size := 8
  entries := [(0, op2 .none "add" ⟨.E, .b⟩ ⟨.I, .b⟩), (1, op2 .none "or" ⟨.E, .b⟩ ⟨.I, .b⟩),
    (2, op2 .none "adc" ⟨.E, .b⟩ ⟨.I, .b⟩), (3, op2 .none "sbb" ⟨.E, .b⟩ ⟨.I, .b⟩),
    (4, op2 .none "and" ⟨.E, .b⟩ ⟨.I, .b⟩), (5, op2 .none "sub" ⟨.E, .b⟩ ⟨.I, .b⟩),
    (6, op2 .none "xor" ⟨.E, .b⟩ ⟨.I, .b⟩), (7, op2 .none "cmp" ⟨.E, .b⟩ ⟨.I, .b⟩)]

def group1Opc83 : OpcodeTable where
  size := 8
  entries := [(0, op2 .none "add" ⟨.E, .v⟩ ⟨.I, .b⟩), (1, op2 .none "or" ⟨.E, .v⟩ ⟨.I, .b⟩),
    (2, op2 .none "adc" ⟨.E, .v⟩ ⟨.I, .b⟩), (3, op2 .none "sbb" ⟨.E, .v⟩ ⟨.I, .b⟩),
    (4, op2 .none "and" ⟨.E, .v⟩ ⟨.I, .b⟩), (5, op2 .none "sub" ⟨.E, .v⟩ ⟨.I, .b⟩),
    (6, op2 .none "xor" ⟨.E, .v⟩ ⟨.I, .b⟩), (7, op2 .none "cmp" ⟨.E, .v⟩ ⟨.I, .b⟩)]

def group101Opc8f : OpcodeTable where
  size := 8
  entries := [(0, op1 .none "pop" ⟨.E, .v⟩)]

def group2Opcc0 : OpcodeTable where
  size := 8
  entries := [(0, op2 .none "rol" ⟨.E, .b⟩ ⟨.I, .b⟩), (1, op2 .none "ror" ⟨.E, .b⟩ ⟨.I, .b⟩),
    (2, op2 .none "rcl" ⟨.E, .b⟩ ⟨.I, .b⟩), (3, op2 .none "rcr" ⟨.E, .b⟩ ⟨.I, .b⟩),
    (4, op2 .none "shl" ⟨.E, .b⟩ ⟨.I, .b⟩), (5, op2 .none "shr" ⟨.E, .b⟩ ⟨.I, .b⟩),
    (6, op2 .none "shl" ⟨.E, .b⟩ ⟨.I, .b⟩), (7, op2 .none "sar" ⟨.E, .b⟩ ⟨.I, .b⟩)]

def group2Opcc1 : OpcodeTable where
  size := 8
  entries := [(0, op2 .none "rol" ⟨.E, .v⟩ ⟨.I, .b⟩), (1, op2 .none "ror" ⟨.E, .v⟩ ⟨.I, .b⟩),
    (2, op2 .none "rcl" ⟨.E, .v⟩ ⟨.I, .b⟩), (3, op2 .none "rcr" ⟨.E, .v⟩ ⟨.I, .b⟩),
    (4, op2 .none "shl" ⟨.E, .v⟩ ⟨.I, .b⟩), (5, op2 .none "shr" ⟨.E, .v⟩ ⟨.I, .b⟩),
    (6, op2 .none "shl" ⟨.E, .v⟩ ⟨.I, .b⟩), (7, op2 .none "sar" ⟨.E, .v⟩ ⟨.I, .b⟩)]

def group2Opcd0 : OpcodeTable where
  size := 8
  entries := [(0, op2 .none "rol" ⟨.E, .b⟩ ⟨.I, .one⟩), (1, op2 .none "ror" ⟨.E, .b⟩ ⟨.I, .one⟩),
    (2, op2 .none "rcl" ⟨.E, .b⟩ ⟨.I, .one⟩), (3, op2 .none "rcr" ⟨.E, .b⟩ ⟨.I, .one⟩),
    (4, op2 .none "shl" ⟨.E, .b⟩ ⟨.I, .one⟩), (5, op2 .none "shr" ⟨.E, .b⟩ ⟨.I, .one⟩),
    (6, op2 .none "shl" ⟨.E, .b⟩ ⟨.I, .one⟩), (7, op2 .none "sar" ⟨.E, .b⟩ ⟨.I, .one⟩)]

def group2Opcd1 : OpcodeTable where
  size := 8
  entries := [(0, op2 .none "rol" ⟨.E, .v⟩ ⟨.I, .one⟩), (1, op2 .none "ror" ⟨.E, .v⟩ ⟨.I, .one⟩),
    (2, op2 .none "rcl" ⟨.E, .v⟩ ⟨.I, .one⟩), (3, op2 .none "rcr" ⟨.E, .v⟩ ⟨.I, .one⟩),
    (4, op2 .none "shl" ⟨.E, .v⟩ ⟨.I, .one⟩), (5, op2 .none "shr" ⟨.E, .v⟩ ⟨.I, .one⟩),
    (6, op2 .none "shl" ⟨.E, .v⟩ ⟨.I, .one⟩), (7, op2 .none "sar" ⟨.E, .v⟩ ⟨.I, .one⟩)]

def group2Opcd2 : OpcodeTable where
  size := 8
  entries := [(0, op2 .none "rol" ⟨.E, .b⟩ ⟨.none, .CL⟩), (1, op2 .none "ror" ⟨.E, .b⟩ ⟨.none, .CL⟩),
    (2, op2 .none "rcl" ⟨.E, .b⟩ ⟨.none, .CL⟩), (3, op2 .none "rcr" ⟨.E, .b⟩ ⟨.none, .CL⟩),
    (4, op2 .none "shl" ⟨.E, .b⟩ ⟨.none, .CL⟩), (5, op2 .none "shr" ⟨.E, .b⟩ ⟨.none, .CL⟩),
    (6, op2 .none "shl" ⟨.E, .b⟩ ⟨.none, .CL⟩), (7, op2 .none "sar" ⟨.E, .b⟩ ⟨.none, .CL⟩)]

def group2Opcd3 : OpcodeTable where
  size := 8
  entries := [(0, op2 .none "rol" ⟨.E, .v⟩ ⟨.none, .CL⟩), (1, op2 .none "ror" ⟨.E, .v⟩ ⟨.none, .CL⟩),
    (2, op2 .none "rcl" ⟨.E, .v⟩ ⟨.none, .CL⟩), (3, op2 .none "rcr" ⟨.E, .v⟩ ⟨.none, .CL⟩),
    (4, op2 .none "shl" ⟨.E, .v⟩ ⟨.none, .CL⟩), (5, op2 .none "shr" ⟨.E, .v⟩ ⟨.none, .CL⟩),
    (6, op2 .none "shl" ⟨.E, .v⟩ ⟨.none, .CL⟩), (7, op2 .none "sar" ⟨.E, .v⟩ ⟨.none, .CL⟩)]

def group3Opcf6 : OpcodeTable where
  size := 8
  entries := [(0, op2 .none "test" ⟨.E, .b⟩ ⟨.I, .b⟩), (1, op2 .none "test" ⟨.E, .b⟩ ⟨.I, .b⟩),
    (2, op1 .none "not" ⟨.E, .b⟩), (3, op1 .none "neg" ⟨.E, .b⟩), (4, op1 .none "mul" ⟨.E, .b⟩),
    (5, named1 "imul" "imul1" ⟨.E, .b⟩), (6, op1 .none "div" ⟨.E, .b⟩), (7, op1 .none "idiv" ⟨.E, .b⟩)]

def group3Opcf7 : OpcodeTable where
  size := 8
  entries := [(0, op2 .none "test" ⟨.E, .v⟩ ⟨.I, .z⟩), (1, op2 .none "test" ⟨.E, .v⟩ ⟨.I, .z⟩),
    (2, op1 .none "not" ⟨.E, .v⟩), (3, op1 .none "neg" ⟨.E, .v⟩), (4, op1 .none "mul" ⟨.E, .v⟩),
    (5, named1 "imul" "imul1" ⟨.E, .v⟩), (6, op1 .none "div" ⟨.E, .v⟩), (7, op1 .none "idiv" ⟨.E, .v⟩)]

def group4Opcfe : OpcodeTable where
  size := 8
  entries := [(0, op1 .none "inc" ⟨.E, .b⟩), (1, op1 .none "dec" ⟨.E, .b⟩)]

def group5Opcff : OpcodeTable where
  size := 8
  entries := [(0, op1 .none "inc" ⟨.E, .v⟩), (1, op1 .none "dec" ⟨.E, .v⟩), (2, op1 .force64 "call" ⟨.E, .v⟩),
    (3, op1 .none "call" ⟨.E, .p⟩), (4, op1 .force64 "jmp" ⟨.E, .v⟩), (5, op1 .default64 "jmp" ⟨.M, .p⟩),
    (6, op1 .default64 "push" ⟨.E, .v⟩)]

def group6Opc00 : OpcodeTable where
  size := 8
  entries := [(0, op1 .none "sldt" ⟨.M, .w⟩), (1, op1 .none "str" ⟨.M, .w⟩), (2, op1 .none "lldt" ⟨.E, .w⟩),
    (3, op1 .none "ltr" ⟨.E, .w⟩), (4, op1 .none "verr" ⟨.E, .w⟩), (5, op1 .none "verw" ⟨.E, .w⟩)]

def group7Opc01Mem : OpcodeTable where
  size := 8
  entries := [(0, op1 .none "sgdt" ⟨.M, .s⟩), (1, op1 .none "sidt" ⟨.M, .s⟩), (2, op1 .none "lgdt" ⟨.M, .s⟩),
    (3, op1 .none "lidt" ⟨.M, .s⟩), (4, op1 .none "smsw" ⟨.M, .w⟩), (6, op1 .none "lmsw" ⟨.E, .w⟩),
    (7, op1 .none "invlpg" ⟨.M, .b⟩)]

def group8Opcba : OpcodeTable where
  size := 8
  entries := [(4, op2 .none "bt" ⟨.E, .v⟩ ⟨.I, .b⟩), (5, op2 .none "bts" ⟨.E, .v⟩ ⟨.I, .b⟩),
    (6, op2 .none "btr" ⟨.E, .v⟩ ⟨.I, .b⟩), (7, op2 .none "btc" ⟨.E, .v⟩ ⟨.I, .b⟩)]

def group10Opcb9 : OpcodeTable where
  size := 8
  entries := [(0, op0 .none "ud1"), (1, op0 .none "ud1"), (2, op0 .none "ud1"), (3, op0 .none "ud1"),
    (4, op0 .none "ud1"), (5, op0 .none "ud1"), (6, op0 .none "ud1"), (7, op0 .none "ud1")]

def group11Opcc6 : OpcodeTable where
  size := 8
  entries := [(0, op2 .none "mov" ⟨.E, .b⟩ ⟨.I, .b⟩)]

def group11Opcc7 : OpcodeTable where
  size := 8
  entries := [(0, op2 .none "mov" ⟨.E, .v⟩ ⟨.I, .z⟩)]

def group12Opc71 : OpcodeTable where
  size := 8
  entries := [(2, op2 .none "psrlw" ⟨.N, .q⟩ ⟨.I, .b⟩), (4, op2 .none "psraw" ⟨.N, .q⟩ ⟨.I, .b⟩),
    (6, op2 .none "psllw" ⟨.N, .q⟩ ⟨.I, .b⟩)]

def group12Opc6671 : OpcodeTable where
  size := 8
  entries := [(2, op3 .none "vpsrlw" ⟨.H, .x⟩ ⟨.U, .x⟩ ⟨.I, .b⟩),
    (4, op3 .none "vpsraw" ⟨.H, .x⟩ ⟨.U, .x⟩ ⟨.I, .b⟩), (6, op3 .none "vpsllw" ⟨.H, .x⟩ ⟨.U, .x⟩ ⟨.I, .b⟩)]

def group13Opc72 : OpcodeTable where
  size := 8
  entries := [(2, op2 .none "psrld" ⟨.N, .q⟩ ⟨.I, .b⟩), (4, op2 .none "psrad" ⟨.N, .q⟩ ⟨.I, .b⟩),
    (6, op2 .none "pslld" ⟨.N, .q⟩ ⟨.I, .b⟩)]

def group13Opc6672 : OpcodeTable where
  size := 8
  entries := [(2, op3 .none "vpsrld" ⟨.H, .x⟩ ⟨.U, .x⟩ ⟨.I, .b⟩),
    (4, op3 .none "vpsrad" ⟨.H, .x⟩ ⟨.U, .x⟩ ⟨.I, .b⟩), (6, op3 .none "vpslld" ⟨.H, .x⟩ ⟨.U, .x⟩ ⟨.I, .b⟩)]

def group14Opc73 : OpcodeTable where
  size := 8
  entries := [(2, op2 .none "psrlq" ⟨.N, .q⟩ ⟨.I, .b⟩), (6, op2 .none "psllq" ⟨.N, .q⟩ ⟨.I, .b⟩)]

def group14Opc6673 : OpcodeTable where
  size := 8
  entries := [(2, op3 .none "vpsrlq" ⟨.H, .x⟩ ⟨.U, .x⟩ ⟨.I, .b⟩),
    (3, op3 .none "vpsrldq" ⟨.H, .x⟩ ⟨.U, .x⟩ ⟨.I, .b⟩), (6, op3 .none "vpsllq" ⟨.H, .x⟩ ⟨.U, .x⟩ ⟨.I, .b⟩),
    (7, op3 .none "vpslldq" ⟨.H, .x⟩ ⟨.U, .x⟩ ⟨.I, .b⟩)]

def group102Opc01 : OpcodeTable where
  size := 8
  entries := [(0, op1 .none "sgdt" ⟨.M, .x⟩), (1, op0 .none "monitor"), (2, op1 .none "lgdt" ⟨.M, .x⟩),
    (3, op0 .none "clgi"), (4, op1 .none "smsw" ⟨.M, .w⟩), (6, op1 .none "lmsw" ⟨.E, .w⟩),
    (7, op1 .none "invlpg" ⟨.M, .x⟩)]

def x87D8Table : OpcodeTable where
  size := 64
  entries := [(0, op2 .none "fadd" ⟨.none, .ST0⟩ ⟨.none, .ST0⟩),
    (1, op2 .none "fadd" ⟨.none, .ST0⟩ ⟨.none, .ST1⟩), (2, op2 .none "fadd" ⟨.none, .ST0⟩ ⟨.none, .ST2⟩),
    (3, op2 .none "fadd" ⟨.none, .ST0⟩ ⟨.none, .ST3⟩), (4, op2 .none "fadd" ⟨.none, .ST0⟩ ⟨.none, .ST4⟩),
    (5, op2 .none "fadd" ⟨.none, .ST0⟩ ⟨.none, .ST5⟩), (6, op2 .none "fadd" ⟨.none, .ST0⟩ ⟨.none, .ST6⟩),
    (7, op2 .none "fadd" ⟨.none, .ST0⟩ ⟨.none, .ST7⟩), (8, op2 .none "fmul" ⟨.none, .ST0⟩ ⟨.none, .ST0⟩),
    (9, op2 .none "fmul" ⟨.none, .ST0⟩ ⟨.none, .ST1⟩), (10, op2 .none "fmul" ⟨.none, .ST0⟩ ⟨.none, .ST2⟩),
    (11, op2 .none "fmul" ⟨.none, .ST0⟩ ⟨.none, .ST3⟩), (12, op2 .none "fmul" ⟨.none, .ST0⟩ ⟨.none, .ST4⟩),
    (13, op2 .none "fmul" ⟨.none, .ST0⟩ ⟨.none, .ST5⟩), (14, op2 .none "fmul" ⟨.none, .ST0⟩ ⟨.none, .ST6⟩),
    (15, op2 .none "fmul" ⟨.none, .ST0⟩ ⟨.none, .ST7⟩), (16, op2 .none "fcom" ⟨.none, .ST0⟩ ⟨.none, .ST0⟩),
    (17, op2 .none "fcom" ⟨.none, .ST0⟩ ⟨.none, .ST1⟩), (18, op2 .none "fcom" ⟨.none, .ST0⟩ ⟨.none, .ST2⟩),
    (19, op2 .none "fcom" ⟨.none, .ST0⟩ ⟨.none, .ST3⟩), (20, op2 .none "fcom" ⟨.none, .ST0⟩ ⟨.none, .ST4⟩),
    (21, op2 .none "fcom" ⟨.none, .ST0⟩ ⟨.none, .ST5⟩), (22, op2 .none "fcom" ⟨.none, .ST0⟩ ⟨.none, .ST6⟩),
    (23, op2 .none "fcom" ⟨.none, .ST0⟩ ⟨.none, .ST7⟩), (24, op2 .none "fcomp" ⟨.none, .ST0⟩ ⟨.none, .ST0⟩),
    (25, op2 .none "fcomp" ⟨.none, .ST0⟩ ⟨.none, .ST1⟩), (26, op2 .none "fcomp" ⟨.none, .ST0⟩ ⟨.none, .ST2⟩),
    (27, op2 .none "fcomp" ⟨.none, .ST0⟩ ⟨.none, .ST3⟩), (28, op2 .none "fcomp" ⟨.none, .ST0⟩ ⟨.none, .ST4⟩),
    (29, op2 .none "fcomp" ⟨.none, .ST0⟩ ⟨.none, .ST5⟩), (30, op2 .none "fcomp" ⟨.none, .ST0⟩ ⟨.none, .ST6⟩),
    (31, op2 .none "fcomp" ⟨.none, .ST0⟩ ⟨.none, .ST7⟩), (32, op2 .none "fsub" ⟨.none, .ST0⟩ ⟨.none, .ST0⟩),
    (33, op2 .none "fsub" ⟨.none, .ST0⟩ ⟨.none, .ST1⟩), (34, op2 .none "fsub" ⟨.none, .ST0⟩ ⟨.none, .ST2⟩),
    (35, op2 .none "fsub" ⟨.none, .ST0⟩ ⟨.none, .ST3⟩), (36, op2 .none "fsub" ⟨.none, .ST0⟩ ⟨.none, .ST4⟩),
    (37, op2 .none "fsub" ⟨.none, .ST0⟩ ⟨.none, .ST5⟩), (38, op2 .none "fsub" ⟨.none, .ST0⟩ ⟨.none, .ST6⟩),
    (39, op2 .none "fsub" ⟨.none, .ST0⟩ ⟨.none, .ST7⟩), (40, op2 .none "fsubr" ⟨.none, .ST0⟩ ⟨.none, .ST0⟩),
    (41, op2 .none "fsubr" ⟨.none, .ST0⟩ ⟨.none, .ST1⟩), (42, op2 .none "fsubr" ⟨.none, .ST0⟩ ⟨.none, .ST2⟩),
    (43, op2 .none "fsubr" ⟨.none, .ST0⟩ ⟨.none, .ST3⟩), (44, op2 .none "fsubr" ⟨.none, .ST0⟩ ⟨.none, .ST4⟩),
    (45, op2 .none "fsubr" ⟨.none, .ST0⟩ ⟨.none, .ST5⟩), (46, op2 .none "fsubr" ⟨.none, .ST0⟩ ⟨.none, .ST6⟩),
    (47, op2 .none "fsubr" ⟨.none, .ST0⟩ ⟨.none, .ST7⟩), (48, op2 .none "fdiv" ⟨.none, .ST0⟩ ⟨.none, .ST0⟩),
    (49, op2 .none "fdiv" ⟨.none, .ST0⟩ ⟨.none, .ST1⟩), (50, op2 .none "fdiv" ⟨.none, .ST0⟩ ⟨.none, .ST2⟩),
    (51, op2 .none "fdiv" ⟨.none, .ST0⟩ ⟨.none, .ST3⟩), (52, op2 .none "fdiv" ⟨.none, .ST0⟩ ⟨.none, .ST4⟩),
    (53, op2 .none "fdiv" ⟨.none, .ST0⟩ ⟨.none, .ST5⟩), (54, op2 .none "fdiv" ⟨.none, .ST0⟩ ⟨.none, .ST6⟩),
    (55, op2 .none "fdiv" ⟨.none, .ST0⟩ ⟨.none, .ST7⟩), (56, op2 .none "fdivr" ⟨.none, .ST0⟩ ⟨.none, .ST0⟩),
    (57, op2 .none "fdivr" ⟨.none, .ST0⟩ ⟨.none, .ST1⟩), (58, op2 .none "fdivr" ⟨.none, .ST0⟩ ⟨.none, .ST2⟩),
    (59, op2 .none "fdivr" ⟨.none, .ST0⟩ ⟨.none, .ST3⟩), (60, op2 .none "fdivr" ⟨.none, .ST0⟩ ⟨.none, .ST4⟩),
    (61, op2 .none "fdivr" ⟨.none, .ST0⟩ ⟨.none, .ST5⟩), (62, op2 .none "fdivr" ⟨.none, .ST0⟩ ⟨.none, .ST6⟩),
    (63, op2 .none "fdivr" ⟨.none, .ST0⟩ ⟨.none, .ST7⟩)]

def x87D9Table : OpcodeTable where
  size := 64
  entries := [(0, op2 .none "fld" ⟨.none, .ST0⟩ ⟨.none, .ST0⟩), (1, op2 .none "fld" ⟨.none, .ST0⟩ ⟨.none, .ST1⟩),
    (2, op2 .none "fld" ⟨.none, .ST0⟩ ⟨.none, .ST2⟩), (3, op2 .none "fld" ⟨.none, .ST0⟩ ⟨.none, .ST3⟩),
    (4, op2 .none "fld" ⟨.none, .ST0⟩ ⟨.none, .ST4⟩), (5, op2 .none "fld" ⟨.none, .ST0⟩ ⟨.none, .ST5⟩),
    (6, op2 .none "fld" ⟨.none, .ST0⟩ ⟨.none, .ST6⟩), (7, op2 .none "fld" ⟨.none, .ST0⟩ ⟨.none, .ST7⟩),
    (8, op2 .none "fxch" ⟨.none, .ST0⟩ ⟨.none, .ST0⟩), (9, op2 .none "fxch" ⟨.none, .ST0⟩ ⟨.none, .ST1⟩),
    (10, op2 .none "fxch" ⟨.none, .ST0⟩ ⟨.none, .ST2⟩), (11, op2 .none "fxch" ⟨.none, .ST0⟩ ⟨.none, .ST3⟩),
    (12, op2 .none "fxch" ⟨.none, .ST0⟩ ⟨.none, .ST4⟩), (13, op2 .none "fxch" ⟨.none, .ST0⟩ ⟨.none, .ST5⟩),
    (14, op2 .none "fxch" ⟨.none, .ST0⟩ ⟨.none, .ST6⟩), (15, op2 .none "fxch" ⟨.none, .ST0⟩ ⟨.none, .ST7⟩),
    (16, op0 .none "fnop"), (32, op0 .none "fchs"), (33, op0 .none "fabs"), (36, op0 .none "ftst"),
    (37, op0 .none "fxam"), (40, op0 .none "fld1"), (41, op0 .none "fldl2t"), (42, op0 .none "fldl2e"),
    (43, op0 .none "fldpi"), (44, op0 .none "fldl2g"), (45, op0 .none "fldln2"), (46, op0 .none "fldz"),
    (48, op0 .none "f2xm1"), (49, op0 .none "fyl2x"), (50, op0 .none "fptan"), (51, op0 .none "fpatan"),
    (52, op0 .none "fxtract"), (53, op0 .none "fperm1"), (54, op0 .none "fdecstp"), (55, op0 .none "fincstp"),
    (56, op0 .none "fperm"), (57, op0 .none "fyl2xp1"), (58, op0 .none "fsqrt"), (59, op0 .none "fsincos"),
    (60, op0 .none "frndintx"), (61, op0 .none "fscale"), (62, op0 .none "fsin"), (63, op0 .none "fcos")]

def x87DaTable : OpcodeTable where
  size := 64
  entries := [(0, op2 .none "fcmovb" ⟨.none, .ST0⟩ ⟨.none, .ST0⟩),
    (1, op2 .none "fcmovb" ⟨.none, .ST0⟩ ⟨.none, .ST1⟩), (2, op2 .none "fcmovb" ⟨.none, .ST0⟩ ⟨.none, .ST2⟩),
    (3, op2 .none "fcmovb" ⟨.none, .ST0⟩ ⟨.none, .ST3⟩), (4, op2 .none "fcmovb" ⟨.none, .ST0⟩ ⟨.none, .ST4⟩),
    (5, op2 .none "fcmovb" ⟨.none, .ST0⟩ ⟨.none, .ST5⟩), (6, op2 .none "fcmovb" ⟨.none, .ST0⟩ ⟨.none, .ST6⟩),
    (7, op2 .none "fcmovb" ⟨.none, .ST0⟩ ⟨.none, .ST7⟩), (8, op2 .none "fcmove" ⟨.none, .ST0⟩ ⟨.none, .ST0⟩),
    (9, op2 .none "fcmove" ⟨.none, .ST0⟩ ⟨.none, .ST1⟩), (10, op2 .none "fcmove" ⟨.none, .ST0⟩ ⟨.none, .ST2⟩),
    (11, op2 .none "fcmove" ⟨.none, .ST0⟩ ⟨.none, .ST3⟩), (12, op2 .none "fcmove" ⟨.none, .ST0⟩ ⟨.none, .ST4⟩),
    (13, op2 .none "fcmove" ⟨.none, .ST0⟩ ⟨.none, .ST5⟩), (14, op2 .none "fcmove" ⟨.none, .ST0⟩ ⟨.none, .ST6⟩),
    (15, op2 .none "fcmove" ⟨.none, .ST0⟩ ⟨.none, .ST7⟩), (16, op2 .none "fcmovbe" ⟨.none, .ST0⟩ ⟨.none, .ST0⟩),
    (17, op2 .none "fcmovbe" ⟨.none, .ST0⟩ ⟨.none, .ST1⟩), (18, op2 .none "fcmovbe" ⟨.none, .ST0⟩ ⟨.none, .ST2⟩),
    (19, op2 .none "fcmovbe" ⟨.none, .ST0⟩ ⟨.none, .ST3⟩), (20, op2 .none "fcmovbe" ⟨.none, .ST0⟩ ⟨.none, .ST4⟩),
    (21, op2 .none "fcmovbe" ⟨.none, .ST0⟩ ⟨.none, .ST5⟩), (22, op2 .none "fcmovbe" ⟨.none, .ST0⟩ ⟨.none, .ST6⟩),
    (23, op2 .none "fcmovbe" ⟨.none, .ST0⟩ ⟨.none, .ST7⟩), (24, op2 .none "fcmovu" ⟨.none, .ST0⟩ ⟨.none, .ST0⟩),
    (25, op2 .none "fcmovu" ⟨.none, .ST0⟩ ⟨.none, .ST1⟩), (26, op2 .none "fcmovu" ⟨.none, .ST0⟩ ⟨.none, .ST2⟩),
    (27, op2 .none "fcmovu" ⟨.none, .ST0⟩ ⟨.none, .ST3⟩), (28, op2 .none "fcmovu" ⟨.none, .ST0⟩ ⟨.none, .ST4⟩),
    (29, op2 .none "fcmovu" ⟨.none, .ST0⟩ ⟨.none, .ST5⟩), (30, op2 .none "fcmovu" ⟨.none, .ST0⟩ ⟨.none, .ST6⟩),
    (31, op2 .none "fcmovu" ⟨.none, .ST0⟩ ⟨.none, .ST7⟩), (41, op0 .none "fucompp")]

def x87DbTable : OpcodeTable where
  size := 64
  entries := [(0, op2 .none "fcmovnb" ⟨.none, .ST0⟩ ⟨.none, .ST0⟩),
    (1, op2 .none "fcmovnb" ⟨.none, .ST0⟩ ⟨.none, .ST1⟩), (2, op2 .none "fcmovnb" ⟨.none, .ST0⟩ ⟨.none, .ST2⟩),
    (3, op2 .none "fcmovnb" ⟨.none, .ST0⟩ ⟨.none, .ST3⟩), (4, op2 .none "fcmovnb" ⟨.none, .ST0⟩ ⟨.none, .ST4⟩),
    (5, op2 .none "fcmovnb" ⟨.none, .ST0⟩ ⟨.none, .ST5⟩), (6, op2 .none "fcmovnb" ⟨.none, .ST0⟩ ⟨.none, .ST6⟩),
    (7, op2 .none "fcmovnb" ⟨.none, .ST0⟩ ⟨.none, .ST7⟩), (8, op2 .none "fcmovne" ⟨.none, .ST0⟩ ⟨.none, .ST0⟩),
    (9, op2 .none "fcmovne" ⟨.none, .ST0⟩ ⟨.none, .ST1⟩), (10, op2 .none "fcmovne" ⟨.none, .ST0⟩ ⟨.none, .ST2⟩),
    (11, op2 .none "fcmovne" ⟨.none, .ST0⟩ ⟨.none, .ST3⟩), (12, op2 .none "fcmovne" ⟨.none, .ST0⟩ ⟨.none, .ST4⟩),
    (13, op2 .none "fcmovne" ⟨.none, .ST0⟩ ⟨.none, .ST5⟩), (14, op2 .none "fcmovne" ⟨.none, .ST0⟩ ⟨.none, .ST6⟩),
    (15, op2 .none "fcmovne" ⟨.none, .ST0⟩ ⟨.none, .ST7⟩),
    (16, op2 .none "fcmovnbe" ⟨.none, .ST0⟩ ⟨.none, .ST0⟩),
    (17, op2 .none "fcmovnbe" ⟨.none, .ST0⟩ ⟨.none, .ST1⟩),
    (18, op2 .none "fcmovnbe" ⟨.none, .ST0⟩ ⟨.none, .ST2⟩),
    (19, op2 .none "fcmovnbe" ⟨.none, .ST0⟩ ⟨.none, .ST3⟩),
    (20, op2 .none "fcmovnbe" ⟨.none, .ST0⟩ ⟨.none, .ST4⟩),
    (21, op2 .none "fcmovnbe" ⟨.none, .ST0⟩ ⟨.none, .ST5⟩),
    (22, op2 .none "fcmovnbe" ⟨.none, .ST0⟩ ⟨.none, .ST6⟩),
    (23, op2 .none "fcmovnbe" ⟨.none, .ST0⟩ ⟨.none, .ST7⟩),
    (24, op2 .none "fcmovnu" ⟨.none, .ST0⟩ ⟨.none, .ST0⟩), (25, op2 .none "fcmovnu" ⟨.none, .ST0⟩ ⟨.none, .ST1⟩),
    (26, op2 .none "fcmovnu" ⟨.none, .ST0⟩ ⟨.none, .ST2⟩), (27, op2 .none "fcmovnu" ⟨.none, .ST0⟩ ⟨.none, .ST3⟩),
    (28, op2 .none "fcmovnu" ⟨.none, .ST0⟩ ⟨.none, .ST4⟩), (29, op2 .none "fcmovnu" ⟨.none, .ST0⟩ ⟨.none, .ST5⟩),
    (30, op2 .none "fcmovnu" ⟨.none, .ST0⟩ ⟨.none, .ST6⟩), (31, op2 .none "fcmovnu" ⟨.none, .ST0⟩ ⟨.none, .ST7⟩),
    (34, op0 .none "fclex"), (35, op0 .none "finit"), (40, op2 .none "fucomi" ⟨.none, .ST0⟩ ⟨.none, .ST0⟩),
    (41, op2 .none "fucomi" ⟨.none, .ST0⟩ ⟨.none, .ST1⟩), (42, op2 .none "fucomi" ⟨.none, .ST0⟩ ⟨.none, .ST2⟩),
    (43, op2 .none "fucomi" ⟨.none, .ST0⟩ ⟨.none, .ST3⟩), (44, op2 .none "fucomi" ⟨.none, .ST0⟩ ⟨.none, .ST4⟩),
    (45, op2 .none "fucomi" ⟨.none, .ST0⟩ ⟨.none, .ST5⟩), (46, op2 .none "fucomi" ⟨.none, .ST0⟩ ⟨.none, .ST6⟩),
    (47, op2 .none "fucomi" ⟨.none, .ST0⟩ ⟨.none, .ST7⟩), (48, op2 .none "fcomi" ⟨.none, .ST0⟩ ⟨.none, .ST0⟩),
    (49, op2 .none "fcomi" ⟨.none, .ST0⟩ ⟨.none, .ST1⟩), (50, op2 .none "fcomi" ⟨.none, .ST0⟩ ⟨.none, .ST2⟩),
    (51, op2 .none "fcomi" ⟨.none, .ST0⟩ ⟨.none, .ST3⟩), (52, op2 .none "fcomi" ⟨.none, .ST0⟩ ⟨.none, .ST4⟩),
    (53, op2 .none "fcomi" ⟨.none, .ST0⟩ ⟨.none, .ST5⟩), (54, op2 .none "fcomi" ⟨.none, .ST0⟩ ⟨.none, .ST6⟩),
    (55, op2 .none "fcomi" ⟨.none, .ST0⟩ ⟨.none, .ST7⟩)]

def x87DcTable : OpcodeTable where
  size := 64
  entries := [(0, op2 .none "fadd" ⟨.none, .ST0⟩ ⟨.none, .ST0⟩),
    (1, op2 .none "fadd" ⟨.none, .ST1⟩ ⟨.none, .ST0⟩), (2, op2 .none "fadd" ⟨.none, .ST2⟩ ⟨.none, .ST0⟩),
    (3, op2 .none "fadd" ⟨.none, .ST3⟩ ⟨.none, .ST0⟩), (4, op2 .none "fadd" ⟨.none, .ST4⟩ ⟨.none, .ST0⟩),
    (5, op2 .none "fadd" ⟨.none, .ST5⟩ ⟨.none, .ST0⟩), (6, op2 .none "fadd" ⟨.none, .ST6⟩ ⟨.none, .ST0⟩),
    (7, op2 .none "fadd" ⟨.none, .ST7⟩ ⟨.none, .ST0⟩), (8, op2 .none "fmul" ⟨.none, .ST0⟩ ⟨.none, .ST0⟩),
    (9, op2 .none "fmul" ⟨.none, .ST1⟩ ⟨.none, .ST0⟩), (10, op2 .none "fmul" ⟨.none, .ST2⟩ ⟨.none, .ST0⟩),
    (11, op2 .none "fmul" ⟨.none, .ST3⟩ ⟨.none, .ST0⟩), (12, op2 .none "fmul" ⟨.none, .ST4⟩ ⟨.none, .ST0⟩),
    (13, op2 .none "fmul" ⟨.none, .ST5⟩ ⟨.none, .ST0⟩), (14, op2 .none "fmul" ⟨.none, .ST6⟩ ⟨.none, .ST0⟩),
    (15, op2 .none "fmul" ⟨.none, .ST7⟩ ⟨.none, .ST0⟩), (32, op2 .none "fsubr" ⟨.none, .ST0⟩ ⟨.none, .ST0⟩),
    (33, op2 .none "fsubr" ⟨.none, .ST1⟩ ⟨.none, .ST0⟩), (34, op2 .none "fsubr" ⟨.none, .ST2⟩ ⟨.none, .ST0⟩),
    (35, op2 .none "fsubr" ⟨.none, .ST3⟩ ⟨.none, .ST0⟩), (36, op2 .none "fsubr" ⟨.none, .ST4⟩ ⟨.none, .ST0⟩),
    (37, op2 .none "fsubr" ⟨.none, .ST5⟩ ⟨.none, .ST0⟩), (38, op2 .none "fsubr" ⟨.none, .ST6⟩ ⟨.none, .ST0⟩),
    (39, op2 .none "fsubr" ⟨.none, .ST7⟩ ⟨.none, .ST0⟩), (40, op2 .none "fsub" ⟨.none, .ST0⟩ ⟨.none, .ST0⟩),
    (41, op2 .none "fsub" ⟨.none, .ST1⟩ ⟨.none, .ST0⟩), (42, op2 .none "fsub" ⟨.none, .ST2⟩ ⟨.none, .ST0⟩),
    (43, op2 .none "fsub" ⟨.none, .ST3⟩ ⟨.none, .ST0⟩), (44, op2 .none "fsub" ⟨.none, .ST4⟩ ⟨.none, .ST0⟩),
    (45, op2 .none "fsub" ⟨.none, .ST5⟩ ⟨.none, .ST0⟩), (46, op2 .none "fsub" ⟨.none, .ST6⟩ ⟨.none, .ST0⟩),
    (47, op2 .none "fsub" ⟨.none, .ST7⟩ ⟨.none, .ST0⟩), (48, op2 .none "fdivr" ⟨.none, .ST0⟩ ⟨.none, .ST0⟩),
    (49, op2 .none "fdivr" ⟨.none, .ST1⟩ ⟨.none, .ST0⟩), (50, op2 .none "fdivr" ⟨.none, .ST2⟩ ⟨.none, .ST0⟩),
    (51, op2 .none "fdivr" ⟨.none, .ST3⟩ ⟨.none, .ST0⟩), (52, op2 .none "fdivr" ⟨.none, .ST4⟩ ⟨.none, .ST0⟩),
    (53, op2 .none "fdivr" ⟨.none, .ST5⟩ ⟨.none, .ST0⟩), (54, op2 .none "fdivr" ⟨.none, .ST6⟩ ⟨.none, .ST0⟩),
    (55, op2 .none "fdivr" ⟨.none, .ST7⟩ ⟨.none, .ST0⟩), (56, op2 .none "fdiv" ⟨.none, .ST0⟩ ⟨.none, .ST0⟩),
    (57, op2 .none "fdiv" ⟨.none, .ST1⟩ ⟨.none, .ST0⟩), (58, op2 .none "fdiv" ⟨.none, .ST2⟩ ⟨.none, .ST0⟩),
    (59, op2 .none "fdiv" ⟨.none, .ST3⟩ ⟨.none, .ST0⟩), (60, op2 .none "fdiv" ⟨.none, .ST4⟩ ⟨.none, .ST0⟩),
    (61, op2 .none "fdiv" ⟨.none, .ST5⟩ ⟨.none, .ST0⟩), (62, op2 .none "fdiv" ⟨.none, .ST6⟩ ⟨.none, .ST0⟩),
    (63, op2 .none "fdiv" ⟨.none, .ST7⟩ ⟨.none, .ST0⟩)]

def x87DdTable : OpcodeTable where
  size := 64
  entries := [(0, op1 .none "ffree" ⟨.none, .ST0⟩), (1, op1 .none "ffree" ⟨.none, .ST1⟩),
    (2, op1 .none "ffree" ⟨.none, .ST2⟩), (3, op1 .none "ffree" ⟨.none, .ST3⟩),
    (4, op1 .none "ffree" ⟨.none, .ST4⟩), (5, op1 .none "ffree" ⟨.none, .ST5⟩),
    (6, op1 .none "ffree" ⟨.none, .ST6⟩), (7, op1 .none "ffree" ⟨.none, .ST7⟩),
    (16, named1 "\"fst\"" "fst1" ⟨.none, .ST0⟩), (17, named1 "\"fst\"" "fst1" ⟨.none, .ST1⟩),
    (18, named1 "\"fst\"" "fst1" ⟨.none, .ST2⟩), (19, named1 "\"fst\"" "fst1" ⟨.none, .ST3⟩),
    (20, named1 "\"fst\"" "fst1" ⟨.none, .ST4⟩), (21, named1 "\"fst\"" "fst1" ⟨.none, .ST5⟩),
    (22, named1 "\"fst\"" "fst1" ⟨.none, .ST6⟩), (23, named1 "\"fst\"" "fst1" ⟨.none, .ST7⟩),
    (24, named1 "\"fstp\"" "fstp1" ⟨.none, .ST0⟩), (25, named1 "\"fstp\"" "fstp1" ⟨.none, .ST1⟩),
    (26, named1 "\"fstp\"" "fstp1" ⟨.none, .ST2⟩), (27, named1 "\"fstp\"" "fstp1" ⟨.none, .ST3⟩),
    (28, named1 "\"fstp\"" "fstp1" ⟨.none, .ST4⟩), (29, named1 "\"fstp\"" "fstp1" ⟨.none, .ST5⟩),
    (30, named1 "\"fstp\"" "fstp1" ⟨.none, .ST6⟩), (31, named1 "\"fstp\"" "fstp1" ⟨.none, .ST7⟩),
    (32, op2 .none "fucom" ⟨.none, .ST0⟩ ⟨.none, .ST0⟩), (33, op2 .none "fucom" ⟨.none, .ST1⟩ ⟨.none, .ST0⟩),
    (34, op2 .none "fucom" ⟨.none, .ST2⟩ ⟨.none, .ST0⟩), (35, op2 .none "fucom" ⟨.none, .ST3⟩ ⟨.none, .ST0⟩),
    (36, op2 .none "fucom" ⟨.none, .ST4⟩ ⟨.none, .ST0⟩), (37, op2 .none "fucom" ⟨.none, .ST5⟩ ⟨.none, .ST0⟩),
    (38, op2 .none "fucom" ⟨.none, .ST6⟩ ⟨.none, .ST0⟩), (39, op2 .none "fucom" ⟨.none, .ST7⟩ ⟨.none, .ST0⟩),
    (40, op2 .none "fucomp" ⟨.none, .ST0⟩ ⟨.none, .ST0⟩), (41, op2 .none "fucomp" ⟨.none, .ST1⟩ ⟨.none, .ST0⟩),
    (42, op2 .none "fucomp" ⟨.none, .ST2⟩ ⟨.none, .ST0⟩), (43, op2 .none "fucomp" ⟨.none, .ST3⟩ ⟨.none, .ST0⟩),
    (44, op2 .none "fucomp" ⟨.none, .ST4⟩ ⟨.none, .ST0⟩), (45, op2 .none "fucomp" ⟨.none, .ST5⟩ ⟨.none, .ST0⟩),
    (46, op2 .none "fucomp" ⟨.none, .ST6⟩ ⟨.none, .ST0⟩), (47, op2 .none "fucomp" ⟨.none, .ST7⟩ ⟨.none, .ST0⟩)]

def x87DeTable : OpcodeTable where
  size := 64
  entries := [(0, op2 .none "faddp" ⟨.none, .ST0⟩ ⟨.none, .ST0⟩),
    (1, op2 .none "faddp" ⟨.none, .ST1⟩ ⟨.none, .ST0⟩), (2, op2 .none "faddp" ⟨.none, .ST2⟩ ⟨.none, .ST0⟩),
    (3, op2 .none "faddp" ⟨.none, .ST3⟩ ⟨.none, .ST0⟩), (4, op2 .none "faddp" ⟨.none, .ST4⟩ ⟨.none, .ST0⟩),
    (5, op2 .none "faddp" ⟨.none, .ST5⟩ ⟨.none, .ST0⟩), (6, op2 .none "faddp" ⟨.none, .ST6⟩ ⟨.none, .ST0⟩),
    (7, op2 .none "faddp" ⟨.none, .ST7⟩ ⟨.none, .ST0⟩), (8, op2 .none "fmulp" ⟨.none, .ST0⟩ ⟨.none, .ST0⟩),
    (9, op2 .none "fmulp" ⟨.none, .ST1⟩ ⟨.none, .ST0⟩), (10, op2 .none "fmulp" ⟨.none, .ST2⟩ ⟨.none, .ST0⟩),
    (11, op2 .none "fmulp" ⟨.none, .ST3⟩ ⟨.none, .ST0⟩), (12, op2 .none "fmulp" ⟨.none, .ST4⟩ ⟨.none, .ST0⟩),
    (13, op2 .none "fmulp" ⟨.none, .ST5⟩ ⟨.none, .ST0⟩), (14, op2 .none "fmulp" ⟨.none, .ST6⟩ ⟨.none, .ST0⟩),
    (15, op2 .none "fmulp" ⟨.none, .ST7⟩ ⟨.none, .ST0⟩), (25, op0 .none "fcompp"),
    (32, op2 .none "fsubrp" ⟨.none, .ST0⟩ ⟨.none, .ST0⟩), (33, op2 .none "fsubrp" ⟨.none, .ST1⟩ ⟨.none, .ST0⟩),
    (34, op2 .none "fsubrp" ⟨.none, .ST2⟩ ⟨.none, .ST0⟩), (35, op2 .none "fsubrp" ⟨.none, .ST3⟩ ⟨.none, .ST0⟩),
    (36, op2 .none "fsubrp" ⟨.none, .ST4⟩ ⟨.none, .ST0⟩), (37, op2 .none "fsubrp" ⟨.none, .ST5⟩ ⟨.none, .ST0⟩),
    (38, op2 .none "fsubrp" ⟨.none, .ST6⟩ ⟨.none, .ST0⟩), (39, op2 .none "fsubrp" ⟨.none, .ST7⟩ ⟨.none, .ST0⟩),
    (40, op2 .none "fsubp" ⟨.none, .ST0⟩ ⟨.none, .ST0⟩), (41, op2 .none "fsubp" ⟨.none, .ST1⟩ ⟨.none, .ST0⟩),
    (42, op2 .none "fsubp" ⟨.none, .ST2⟩ ⟨.none, .ST0⟩), (43, op2 .none "fsubp" ⟨.none, .ST3⟩ ⟨.none, .ST0⟩),
    (44, op2 .none "fsubp" ⟨.none, .ST4⟩ ⟨.none, .ST0⟩), (45, op2 .none "fsubp" ⟨.none, .ST5⟩ ⟨.none, .ST0⟩),
    (46, op2 .none "fsubp" ⟨.none, .ST6⟩ ⟨.none, .ST0⟩), (47, op2 .none "fsubp" ⟨.none, .ST7⟩ ⟨.none, .ST0⟩),
    (48, op2 .none "fdivrp" ⟨.none, .ST0⟩ ⟨.none, .ST0⟩), (49, op2 .none "fdivrp" ⟨.none, .ST1⟩ ⟨.none, .ST0⟩),
    (50, op2 .none "fdivrp" ⟨.none, .ST2⟩ ⟨.none, .ST0⟩), (51, op2 .none "fdivrp" ⟨.none, .ST3⟩ ⟨.none, .ST0⟩),
    (52, op2 .none "fdivrp" ⟨.none, .ST4⟩ ⟨.none, .ST0⟩), (53, op2 .none "fdivrp" ⟨.none, .ST5⟩ ⟨.none, .ST0⟩),
    (54, op2 .none "fdivrp" ⟨.none, .ST6⟩ ⟨.none, .ST0⟩), (55, op2 .none "fdivrp" ⟨.none, .ST7⟩ ⟨.none, .ST0⟩),
    (56, op2 .none "fdivp" ⟨.none, .ST0⟩ ⟨.none, .ST0⟩), (57, op2 .none "fdivp" ⟨.none, .ST1⟩ ⟨.none, .ST0⟩),
    (58, op2 .none "fdivp" ⟨.none, .ST2⟩ ⟨.none, .ST0⟩), (59, op2 .none "fdivp" ⟨.none, .ST3⟩ ⟨.none, .ST0⟩),
    (60, op2 .none "fdivp" ⟨.none, .ST4⟩ ⟨.none, .ST0⟩), (61, op2 .none "fdivp" ⟨.none, .ST5⟩ ⟨.none, .ST0⟩),
    (62, op2 .none "fdivp" ⟨.none, .ST6⟩ ⟨.none, .ST0⟩), (63, op2 .none "fdivp" ⟨.none, .ST7⟩ ⟨.none, .ST0⟩)]

def x87DfTable : OpcodeTable where
  size := 64
  entries := [(32, named1 "\"fstsw\"" "fstsw1" ⟨.none, .AX⟩),
    (40, op2 .none "fucomip" ⟨.none, .ST0⟩ ⟨.none, .ST0⟩), (41, op2 .none "fucomip" ⟨.none, .ST0⟩ ⟨.none, .ST1⟩),
    (42, op2 .none "fucomip" ⟨.none, .ST0⟩ ⟨.none, .ST2⟩), (43, op2 .none "fucomip" ⟨.none, .ST0⟩ ⟨.none, .ST3⟩),
    (44, op2 .none "fucomip" ⟨.none, .ST0⟩ ⟨.none, .ST4⟩), (45, op2 .none "fucomip" ⟨.none, .ST0⟩ ⟨.none, .ST5⟩),
    (46, op2 .none "fucomip" ⟨.none, .ST0⟩ ⟨.none, .ST6⟩), (47, op2 .none "fucomip" ⟨.none, .ST0⟩ ⟨.none, .ST7⟩),
    (48, op2 .none "fcomip" ⟨.none, .ST0⟩ ⟨.none, .ST0⟩), (49, op2 .none "fcomip" ⟨.none, .ST0⟩ ⟨.none, .ST1⟩),
    (50, op2 .none "fcomip" ⟨.none, .ST0⟩ ⟨.none, .ST2⟩), (51, op2 .none "fcomip" ⟨.none, .ST0⟩ ⟨.none, .ST3⟩),
    (52, op2 .none "fcomip" ⟨.none, .ST0⟩ ⟨.none, .ST4⟩), (53, op2 .none "fcomip" ⟨.none, .ST0⟩ ⟨.none, .ST5⟩),
    (54, op2 .none "fcomip" ⟨.none, .ST0⟩ ⟨.none, .ST6⟩), (55, op2 .none "fcomip" ⟨.none, .ST0⟩ ⟨.none, .ST7⟩)]

def x87D8Table2 : OpcodeTable where
  size := 8
  entries := [(0, op2 .none "fadd" ⟨.E, .d⟩ ⟨.G, .d⟩), (1, op2 .none "fmul" ⟨.E, .d⟩ ⟨.G, .d⟩),
    (2, op2 .none "fcom" ⟨.E, .d⟩ ⟨.G, .d⟩), (3, op2 .none "fcomp" ⟨.E, .d⟩ ⟨.G, .d⟩),
    (4, op2 .none "fsub" ⟨.E, .d⟩ ⟨.G, .d⟩), (5, op2 .none "fsubr" ⟨.E, .d⟩ ⟨.G, .d⟩),
    (6, op2 .none "fdiv" ⟨.E, .d⟩ ⟨.G, .d⟩), (7, op2 .none "fdivr" ⟨.E, .d⟩ ⟨.G, .d⟩)]

def x87D9Table2 : OpcodeTable where
  size := 8
  entries := [(0, op2 .none "fld" ⟨.E, .d⟩ ⟨.G, .d⟩), (2, named2 "fst" "fst2" ⟨.E, .d⟩ ⟨.G, .d⟩),
    (3, named2 "fstp" "fstp2" ⟨.E, .d⟩ ⟨.G, .d⟩), (4, op2 .none "fldenv" ⟨.E, .d⟩ ⟨.G, .d⟩),
    (5, op2 .none "fldcw" ⟨.E, .d⟩ ⟨.G, .d⟩), (6, op2 .none "fstenv" ⟨.E, .d⟩ ⟨.G, .d⟩),
    (7, op2 .none "fstcw" ⟨.E, .d⟩ ⟨.G, .d⟩)]

def x87DaTable2 : OpcodeTable where
  size := 8
  entries := [(0, op2 .none "fiadd" ⟨.E, .d⟩ ⟨.G, .d⟩), (1, op2 .none "fimul" ⟨.E, .d⟩ ⟨.G, .d⟩),
    (2, op2 .none "ficom" ⟨.E, .d⟩ ⟨.G, .d⟩), (3, op2 .none "ficomp" ⟨.E, .d⟩ ⟨.G, .d⟩),
    (4, op2 .none "fisub" ⟨.E, .d⟩ ⟨.G, .d⟩), (5, op2 .none "fisubr" ⟨.E, .d⟩ ⟨.G, .d⟩),
    (6, op2 .none "fidiv" ⟨.E, .d⟩ ⟨.G, .d⟩), (7, op2 .none "fidivr" ⟨.E, .d⟩ ⟨.G, .d⟩)]

def x87DbTable2 : OpcodeTable where
  size := 8
  entries := [(0, op2 .none "fild" ⟨.E, .d⟩ ⟨.G, .d⟩), (1, op2 .none "fisttp" ⟨.E, .d⟩ ⟨.G, .d⟩),
    (2, op2 .none "fist" ⟨.E, .d⟩ ⟨.G, .d⟩), (3, op2 .none "fistp" ⟨.E, .d⟩ ⟨.G, .d⟩),
    (5, op2 .none "fld" ⟨.E, .dq⟩ ⟨.G, .dq⟩), (7, named2 "fstp" "fstp2" ⟨.E, .dq⟩ ⟨.G, .dq⟩)]

def x87DcTable2 : OpcodeTable where
  size := 8
  entries := [(0, op2 .none "fadd" ⟨.E, .dq⟩ ⟨.G, .dq⟩), (1, op2 .none "fmul" ⟨.E, .dq⟩ ⟨.G, .dq⟩),
    (2, op2 .none "fcom" ⟨.E, .dq⟩ ⟨.G, .dq⟩), (3, op2 .none "fcomp" ⟨.E, .dq⟩ ⟨.G, .dq⟩),
    (4, op2 .none "fsub" ⟨.E, .dq⟩ ⟨.G, .dq⟩), (5, op2 .none "fsubr" ⟨.E, .dq⟩ ⟨.G, .dq⟩),
    (6, op2 .none "fdiv" ⟨.E, .dq⟩ ⟨.G, .dq⟩), (7, op2 .none "fdivr" ⟨.E, .dq⟩ ⟨.G, .dq⟩)]

def x87DdTable2 : OpcodeTable where
  size := 8
  entries := [(0, op2 .none "fld" ⟨.E, .dq⟩ ⟨.G, .dq⟩), (1, op2 .none "fisttp" ⟨.E, .d⟩ ⟨.G, .d⟩),
    (2, named2 "fst" "fst2" ⟨.E, .dq⟩ ⟨.G, .dq⟩), (3, named2 "fstp" "fstp2" ⟨.E, .dq⟩ ⟨.G, .dq⟩),
    (4, op2 .none "frstor" ⟨.E, .dq⟩ ⟨.G, .dq⟩), (6, op2 .none "fsave" ⟨.E, .dq⟩ ⟨.G, .dq⟩),
    (7, named2 "fstsw" "fstsw2" ⟨.E, .dq⟩ ⟨.G, .dq⟩)]

def x87DeTable2 : OpcodeTable where
  size := 8
  entries := [(0, op2 .none "fiadd" ⟨.E, .w⟩ ⟨.G, .w⟩), (1, op2 .none "fimul" ⟨.E, .w⟩ ⟨.G, .w⟩),
    (2, op2 .none "ficom" ⟨.E, .w⟩ ⟨.G, .w⟩), (3, op2 .none "ficomp" ⟨.E, .w⟩ ⟨.G, .w⟩),
    (4, op2 .none "fisub" ⟨.E, .w⟩ ⟨.G, .w⟩), (5, op2 .none "fisubr" ⟨.E, .w⟩ ⟨.G, .w⟩),
    (6, op2 .none "fidiv" ⟨.E, .w⟩ ⟨.G, .w⟩), (7, op2 .none "fidivr" ⟨.E, .w⟩ ⟨.G, .w⟩)]

def x87DfTable2 : OpcodeTable where
  size := 8
  entries := [(0, op2 .none "fild" ⟨.E, .w⟩ ⟨.G, .w⟩), (1, op2 .none "fisttp" ⟨.E, .w⟩ ⟨.G, .w⟩),
    (2, op2 .none "fist" ⟨.E, .w⟩ ⟨.G, .w⟩), (3, op2 .none "fistp" ⟨.E, .w⟩ ⟨.G, .w⟩),
    (4, op2 .none "fbld" ⟨.E, .w⟩ ⟨.G, .w⟩), (5, op2 .none "fild" ⟨.E, .dq⟩ ⟨.G, .dq⟩),
    (6, op2 .none "fbstp" ⟨.E, .w⟩ ⟨.G, .w⟩), (7, op2 .none "fistp" ⟨.E, .dq⟩ ⟨.G, .dq⟩)]

end Panopticon.Amd64
