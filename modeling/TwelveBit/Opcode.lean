import TwelveBit.Arithmetic
/-!
The opcodes, grouped by what stands behind them in memory: nothing, a word, a long, or the mode
of a jump. Each has a number and a mnemonic; the forms on longs end in `_l`.
-/
namespace TwelveBit

inductive SystemOp where
  | nop
  | halt
  | enable
  | disable
  deriving DecidableEq, Repr

inductive PlainOp where
  | pop (w : Width)
  | dup (w : Width)
  | swap (w : Width)
  | dupSecond
  | loadAt (w : Width)
  | storeAt (w : Width)
  | copy
  | callAt
  | ret
  | retWord
  | retLong
  | alu (op : AluOp)
  deriving DecidableEq, Repr

inductive WordOp where
  | push
  | loadLocal (w : Width)
  | storeLocal (w : Width)
  | addrLocal
  deriving DecidableEq, Repr

inductive LongOp where
  | push
  | load (w : Width)
  | store (w : Width)
  | call
  deriving DecidableEq, Repr

inductive Opcode where
  | system (op : SystemOp)
  | plain (op : PlainOp)
  | word (op : WordOp)
  | long (op : LongOp)
  | jump
  deriving DecidableEq, Repr

def Width.suffix : Width → String
  | word => ""
  | long => "_l"

namespace SystemOp

def all : List SystemOp := [nop, halt, enable, disable]

def number : SystemOp → Nat
  | nop => 0x000
  | halt => 0x001
  | enable => 0x002
  | disable => 0x003

def mnemonic : SystemOp → String
  | nop => "nop"
  | halt => "hlt"
  | enable => "ei"
  | disable => "di"

end SystemOp

namespace BinaryOp

def number : BinaryOp → Width → Nat
  | add, .word => 0x050
  | sub, .word => 0x051
  | mul, .word => 0x052
  | div, .word => 0x054
  | mod, .word => 0x055
  | or, .word => 0x05A
  | xor, .word => 0x05B
  | and, .word => 0x05C
  | add, .long => 0x070
  | sub, .long => 0x071
  | mul, .long => 0x072
  | div, .long => 0x073
  | mod, .long => 0x074
  | or, .long => 0x079
  | xor, .long => 0x07A
  | and, .long => 0x07B

def mnemonic : BinaryOp → String
  | add => "add"
  | sub => "sub"
  | mul => "mul"
  | div => "div"
  | mod => "mod"
  | or => "or"
  | xor => "xor"
  | and => "and"

end BinaryOp

namespace UnaryOp

def number : UnaryOp → Width → Nat
  | neg, .word => 0x056
  | not, .word => 0x057
  | inc, .word => 0x058
  | dec, .word => 0x059
  | shl, .word => 0x05D
  | shr, .word => 0x05E
  | sar, .word => 0x05F
  | rotLeft, .word => 0x060
  | rotRight, .word => 0x061
  | neg, .long => 0x075
  | not, .long => 0x076
  | inc, .long => 0x077
  | dec, .long => 0x078
  | shl, .long => 0x07C
  | shr, .long => 0x07D
  | sar, .long => 0x07E
  | rotLeft, .long => 0x07F
  | rotRight, .long => 0x080

def mnemonic : UnaryOp → String
  | neg => "neg"
  | not => "not"
  | inc => "inc"
  | dec => "dec"
  | shl => "shl"
  | shr => "shr"
  | sar => "sar"
  | rotLeft => "rot_l_c"
  | rotRight => "rot_r_c"

end UnaryOp

namespace AluOp

def number : AluOp → Nat
  | binary op w => op.number w
  | unary op w => op.number w
  | wideMul => 0x053
  | widen => 0x090
  | widenSigned => 0x091
  | narrow => 0x092

def mnemonic : AluOp → String
  | binary op w => op.mnemonic ++ w.suffix
  | unary op w => op.mnemonic ++ w.suffix
  | wideMul => "mul2"
  | widen => "w2l"
  | widenSigned => "sw2l"
  | narrow => "l2w"

end AluOp

namespace PlainOp

def number : PlainOp → Nat
  | pop .word => 0x012
  | pop .long => 0x013
  | dup .word => 0x014
  | dup .long => 0x015
  | swap .word => 0x016
  | swap .long => 0x017
  | dupSecond => 0x018
  | loadAt .word => 0x024
  | loadAt .long => 0x025
  | storeAt .word => 0x026
  | storeAt .long => 0x027
  | copy => 0x028
  | callAt => 0x031
  | ret => 0x032
  | retWord => 0x033
  | retLong => 0x034
  | alu op => op.number

def mnemonic : PlainOp → String
  | pop w => "pop" ++ w.suffix
  | dup w => "dup" ++ w.suffix
  | swap w => "swap" ++ w.suffix
  | dupSecond => "over"
  | loadAt w => "loadi" ++ w.suffix
  | storeAt w => "storei" ++ w.suffix
  | copy => "memc"
  | callAt => "calli"
  | ret => "ret"
  | retWord => "ret1"
  | retLong => "ret2"
  | alu op => op.mnemonic

end PlainOp

namespace WordOp

def number : WordOp → Nat
  | push => 0x010
  | loadLocal .word => 0x035
  | loadLocal .long => 0x036
  | storeLocal .word => 0x037
  | storeLocal .long => 0x038
  | addrLocal => 0x039

def mnemonic : WordOp → String
  | push => "push"
  | loadLocal w => "load_local" ++ w.suffix
  | storeLocal w => "store_local" ++ w.suffix
  | addrLocal => "addr_local"

end WordOp

namespace LongOp

def number : LongOp → Nat
  | push => 0x011
  | load .word => 0x020
  | load .long => 0x021
  | store .word => 0x022
  | store .long => 0x023
  | call => 0x030

def mnemonic : LongOp → String
  | push => "push_l"
  | load w => "load" ++ w.suffix
  | store w => "store" ++ w.suffix
  | call => "call"

end LongOp

namespace Opcode

def number : Opcode → Nat
  | system op => op.number
  | plain op => op.number
  | word op => op.number
  | long op => op.number
  | jump => 0x040

def mnemonic : Opcode → String
  | system op => op.mnemonic
  | plain op => op.mnemonic
  | word op => op.mnemonic
  | long op => op.mnemonic
  | jump => "jmp"

def binary (op : BinaryOp) (w : Width) : Opcode := plain (.alu (.binary op w))

def unary (op : UnaryOp) (w : Width) : Opcode := plain (.alu (.unary op w))

def all : List Opcode :=
  [system .nop, system .halt, system .enable, system .disable,
    word .push, long .push, plain (.pop .word), plain (.pop .long), plain (.dup .word),
    plain (.dup .long), plain (.swap .word), plain (.swap .long), plain .dupSecond,
    long (.load .word), long (.load .long), long (.store .word), long (.store .long),
    plain (.loadAt .word), plain (.loadAt .long), plain (.storeAt .word),
    plain (.storeAt .long), plain .copy,
    long .call, plain .callAt, plain .ret, plain .retWord, plain .retLong,
    word (.loadLocal .word), word (.loadLocal .long), word (.storeLocal .word),
    word (.storeLocal .long), word .addrLocal,
    jump,
    binary .add .word, binary .sub .word, binary .mul .word, plain (.alu .wideMul),
    binary .div .word, binary .mod .word, unary .neg .word, unary .not .word, unary .inc .word,
    unary .dec .word, binary .or .word, binary .xor .word, binary .and .word, unary .shl .word,
    unary .shr .word, unary .sar .word, unary .rotLeft .word, unary .rotRight .word,
    binary .add .long, binary .sub .long, binary .mul .long, binary .div .long,
    binary .mod .long, unary .neg .long, unary .not .long, unary .inc .long, unary .dec .long,
    binary .or .long, binary .xor .long, binary .and .long, unary .shl .long, unary .shr .long,
    unary .sar .long, unary .rotLeft .long, unary .rotRight .long,
    plain (.alu .widen), plain (.alu .widenSigned), plain (.alu .narrow)]

def ofNumber? (n : Nat) : Option Opcode := all.find? fun op => op.number = n

def ofMnemonic? (s : String) : Option Opcode := all.find? fun op => op.mnemonic = s

theorem mem_all (op : Opcode) : op ∈ all := by
  rcases op with o | o | o | o | _
  · cases o <;> decide
  · rcases o with w | w | w | _ | w | w | _ | _ | _ | _ | _ | o
    iterate 3 cases w <;> decide
    · decide
    iterate 2 cases w <;> decide
    iterate 5 decide
    rcases o with ⟨o, w⟩ | ⟨o, w⟩ | _ | _ | _ | _
    iterate 2 cases o <;> cases w <;> decide
    iterate 4 decide
  · rcases o with _ | w | w | _
    · decide
    iterate 2 cases w <;> decide
    · decide
  · rcases o with _ | w | w | _
    · decide
    iterate 2 cases w <;> decide
    · decide
  · decide

theorem numbers_increase : (all.map number).Pairwise (· < ·) := by decide

end Opcode
end TwelveBit
