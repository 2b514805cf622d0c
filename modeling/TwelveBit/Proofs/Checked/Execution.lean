import TwelveBit.Proofs.Checked.Memory
import TwelveBit.Execution
/-!
Checked execution. Operands are cut to their width before anything is computed from them, so every
result has room where it is found, and all shifts go by distances that are known beforehand.
Instructions run on the processor as they do without the checks.
-/
namespace TwelveBit.Checked

def join (high low : Nat) : Except Panic Nat := do
  return (← shl (toWord high) 12) + toWord low

def signBit (w : Width) : Except Panic Nat := do shl 1 (← sub w.bits 1)

def asSigned (v : Nat) : Int := if v < 0x80000000 then v else v - (size32 : Int)

def signed (w : Width) (v : Nat) : Except Panic Int := do
  let k ← sub 32 w.bits
  sar (asSigned (← shl v k)) k

theorem join_eq (high low : Nat) : join high low = .ok (TwelveBit.join high low) := by
  have lt := toWord_lt high
  have power : Nat.pow 2 12 = 0x1000 := rfl
  have whole : toWord high * Nat.pow 2 12 % size32 = toWord high * 0x1000 := by
    rw [power]
    exact Nat.mod_eq_of_lt (by simp only [size32]; omega)
  rw [join, shl_of_lt (by decide), ok_bind, whole]
  rfl

theorem signBit_eq (w : Width) : signBit w = .ok w.signBit := by cases w <;> rfl

/-- The sign has come to lie on top. -/
theorem asSigned_shifted (w : Width) (v : Nat) :
    asSigned (v * Nat.pow 2 (32 - w.bits) % size32) =
      w.signed v * (Nat.pow 2 (32 - w.bits) : Nat) := by
  have word : Nat.pow 2 (32 - Width.word.bits) = 0x100000 := rfl
  have long : Nat.pow 2 (32 - Width.long.bits) = 0x100 := rfl
  rw [asSigned, Width.signed]
  cases w <;> simp only [word, long, Width.signBit, Width.size, size32] <;> omega

theorem signed_eq (w : Width) (v : Nat) : signed w v = .ok (w.signed v) := by
  have room : w.bits ≤ 32 := by cases w <;> decide
  have near : 32 - w.bits < 32 := by cases w <;> decide
  have positive : ((Nat.pow 2 (32 - w.bits) : Nat) : Int) ≠ 0 := by cases w <;> decide
  rw [signed, sub_of_le room, ok_bind, shl_of_lt near, ok_bind, sar_of_lt near, asSigned_shifted,
    Int.mul_ediv_cancel _ positive]

def binary (op : BinaryOp) (w : Width) (a b : Nat) : Except Panic (Except Fault AluResult) := do
  let a := w.truncate a
  let b := w.truncate b
  match op with
  | .add => return .ok (.above w (← add size32 a b))
  | .sub => return .ok (.above w (← fitSigned (a - b)))
  | .mul => return .ok (.above w (← mul size64 a b))
  | .div =>
    if b = 0 then return .error .divideByZero else return .ok (.above w (← div a b))
  | .mod =>
    if b = 0 then return .error .divideByZero else return .ok (.above w (← rem a b))
  | .or => return .ok (.plain (a ||| b))
  | .xor => return .ok (.plain (a ^^^ b))
  | .and => return .ok (.plain (a &&& b))

def unary (op : UnaryOp) (w : Width) (a : Nat) (carry : Bool) : Except Panic AluResult := do
  let sign ← signBit w
  let a := w.truncate a
  let top := decide (sign ≤ a)
  let bottom := decide (a % 2 = 1)
  match op with
  | .neg => return .below w (← fitSigned (-a))
  | .not => return ⟨w.mask - a, some false⟩
  | .inc => return .above w (← add size32 a 1)
  | .dec => return .below w (← fitSigned (a - 1))
  | .shl => return ⟨w.truncate (← shl a 1), some top⟩
  | .shr => return ⟨← shr 32 a 1, some bottom⟩
  | .sar => return ⟨(← shr 32 a 1) + (if top then sign else 0), some bottom⟩
  | .rotLeft => return ⟨w.truncate (← shl a 1) + carry.toNat, some top⟩
  | .rotRight => return ⟨(← shr 32 a 1) + (if carry then sign else 0), some bottom⟩

def wideProduct (a b : Nat) : Except Panic AluResult := do
  return .above .long (← mul size32 (toWord a) (toWord b))

theorem size_le (w : Width) : w.size ≤ 0x1000000 := by cases w <;> decide

/-- Operands have 24 bits at most, and so has any divisor that is not zero. -/
theorem binary_eq (op : BinaryOp) (w : Width) (a b : Nat) :
    binary op w a b = .ok (op.apply w a b) := by
  have size := size_le w
  have ha := w.truncate_lt a
  have hb := w.truncate_lt b
  -- two longs multiply to 48 bits at most
  have product : w.truncate a * w.truncate b ≤ 0x1000000 * 0x1000000 :=
    Nat.mul_le_mul (by omega) (by omega)
  cases op with
  | add =>
    simp only [binary, BinaryOp.apply]
    rw [add_of_lt (by simp only [size32]; omega)]
    rfl
  | sub =>
    simp only [binary, BinaryOp.apply]
    rw [fitSigned_of_lt (by omega)]
    rfl
  | mul =>
    simp only [binary, BinaryOp.apply]
    rw [mul_of_lt (by simp only [size64]; omega)]
    rfl
  | div | mod =>
    simp only [binary, BinaryOp.apply]
    by_cases zero : w.truncate b = 0
    · rw [if_pos zero, if_pos zero]
      rfl
    · rw [if_neg zero, if_neg zero]
      first | rw [div_of_ne zero] | rw [rem_of_ne zero]
      rfl
  | or | xor | and => rfl

theorem truncate_shifted (w : Width) (a : Nat) :
    w.truncate (a * Nat.pow 2 1 % size32) = w.truncate (2 * a) := by
  have power : Nat.pow 2 1 = 2 := rfl
  cases w <;> simp only [power, Width.truncate, Width.size, size32] <;> omega

theorem unary_eq (op : UnaryOp) (w : Width) (a : Nat) (carry : Bool) :
    unary op w a carry = .ok (op.apply w a carry) := by
  have size := size_le w
  have lt := w.truncate_lt a
  simp only [unary, UnaryOp.apply]
  rw [signBit_eq, ok_bind]
  cases op with
  | neg | dec =>
    dsimp only
    rw [fitSigned_of_lt (by omega)]
    rfl
  | not => rfl
  | inc =>
    dsimp only
    rw [add_of_lt (by simp only [size32]; omega)]
    rfl
  | shl | rotLeft =>
    dsimp only
    rw [shl_of_lt (by decide), ok_bind, truncate_shifted]
    rfl
  | shr | sar | rotRight => rfl

theorem wideProduct_eq (a b : Nat) : wideProduct a b = .ok (TwelveBit.wideProduct a b) := by
  have product : toWord a * toWord b ≤ 0x1000 * 0x1000 :=
    Nat.mul_le_mul (Nat.le_of_lt (toWord_lt a)) (Nat.le_of_lt (toWord_lt b))
  rw [wideProduct, mul_of_lt (by simp only [size32]; omega)]
  rfl

open Guarded

abbrev Effect := Guarded Fault Cpu

def onMemory (x : Action Unit) : Effect Unit := fun c => do
  match ← x.run c.memory with
  | .ok () m => return .ok () { c with memory := m }
  | .error f m => return .error f { c with memory := m }

theorem onMemory_free (x : Memory.Action Unit) :
    onMemory (free x) = free (Cpu.onMemory x) := by
  apply ext_run
  intro c
  rw [run_free, Cpu.run_onMemory, run, onMemory, run_free, ok_bind]
  cases x.run c.memory <;> rfl

def push (v : Nat) : Effect Unit := do
  let sp := Memory.next (← free get).sp
  onMemory (write sp v)
  free (modify fun c => { c with sp := sp, highWater := max c.highWater sp })

def pushLong (v : Nat) : Effect Unit := do
  let (high, low) ← split v
  push high
  push low

def popLong : Effect Nat := do
  let low ← free Cpu.pop
  let high ← free Cpu.pop
  return ← join high low

def pushAt : Width → Nat → Effect Unit
  | .word, v => push v
  | .long, v => pushLong v

def popAt : Width → Effect Nat
  | .word => free Cpu.pop
  | .long => popLong

def readAt : Width → Nat → Effect Nat
  | .word, a => free (Cpu.read a)
  | .long, a => do
    let high ← free (Cpu.read a)
    let low ← free (Cpu.read (Memory.next a))
    return ← join high low

def writeAt : Width → Nat → Nat → Effect Unit
  | .word, a, v => onMemory (write a v)
  | .long, a, v => onMemory (writeLong a v)

def pushAll : List Nat → Effect Unit
  | [] => return ()
  | v :: vs => do
    push v
    pushAll vs

theorem push_eq (v : Nat) : push v = free (Cpu.push v) := by
  simp only [push, Cpu.push, write_eq, onMemory_free, free_bind_free]

theorem pushLong_eq (v : Nat) : pushLong v = free (Cpu.pushLong v) := by
  rw [pushLong, split_eq, lift_ok, free_pure_bind]
  simp only [push_eq, free_bind_free]
  rfl

theorem popLong_eq : popLong = free Cpu.popLong := by
  simp only [popLong, Cpu.popLong, join_eq, lift_ok, free_bind_free]

theorem pushAt_eq (w : Width) (v : Nat) : pushAt w v = free (Cpu.pushAt w v) := by
  cases w with
  | word => exact push_eq v
  | long => exact pushLong_eq v

theorem popAt_eq (w : Width) : popAt w = free (Cpu.popAt w) := by
  cases w with
  | word => rfl
  | long => exact popLong_eq

theorem readAt_eq (w : Width) (a : Nat) : readAt w a = free (Cpu.readAt w a) := by
  cases w with
  | word => rfl
  | long => simp only [readAt, Cpu.readAt, join_eq, lift_ok, free_bind_free]

theorem writeAt_eq (w : Width) (a v : Nat) : writeAt w a v = free (Cpu.writeAt w a v) := by
  cases w with
  | word => rw [writeAt, write_eq, onMemory_free, Cpu.writeAt]
  | long => rw [writeAt, writeLong_eq, onMemory_free, Cpu.writeAt]

theorem pushAll_eq (vs : List Nat) : pushAll vs = free (Cpu.pushAll vs) := by
  induction vs with
  | nil => rfl
  | cons v vs ih => rw [pushAll, push_eq, ih, free_bind_free, Cpu.pushAll]

def enter (ret locals : Nat) : Effect Unit := do
  let c ← free get
  let sp := c.sp
  let fp := c.fp
  pushLong ret
  pushLong fp
  push locals
  free (modify fun c => { c with fp := Memory.next sp })

def call (target ret : Nat) : Effect Nat := do
  let params ← free (Cpu.read target)
  let locals ← free (Cpu.read (Memory.next target))
  free (modify fun c => { c with sp := back (c.sp + locals) params })
  enter ret locals
  return toLong (target + 2)

def leave : Effect Nat := do
  let fp := (← free get).fp
  let locals ← free (Cpu.read (toLong (fp + 4)))
  let ret ← readAt .long fp
  let caller ← readAt .long (toLong (fp + 2))
  free (modify fun c => { c with sp := back fp (locals + 1), fp := caller })
  return ret

def interrupt (irq : Interrupt) (ret : Nat) : Effect Unit := do
  span 3 0 irq.args.length
  pushAll irq.args
  enter ret irq.args.length

theorem enter_eq (ret locals : Nat) : enter ret locals = free (Frame.enter ret locals) := by
  simp only [enter, Frame.enter, pushLong_eq, push_eq, free_bind_free]

theorem call_eq (target ret : Nat) : call target ret = free (Frame.call target ret) := by
  simp only [call, Frame.call, enter_eq, pure_eq_free, free_bind_free]

theorem leave_eq : leave = free Frame.leave := by
  simp only [leave, Frame.leave, readAt_eq, pure_eq_free, free_bind_free]

theorem interrupt_eq (irq : Interrupt) (ret : Nat) :
    interrupt irq ret = free (Frame.interrupt irq ret) := by
  have room : span 3 0 irq.args.length = .ok () := span_of_le (by have := irq.length_args; omega)
  rw [interrupt, room, lift_ok, free_pure_bind, pushAll_eq, enter_eq, free_bind_free,
    Frame.interrupt]

def finish (w : Width) (r : AluResult) : Effect Unit := do
  pushAt w r.value
  match r.carry with
  | some carry => free (modify fun c => { c with carry := carry })
  | none => return ()

def alu : AluOp → Effect Unit
  | .binary op w => do
    let b ← popAt w
    let a ← popAt w
    finish w (← free (TwelveBit.Effect.ofExcept (← binary op w a b)))
  | .unary op w => do
    let a ← popAt w
    finish w (← unary op w a (← free get).carry)
  | .wideMul => do
    let b ← free Cpu.pop
    let a ← free Cpu.pop
    finish .long (← wideProduct a b)
  | .widen => do
    finish .long (.plain (← free Cpu.pop))
  | .widenSigned => do
    finish .long (.plain ((← signed .word (← free Cpu.pop)) % 0x1000000).toNat)
  | .narrow => do
    finish .word (.plain (low (← popLong)))

def condition : Condition → Effect Bool
  | .always => return true
  | .zero w => return (← popAt w) = 0
  | .nonzero w => return (← popAt w) ≠ 0
  | .carry => return (← free get).carry
  | .noCarry => return !(← free get).carry
  | .positive w => return 0 < (← signed w (← popAt w))
  | .negative w => return (← signed w (← popAt w)) < 0
  | .nonnegative w => return 0 ≤ (← signed w (← popAt w))
  | .nonpositive w => return (← signed w (← popAt w)) ≤ 0
  | .equal => do
    let b ← free Cpu.pop
    let a ← free Cpu.pop
    return a = b
  | .different => do
    let b ← free Cpu.pop
    let a ← free Cpu.pop
    return a ≠ b

def jump (next : Nat) : Jump → Effect Nat
  | .absolute c target => return if ← condition c then target else next
  | .relative => do
    let distance ← signed .word (← free Cpu.pop)
    return ((next + distance) % 0x1000000).toNat

def plain (next : Nat) : PlainOp → Effect Nat
  | .pop w => do
    let _ ← popAt w
    return next
  | .dup w => do
    let v ← popAt w
    pushAt w v
    pushAt w v
    return next
  | .swap w => do
    let b ← popAt w
    let a ← popAt w
    pushAt w b
    pushAt w a
    return next
  | .dupSecond => do
    let b ← free Cpu.pop
    let a ← free Cpu.pop
    push a
    push b
    push a
    return next
  | .loadAt w => do
    let a ← popLong
    pushAt w (← readAt w a)
    return next
  | .storeAt w => do
    let v ← popAt w
    let a ← popLong
    writeAt w a v
    return next
  | .copy => do
    let len ← popLong
    let dst ← popLong
    let src ← popLong
    onMemory (copy src dst len)
    return next
  | .callAt => do call (← popLong) next
  | .ret => leave
  | .retWord => do
    let v ← free Cpu.pop
    let pc ← leave
    push v
    return pc
  | .retLong => do
    let v ← popLong
    let pc ← leave
    pushLong v
    return pc
  | .alu op => do
    alu op
    return next

def word (k : Nat) : WordOp → Effect Unit
  | .push => push k
  | .loadLocal w => do
    pushAt w (← readAt w (← free (Frame.localAddr k)))
  | .storeLocal w => do
    let a ← free (Frame.localAddr k)
    writeAt w a (← popAt w)
  | .addrLocal => do
    pushLong (← free (Frame.localAddr k))

def long (next v : Nat) : LongOp → Effect Nat
  | .push => do
    pushLong v
    return next
  | .load w => do
    pushAt w (← readAt w v)
    return next
  | .store w => do
    writeAt w v (← popAt w)
    return next
  | .call => call v next

def instruction (next : Nat) : Instruction → Effect Nat
  | .system _ => return next
  | .plain op => plain next op
  | .word op k => do
    word k op
    return next
  | .long op v => long next v op
  | .jump j => jump next j

theorem finish_eq (w : Width) (r : AluResult) : finish w r = free (AluOp.finish w r) := by
  rw [finish, AluOp.finish, pushAt_eq]
  cases r.carry <;> simp only [pure_eq_free, free_bind_free]

theorem alu_eq (op : AluOp) : alu op = free op.run := by
  cases op <;>
    simp only [alu, AluOp.run, popAt_eq, popLong_eq, binary_eq, unary_eq, wideProduct_eq,
      signed_eq, finish_eq, lift_ok, pure_bind, free_bind_free]

theorem condition_eq (c : Condition) : condition c = free c.holds := by
  cases c <;>
    simp only [condition, Condition.holds, popAt_eq, signed_eq, lift_ok, pure_bind,
      pure_eq_free, free_bind_free]

theorem jump_eq (next : Nat) (j : Jump) : jump next j = free (j.run next) := by
  cases j <;>
    simp only [jump, Jump.run, condition_eq, signed_eq, lift_ok, pure_bind, pure_eq_free,
      free_bind_free]

theorem plain_eq (next : Nat) (op : PlainOp) : plain next op = free (op.run next) := by
  cases op <;>
    simp only [plain, PlainOp.run, popAt_eq, pushAt_eq, readAt_eq, writeAt_eq, popLong_eq,
      pushLong_eq, push_eq, copy_eq, onMemory_free, call_eq, leave_eq, alu_eq, pure_eq_free,
      free_bind_free]

theorem word_eq (k : Nat) (op : WordOp) : word k op = free (op.run k) := by
  cases op <;>
    simp only [word, WordOp.run, popAt_eq, pushAt_eq, readAt_eq, writeAt_eq, pushLong_eq, push_eq,
      free_bind_free]

theorem long_eq (next v : Nat) (op : LongOp) : long next v op = free (op.run next v) := by
  cases op <;>
    simp only [long, LongOp.run, popAt_eq, pushAt_eq, readAt_eq, writeAt_eq, pushLong_eq, call_eq,
      pure_eq_free, free_bind_free]

/-- Whatever instruction it is, and whatever processor it finds. -/
theorem instruction_eq (next : Nat) (i : Instruction) :
    instruction next i = free (i.run next) := by
  cases i with
  | system op => rfl
  | plain op => exact plain_eq next op
  | word op k => simp only [instruction, Instruction.run, word_eq, pure_eq_free, free_bind_free]
  | long op v => exact long_eq next v op
  | jump j => exact jump_eq next j

end TwelveBit.Checked
