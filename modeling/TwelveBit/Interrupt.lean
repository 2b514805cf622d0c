import TwelveBit.Layout
/-!
Interrupts: where one comes from and the words it carries. Each source but `stop` has a handler,
whose place is fixed from the start of program memory.
-/
namespace TwelveBit

inductive Source where
  | stop
  | timer
  | vblank
  | keyboard
  | mouse
  deriving DecidableEq, Repr

namespace Source

def offset : Source → Nat
  | stop => 0x00
  | timer => 0x04
  | vblank => 0x08
  | keyboard => 0x0C
  | mouse => 0x10

def vector? (s : Source) (l : Layout) : Option Nat :=
  match s with
  | stop => none
  | s => some (l.romBase + s.offset)

theorem vector?_eq_none_iff {s : Source} {l : Layout} : s.vector? l = none ↔ s = .stop := by
  cases s <;> constructor <;> intro h <;> cases h <;> rfl

theorem vector?_eq_some {s : Source} {l : Layout} {vector : Nat}
    (h : s.vector? l = some vector) : vector = l.romBase + s.offset := by
  cases s <;> cases h <;> rfl

theorem vector?_of_ne_stop {s : Source} (h : s ≠ .stop) (l : Layout) :
    s.vector? l = some (l.romBase + s.offset) := by
  cases s with
  | stop => exact absurd rfl h
  | timer | vblank | keyboard | mouse => rfl

def name : Source → String
  | stop => "Stop"
  | timer => "Timer"
  | vblank => "VBlank"
  | keyboard => "Keyboard"
  | mouse => "Mouse"

end Source

structure Interrupt where
  source : Source
  args : List Nat
  length_args : args.length ≤ 3
  deriving DecidableEq, Repr

namespace Interrupt

def make (s : Source) (args : List Nat) : Interrupt :=
  ⟨s, args.take 3, List.length_take_le 3 args⟩

def stop : Interrupt := make .stop []

def timer : Interrupt := make .timer []

def vblank : Interrupt := make .vblank []

def key (code : Nat) (down : Bool) : Interrupt := make .keyboard [code, down.toNat]

def mouse (x y buttons : Nat) : Interrupt := make .mouse [x, y, buttons]

end Interrupt
end TwelveBit
