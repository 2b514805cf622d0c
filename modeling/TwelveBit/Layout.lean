import TwelveBit.Fault
/-!
The four regions of memory, one behind the other: working memory, graphics registers, video
memory and program memory. A layout is their sizes; together they fit into 24-bit addresses.
-/
namespace TwelveBit

inductive Region where
  | ram
  | gram
  | vram
  | rom
  deriving DecidableEq, Repr

def Region.all : List Region := [.ram, .gram, .vram, .rom]

structure Layout where
  ram : Nat
  gram : Nat
  vram : Nat
  rom : Nat
  total_le : ram + gram + vram + rom ≤ 0x1000000
  deriving DecidableEq, Repr

namespace Layout

def make (ram gram vram rom : Nat) : Except LoadError Layout :=
  if h : ram + gram + vram + rom ≤ 0x1000000 then .ok ⟨ram, gram, vram, rom, h⟩
  else .error (.layoutTooLarge (ram + gram + vram + rom))

def standard : Layout := ⟨0x10000, 0x40, 320 * 240, 0x10000, by decide⟩

def size (l : Layout) : Region → Nat
  | .ram => l.ram
  | .gram => l.gram
  | .vram => l.vram
  | .rom => l.rom

def base (l : Layout) : Region → Nat
  | .ram => 0
  | .gram => l.ram
  | .vram => l.ram + l.gram
  | .rom => l.ram + l.gram + l.vram

def romBase (l : Layout) : Nat := l.base .rom

def total (l : Layout) : Nat := l.ram + l.gram + l.vram + l.rom

def region? (l : Layout) (addr : Nat) : Option Region :=
  Region.all.find? fun r => l.base r ≤ addr ∧ addr < l.base r + l.size r

theorem romBase_add_rom (l : Layout) : l.romBase + l.rom = l.total := rfl

theorem romBase_le_total (l : Layout) : l.romBase ≤ l.total := Nat.le_add_right _ _

theorem total_le_space (l : Layout) : l.total ≤ 0x1000000 := l.total_le

end Layout
end TwelveBit
