import TwelveBit.Memory
/-!
The screen. Each word of video memory is a pixel of three channels of four bits, red on top; rows
follow one another, and the words behind the last whole row are not shown.
-/
namespace TwelveBit

structure Pixel where
  red : Nat
  green : Nat
  blue : Nat
  deriving DecidableEq, Repr

def Pixel.expand (channel : Nat) : Nat := channel % 16 * 17

def Pixel.ofWord (w : Nat) : Pixel := ⟨expand (w / 256), expand (w / 16), expand w⟩

def Pixel.channels (p : Pixel) : List Nat := [p.red, p.green, p.blue]

structure Picture where
  width : Nat
  height : Nat
  pixels : Array Pixel
  deriving DecidableEq, Repr

namespace Picture

def capture (m : Memory) (width : Nat) : Picture :=
  let height := m.layout.vram / width
  ⟨width, height, (m.slice (m.layout.base .vram) (width * height)).map Pixel.ofWord⟩

def pixel? (p : Picture) (x y : Nat) : Option Pixel :=
  if x < p.width ∧ y < p.height then p.pixels[y * p.width + x]? else none

def rows (p : Picture) : List (List Pixel) :=
  (List.range p.height).map fun y => (p.pixels.extract (y * p.width) ((y + 1) * p.width)).toList

def bytes (p : Picture) : List Nat := p.rows.flatMap fun row => row.flatMap Pixel.channels

end Picture
end TwelveBit
