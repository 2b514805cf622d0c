import TwelveBit.Proofs.Checked.Memory
/-!
Checked pictures. A channel fits into a byte, the rows of a captured picture into the video memory
it was captured from, and so every place in it is one of a pixel that is there.
-/
namespace TwelveBit.Checked

def expand (channel : Nat) : Except Panic Nat := mul size8 (channel % 16) 17

def pixel (w : Nat) : Except Panic Pixel := do
  return ⟨← expand (← shr 16 w 8), ← expand (← shr 16 w 4), ← expand w⟩

def rowsOf (size width : Nat) : Except Panic Nat := if width = 0 then return 0 else div size width

def capture (m : Memory) (width : Nat) : Except Panic Picture := do
  let vram ← regionWords m .vram
  let height ← rowsOf vram.size width
  let size ← mul size32 width height
  span vram.size 0 size
  let pixels ← (vram.extract 0 size).toList.mapM pixel
  return ⟨width, height, pixels.toArray⟩

theorem expand_eq (channel : Nat) : expand channel = .ok (Pixel.expand channel) :=
  mul_of_lt (by simp only [size8]; omega)

theorem pixel_eq (w : Nat) : pixel w = .ok (Pixel.ofWord w) := by
  rw [pixel, shr_of_lt (by decide), ok_bind, expand_eq, ok_bind, shr_of_lt (by decide), ok_bind,
    expand_eq, ok_bind, expand_eq]
  rfl

theorem rowsOf_eq (size width : Nat) : rowsOf size width = .ok (size / width) := by
  rw [rowsOf]
  by_cases h : width = 0
  · subst h
    rw [if_pos rfl, Nat.div_zero]
    rfl
  · rw [if_neg h, div_of_ne h]

theorem size_regionWords (m : Memory) (r : Region) :
    (m.regionWords r).size = m.layout.size r := by
  have le := base_add_size m.layout r
  have all := m.size_words
  rw [Memory.regionWords, Memory.slice, Array.size_extract]
  omega

/-- The first words of a region are those from its base on. -/
theorem extract_regionWords (m : Memory) {r : Region} {k : Nat} (h : k ≤ m.layout.size r) :
    (m.regionWords r).extract 0 k = m.slice (m.layout.base r) k := by
  simp only [Memory.regionWords, Memory.slice, Array.extract_extract]
  congr 1
  omega

theorem capture_eq (m : Memory) (width : Nat) :
    capture m width = .ok (Picture.capture m width) := by
  have space := total_lt m.layout
  have size := size_regionWords m .vram
  simp only [Layout.size] at size
  have whole := Nat.mul_div_le m.layout.vram width
  rw [capture, regionWords_eq, ok_bind, size, rowsOf_eq, ok_bind, mul_of_lt (by omega), ok_bind,
    span_of_le (by omega), ok_bind, mapM_of_ok fun w _ => pixel_eq w, ok_bind,
    extract_regionWords m whole]
  simp only [Picture.capture, ← Array.toList_map, Array.toArray_toList]
  rfl

def place (p : Picture) (x y : Nat) : Except Panic Nat := do
  add size32 (← mul size32 y p.width) x

def pixelAt (p : Picture) (x y : Nat) : Except Panic Pixel := do index p.pixels (← place p x y)

def pixel? (p : Picture) (x y : Nat) : Except Panic (Option Pixel) :=
  if x < p.width ∧ y < p.height then do return some (← pixelAt p x y) else return none

def rows (p : Picture) : Except Panic (List (List Pixel)) := do
  let _ ← mul size64 (← mul size64 3 p.width) p.height
  (List.range p.height).mapM fun y => (List.range p.width).mapM fun x => pixelAt p x y

structure Framed (p : Picture) : Prop where
  size : p.pixels.size = p.width * p.height
  small : p.width * p.height ≤ 0x1000000

theorem framed_capture (m : Memory) (width : Nat) : Framed (Picture.capture m width) := by
  have space := m.layout.total_le
  have inner := base_add_size m.layout .vram
  have whole := Nat.mul_div_le m.layout.vram width
  have all := m.size_words
  simp only [Layout.size] at inner
  constructor
  · simp only [Picture.capture, Memory.slice, Array.size_map, Array.size_extract]
    omega
  · simp only [Picture.capture]
    omega

/-- Rows follow one another, and all of them have one width. -/
theorem place_lt_mul {x y width height : Nat} (hx : x < width) (hy : y < height) :
    y * width + x < width * height := by
  have row : (y + 1) * width ≤ height * width := Nat.mul_le_mul_right width hy
  rw [Nat.mul_comm width]
  rw [Nat.succ_mul] at row
  omega

section Places
variable {p : Picture} (h : Framed p) {x y : Nat} (hx : x < p.width) (hy : y < p.height)
include h hx hy

theorem place_lt : y * p.width + x < p.pixels.size := h.size ▸ place_lt_mul hx hy

theorem pixelAt_eq : pixelAt p x y = .ok (p.pixels.getD (y * p.width + x) ⟨0, 0, 0⟩) := by
  have lt := place_lt h hx hy
  have small := h.small
  have size := h.size
  rw [pixelAt, place, mul_of_lt (by simp only [size32]; omega), ok_bind,
    add_of_lt (by simp only [size32]; omega), ok_bind, index_of_lt lt]

theorem Framed.pixel?_of_lt :
    p.pixel? x y = some (p.pixels.getD (y * p.width + x) ⟨0, 0, 0⟩) := by
  have there := place_lt h hx hy
  rw [Picture.pixel?, if_pos ⟨hx, hy⟩, Array.getElem?_eq_getElem there, Array.getElem_eq_getD]

end Places

variable {p : Picture} (h : Framed p)
include h

theorem pixel?_eq (x y : Nat) : pixel? p x y = .ok (p.pixel? x y) := by
  rw [pixel?]
  by_cases inside : x < p.width ∧ y < p.height
  · rw [if_pos inside, pixelAt_eq h inside.1 inside.2, ok_bind, h.pixel?_of_lt inside.1 inside.2]
    rfl
  · rw [if_neg inside, Picture.pixel?, if_neg inside]
    rfl

theorem row_eq {y : Nat} (hy : y < p.height) :
    (List.range p.width).map (fun x => p.pixels.getD (y * p.width + x) ⟨0, 0, 0⟩) =
      (p.pixels.extract (y * p.width) ((y + 1) * p.width)).toList := by
  have fits : (y + 1) * p.width ≤ p.pixels.size := by
    rw [h.size, Nat.mul_comm p.width]
    exact Nat.mul_le_mul_right p.width hy
  rw [Nat.succ_mul] at fits ⊢
  apply List.ext_getElem
  · simp only [List.length_map, List.length_range, Array.length_toList, Array.size_extract]
    omega
  · intro x hx _
    have column : x < p.width := by simpa only [List.length_map, List.length_range] using hx
    simp only [List.getElem_map, List.getElem_range, Array.getElem_toList, Array.getElem_extract]
    rw [Array.getElem_eq_getD]

theorem rows_eq (hw : p.width < size32) : rows p = .ok p.rows := by
  have small := h.small
  simp only [size32] at hw
  have bytes : 3 * p.width * p.height < size64 := by
    rw [Nat.mul_assoc]
    simp only [size64]
    omega
  have each (y : Nat) (hy : y ∈ List.range p.height) :
      ((List.range p.width).mapM fun x => pixelAt p x y) =
        .ok (p.pixels.extract (y * p.width) ((y + 1) * p.width)).toList := by
    have hy := List.mem_range.1 hy
    rw [mapM_of_ok fun x hx => pixelAt_eq h (List.mem_range.1 hx) hy, row_eq h hy]
  rw [rows, mul_of_lt (by simp only [size64]; omega), ok_bind, mul_of_lt bytes, ok_bind,
    mapM_of_ok each]
  rfl

end TwelveBit.Checked
