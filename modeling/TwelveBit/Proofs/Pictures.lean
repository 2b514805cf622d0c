import Mathlib.Tactic.TFAE
import TwelveBit.Proofs.WellFormed
import TwelveBit.Proofs.Checked.Screen
/-!
What a picture shows. Each place in it is a word of video memory, and each channel of its pixel
four bits of that word, so the words can be read off again. Of the words that no whole row holds
nothing is shown. The index of a pixel is found three times: when the picture is taken, when a
place in it is looked at, and when an image is made of it; all of them find the same word.
-/
namespace TwelveBit

namespace Pixel

def word (p : Pixel) : Nat := p.red / 17 * 0x100 + p.green / 17 * 0x10 + p.blue / 17

theorem word_ofWord {w : Nat} (h : w < 0x1000) : (ofWord w).word = w := by
  simp only [ofWord, expand, word]
  omega

end Pixel

namespace Picture
variable {m n : Memory} {p q : Picture} {width : Nat}

theorem height_capture_le (m : Memory) (width : Nat) : (capture m width).height ≤ 0x1000000 := by
  have space := m.layout.total_le
  have rows := Nat.div_le_self m.layout.vram width
  simp only [capture]
  omega

theorem pixels_capture (m : Memory) (width : Nat) :
    (capture m width).pixels =
      ((m.regionWords .vram).take (width * (m.layout.vram / width))).map Pixel.ofWord := by
  rw [Array.take_eq_extract,
    Checked.extract_regionWords (r := .vram) m (Nat.mul_div_le m.layout.vram width)]
  rfl

theorem pixel?_capture (m : Memory) (width x y : Nat) :
    (capture m width).pixel? x y =
      if x < width ∧ y < m.layout.vram / width then
        some (Pixel.ofWord (m.word (m.layout.base .vram + (y * width + x))))
      else none := by
  have framed := Checked.framed_capture m width
  by_cases inside : x < width ∧ y < m.layout.vram / width
  · have place := Checked.place_lt framed inside.1 inside.2
    rw [if_pos inside, framed.pixel?_of_lt inside.1 inside.2, ← Array.getElem_eq_getD (h := place)]
    simp only [capture, Memory.slice, Array.getElem_map, Array.getElem_extract]
    rw [Memory.word, Array.getElem_eq_getD 0]
  · exact (if_neg inside).trans (if_neg inside).symm

/-- The column and the row of a place, by its number. -/
theorem place_of_lt {width height i : Nat} (hi : i < width * height) :
    i % width < width ∧ i / width < height :=
  ⟨Nat.mod_lt i (Nat.pos_of_mul_pos_right (Nat.zero_lt_of_lt hi)), Nat.div_lt_of_lt_mul hi⟩

/-- A picture is made up of what can be seen of it. -/
theorem ext_pixel? (hp : Checked.Framed p) (hq : Checked.Framed q) (width : p.width = q.width)
    (height : p.height = q.height) (same : ∀ x y, p.pixel? x y = q.pixel? x y) : p = q := by
  have pixels : p.pixels = q.pixels := by
    refine Array.ext (by rw [hp.size, hq.size, width, height]) fun i hi hi' => ?_
    rw [hp.size] at hi
    obtain ⟨hx, hy⟩ := place_of_lt hi
    have shown := same (i % p.width) (i / p.width)
    rw [hp.pixel?_of_lt hx hy, hq.pixel?_of_lt (width ▸ hx) (height ▸ hy), ← width,
      Nat.div_add_mod'] at shown
    rw [Array.getElem_eq_getD, Array.getElem_eq_getD]
    exact Option.some.inj shown
  cases p
  cases q
  simp only at width height pixels
  rw [width, height, pixels]

/-- The words of which a picture shows anything can be read off it. -/
theorem words_capture (hm : m.Masked) (width : Nat) :
    (capture m width).pixels.map Pixel.word =
      (m.regionWords .vram).take (width * (m.layout.vram / width)) := by
  rw [pixels_capture, Array.map_map]
  refine (Array.map_congr_left fun w hw => ?_).trans (Array.map_id _)
  rw [Array.take_eq_extract, Array.mem_extract_iff_getElem] at hw
  obtain ⟨i, -, rfl⟩ := hw
  simp only [Memory.regionWords, Memory.slice, Array.getElem_extract]
  exact Pixel.word_ofWord (hm.getElem_lt _)

theorem capture_tfae (layout : n.layout = m.layout) (hm : m.Masked) (hn : n.Masked) (width : Nat) :
    [capture n width = capture m width,
      ∀ x y, (capture n width).pixel? x y = (capture m width).pixel? x y,
      (n.regionWords .vram).take (width * (m.layout.vram / width)) =
        (m.regionWords .vram).take (width * (m.layout.vram / width))].TFAE := by
  have height : (capture n width).height = (capture m width).height :=
    congrArg (Layout.vram · / width) layout
  tfae_have 1 → 2 := fun h x y => by rw [h]
  tfae_have 2 → 1 :=
    ext_pixel? (Checked.framed_capture n width) (Checked.framed_capture m width) rfl height
  tfae_have 1 → 3 := fun h => by
    rw [← words_capture hm, ← h, words_capture hn, layout]
  tfae_have 3 → 1 := fun h => by
    have pixels : (capture n width).pixels = (capture m width).pixels := by
      rw [pixels_capture, pixels_capture, layout, h]
    exact mk.injEq .. ▸ ⟨rfl, height, pixels⟩
  tfae_finish

/-- Row by row, the program itself finds what is seen at each place. -/
theorem rows_eq_pixel? (hp : Checked.Framed p) :
    p.rows.map (·.map some) =
      (List.range p.height).map fun y => (List.range p.width).map fun x => p.pixel? x y := by
  rw [rows, List.map_map]
  refine List.map_congr_left fun y hy => ?_
  rw [Function.comp_apply, ← Checked.row_eq hp (List.mem_range.1 hy), List.map_map]
  refine List.map_congr_left fun x hx => ?_
  exact (hp.pixel?_of_lt (List.mem_range.1 hx) (List.mem_range.1 hy)).symm

end Picture

/-- A library of images, by what is used of it. It makes an image of some size with a function that
gives the pixel of each place, or breaks off; and it tells what an image looks like. -/
structure ImageLibrary (Image : Type) where
  fromFn : Nat → Nat → (Nat → Nat → Except Panic Pixel) → Except Panic Image
  size : Image → Nat × Nat
  pixel? : Image → Nat → Nat → Option Pixel

namespace ImageLibrary
variable {Image : Type} {lib : ImageLibrary Image}

structure Draws (lib : ImageLibrary Image) (image : Image) (width height : Nat)
    (f : Nat → Nat → Pixel) : Prop where
  size_eq : lib.size image = (width, height)
  pixel?_eq : ∀ x y, lib.pixel? image x y = if x < width ∧ y < height then some (f x y) else none

/-- Where the function has a pixel for each place, and the bytes of them all can be addressed, they
make an image. -/
def Lawful (lib : ImageLibrary Image) : Prop :=
  ∀ width height f g, width < Checked.size32 → height < Checked.size32 →
    3 * width * height < 0x8000000000000000 →
    (∀ x < width, ∀ y < height, f x y = Except.ok (g x y)) →
    ∃ image, lib.fromFn width height f = .ok image ∧ lib.Draws image width height g

end ImageLibrary

def Checked.toImage {Image : Type} (lib : ImageLibrary Image) (p : Picture) :
    Except Panic Image :=
  lib.fromFn p.width p.height (pixelAt p)

namespace Picture
variable {Image : Type} {lib : ImageLibrary Image} {p : Picture}

theorem exists_toImage (lawful : lib.Lawful) (hp : Checked.Framed p)
    (hw : p.width < Checked.size32) (hh : p.height < Checked.size32) :
    ∃ image, Checked.toImage lib p = .ok image ∧ lib.size image = (p.width, p.height) ∧
      ∀ x y, lib.pixel? image x y = p.pixel? x y := by
  have small := hp.small
  have bytes : 3 * p.width * p.height < 0x8000000000000000 := by
    rw [Nat.mul_assoc]
    omega
  obtain ⟨image, made, draws⟩ := lawful p.width p.height _ _ hw hh bytes
    fun x hx y hy => Checked.pixelAt_eq hp hx hy
  refine ⟨image, made, draws.size_eq, fun x y => ?_⟩
  rw [draws.pixel?_eq]
  by_cases inside : x < p.width ∧ y < p.height
  · rw [if_pos inside, hp.pixel?_of_lt inside.1 inside.2]
  · exact (if_neg inside).trans (if_neg inside).symm

def drawn (width height : Nat) (f : Nat → Nat → Pixel) : Picture :=
  ⟨width, height, ((List.range (width * height)).map fun i => f (i % width) (i / width)).toArray⟩

theorem pixel?_drawn (width height : Nat) (f : Nat → Nat → Pixel) (x y : Nat) :
    (drawn width height f).pixel? x y = if x < width ∧ y < height then some (f x y) else none := by
  by_cases inside : x < width ∧ y < height
  · have place := Checked.place_lt_mul inside.1 inside.2
    -- the number of a place gives back its column and its row
    obtain ⟨row, column⟩ := (Nat.div_mod_unique (Nat.zero_lt_of_lt inside.1)).2
      ⟨show x + width * y = y * width + x by rw [Nat.mul_comm, Nat.add_comm], inside.1⟩
    rw [drawn, pixel?, if_pos inside, List.getElem?_toArray, List.getElem?_map,
      List.getElem?_range place, Option.map_some, row, column, if_pos inside]
  · exact (if_neg inside).trans (if_neg inside).symm

def library : ImageLibrary Picture where
  fromFn width height f := do
    let pixels ← (List.range (width * height)).mapM fun i => f (i % width) (i / width)
    return ⟨width, height, pixels.toArray⟩
  size p := (p.width, p.height)
  pixel? p := p.pixel?

theorem library_lawful : library.Lawful := by
  intro width height f g _ _ _ hf
  have each (i : Nat) (hi : i ∈ List.range (width * height)) :
      f (i % width) (i / width) = .ok (g (i % width) (i / width)) := by
    obtain ⟨hx, hy⟩ := place_of_lt (List.mem_range.1 hi)
    exact hf _ hx _ hy
  refine ⟨drawn width height g, ?_, rfl, pixel?_drawn width height g⟩
  simp only [library, Checked.mapM_of_ok each]
  rfl

/-- A picture has the size that was asked for and as many rows as video memory fills; a place in it
shows the three channels of the word that lies there. So does the image made of it, whichever lawful
library makes it, and so do the rows the program writes out. Nothing else goes into a picture, and
no word it shows is lost: two memories make the same picture just if these words are the same. -/
theorem captured_pictures_show_video_memory {Image : Type} {lib : ImageLibrary Image}
    (lawful : lib.Lawful) (m : Memory) {width : Nat} (hw : width < 0x100000000) :
    ∃ p image, capture m width = p ∧ Checked.capture m width = .ok p ∧
      (p.width, p.height) = (if width = 0 then (0, 0) else (width, m.layout.vram / width)) ∧
      (∀ x y, Checked.pixel? p x y = .ok (p.pixel? x y) ∧
        p.pixel? x y =
          if x < p.width ∧ y < p.height then
            let w := m.word (m.layout.base .vram + (y * width + x))
            some ⟨17 * (w / 0x100 % 0x10), 17 * (w / 0x10 % 0x10), 17 * (w % 0x10)⟩
          else none) ∧
      Checked.toImage lib p = .ok image ∧ lib.size image = (p.width, p.height) ∧
      (∀ x y, lib.pixel? image x y = p.pixel? x y) ∧
      p.rows.map (·.map some) =
        (List.range p.height).map (fun y => (List.range p.width).map fun x => p.pixel? x y) ∧
      ∀ n : Memory, n.layout = m.layout → m.Masked → n.Masked →
        [capture n width = p, ∀ x y, (capture n width).pixel? x y = p.pixel? x y,
          (n.regionWords .vram).take (p.width * p.height) =
            (m.regionWords .vram).take (p.width * p.height)].TFAE := by
  have framed := Checked.framed_capture m width
  have low := height_capture_le m width
  obtain ⟨image, made, size, shown⟩ :=
    exists_toImage lawful framed hw (Nat.lt_of_le_of_lt low (by decide))
  refine ⟨capture m width, image, rfl, Checked.capture_eq m width, ?_,
    fun x y => ⟨Checked.pixel?_eq framed x y, ?_⟩, made, size, shown, rows_eq_pixel? framed,
    fun n layout hm hn => capture_tfae layout hm hn width⟩
  · by_cases h0 : width = 0
    · subst h0
      rw [if_pos rfl, capture, Nat.div_zero]
    · rw [if_neg h0, capture]
  · simp only [pixel?_capture, Pixel.ofWord, Pixel.expand, Nat.mul_comm 17]
    rfl

/-- Of three words a picture two pixels wide shows the first two. -/
theorem two_words_of_three_are_shown :
    let l : Layout := ⟨1, 0, 3, 0, by decide⟩
    let m := ((Memory.zero l).put 1 0x123).put 2 0xF0F
    library.Lawful ∧ 2 < 0x100000000 ∧ m.Masked ∧ (m.put 3 0xABC).Masked ∧
      (∃ image, Checked.toImage library (capture m 2) = .ok image ∧
        library.size image = (2, 1) ∧ library.pixel? image 0 0 = some ⟨0x11, 0x22, 0x33⟩ ∧
        library.pixel? image 1 0 = some ⟨0xFF, 0, 0xFF⟩ ∧ library.pixel? image 0 1 = none) ∧
      capture (m.put 3 0xABC) 2 = capture m 2 ∧ (m.put 3 0xABC).word 3 ≠ m.word 3 := by
  intro l m
  have hm : m.Masked :=
    ((Memory.masked_zero l).set 1 (Or.inl (by decide))).set 2 (Or.inl (by decide))
  have hn : (m.put 3 0xABC).Masked := hm.set 3 (Or.inl (by decide))
  obtain ⟨p, image, rfl, -, size, look, made, sized, shown, -, tell⟩ :=
    captured_pictures_show_video_memory library_lawful m (show 2 < 0x100000000 by decide)
  refine ⟨library_lawful, by decide, hm, hn, ⟨image, made, ?_, ?_, ?_, ?_⟩, ?_, by decide⟩
  · exact sized.trans (size.trans (by decide))
  · exact (shown 0 0).trans ((look 0 0).2.trans (by decide))
  · exact (shown 1 0).trans ((look 1 0).2.trans (by decide))
  · exact (shown 0 1).trans ((look 0 1).2.trans (by decide))
  · exact ((tell (m.put 3 0xABC) rfl hm hn).out 0 2).2 (by decide)

end Picture
end TwelveBit
