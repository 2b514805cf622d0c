import TwelveBit.Screen
/-!
Pictures as PNG files: a header, the rows in stored blocks of a compressed stream, and an end
mark, each chunk with its checksum.
-/
namespace TwelveBit.Png

def bigEndian (n : Nat) : List UInt8 :=
  [UInt8.ofNat (n / 0x1000000), UInt8.ofNat (n / 0x10000), UInt8.ofNat (n / 0x100), UInt8.ofNat n]

def crcByte (crc : UInt32) (b : UInt8) : UInt32 :=
  (List.range 8).foldl (fun c _ => if c &&& 1 = 1 then (c >>> 1) ^^^ 0xEDB88320 else c >>> 1)
    (crc ^^^ b.toUInt32)

def crc (bytes : List UInt8) : UInt32 := bytes.foldl crcByte 0xFFFFFFFF ^^^ 0xFFFFFFFF

def adler (bytes : List UInt8) : Nat :=
  let (a, b) := bytes.foldl (fun (a, b) byte =>
    let a := (a + byte.toNat) % 65521
    (a, (b + a) % 65521)) (1, 0)
  b * 0x10000 + a

def chunk (kind : String) (body : List UInt8) : List UInt8 :=
  let tagged := kind.toUTF8.toList ++ body
  bigEndian body.length ++ tagged ++ bigEndian (crc tagged).toNat

def storedBlock (last : Bool) (bytes : List UInt8) : List UInt8 :=
  let len := bytes.length
  [if last then 1 else 0, UInt8.ofNat len, UInt8.ofNat (len / 256),
    UInt8.ofNat (65535 - len), UInt8.ofNat ((65535 - len) / 256)] ++ bytes

def storedBlocks (bytes : List UInt8) : List UInt8 :=
  if bytes.length ≤ 65535 then storedBlock true bytes
  else storedBlock false (bytes.take 65535) ++ storedBlocks (bytes.drop 65535)
termination_by bytes.length
decreasing_by
  rw [List.length_drop]
  omega

def compressed (bytes : List UInt8) : List UInt8 :=
  [0x78, 0x01] ++ storedBlocks bytes ++ bigEndian (adler bytes)

def scanlines (p : Picture) : List UInt8 :=
  p.rows.flatMap fun row => 0 :: row.flatMap fun c => c.channels.map UInt8.ofNat

def encode (p : Picture) : List UInt8 :=
  [0x89, 0x50, 0x4E, 0x47, 0x0D, 0x0A, 0x1A, 0x0A] ++
    chunk "IHDR" (bigEndian p.width ++ bigEndian p.height ++ [8, 2, 0, 0, 0]) ++
    chunk "IDAT" (compressed (scanlines p)) ++ chunk "IEND" []

end TwelveBit.Png
