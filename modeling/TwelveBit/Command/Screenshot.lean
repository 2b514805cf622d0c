import TwelveBit.Screen
import TwelveBit.Quoted
/-!
Screenshots. The name of the file says in which format a picture is wanted; PNG is the only one
that can be written, and it has no picture without pixels.
-/
namespace TwelveBit.Command.Screenshot

inductive Format where
  | png
  | unsupported (name : String)
  | unrecognized (extension : String)
  | undetermined
  deriving DecidableEq, Repr

def fileName? (path : String) : Option String :=
  match ((path.splitOn "/").filter fun part => part ≠ "" ∧ part ≠ ".").getLast? with
  | some ".." => none
  | last => last

def extension? (path : String) : Option String := do
  let name := (← fileName? path).toList
  let ending := (name.reverse.takeWhile (· ≠ '.')).reverse
  if ending.length + 1 < name.length then some (String.ofList ending) else none

def Format.ofPath (path : String) : Format :=
  match extension? path with
  | none => .undetermined
  | some extension =>
    match String.ofList (extension.toList.map Char.toLower) with
    | "png" | "apng" => .png
    | "avif" => .unsupported "Avif"
    | "jpg" | "jpeg" | "jfif" => .unsupported "Jpeg"
    | "gif" => .unsupported "Gif"
    | "webp" => .unsupported "WebP"
    | "tif" | "tiff" => .unsupported "Tiff"
    | "tga" => .unsupported "Tga"
    | "dds" => .unsupported "Dds"
    | "bmp" => .unsupported "Bmp"
    | "ico" => .unsupported "Ico"
    | "hdr" => .unsupported "Hdr"
    | "exr" => .unsupported "OpenExr"
    | "pbm" | "pam" | "ppm" | "pgm" | "pnm" => .unsupported "Pnm"
    | "ff" => .unsupported "Farbfeld"
    | "qoi" => .unsupported "Qoi"
    | _ => .unrecognized extension

def Format.refusal? : Format → Option String
  | png | unsupported _ => none
  | unrecognized extension =>
    some ("The file extension `." ++ Quoted.encode extension ++
      "` was not recognized as an image format")
  | undetermined => some "The image format could not be determined"

def Format.objection? (f : Format) (p : Picture) : Option String :=
  match f with
  | unsupported name => some ("The image format `" ++ name ++ "` is not supported")
  | _ =>
    if p.width = 0 then some "Zero width not allowed"
    else if p.height = 0 then some "Zero height not allowed"
    else none

end TwelveBit.Command.Screenshot
