import AbiBindings.Disk.Path
import AbiBindings.Fault

/-!
Texts as the names of files. A name is a sequence of bytes, of which none is zero. The surrogates
`U+DC80` to `U+DCFF` stand for one byte each, so that every name has a text; all else is in UTF-8,
and the other surrogates have no place in a name. Both a name and a whole path have a limit.
-/

namespace AbiBindings.FileName

def nameLimit : Nat := 255

def pathLimit : Nat := 4095

def isByteEscape (c : CodePoint) : Bool := decide (0xDC80 ≤ c.val) && decide (c.val ≤ 0xDCFF)

def encodeOne (c : CodePoint) : List UInt8 :=
  if isByteEscape c then [(c.val - 0xDC00).toUInt8] else Text.encodeOne c

def width (t : Text) : Nat := (t.flatMap encodeOne).length

/-- The first run of surrogates that starts with one that stands for no byte, in a text that starts
at position `start`. -/
def unencodableFrom : (start : Nat) → Text → Option Text.Unencodable
  | _, [] => none
  | start, c :: rest =>
    if c.isSurrogate && !isByteEscape c then
      some ⟨start, start + 1 + (rest.takeWhile CodePoint.isSurrogate).length, c⟩
    else unencodableFrom (start + 1) rest

def check (t : Text) : Except Fault Unit :=
  match unencodableFrom 0 t with
  | some place => .error (.unencodable place)
  | none => if t.any fun c => c.val == 0 then .error .zeroInPath else .ok ()

end AbiBindings.FileName
