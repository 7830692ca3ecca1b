import AbiBindings.Text.Basic

/-!
UTF-8, both ways. A text with a surrogate has no UTF-8 form, and the refusal names the first run
of surrogates. Reading refuses the first sequence that is no code point and says how far it was
well formed: overlong forms, surrogates and numbers from `0x110000` on fail at their second byte,
whose range depends on the first.
-/

namespace AbiBindings.Text

/-- The first run of surrogates in a text: its positions from `start` up to but not including
`stop`, and the surrogate it starts with. -/
structure Unencodable where
  start : Nat
  stop : Nat
  first : CodePoint
deriving DecidableEq, Repr

namespace Unencodable

/-- Names one position, or the first and last of several. -/
def message (e : Unencodable) : Text :=
  if e.stop = e.start + 1 then
    "'utf-8' codec can't encode character '\\u" ++ ofHex 4 e.first.val ++ "' in position " ++
      ofNat e.start ++ ": surrogates not allowed"
  else
    "'utf-8' codec can't encode characters in position " ++ ofNat e.start ++ "-" ++
      ofNat (e.stop - 1) ++ ": surrogates not allowed"

end Unencodable

/-- The bytes of one code point, one to four of them by its size. -/
def encodeOne (c : CodePoint) : List UInt8 :=
  if c.val < 0x80 then [c.val.toUInt8]
  else if c.val < 0x800 then [(0xC0 + c.val / 0x40).toUInt8, (0x80 + c.val % 0x40).toUInt8]
  else if c.val < 0x10000 then
    [(0xE0 + c.val / 0x1000).toUInt8, (0x80 + c.val / 0x40 % 0x40).toUInt8,
      (0x80 + c.val % 0x40).toUInt8]
  else
    [(0xF0 + c.val / 0x40000).toUInt8, (0x80 + c.val / 0x1000 % 0x40).toUInt8,
      (0x80 + c.val / 0x40 % 0x40).toUInt8, (0x80 + c.val % 0x40).toUInt8]

def unencodableFrom : (start : Nat) → Text → Option Unencodable
  | _, [] => none
  | start, c :: rest =>
    if c.isSurrogate then
      some ⟨start, start + 1 + (rest.takeWhile CodePoint.isSurrogate).length, c⟩
    else unencodableFrom (start + 1) rest

/-- Whether every code point has a UTF-8 form. -/
def isEncodable (t : Text) : Bool := t.all fun c => !c.isSurrogate

/-- The UTF-8 form of a text, unless it holds a surrogate. -/
def encode (t : Text) : Except Unencodable (List UInt8) :=
  match unencodableFrom 0 t with
  | some e => .error e
  | none => .ok (t.flatMap encodeOne)

inductive MalformedSequence where
  | invalidStart
  | invalidContinuation
  | unexpectedEnd
deriving DecidableEq, Repr

/-- The first malformed sequence of some bytes: its position, and as many of its bytes as are the
beginning of a well-formed one. -/
structure Undecodable where
  start : Nat
  bytes : List UInt8
  reason : MalformedSequence
deriving DecidableEq, Repr

def MalformedSequence.message : MalformedSequence → Text
  | invalidStart => "invalid start byte"
  | invalidContinuation => "invalid continuation byte"
  | unexpectedEnd => "unexpected end of data"

/-- Names one byte and its position, or the first and last position of several. -/
def Undecodable.message (e : Undecodable) : Text :=
  match e.bytes with
  | [b] =>
    "'utf-8' codec can't decode byte 0x" ++ ofHex 2 b.toNat ++ " in position " ++
      ofNat e.start ++ ": " ++ e.reason.message
  | bytes =>
    "'utf-8' codec can't decode bytes in position " ++ ofNat e.start ++ "-" ++
      ofNat (e.start + bytes.length - 1) ++ ": " ++ e.reason.message

/-- What a byte at the start of a sequence announces: how many bytes follow, and between which
bounds the next one lies. -/
structure Lead where
  following : Nat
  low : UInt8
  high : UInt8
deriving DecidableEq, Repr

def Lead.ofByte? (b : UInt8) : Option Lead :=
  if b < 0x80 then some ⟨0, 0, 0⟩
  else if b < 0xC2 then none
  else if b < 0xE0 then some ⟨1, 0x80, 0xBF⟩
  else if b = 0xE0 then some ⟨2, 0xA0, 0xBF⟩
  else if b = 0xED then some ⟨2, 0x80, 0x9F⟩
  else if b < 0xF0 then some ⟨2, 0x80, 0xBF⟩
  else if b = 0xF0 then some ⟨3, 0x90, 0xBF⟩
  else if b < 0xF4 then some ⟨3, 0x80, 0xBF⟩
  else if b = 0xF4 then some ⟨3, 0x80, 0x8F⟩
  else none

/-- Whether a byte lies within the bounds announced for the second byte. -/
def Lead.admits (lead : Lead) (b : UInt8) : Bool := decide (lead.low ≤ b) && decide (b ≤ lead.high)

/-- A byte that may stand third or fourth. -/
def isContinuation (b : UInt8) : Bool := decide (0x80 ≤ b) && decide (b ≤ 0xBF)

def decodeFrom (start : Nat) : List UInt8 → Except Undecodable Text
  | [] => .ok []
  | b :: rest =>
    match Lead.ofByte? b with
    | none => .error ⟨start, [b], .invalidStart⟩
    | some lead =>
      if lead.following = 0 then do
        return CodePoint.ofNat b.toNat :: (← decodeFrom (start + 1) rest)
      else
        match rest with
        | [] => .error ⟨start, [b], .unexpectedEnd⟩
        | c :: rest =>
          if !lead.admits c then .error ⟨start, [b], .invalidContinuation⟩
          else if lead.following = 1 then do
            return CodePoint.ofNat (b.toNat % 0x20 * 0x40 + c.toNat % 0x40) ::
              (← decodeFrom (start + 2) rest)
          else
            match rest with
            | [] => .error ⟨start, [b, c], .unexpectedEnd⟩
            | d :: rest =>
              if !isContinuation d then .error ⟨start, [b, c], .invalidContinuation⟩
              else if lead.following = 2 then do
                return CodePoint.ofNat
                  (b.toNat % 0x10 * 0x1000 + c.toNat % 0x40 * 0x40 + d.toNat % 0x40) ::
                    (← decodeFrom (start + 3) rest)
              else
                match rest with
                | [] => .error ⟨start, [b, c, d], .unexpectedEnd⟩
                | e :: rest =>
                  if !isContinuation e then .error ⟨start, [b, c, d], .invalidContinuation⟩
                  else do
                    return CodePoint.ofNat
                      (b.toNat % 8 * 0x40000 + c.toNat % 0x40 * 0x1000 + d.toNat % 0x40 * 0x40 +
                        e.toNat % 0x40) :: (← decodeFrom (start + 4) rest)

def decode (bytes : List UInt8) : Except Undecodable Text := decodeFrom 0 bytes

/-- Line ends written as `"\n"`, in a text that follows a carriage return or does not. -/
def unifyLineEndsAfter : (afterReturn : Bool) → Text → Text
  | _, [] => []
  | afterReturn, c :: rest =>
    if c = '\r' then '\n' :: unifyLineEndsAfter true rest
    else if afterReturn && c = '\n' then unifyLineEndsAfter false rest
    else c :: unifyLineEndsAfter false rest

/-- The text with every line end, `"\r\n"` and `"\r"` included, written as `"\n"`. -/
def unifyLineEnds (t : Text) : Text := unifyLineEndsAfter false t

end AbiBindings.Text
