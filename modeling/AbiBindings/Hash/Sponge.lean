import AbiBindings.Hash.Permutation
import AbiBindings.Text.Basic

/-!
The two 256-bit hashes of the program, as one sponge with two paddings. A message is padded to
whole blocks, every block is added to the lanes and followed by the permutation, and the first
four lanes are the digest. Signatures are hashed with the padding byte `0x01` and fingerprints
with `0x06`; nothing else differs.
-/

namespace AbiBindings.Hash

def blockSize : Nat := 136

/-- What follows a message of `length` bytes: the padding byte, zeros, and a last byte with its
top bit set, up to the next whole block. A single byte of padding is both first and last. -/
def padding (first : UInt8) (length : Nat) : List UInt8 :=
  let free := blockSize - length % blockSize
  if free = 1 then [first ||| 0x80]
  else first :: List.replicate (free - 2) 0 ++ [0x80]

/-- The word of up to eight bytes, the least significant first. -/
def wordOfBytes (bytes : List UInt8) : UInt64 :=
  bytes.foldr (fun byte word => (word <<< 8) ||| byte.toUInt64) 0

def wordsOfBlock (block : List UInt8) : List UInt64 :=
  (List.range (blockSize / 8)).map fun i => wordOfBytes ((block.drop (8 * i)).take 8)

def absorbBlocks : (count : Nat) → Lanes → List UInt8 → Lanes
  | 0, lanes, _ => lanes
  | count + 1, lanes, bytes =>
    absorbBlocks count (lanes.absorb (wordsOfBlock (bytes.take blockSize))).permute
      (bytes.drop blockSize)

/-- The eight bytes of a word, the least significant first. -/
def bytesOfWord (word : UInt64) : List UInt8 :=
  (List.range 8).map fun i => (word >>> (8 * i).toUInt64).toUInt8

def digest (first : UInt8) (message : List UInt8) : List UInt8 :=
  let padded := message ++ padding first message.length
  let lanes := absorbBlocks (padded.length / blockSize) Lanes.zero padded
  (lanes.take 4).flatMap bytesOfWord

def keccak256 (message : List UInt8) : List UInt8 := digest 0x01 message

def sha3 (message : List UInt8) : List UInt8 := digest 0x06 message

/-- Every byte as two lower-case hexadecimal digits. -/
def hexOfBytes (bytes : List UInt8) : Text := bytes.flatMap fun byte => Text.ofHex 2 byte.toNat

end AbiBindings.Hash
