/-!
The permutation of 1600 bits behind both hashes: 25 lanes of 64 bits in five rows of five, put
through 24 rounds. A round adds column parities (θ), rotates and moves the lanes (ρ and π), mixes
each row (χ) and adds a constant to the first lane (ι).
-/

namespace AbiBindings.Hash

/-- The 25 lanes, the lane in column `x` of row `y` at index `x + 5 * y`. -/
abbrev Lanes := List UInt64

namespace Lanes

def zero : Lanes := List.replicate 25 0

/-- The lane in a column of a row, both taken modulo five. -/
def lane (lanes : Lanes) (x y : Nat) : UInt64 := lanes.getD (x % 5 + 5 * (y % 5)) 0

def ofFn (f : (x y : Nat) → UInt64) : Lanes :=
  (List.range 25).map fun i => f (i % 5) (i / 5)

/-- The bits moved up by `n`, those that leave at the top coming in at the bottom. -/
def rotate (word : UInt64) (n : UInt64) : UInt64 := (word <<< n) ||| (word >>> (64 - n))

/-- How far each lane is rotated, by its index. -/
def rotations : List UInt64 :=
  [0, 1, 62, 28, 27, 36, 44, 6, 55, 20, 3, 10, 43, 25, 39, 41, 45, 15, 21, 8, 18, 2, 61, 56, 14]

def roundConstants : List UInt64 :=
  [0x0000000000000001, 0x0000000000008082, 0x800000000000808A, 0x8000000080008000,
   0x000000000000808B, 0x0000000080000001, 0x8000000080008081, 0x8000000000008009,
   0x000000000000008A, 0x0000000000000088, 0x0000000080008009, 0x000000008000000A,
   0x000000008000808B, 0x800000000000008B, 0x8000000000008089, 0x8000000000008003,
   0x8000000000008002, 0x8000000000000080, 0x000000000000800A, 0x800000008000000A,
   0x8000000080008081, 0x8000000000008080, 0x0000000080000001, 0x8000000080008008]

def columnParities (lanes : Lanes) : List UInt64 :=
  (List.range 5).map fun x =>
    lanes.lane x 0 ^^^ lanes.lane x 1 ^^^ lanes.lane x 2 ^^^ lanes.lane x 3 ^^^ lanes.lane x 4

/-- θ: every lane takes the parity of the column to its left, and that of the column to its right
moved up by one bit. -/
def addParities (lanes : Lanes) : Lanes :=
  let parities := columnParities lanes
  let parity := fun x => parities.getD (x % 5) 0
  ofFn fun x y => lanes.lane x y ^^^ parity (x + 4) ^^^ rotate (parity (x + 1)) 1

/-- ρ and π: the lane at `(x + 3 * y, x)` moves to `(x, y)`, rotated by its own distance. -/
def moveLanes (lanes : Lanes) : Lanes :=
  ofFn fun x y =>
    rotate (lanes.lane (x + 3 * y) x) (rotations.getD ((x + 3 * y) % 5 + 5 * x) 0)

/-- χ: every lane takes the bits of the second lane to its right where the first has none. -/
def mixRows (lanes : Lanes) : Lanes :=
  ofFn fun x y => lanes.lane x y ^^^ (~~~ lanes.lane (x + 1) y &&& lanes.lane (x + 2) y)

def addConstant (constant : UInt64) : Lanes → Lanes
  | [] => []
  | first :: rest => (first ^^^ constant) :: rest

def round (lanes : Lanes) (constant : UInt64) : Lanes :=
  addConstant constant (mixRows (moveLanes (addParities lanes)))

def permute (lanes : Lanes) : Lanes := roundConstants.foldl round lanes

/-- The lanes with the words of a block added to the first of them. -/
def absorb (lanes : Lanes) : (words : List UInt64) → Lanes
  | [] => lanes
  | word :: words =>
    match lanes with
    | [] => []
    | lane :: rest => (lane ^^^ word) :: absorb rest words

end Lanes

end AbiBindings.Hash
