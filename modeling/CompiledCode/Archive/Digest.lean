import CompiledCode.Bytes.Hexadecimal

/-!
The SHA3-256 digest. A state of 25 lanes of 64 bits absorbs blocks of 136 bytes, and each block is
mixed in by 24 rounds of the Keccak permutation.
-/

namespace CompiledCode.Digest

/-- Lane `x + 5 * y` stands in column `x` and row `y`. -/
abbrev Lanes := Vector UInt64 25

/-- Bytes in a block. -/
def blockSize : Nat := 136

def rotate (lane : UInt64) (amount : Nat) : UInt64 :=
  if amount = 0 then lane
  else lane <<< .ofNat amount ||| lane >>> .ofNat (64 - amount)

/-- The index of a column and a row, each counted modulo five. -/
def place (x y : Nat) : Fin 25 := .ofNat 25 (x % 5 + 5 * (y % 5))

/-- The lane at a column and a row. -/
def lane (lanes : Lanes) (x y : Nat) : UInt64 :=
  lanes[place x y]

/-- The state whose lane at each column and row is given. -/
def build (f : Nat → Nat → UInt64) : Lanes :=
  .ofFn fun index => f (index.val % 5) (index.val / 5)

/-- The sum of a column. -/
def parity (lanes : Lanes) (x : Nat) : UInt64 :=
  lane lanes x 0 ^^^ lane lanes x 1 ^^^ lane lanes x 2 ^^^ lane lanes x 3 ^^^ lane lanes x 4

/-- The sums of the two neighbouring columns are added to every lane. -/
def theta (lanes : Lanes) : Lanes :=
  let parities : Vector UInt64 5 := .ofFn fun x => parity lanes x
  let sum (x : Nat) : UInt64 := parities[Fin.ofNat 5 x]
  build fun x y => lane lanes x y ^^^ sum (x + 4) ^^^ rotate (sum (x + 1)) 1

/-- How far each lane is rotated, row by row. -/
def offsets : Vector Nat 25 :=
  #v[0, 1, 62, 28, 27, 36, 44, 6, 55, 20, 3, 10, 43, 25, 39, 41, 45, 15, 21, 8, 18, 2, 61, 56, 14]

/-- Every lane is rotated and moves to another place. -/
def rhoPi (lanes : Lanes) : Lanes :=
  build fun x y =>
    let column := x + 3 * y
    rotate (lane lanes column x) offsets[place column x]

/-- Every lane is combined with the two lanes to the right in its row. -/
def chi (lanes : Lanes) : Lanes :=
  build fun x y => lane lanes x y ^^^ (~~~ lane lanes (x + 1) y &&& lane lanes (x + 2) y)

/-- The constant of each round. -/
def roundConstants : List UInt64 :=
  [0x0000000000000001, 0x0000000000008082, 0x800000000000808A, 0x8000000080008000,
    0x000000000000808B, 0x0000000080000001, 0x8000000080008081, 0x8000000000008009,
    0x000000000000008A, 0x0000000000000088, 0x0000000080008009, 0x000000008000000A,
    0x000000008000808B, 0x800000000000008B, 0x8000000000008089, 0x8000000000008003,
    0x8000000000008002, 0x8000000000000080, 0x000000000000800A, 0x800000008000000A,
    0x8000000080008081, 0x8000000000008080, 0x0000000080000001, 0x8000000080008008]

def round (lanes : Lanes) (constant : UInt64) : Lanes :=
  let mixed := chi (rhoPi (theta lanes))
  mixed.set 0 (mixed[0] ^^^ constant)

def permute (lanes : Lanes) : Lanes := roundConstants.foldl round lanes

/-- A byte is added at its place in the state. -/
def addByte (lanes : Lanes) (position : Nat) (byte : UInt8) : Lanes :=
  let index : Fin 25 := .ofNat 25 (position / 8)
  lanes.set index (lanes[index] ^^^ byte.toUInt64 <<< .ofNat (8 * (position % 8)))

/-- The byte at a place of the state. -/
def byteAt (lanes : Lanes) (position : Nat) : UInt8 :=
  (lanes[Fin.ofNat 25 (position / 8)] >>> .ofNat (8 * (position % 8))).toUInt8

end CompiledCode.Digest

namespace CompiledCode

/-- A digest in progress: the lanes and the number of bytes that are in the current block. -/
structure Digest where
  lanes : Digest.Lanes
  filled : Nat

namespace Digest

def start : Digest := ⟨.replicate 25 0, 0⟩

/-- A full block is mixed in. -/
def addNext (digest : Digest) (byte : UInt8) : Digest :=
  let lanes := addByte digest.lanes digest.filled byte
  if digest.filled + 1 < blockSize then ⟨lanes, digest.filled + 1⟩ else ⟨permute lanes, 0⟩

/-- The bytes are taken in one after another. -/
def update (digest : Digest) (bytes : List UInt8) : Digest := bytes.foldl addNext digest

/-- The padding is added and the first 32 bytes of the state are taken. -/
def finish (digest : Digest) : List UInt8 :=
  let padded := addByte (addByte digest.lanes digest.filled 0x06) (blockSize - 1) 0x80
  let lanes := permute padded
  (List.range 32).map (byteAt lanes)

/-- The digest of the bytes. -/
def ofBytes (bytes : List UInt8) : List UInt8 := (start.update bytes).finish

theorem update_append (digest : Digest) (first second : List UInt8) :
    digest.update (first ++ second) = (digest.update first).update second := by
  simp [update]

end Digest

end CompiledCode
