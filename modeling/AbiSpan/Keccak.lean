import AbiSpan.Bytes

/-!
The Keccak-256 hash.

The state is twenty-five lanes of 64 bits; lane `(x, y)` stands at `x + 5 * y`. A round is
theta, rho with pi, chi and iota, and the permutation is twenty-four rounds. A message is
padded with `01 … 80`, absorbed in blocks of 136 bytes, and the hash is the first 32 bytes of
the final state.
-/

namespace AbiSpan.Keccak

abbrev Lanes := Vector UInt64 25

def zero : Lanes := Vector.replicate 25 0

def rotateLeft (a : UInt64) (n : Nat) : UInt64 :=
  if n = 0 then a else (a <<< UInt64.ofNat n) ||| (a >>> UInt64.ofNat (64 - n))

/-- The exclusive-or of a column. -/
def parity (s : Lanes) (x : Fin 5) : UInt64 :=
  s[x.val] ^^^ s[x.val + 5] ^^^ s[x.val + 10] ^^^ s[x.val + 15] ^^^ s[x.val + 20]

def theta (s : Lanes) : Lanes :=
  let columns : Vector UInt64 5 := Vector.ofFn (parity s)
  let mix : Vector UInt64 5 :=
    Vector.ofFn fun x => columns[(x + 4 : Fin 5)] ^^^ rotateLeft columns[(x + 1 : Fin 5)] 1
  Vector.ofFn fun i => s[i] ^^^ mix[Fin.ofNat 5 i.val]

/-- For each place after rho and pi: the lane that moves there and how far it is rotated. -/
def moves : Vector (Fin 25 × Nat) 25 :=
  #v[(0, 0), (6, 44), (12, 43), (18, 21), (24, 14),
     (3, 28), (9, 20), (10, 3), (16, 45), (22, 61),
     (1, 1), (7, 6), (13, 25), (19, 8), (20, 18),
     (4, 27), (5, 36), (11, 10), (17, 15), (23, 56),
     (2, 62), (8, 55), (14, 39), (15, 41), (21, 2)]

def rhoPi (s : Lanes) : Lanes :=
  Vector.ofFn fun i => rotateLeft s[moves[i].1] moves[i].2

def chi (s : Lanes) : Lanes :=
  Vector.ofFn fun i =>
    let row := i.val / 5 * 5
    s[i] ^^^ (~~~ s.getD (row + (i.val + 1) % 5) 0 &&& s.getD (row + (i.val + 2) % 5) 0)

/-- What iota adds to lane zero, round by round. -/
def roundConstants : List UInt64 :=
  [0x0000000000000001, 0x0000000000008082, 0x800000000000808a, 0x8000000080008000,
   0x000000000000808b, 0x0000000080000001, 0x8000000080008081, 0x8000000000008009,
   0x000000000000008a, 0x0000000000000088, 0x0000000080008009, 0x000000008000000a,
   0x000000008000808b, 0x800000000000008b, 0x8000000000008089, 0x8000000000008003,
   0x8000000000008002, 0x8000000000000080, 0x000000000000800a, 0x800000008000000a,
   0x8000000080008081, 0x8000000000008080, 0x0000000080000001, 0x8000000080008008]

def iota (s : Lanes) (k : UInt64) : Lanes := s.set 0 (s[0] ^^^ k)

def permute (s : Lanes) : Lanes :=
  roundConstants.foldl (fun s k => iota (chi (rhoPi (theta s))) k) s

/-- Bytes per block. -/
def rate : Nat := 136

/-- Appends a one bit, zeros and a last one bit, up to a whole number of blocks. -/
def pad (m : Bytes) : Bytes :=
  let gap := rate - m.length % rate
  m ++ if gap = 1 then [0x81] else 0x01 :: (List.replicate (gap - 2) 0 ++ [0x80])

/-- Eight bytes as a lane, low byte first. -/
def lane (b : Bytes) : UInt64 := b.foldr (fun x acc => (acc <<< 8) ||| x.toUInt64) 0

def absorb (s : Lanes) (block : Bytes) : Lanes :=
  permute (Vector.ofFn fun i =>
    if i.val < rate / 8 then s[i] ^^^ lane ((block.drop (8 * i.val)).take 8) else s[i])

def absorbAll : Nat → Lanes → Bytes → Lanes
  | 0, s, _ => s
  | n + 1, s, m => absorbAll n (absorb s (m.take rate)) (m.drop rate)

/-- The byte of the state at a place, lanes written low byte first. -/
def stateByte (s : Lanes) (i : Nat) : UInt8 :=
  (s.getD (i / 8) 0 >>> UInt64.ofNat (8 * (i % 8))).toUInt8

def hash (m : Bytes) : Fixed 32 :=
  let padded := pad m
  let s := absorbAll (padded.length / rate) zero padded
  ⟨(List.range 32).map (stateByte s), by simp⟩

/-- The hash of the UTF-8 bytes of a text. -/
def hashText (s : String) : Fixed 32 := hash s.toUTF8.toList

end AbiSpan.Keccak
