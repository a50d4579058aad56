import Gridnet.Bytes

/-! SHA-256 as the standalone compiler computes it. Results about bytecode hold for any function to 32
bytes in its place. -/

namespace Gridnet

namespace Sha256

def K : List UInt32 :=
  [0x428a2f98, 0x71374491, 0xb5c0fbcf, 0xe9b5dba5, 0x3956c25b, 0x59f111f1, 0x923f82a4, 0xab1c5ed5,
   0xd807aa98, 0x12835b01, 0x243185be, 0x550c7dc3, 0x72be5d74, 0x80deb1fe, 0x9bdc06a7, 0xc19bf174,
   0xe49b69c1, 0xefbe4786, 0x0fc19dc6, 0x240ca1cc, 0x2de92c6f, 0x4a7484aa, 0x5cb0a9dc, 0x76f988da,
   0x983e5152, 0xa831c66d, 0xb00327c8, 0xbf597fc7, 0xc6e00bf3, 0xd5a79147, 0x06ca6351, 0x14292967,
   0x27b70a85, 0x2e1b2138, 0x4d2c6dfc, 0x53380d13, 0x650a7354, 0x766a0abb, 0x81c2c92e, 0x92722c85,
   0xa2bfe8a1, 0xa81a664b, 0xc24b8b70, 0xc76c51a3, 0xd192e819, 0xd6990624, 0xf40e3585, 0x106aa070,
   0x19a4c116, 0x1e376c08, 0x2748774c, 0x34b0bcb5, 0x391c0cb3, 0x4ed8aa4a, 0x5b9cca4f, 0x682e6ff3,
   0x748f82ee, 0x78a5636f, 0x84c87814, 0x8cc70208, 0x90befffa, 0xa4506ceb, 0xbef9a3f7, 0xc67178f2]

def rotr (x n : UInt32) : UInt32 := (x >>> n) ||| (x <<< (32 - n))
def ch (x y z : UInt32) : UInt32 := (x &&& y) ^^^ (~~~x &&& z)
def maj (x y z : UInt32) : UInt32 := (x &&& y) ^^^ (x &&& z) ^^^ (y &&& z)
def sig0 (x : UInt32) : UInt32 := rotr x 2 ^^^ rotr x 13 ^^^ rotr x 22
def sig1 (x : UInt32) : UInt32 := rotr x 6 ^^^ rotr x 11 ^^^ rotr x 25
def ep0 (x : UInt32) : UInt32 := rotr x 7 ^^^ rotr x 18 ^^^ (x >>> 3)
def ep1 (x : UInt32) : UInt32 := rotr x 17 ^^^ rotr x 19 ^^^ (x >>> 10)

/-- The eight words `h`, and the variables of a chunk. -/
structure State where
  a : UInt32
  b : UInt32
  c : UInt32
  d : UInt32
  e : UInt32
  f : UInt32
  g : UInt32
  hh : UInt32

def initial : State where
  a := 0x6a09e667
  b := 0xbb67ae85
  c := 0x3c6ef372
  d := 0xa54ff53a
  e := 0x510e527f
  f := 0x9b05688c
  g := 0x1f83d9ab
  hh := 0x5be0cd19

/-- The first 16 words of `w`. -/
def chunkWords : Bytes → List UInt32
  | b₀ :: b₁ :: b₂ :: b₃ :: chunk =>
      ((b₀.toUInt32 <<< 24) ||| (b₁.toUInt32 <<< 16) ||| (b₂.toUInt32 <<< 8) ||| b₃.toUInt32) ::
        chunkWords chunk
  | _ => []

/-- The other words of `w`, the latest one first. -/
def extend : ℕ → List UInt32 → List UInt32
  | 0, w => w
  | n + 1, w => extend n ((ep1 (w.getD 1 0) + w.getD 6 0 + ep0 (w.getD 14 0) + w.getD 15 0) :: w)

/-- A round with its words of `K` and `w`. -/
def round (s : State) (k w : UInt32) : State :=
  let t1 := s.hh + sig1 s.e + ch s.e s.f s.g + k + w
  let t2 := sig0 s.a + maj s.a s.b s.c
  ⟨t1 + t2, s.a, s.b, s.c, s.d + t1, s.e, s.f, s.g⟩

def addChunk (h : State) (chunk : Bytes) : State :=
  let w := (extend 48 (chunkWords chunk).reverse).reverse
  let s := (K.zip w).foldl (fun s (k, w) => round s k w) h
  ⟨h.a + s.a, h.b + s.b, h.c + s.c, h.d + s.d, h.e + s.e, h.f + s.f, h.g + s.g, h.hh + s.hh⟩

def addChunks : ℕ → State → Bytes → State
  | 0, h, _ => h
  | n + 1, h, msg => addChunks n (addChunk h (msg.take 64)) (msg.drop 64)

/-- The message with its padding and its length in bits. -/
def padded (data : Bytes) : Bytes :=
  data ++ 0x80 :: List.replicate ((119 - data.length % 64) % 64) 0 ++
    (fixedBytes 8 (data.length * 8)).reverse

def wordBytes (x : UInt32) : Bytes :=
  [(x >>> 24).toUInt8, (x >>> 16).toUInt8, (x >>> 8).toUInt8, x.toUInt8]

def digest (h : State) : Bytes32 :=
  ⟨[h.a, h.b, h.c, h.d, h.e, h.f, h.g, h.hh].flatMap wordBytes, rfl⟩

end Sha256

def sha256 (data : Bytes) : Bytes32 :=
  Sha256.digest
    (Sha256.addChunks ((Sha256.padded data).length / 64) Sha256.initial (Sha256.padded data))

end Gridnet
