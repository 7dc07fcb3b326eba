import LinuxHardener.Lib.Bytes

/-
  SHA-256, executable. Everything is structural, so the kernel evaluates it on
  short messages. Nothing is proved about it beyond the length of a digest:
  collision freeness is a hypothesis wherever a statement needs it
  (`CollisionFreeOn`).
-/
namespace LinuxHardener.Sha256

def k : List UInt32 :=
  [0x428a2f98, 0x71374491, 0xb5c0fbcf, 0xe9b5dba5, 0x3956c25b, 0x59f111f1, 0x923f82a4, 0xab1c5ed5,
   0xd807aa98, 0x12835b01, 0x243185be, 0x550c7dc3, 0x72be5d74, 0x80deb1fe, 0x9bdc06a7, 0xc19bf174,
   0xe49b69c1, 0xefbe4786, 0x0fc19dc6, 0x240ca1cc, 0x2de92c6f, 0x4a7484aa, 0x5cb0a9dc, 0x76f988da,
   0x983e5152, 0xa831c66d, 0xb00327c8, 0xbf597fc7, 0xc6e00bf3, 0xd5a79147, 0x06ca6351, 0x14292967,
   0x27b70a85, 0x2e1b2138, 0x4d2c6dfc, 0x53380d13, 0x650a7354, 0x766a0abb, 0x81c2c92e, 0x92722c85,
   0xa2bfe8a1, 0xa81a664b, 0xc24b8b70, 0xc76c51a3, 0xd192e819, 0xd6990624, 0xf40e3585, 0x106aa070,
   0x19a4c116, 0x1e376c08, 0x2748774c, 0x34b0bcb5, 0x391c0cb3, 0x4ed8aa4a, 0x5b9cca4f, 0x682e6ff3,
   0x748f82ee, 0x78a5636f, 0x84c87814, 0x8cc70208, 0x90befffa, 0xa4506ceb, 0xbef9a3f7, 0xc67178f2]

def rotr (x n : UInt32) : UInt32 := (x >>> n) ||| (x <<< (32 - n))

def smallSigma0 (x : UInt32) : UInt32 := rotr x 7 ^^^ rotr x 18 ^^^ (x >>> 3)
def smallSigma1 (x : UInt32) : UInt32 := rotr x 17 ^^^ rotr x 19 ^^^ (x >>> 10)
def bigSigma0 (x : UInt32) : UInt32 := rotr x 2 ^^^ rotr x 13 ^^^ rotr x 22
def bigSigma1 (x : UInt32) : UInt32 := rotr x 6 ^^^ rotr x 11 ^^^ rotr x 25
def ch (x y z : UInt32) : UInt32 := (x &&& y) ^^^ (~~~x &&& z)
def maj (x y z : UInt32) : UInt32 := (x &&& y) ^^^ (x &&& z) ^^^ (y &&& z)

/-- The message schedule, newest word first. -/
def schedule : Nat → List UInt32 → List UInt32
  | 0, w => w
  | n + 1, w =>
    schedule n ((smallSigma1 (w.getD 1 0) + w.getD 6 0 + smallSigma0 (w.getD 14 0) + w.getD 15 0) :: w)

structure Vars where
  a : UInt32
  b : UInt32
  c : UInt32
  d : UInt32
  e : UInt32
  f : UInt32
  g : UInt32
  h : UInt32

def round (v : Vars) (kw : UInt32 × UInt32) : Vars :=
  let t1 := v.h + bigSigma1 v.e + ch v.e v.f v.g + kw.1 + kw.2
  let t2 := bigSigma0 v.a + maj v.a v.b v.c
  ⟨t1 + t2, v.a, v.b, v.c, v.d + t1, v.e, v.f, v.g⟩

def word : Bytes → UInt32
  | [a, b, c, d] => (a.toUInt32 <<< 24) ||| (b.toUInt32 <<< 16) ||| (c.toUInt32 <<< 8) ||| d.toUInt32
  | _ => 0

/-- The first `m` chunks of `n` bytes. -/
def chunks (n : Nat) : Nat → Bytes → List Bytes
  | 0, _ => []
  | m + 1, b => b.take n :: chunks n m (b.drop n)

def compress (v : Vars) (block : Bytes) : Vars :=
  let w := (schedule 48 ((chunks 4 16 block).map word).reverse).reverse
  let u := (k.zip w).foldl round v
  ⟨v.a + u.a, v.b + u.b, v.c + u.c, v.d + u.d, v.e + u.e, v.f + u.f, v.g + u.g, v.h + u.h⟩

def pad (m : Bytes) : Bytes :=
  m ++ 0x80 :: List.replicate ((119 - m.length % 64) % 64) 0 ++ beNat 8 (8 * m.length)

def Vars.bytes (v : Vars) : Bytes :=
  be32 v.a ++ be32 v.b ++ be32 v.c ++ be32 v.d ++ be32 v.e ++ be32 v.f ++ be32 v.g ++ be32 v.h

def initial : Vars :=
  ⟨0x6a09e667, 0xbb67ae85, 0x3c6ef372, 0xa54ff53a, 0x510e527f, 0x9b05688c, 0x1f83d9ab, 0x5be0cd19⟩

def digest (m : Bytes) : Bytes :=
  let p := pad m
  ((chunks 64 (p.length / 64) p).foldl compress initial).bytes

@[simp] theorem length_digest (m : Bytes) : (digest m).length = 32 := rfl

/-- No two of these messages collide. -/
def CollisionFreeOn (S : Set Bytes) : Prop :=
  ∀ m ∈ S, ∀ m' ∈ S, digest m = digest m' → m = m'

theorem CollisionFreeOn.mono {S T : Set Bytes} (h : CollisionFreeOn T) (hst : S ⊆ T) : CollisionFreeOn S :=
  fun m hm m' hm' he => h m (hst hm) m' (hst hm') he

/-- The digest of `abc`, from its first word on. -/
example : (digest [0x61, 0x62, 0x63]).take 8 = [0xba, 0x78, 0x16, 0xbf, 0x8f, 0x01, 0xcf, 0xea] := by
  decide +kernel

end LinuxHardener.Sha256
