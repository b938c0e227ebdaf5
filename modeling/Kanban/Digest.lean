/-!
# Kanban.Digest — SHA-256

The hash function SHA-256 on byte lists: the message is padded to blocks of sixteen words,
each block is spread over sixty-four words, and every word turns the eight registers once.
-/

namespace Kanban.Digest

/-- Additive constants of the rounds. -/
def roundConstants : List UInt32 :=
  [0x428a2f98, 0x71374491, 0xb5c0fbcf, 0xe9b5dba5, 0x3956c25b, 0x59f111f1, 0x923f82a4, 0xab1c5ed5,
   0xd807aa98, 0x12835b01, 0x243185be, 0x550c7dc3, 0x72be5d74, 0x80deb1fe, 0x9bdc06a7, 0xc19bf174,
   0xe49b69c1, 0xefbe4786, 0x0fc19dc6, 0x240ca1cc, 0x2de92c6f, 0x4a7484aa, 0x5cb0a9dc, 0x76f988da,
   0x983e5152, 0xa831c66d, 0xb00327c8, 0xbf597fc7, 0xc6e00bf3, 0xd5a79147, 0x06ca6351, 0x14292967,
   0x27b70a85, 0x2e1b2138, 0x4d2c6dfc, 0x53380d13, 0x650a7354, 0x766a0abb, 0x81c2c92e, 0x92722c85,
   0xa2bfe8a1, 0xa81a664b, 0xc24b8b70, 0xc76c51a3, 0xd192e819, 0xd6990624, 0xf40e3585, 0x106aa070,
   0x19a4c116, 0x1e376c08, 0x2748774c, 0x34b0bcb5, 0x391c0cb3, 0x4ed8aa4a, 0x5b9cca4f, 0x682e6ff3,
   0x748f82ee, 0x78a5636f, 0x84c87814, 0x8cc70208, 0x90befffa, 0xa4506ceb, 0xbef9a3f7, 0xc67178f2]

/-- The eight registers. -/
structure Registers where
  a : UInt32 := 0x6a09e667
  b : UInt32 := 0xbb67ae85
  c : UInt32 := 0x3c6ef372
  d : UInt32 := 0xa54ff53a
  e : UInt32 := 0x510e527f
  f : UInt32 := 0x9b05688c
  g : UInt32 := 0x1f83d9ab
  h : UInt32 := 0x5be0cd19

/-- Turn a word to the right. -/
def turn (x n : UInt32) : UInt32 := (x >>> n) ||| (x <<< (32 - n))

/-- The bytes of a number, most significant first. -/
def bigEndian (n : Nat) : Nat → List UInt8
  | 0 => []
  | width + 1 => UInt8.ofNat (n >>> (8 * width)) :: bigEndian n width

/-- A message with its end mark and its length in bits, filled up to whole blocks. -/
def padded (bytes : List UInt8) : List UInt8 :=
  bytes ++ 0x80 :: List.replicate (63 - (bytes.length + 8) % 64) 0 ++
    bigEndian (8 * bytes.length) 8

/-- The words of a row of bytes. -/
def words : List UInt8 → List UInt32
  | a :: b :: c :: d :: rest =>
    ((a.toUInt32 <<< 24) ||| (b.toUInt32 <<< 16) ||| (c.toUInt32 <<< 8) ||| d.toUInt32) ::
      words rest
  | _ => []

/-- One more word of a block's spread, from the sixteen before it, newest first. -/
def nextWord (newest : List UInt32) : UInt32 :=
  let word (n : Nat) : UInt32 := newest.getD n 0
  let s0 := turn (word 14) 7 ^^^ turn (word 14) 18 ^^^ (word 14 >>> 3)
  let s1 := turn (word 1) 17 ^^^ turn (word 1) 19 ^^^ (word 1 >>> 10)
  word 15 + s0 + word 6 + s1

/-- The sixty-four words of a block. -/
def spread (block : List UInt32) : List UInt32 :=
  ((List.range 48).foldl (fun newest _ => nextWord newest :: newest) block.reverse).reverse

/-- Turn the registers once. -/
def step (r : Registers) (kw : UInt32 × UInt32) : Registers :=
  let s1 := turn r.e 6 ^^^ turn r.e 11 ^^^ turn r.e 25
  let choice := (r.e &&& r.f) ^^^ (~~~r.e &&& r.g)
  let t1 := r.h + s1 + choice + kw.1 + kw.2
  let s0 := turn r.a 2 ^^^ turn r.a 13 ^^^ turn r.a 22
  let majority := (r.a &&& r.b) ^^^ (r.a &&& r.c) ^^^ (r.b &&& r.c)
  { a := t1 + (s0 + majority), b := r.a, c := r.b, d := r.c
    e := r.d + t1, f := r.e, g := r.f, h := r.g }

/-- Work one block into the registers. -/
def absorb (r : Registers) (block : List UInt32) : Registers :=
  let s := (roundConstants.zip (spread block)).foldl step r
  { a := r.a + s.a, b := r.b + s.b, c := r.c + s.c, d := r.d + s.d
    e := r.e + s.e, f := r.f + s.f, g := r.g + s.g, h := r.h + s.h }

/-- Work the first `n` blocks of a row of words into the registers. -/
def absorbAll : Nat → Registers → List UInt32 → Registers
  | 0, r, _ => r
  | n + 1, r, ws => absorbAll n (absorb r (ws.take 16)) (ws.drop 16)

/-- The hash of a message, as eight words. -/
def hash (bytes : List UInt8) : List UInt32 :=
  let ws := words (padded bytes)
  let r := absorbAll (ws.length / 16) {} ws
  [r.a, r.b, r.c, r.d, r.e, r.f, r.g, r.h]

/-- A word in eight hexadecimal digits. -/
def hexWord (w : UInt32) : List Char :=
  let ds := Nat.toDigits 16 w.toNat
  List.replicate (8 - ds.length) '0' ++ ds

/-- The hash of a text in hexadecimal. -/
def hexOf (s : String) : String :=
  String.ofList ((hash s.toUTF8.toList).flatMap hexWord)

end Kanban.Digest
