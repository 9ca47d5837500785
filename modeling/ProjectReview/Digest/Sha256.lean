import ProjectReview.Text.Utf8

set_option autoImplicit false

/-! # Content digests

`contentDigest` is the SHA-256 digest of a text's UTF-8 bytes in hexadecimal. A snapshot of a
project keeps digests instead of contents, so two contents count as the same when their digests
agree. -/

namespace ProjectReview

namespace Sha256

/-- The digest's starting state: the fractional parts of the square roots of the first primes. -/
def start : List UInt32 :=
  [0x6a09e667, 0xbb67ae85, 0x3c6ef372, 0xa54ff53a, 0x510e527f, 0x9b05688c,
   0x1f83d9ab, 0x5be0cd19]

/-- The constants of the rounds: the fractional parts of the cube roots of the first primes. -/
def constants : List UInt32 :=
  [0x428a2f98, 0x71374491, 0xb5c0fbcf, 0xe9b5dba5, 0x3956c25b, 0x59f111f1,
   0x923f82a4, 0xab1c5ed5, 0xd807aa98, 0x12835b01, 0x243185be, 0x550c7dc3,
   0x72be5d74, 0x80deb1fe, 0x9bdc06a7, 0xc19bf174, 0xe49b69c1, 0xefbe4786,
   0x0fc19dc6, 0x240ca1cc, 0x2de92c6f, 0x4a7484aa, 0x5cb0a9dc, 0x76f988da,
   0x983e5152, 0xa831c66d, 0xb00327c8, 0xbf597fc7, 0xc6e00bf3, 0xd5a79147,
   0x06ca6351, 0x14292967, 0x27b70a85, 0x2e1b2138, 0x4d2c6dfc, 0x53380d13,
   0x650a7354, 0x766a0abb, 0x81c2c92e, 0x92722c85, 0xa2bfe8a1, 0xa81a664b,
   0xc24b8b70, 0xc76c51a3, 0xd192e819, 0xd6990624, 0xf40e3585, 0x106aa070,
   0x19a4c116, 0x1e376c08, 0x2748774c, 0x34b0bcb5, 0x391c0cb3, 0x4ed8aa4a,
   0x5b9cca4f, 0x682e6ff3, 0x748f82ee, 0x78a5636f, 0x84c87814, 0x8cc70208,
   0x90befffa, 0xa4506ceb, 0xbef9a3f7, 0xc67178f2]

/-- Rotation to the right. -/
def rotate (x : UInt32) (n : UInt32) : UInt32 :=
  (x >>> n) ||| (x <<< (32 - n))

/-- The big-endian word of four bytes. -/
def word (a b c d : UInt8) : UInt32 :=
  (a.toUInt32 <<< 24) ||| (b.toUInt32 <<< 16) ||| (c.toUInt32 <<< 8) ||| d.toUInt32

/-- The words of a list of bytes. -/
def words : Bytes → List UInt32
  | a :: b :: c :: d :: rest => word a b c d :: words rest
  | _ => []

/-- The bytes of a number, the highest first. -/
def bigEndian : Nat → Nat → Bytes
  | 0, _ => []
  | width + 1, n => bigEndian width (n / 256) ++ [(n % 256).toUInt8]

/-- The message with its padding: a one bit, zeros, and the length in bits. -/
def pad (message : Bytes) : Bytes :=
  let zeros := (119 - message.length % 64) % 64
  message ++ 0x80 :: List.replicate zeros 0 ++ bigEndian 8 (8 * message.length)

/-- Extends a block's sixteen words, given in reverse, by `count` further words. -/
def extend : Nat → List UInt32 → List UInt32
  | 0, reversed => reversed
  | count + 1, reversed =>
    let back (n : Nat) : UInt32 := reversed.getD (n - 1) 0
    let s0 := rotate (back 15) 7 ^^^ rotate (back 15) 18 ^^^ (back 15 >>> 3)
    let s1 := rotate (back 2) 17 ^^^ rotate (back 2) 19 ^^^ (back 2 >>> 10)
    extend count ((back 16 + s0 + back 7 + s1) :: reversed)

/-- One round on the eight working words. -/
def round (state : List UInt32) (input : UInt32 × UInt32) : List UInt32 :=
  match state with
  | [a, b, c, d, e, f, g, h] =>
    let s1 := rotate e 6 ^^^ rotate e 11 ^^^ rotate e 25
    let choice := (e &&& f) ^^^ (~~~e &&& g)
    let t1 := h + s1 + choice + input.1 + input.2
    let s0 := rotate a 2 ^^^ rotate a 13 ^^^ rotate a 22
    let majority := (a &&& b) ^^^ (a &&& c) ^^^ (b &&& c)
    [t1 + s0 + majority, a, b, c, d + t1, e, f, g]
  | other => other

/-- Takes a block of sixteen words into the state. -/
def compress (state block : List UInt32) : List UInt32 :=
  let schedule := (extend 48 block.reverse).reverse
  List.zipWith (· + ·) state ((constants.zip schedule).foldl round state)

/-- Takes the words of a padded message into the state, sixteen at a time. -/
def compressAll : Nat → List UInt32 → List UInt32 → List UInt32
  | 0, state, _ => state
  | blocks + 1, state, ws => compressAll blocks (compress state (ws.take 16)) (ws.drop 16)

/-- The digest of bytes, as eight words. -/
def digest (message : Bytes) : List UInt32 :=
  let ws := words (pad message)
  compressAll (ws.length / 16) start ws

end Sha256

/-- The digest of a text, in hexadecimal. -/
def contentDigest (text : String) : String :=
  String.ofList ((Sha256.digest (encodeUtf8 text)).flatMap fun w => hexDigits 8 w.toNat)

end ProjectReview
