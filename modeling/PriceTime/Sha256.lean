/-!
# SHA-256

The 256-bit digest of the Secure Hash Standard: the message is padded to whole blocks of 64 bytes,
and each block in turn is mixed into a chain of eight words.
-/

namespace PriceTime.Sha256

/-- The eight words that run through the blocks. -/
structure Chain where
  a : UInt32
  b : UInt32
  c : UInt32
  d : UInt32
  e : UInt32
  f : UInt32
  g : UInt32
  h : UInt32

/-- The chain before the first block. -/
def initial : Chain :=
  ⟨0x6a09e667, 0xbb67ae85, 0x3c6ef372, 0xa54ff53a, 0x510e527f, 0x9b05688c, 0x1f83d9ab, 0x5be0cd19⟩

/-- One word for each of the 64 rounds. -/
def roundWords : Array UInt32 := #[
  0x428a2f98, 0x71374491, 0xb5c0fbcf, 0xe9b5dba5, 0x3956c25b, 0x59f111f1, 0x923f82a4, 0xab1c5ed5,
  0xd807aa98, 0x12835b01, 0x243185be, 0x550c7dc3, 0x72be5d74, 0x80deb1fe, 0x9bdc06a7, 0xc19bf174,
  0xe49b69c1, 0xefbe4786, 0x0fc19dc6, 0x240ca1cc, 0x2de92c6f, 0x4a7484aa, 0x5cb0a9dc, 0x76f988da,
  0x983e5152, 0xa831c66d, 0xb00327c8, 0xbf597fc7, 0xc6e00bf3, 0xd5a79147, 0x06ca6351, 0x14292967,
  0x27b70a85, 0x2e1b2138, 0x4d2c6dfc, 0x53380d13, 0x650a7354, 0x766a0abb, 0x81c2c92e, 0x92722c85,
  0xa2bfe8a1, 0xa81a664b, 0xc24b8b70, 0xc76c51a3, 0xd192e819, 0xd6990624, 0xf40e3585, 0x106aa070,
  0x19a4c116, 0x1e376c08, 0x2748774c, 0x34b0bcb5, 0x391c0cb3, 0x4ed8aa4a, 0x5b9cca4f, 0x682e6ff3,
  0x748f82ee, 0x78a5636f, 0x84c87814, 0x8cc70208, 0x90befffa, 0xa4506ceb, 0xbef9a3f7, 0xc67178f2]

/-- Rotate a word to the right by `n` bits, `0 < n < 32`. -/
def rotate (x n : UInt32) : UInt32 :=
  x >>> n ||| x <<< (32 - n)

/-- The byte at an index, zero beyond the end. -/
def byteAt (bytes : ByteArray) (i : Nat) : UInt8 :=
  if h : i < bytes.size then bytes[i] else 0

/-- The four bytes from an index on as one word, the most significant byte first. -/
def wordAt (bytes : ByteArray) (i : Nat) : UInt32 :=
  (byteAt bytes i).toUInt32 <<< 24 ||| (byteAt bytes (i + 1)).toUInt32 <<< 16 |||
    (byteAt bytes (i + 2)).toUInt32 <<< 8 ||| (byteAt bytes (i + 3)).toUInt32

/-- One word of the block for each of the 64 rounds: the 16 words of the block itself, then words
mixed from earlier ones. -/
def schedule (bytes : ByteArray) (start : Nat) : Array UInt32 :=
  (List.range 48).foldl
    (fun words i =>
      let x := words.getD (i + 1) 0
      let y := words.getD (i + 14) 0
      let small := rotate x 7 ^^^ rotate x 18 ^^^ x >>> 3
      let large := rotate y 17 ^^^ rotate y 19 ^^^ y >>> 10
      words.push (words.getD i 0 + small + words.getD (i + 9) 0 + large))
    ((Array.range 16).map fun i => wordAt bytes (start + 4 * i))

/-- One round. -/
def round (s : Chain) (roundWord blockWord : UInt32) : Chain :=
  let large := rotate s.e 6 ^^^ rotate s.e 11 ^^^ rotate s.e 25
  let choice := (s.e &&& s.f) ^^^ (~~~s.e &&& s.g)
  let t := s.h + large + choice + roundWord + blockWord
  let small := rotate s.a 2 ^^^ rotate s.a 13 ^^^ rotate s.a 22
  let majority := (s.a &&& s.b) ^^^ (s.a &&& s.c) ^^^ (s.b &&& s.c)
  ⟨t + (small + majority), s.a, s.b, s.c, s.d + t, s.e, s.f, s.g⟩

/-- Mix one block into the chain. -/
def compress (bytes : ByteArray) (chain : Chain) (start : Nat) : Chain :=
  let words := schedule bytes start
  let s := (List.range 64).foldl
    (fun s i => round s (roundWords.getD i 0) (words.getD i 0)) chain
  ⟨chain.a + s.a, chain.b + s.b, chain.c + s.c, chain.d + s.d,
    chain.e + s.e, chain.f + s.f, chain.g + s.g, chain.h + s.h⟩

/-- A word as four bytes, the most significant first. -/
def wordBytes (x : UInt32) : List UInt8 :=
  [(x >>> 24).toUInt8, (x >>> 16).toUInt8, (x >>> 8).toUInt8, x.toUInt8]

/-- Fill a message up to whole blocks: a single one bit, zeros, and its length in bits. -/
def pad (message : ByteArray) : ByteArray :=
  let bits := (8 * message.size).toUInt64
  let zeros := (119 - message.size % 64) % 64
  let ending := (0x80 : UInt8) :: List.replicate zeros (0 : UInt8) ++
    wordBytes (bits >>> 32).toUInt32 ++ wordBytes bits.toUInt32
  ending.foldl ByteArray.push message

/-- The digest of a message, 32 bytes. -/
def digest (message : ByteArray) : List UInt8 :=
  let padded := pad message
  let s := (List.range (padded.size / 64)).foldl
    (fun chain block => compress padded chain (64 * block)) initial
  [s.a, s.b, s.c, s.d, s.e, s.f, s.g, s.h].flatMap wordBytes

/-- Bytes as pairs of lower-case hexadecimal digits. -/
def hex (bytes : List UInt8) : String :=
  String.ofList (bytes.flatMap fun byte =>
    [Nat.digitChar (byte.toNat / 16), Nat.digitChar (byte.toNat % 16)])

end PriceTime.Sha256
