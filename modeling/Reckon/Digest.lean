/-
The SHA-256 digest of a byte sequence, as hexadecimal text.
-/
import Reckon.Text.Quoted

namespace Reckon.Digest

/-- The initial words of the state: the fractions of the square roots of the first eight primes. -/
def initial : Vector UInt32 8 :=
  #v[0x6a09e667, 0xbb67ae85, 0x3c6ef372, 0xa54ff53a, 0x510e527f, 0x9b05688c, 0x1f83d9ab, 0x5be0cd19]

/-- The words of the rounds: the fractions of the cube roots of the first 64 primes. -/
def roundWords : Vector UInt32 64 :=
  #v[0x428a2f98, 0x71374491, 0xb5c0fbcf, 0xe9b5dba5, 0x3956c25b, 0x59f111f1, 0x923f82a4, 0xab1c5ed5,
    0xd807aa98, 0x12835b01, 0x243185be, 0x550c7dc3, 0x72be5d74, 0x80deb1fe, 0x9bdc06a7, 0xc19bf174,
    0xe49b69c1, 0xefbe4786, 0x0fc19dc6, 0x240ca1cc, 0x2de92c6f, 0x4a7484aa, 0x5cb0a9dc, 0x76f988da,
    0x983e5152, 0xa831c66d, 0xb00327c8, 0xbf597fc7, 0xc6e00bf3, 0xd5a79147, 0x06ca6351, 0x14292967,
    0x27b70a85, 0x2e1b2138, 0x4d2c6dfc, 0x53380d13, 0x650a7354, 0x766a0abb, 0x81c2c92e, 0x92722c85,
    0xa2bfe8a1, 0xa81a664b, 0xc24b8b70, 0xc76c51a3, 0xd192e819, 0xd6990624, 0xf40e3585, 0x106aa070,
    0x19a4c116, 0x1e376c08, 0x2748774c, 0x34b0bcb5, 0x391c0cb3, 0x4ed8aa4a, 0x5b9cca4f, 0x682e6ff3,
    0x748f82ee, 0x78a5636f, 0x84c87814, 0x8cc70208, 0x90befffa, 0xa4506ceb, 0xbef9a3f7, 0xc67178f2]

/-- Rotation to the right. -/
def rotate (x : UInt32) (n : UInt32) : UInt32 := (x >>> n) ||| (x <<< (32 - n))

/-- A big-endian word of four bytes. -/
def wordOf (bytes : List UInt8) : UInt32 := bytes.foldl (fun w b => (w <<< 8) ||| b.toUInt32) 0

/-- The bytes of a word, the highest first. -/
def bytesOf (w : UInt32) : List UInt8 :=
  [(w >>> 24).toUInt8, (w >>> 16).toUInt8, (w >>> 8).toUInt8, w.toUInt8]

/-- A list cut into pieces of `n` elements, as many as `count`. -/
def pieces {α : Type} (n : Nat) : (count : Nat) → List α → List (List α)
  | 0, _ => []
  | count + 1, xs => xs.take n :: pieces n count (xs.drop n)

/-- The message with its padding: a one bit, zeros, and its length in bits, in whole blocks of 64
bytes. -/
def padded (message : List UInt8) : List UInt8 :=
  let n := message.length
  let zeros := (119 - n % 64) % 64
  let length := (8 * n).toUInt64
  message ++ (0x80 : UInt8) :: List.replicate zeros 0 ++
    bytesOf (length >>> 32).toUInt32 ++ bytesOf length.toUInt32

/-- The next word of a schedule from the words before it. -/
def nextWord (ws : Array UInt32) : UInt32 :=
  let back (k : Nat) : UInt32 := ws.getD (ws.size - k) 0
  let a := back 15
  let b := back 2
  back 16 + (rotate a 7 ^^^ rotate a 18 ^^^ (a >>> 3)) + back 7 +
    (rotate b 17 ^^^ rotate b 19 ^^^ (b >>> 10))

/-- The schedule of a block: its sixteen words and `count` further ones. -/
def extend : (count : Nat) → Array UInt32 → Array UInt32
  | 0, ws => ws
  | count + 1, ws => extend count (ws.push (nextWord ws))

/-- The schedule of a block. -/
def schedule (block : List UInt8) : Array UInt32 :=
  extend 48 ((pieces 4 16 block).map wordOf).toArray

/-- One round on the state. -/
def mix (s : Vector UInt32 8) (k w : UInt32) : Vector UInt32 8 :=
  let a := s[0]
  let b := s[1]
  let c := s[2]
  let e := s[4]
  let t := s[7] + (rotate e 6 ^^^ rotate e 11 ^^^ rotate e 25) +
    ((e &&& s[5]) ^^^ (~~~e &&& s[6])) + k + w
  let u := (rotate a 2 ^^^ rotate a 13 ^^^ rotate a 22) + ((a &&& b) ^^^ (a &&& c) ^^^ (b &&& c))
  #v[t + u, a, b, c, s[3] + t, e, s[5], s[6]]

/-- One block added to the state. -/
def absorb (s : Vector UInt32 8) (block : List UInt8) : Vector UInt32 8 :=
  let rounds := roundWords.toList.zip (schedule block).toList
  let t := rounds.foldl (fun s (k, w) => mix s k w) s
  Vector.zipWith (· + ·) s t

/-- The digest of a message: 64 hexadecimal digits. -/
def hex (message : List UInt8) : String :=
  let bytes := padded message
  let state := (pieces 64 (bytes.length / 64) bytes).foldl absorb initial
  String.ofList (state.toList.flatMap fun w => Text.hexPadded 8 w.toNat)

end Reckon.Digest
