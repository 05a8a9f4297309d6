import Fabula.Text.Basic

/-!
# Fingerprints

A text is recognised by its SHA-1 digest, in hexadecimal. The message is
padded to blocks of sixty-four bytes: a byte `80`, zeros, and the length in
bits. Each block is spread over eighty words, and these are worked into a
state of five words, one round each.
-/

namespace Fabula

namespace Fingerprint

/-- The state of the digest. -/
structure State where
  a : UInt32
  b : UInt32
  c : UInt32
  d : UInt32
  e : UInt32
deriving DecidableEq, Repr

namespace State

/-- The state before the first block. -/
def start : State :=
  ⟨0x67452301, 0xEFCDAB89, 0x98BADCFE, 0x10325476, 0xC3D2E1F0⟩

/-- Two states, word by word. -/
def add (s t : State) : State :=
  ⟨s.a + t.a, s.b + t.b, s.c + t.c, s.d + t.d, s.e + t.e⟩

/-- The words in order. -/
def words (s : State) : List UInt32 :=
  [s.a, s.b, s.c, s.d, s.e]

end State

/-- A word turned to the left. -/
def rotate (n : UInt32) (w : UInt32) : UInt32 :=
  (w <<< n) ||| (w >>> (32 - n))

/-- The choice, parity or majority of a round, and its constant. -/
def mix (round : Nat) (b c d : UInt32) : UInt32 × UInt32 :=
  if round < 20 then ((b &&& c) ||| (~~~b &&& d), 0x5A827999)
  else if round < 40 then (b ^^^ c ^^^ d, 0x6ED9EBA1)
  else if round < 60 then ((b &&& c) ||| (b &&& d) ||| (c &&& d), 0x8F1BBCDC)
  else (b ^^^ c ^^^ d, 0xCA62C1D6)

/-- One round on one word. -/
def step (s : State) (round : Nat) (w : UInt32) : State :=
  let (f, k) := mix round s.b s.c s.d
  ⟨rotate 5 s.a + f + s.e + k + w, s.a, rotate 30 s.b, s.c, s.d⟩

/-- The words of a block and those that follow from them: each is the turned
sum of four earlier ones. -/
def schedule (block : Array UInt32) : Array UInt32 :=
  (List.range 64).foldl (fun w i =>
    w.push (rotate 1
      (w.getD (i + 13) 0 ^^^ w.getD (i + 8) 0 ^^^ w.getD (i + 2) 0 ^^^ w.getD i 0))) block

/-- One block worked into the state. -/
def compress (s : State) (block : Array UInt32) : State :=
  let rounds := (schedule block).toList.zipIdx
  s.add (rounds.foldl (fun t (w, round) => step t round w) s)

/-- A number as so many bytes, the highest first. -/
def bigEndian : Nat → Nat → List UInt8
  | 0, _ => []
  | n + 1, k => UInt8.ofNat (k / 256 ^ n) :: bigEndian n k

/-- The message with its padding. -/
def padded (message : List UInt8) : List UInt8 :=
  let n := message.length
  message ++ 0x80 :: List.replicate ((119 - n % 64) % 64) 0 ++ bigEndian 8 (8 * n)

/-- Bytes as words, four to a word, the highest first. -/
def toWords : List UInt8 → List UInt32
  | w :: x :: y :: z :: rest =>
    ((w.toUInt32 <<< 24) ||| (x.toUInt32 <<< 16) ||| (y.toUInt32 <<< 8) ||| z.toUInt32)
      :: toWords rest
  | _ => []

/-- Words worked into the state, sixteen at a time. -/
def digestWords : Nat → State → List UInt32 → State
  | 0, s, _ => s
  | n + 1, s, words => digestWords n (compress s (words.take 16).toArray) (words.drop 16)

/-- **The SHA-1 digest of a message.** -/
def digest (message : List UInt8) : State :=
  let words := toWords (padded message)
  digestWords (words.length / 16) .start words

/-- A word as eight hexadecimal digits. -/
def hex (w : UInt32) : Text :=
  let digits := Nat.toDigits 16 w.toNat
  List.replicate (8 - digits.length) '0' ++ digits

end Fingerprint

/-- **The fingerprint of a text**: the digest of its UTF-8 bytes. -/
def fingerprint (t : Text) : Text :=
  (Fingerprint.digest (String.ofList t).toUTF8.toList).words.flatMap Fingerprint.hex

end Fabula
