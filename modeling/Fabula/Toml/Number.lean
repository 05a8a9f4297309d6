import Fabula.Text.Basic

/-!
# Numbers in TOML

An integer is decimal with an optional sign and no needless zero in front, or
hexadecimal, octal or binary with a mark and without a sign. A float has a
fraction, an exponent, or both, or is `inf` or `nan`. Single underscores may
separate digits. Integers are confined to 128 bits, floats to what rounds to a
finite number of 64 bits.
-/

namespace Fabula

namespace Toml

/-- The value of a digit, in a base up to sixteen. -/
def digitBelow? (base : Nat) (c : Char) : Option Nat :=
  let n := c.toNat
  let value :=
    if 0x30 ≤ n ∧ n ≤ 0x39 then n - 0x30
    else if 0x41 ≤ n ∧ n ≤ 0x46 then n - 0x37
    else if 0x61 ≤ n ∧ n ≤ 0x66 then n - 0x57
    else base
  if value < base then some value else none

/-- **The digits of a text of digits**, between which single underscores may
stand. -/
def digits? (base : Nat) : Text → Option (List Nat)
  | [] => none
  | [c] => (digitBelow? base c).map ([·])
  | c :: '_' :: rest => do
    let digit ← digitBelow? base c
    let digits ← digits? base rest
    pure (digit :: digits)
  | c :: rest => do
    let digit ← digitBelow? base c
    let digits ← digits? base rest
    pure (digit :: digits)

/-- The number that digits write. -/
def ofDigits (base : Nat) (digits : List Nat) : Nat :=
  digits.foldl (fun n digit => n * base + digit) 0

/-- Whether a decimal integer has a needless zero in front. -/
def hasIdleZero : List Nat → Bool
  | 0 :: _ :: _ => true
  | _ => false

/-- A text without its sign, and whether that was `-`. -/
def unsigned : Text → Bool × Text
  | '+' :: rest => (false, rest)
  | '-' :: rest => (true, rest)
  | t => (false, t)

/-- The base a mark stands for, and the digits behind it. -/
def marked? : Text → Option (Nat × Text)
  | '0' :: 'x' :: rest => some (16, rest)
  | '0' :: 'o' :: rest => some (8, rest)
  | '0' :: 'b' :: rest => some (2, rest)
  | _ => none

/-- **Whether a text is an integer.** -/
def isInteger (t : Text) : Bool :=
  match marked? t with
  | some (base, rest) =>
    match digits? base rest with
    | some digits => ofDigits base digits < 1 <<< 128
    | none => false
  | none =>
    let (negative, rest) := unsigned t
    match digits? 10 rest with
    | some digits =>
      !hasIdleZero digits &&
        if negative then ofDigits 10 digits ≤ 1 <<< 127 else ofDigits 10 digits < 1 <<< 128
    | none => false

/-- Whether `n · 10 ^ scale`, for an `n` of these decimal digits, rounds to a
finite number of 64 bits. -/
def isFinite (digits : List Nat) (scale : Int) : Bool :=
  let digits := digits.dropWhile (· == 0)
  let magnitude := digits.length + scale
  if digits = [] || magnitude < 309 then true
  else if 309 < magnitude then false
  else
    let bound := 1 <<< 1024 - 1 <<< 970
    ofDigits 10 digits * Nat.pow 10 scale.toNat < bound * Nat.pow 10 (-scale).toNat

/-- The two sides of the first character that `p` holds of. -/
def splitAtFirst (p : Char → Bool) (t : Text) : Text × Option Text :=
  match t.dropWhile fun c => !p c with
  | [] => (t, none)
  | _ :: rest => (t.takeWhile fun c => !p c, some rest)

/-- The number an exponent writes; without one it is zero. -/
def exponent? : Option Text → Option Int
  | none => some 0
  | some t =>
    let (negative, rest) := unsigned t
    (digits? 10 rest).map fun digits =>
      if negative then - Int.ofNat (ofDigits 10 digits) else Int.ofNat (ofDigits 10 digits)

/-- The digits of a fraction; without one there are none. -/
def fraction? : Option Text → Option (List Nat)
  | none => some []
  | some t => digits? 10 t

/-- **Whether a text is a float.** -/
def isFloat (t : Text) : Bool :=
  let (_, rest) := unsigned t
  if rest = "inf".toList || rest = "nan".toList then true
  else
    let (mantissa, exponent) := splitAtFirst (fun c => c == 'e' || c == 'E') rest
    let (whole, fraction) := splitAtFirst (· == '.') mantissa
    match digits? 10 whole, fraction? fraction, exponent? exponent with
    | some digits, some decimals, some scale =>
      (fraction.isSome || exponent.isSome) && !hasIdleZero digits &&
        isFinite (digits ++ decimals) (scale - decimals.length)
    | _, _, _ => false

/-- **Whether a text is a number.** -/
def isNumber (t : Text) : Bool :=
  isInteger t || isFloat t

end Toml

end Fabula
