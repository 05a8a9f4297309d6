import Fabula.Toml.Blank

/-!
# Quoted texts in TOML

There are two quotes. Between double quotes the backslash begins an escape;
between single quotes every character stands for itself. Either quote may be
tripled: the text is then a *block*, which may have lines, and of whose
beginning a line end is left out. A block may hold its own quote, up to two in
a row, also at its end.

A text is read one character at a time, by a state that says what an earlier
backslash still asks for.
-/

namespace Fabula

namespace Toml

/-- **What an earlier backslash asks for.** -/
inductive Pending where
  | nothing
  /-- The letter of an escape. -/
  | letter
  /-- So many hexadecimal digits of a character's number, of which the digits
  so far are known. -/
  | digits (count value : Nat)
  /-- The end of the line, which was joined to the next one. -/
  | lineEnd
  /-- Nothing, but blanks and line ends are left out. -/
  | joined
deriving DecidableEq, Repr

/-- The value of a hexadecimal digit. -/
def hexDigit? (c : Char) : Option Nat :=
  let n := c.toNat
  if 0x30 ≤ n ∧ n ≤ 0x39 then some (n - 0x30)
  else if 0x41 ≤ n ∧ n ≤ 0x46 then some (n - 0x41 + 10)
  else if 0x61 ≤ n ∧ n ≤ 0x66 then some (n - 0x61 + 10)
  else none

/-- The character an escape of one letter stands for. -/
def escaped? (letter : Char) : Option Char :=
  match letter with
  | 'b' => some '\x08'
  | 't' => some '\t'
  | 'n' => some '\n'
  | 'f' => some '\x0c'
  | 'r' => some '\r'
  | '"' => some '"'
  | '\\' => some '\\'
  | _ => none

/-- The character of a number, if it is one's. -/
def char? (n : Nat) : Option Char :=
  if n.isValidChar then some (Char.ofNat n) else none

/-- A character in front of a text that is read. -/
def following (c : Char) (read : Option (Text × Text)) : Option (Text × Text) :=
  read.map fun (t, rest) => (c :: t, rest)

/-- Whether a quote closes a block: it and the two that follow it are the last
of their run. -/
def closesBlock (quote : Char) (rest : Text) : Bool :=
  Text.startsWith rest [quote, quote] && !Text.startsWith rest [quote, quote, quote]

/-- **Reads up to the closing double quote**, or quotes, answering the text and
what follows. Six quotes in a row are too many for a block. -/
def readBasic (block : Bool) (p : Pending) : Text → Option (Text × Text)
  | [] => none
  | c :: rest =>
    match p with
    | .letter =>
      if c = 'u' then readBasic block (.digits 4 0) rest
      else if c = 'U' then readBasic block (.digits 8 0) rest
      else if block && isBlank c then readBasic block .lineEnd rest
      else if block && c == '\n' then readBasic block .joined rest
      else if block && isLineEnd c rest then readBasic block .lineEnd rest
      else
        match escaped? c with
        | some d => following d (readBasic block .nothing rest)
        | none => none
    | .digits count value =>
      match hexDigit? c with
      | none => none
      | some digit =>
        let value := value * 16 + digit
        if 1 < count then readBasic block (.digits (count - 1) value) rest
        else
          match char? value with
          | some d => following d (readBasic block .nothing rest)
          | none => none
    | .lineEnd =>
      if c = '\n' then readBasic block .joined rest
      else if isBlank c || isLineEnd c rest then readBasic block .lineEnd rest
      else none
    | p =>
      if p = .joined && (isBlank c || isLineEnd c rest) then readBasic block .joined rest
      else if c = '\\' then readBasic block .letter rest
      else if c = '"' then
        if !block then some ([], rest)
        else if Text.startsWith rest "\"\"\"\"\"".toList then none
        else if closesBlock '"' rest then some ([], rest.drop 2)
        else following c (readBasic block .nothing rest)
      else if isPlain c || (block && isLineEnd c rest) then
        following c (readBasic block .nothing rest)
      else none

/-- **Reads up to the closing single quote**, or quotes, as `readBasic` does. -/
def readLiteral (block : Bool) : Text → Option (Text × Text)
  | [] => none
  | c :: rest =>
    if c = '\'' then
      if !block then some ([], rest)
      else if Text.startsWith rest "'''''".toList then none
      else if closesBlock '\'' rest then some ([], rest.drop 2)
      else following c (readLiteral block rest)
    else if isPlain c || (block && isLineEnd c rest) then following c (readLiteral block rest)
    else none

/-- A block without the line end it begins with. -/
def dropFirstLineEnd : Text → Text
  | '\n' :: rest => rest
  | '\r' :: '\n' :: rest => rest
  | t => t

/-- **Reads a quoted text on one line.** -/
def readLine? : Text → Option (Text × Text)
  | '"' :: rest => readBasic false .nothing rest
  | '\'' :: rest => readLiteral false rest
  | _ => none

/-- **Reads a quoted text of any kind.** -/
def readQuoted? (t : Text) : Option (Text × Text) :=
  match Text.after? "\"\"\"".toList t, Text.after? "'''".toList t with
  | some rest, _ => readBasic true .nothing (dropFirstLineEnd rest)
  | none, some rest => readLiteral true (dropFirstLineEnd rest)
  | none, none => readLine? t

end Toml

end Fabula
