import Fabula.Toml.Quoted
import Fabula.Toml.Table
import Fabula.Toml.Time

/-!
# Keys and values in TOML

Each reader takes the text from a place on, and answers what it read there
and the text that follows, or refuses. Arrays and inline tables may be nested;
the depth to which they may is an argument, so values are read by recursion on
it. Within one level the text gets shorter with each item.
-/

namespace Fabula

namespace Toml

/-! ## Keys -/

/-- A character of a key that is not quoted. -/
def isKeyChar (c : Char) : Bool :=
  c.isAlphanum || c == '_' || c == '-'

/-- Reads one key. -/
def readKey? (t : Text) : Option (Text × Text) :=
  match readLine? t with
  | some read => some read
  | none =>
    let key := t.takeWhile isKeyChar
    if key = [] then none else some (key, t.dropWhile isKeyChar)

/-- **Reads keys with dots between them**: the last one, with those on the way
to it in front. Blanks around the keys are passed over. -/
def readPath? (t : Text) : Option ((List Text × Text) × Text) :=
  match readKey? (dropBlanks t) with
  | none => none
  | some (key, rest) =>
    match dropBlanks rest with
    | '.' :: more =>
      if more.length < t.length then
        (readPath? more).map fun ((path, last), rest) => ((key :: path, last), rest)
      else none
    | rest => some (([], key), rest)
termination_by t.length

/-! ## Values -/

/-- A character of a value that is not quoted. -/
def isBareChar (c : Char) : Bool :=
  c.isAlphanum || c == '+' || c == '-' || c == '.' || c == '_' || c == ':'

/-- The value a text without quotes is. -/
def bareValue? (t : Text) : Option Value :=
  if t = "true".toList then some (.flag true)
  else if t = "false".toList then some (.flag false)
  else if isNumber t || isTime t then some .other
  else none

/-- Reads a value without quotes. A day goes on behind one space when a digit
follows there. -/
def readBare? (t : Text) : Option (Value × Text) :=
  let first := t.takeWhile isBareChar
  let rest := t.dropWhile isBareChar
  match rest with
  | ' ' :: c :: more =>
    if isDay first && c.isDigit then
      let whole := first ++ ' ' :: (c :: more).takeWhile isBareChar
      (bareValue? whole).map fun v => (v, (c :: more).dropWhile isBareChar)
    else (bareValue? first).map fun v => (v, rest)
  | _ => (bareValue? first).map fun v => (v, rest)

/-- **What follows an array**, its bracket having been read. A comma may
follow the last item. -/
def afterItems? (item : Text → Option (Value × Text)) (t : Text) : Option Text :=
  match dropTrivia false t with
  | ']' :: rest => some rest
  | start =>
    match item start with
    | none => none
    | some (_, rest) =>
      match dropTrivia false rest with
      | ']' :: rest => some rest
      | ',' :: rest => if rest.length < t.length then afterItems? item rest else none
      | _ => none
termination_by t.length

/-- **Reads a pair**: keys, `=` and a value. -/
def readPair? (item : Text → Option (Value × Text)) (t : Text) :
    Option (((List Text × Text) × Value) × Text) := do
  let (keys, rest) ← readPath? t
  let rest ← Text.after? ['='] rest
  let (v, rest) ← item (dropBlanks rest)
  pure ((keys, v), rest)

/-- **What follows the pairs of an inline table**, of which `table` are those
so far. Keys appear once, as in any table. -/
def afterPairs? (item : Text → Option (Value × Text)) (table : Table) (t : Text) : Option Text :=
  match readPair? item t with
  | none => none
  | some (((path, key), v), rest) =>
    match table.insert? key v path with
    | none => none
    | some table =>
      match dropBlanks rest with
      | '\x7d' :: rest => some rest
      | ',' :: rest => if rest.length < t.length then afterPairs? item table rest else none
      | _ => none
termination_by t.length

/-- What follows an inline table, its brace having been read. -/
def afterInline? (item : Text → Option (Value × Text)) (t : Text) : Option Text :=
  match dropBlanks t with
  | '\x7d' :: rest => some rest
  | start => afterPairs? item [] start

/-- **Reads a value** in which arrays and inline tables are nested `depth`
deep at most. -/
def readValue? : Nat → Text → Option (Value × Text)
  | depth, t =>
    match t with
    | '[' :: rest =>
      match depth with
      | 0 => none
      | depth + 1 => (afterItems? (readValue? depth) rest).map fun rest => (.other, rest)
    | '\x7b' :: rest =>
      match depth with
      | 0 => none
      | depth + 1 => (afterInline? (readValue? depth) rest).map fun rest => (.other, rest)
    | t =>
      match readQuoted? t with
      | some (text, rest) => some (.text text, rest)
      | none => readBare? t

end Toml

end Fabula
