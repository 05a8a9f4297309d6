import Fabula.Text.Blank

/-!
# The alternatives of a union type

The right-hand side of a union type is cut at each `|` that stands outside
quotes and brackets. Quotes are `'`, `"` and the backtick; a quote after a
backslash does not close its literal. The brackets are `( [ { <` and their
partners, which are counted together; the `>` of an arrow `=>` closes nothing,
and a closing bracket too many is passed over.
-/

namespace Fabula

namespace Union

/-- Where a scan of a right-hand side stands. -/
structure ScanState where
  /-- The quote that opened the literal the scan is in. -/
  quote : Option Char
  /-- How many brackets are open. -/
  depth : Nat
  /-- The character before. -/
  previous : Char
deriving DecidableEq, Repr

namespace ScanState

/-- The state at the start of a right-hand side. -/
def start : ScanState :=
  ⟨none, 0, '\x00'⟩

/-- A quote character opens a literal. -/
def isQuote (c : Char) : Bool :=
  c == '\'' || c == '"' || c == '\x60'

/-- A bracket that opens. -/
def opens (c : Char) : Bool :=
  c == '(' || c == '[' || c == '{' || c == '<'

/-- A bracket that closes. -/
def closes (c : Char) : Bool :=
  c == ')' || c == ']' || c == '}' || c == '>'

/-- The state behind a character. -/
def next (s : ScanState) (c : Char) : ScanState :=
  match s.quote with
  | some q => ⟨if c == q && s.previous != '\\' then none else some q, s.depth, c⟩
  | none =>
    if isQuote c then ⟨some c, s.depth, c⟩
    else if opens c then ⟨none, s.depth + 1, c⟩
    else if c == '>' && s.previous == '=' then ⟨none, s.depth, c⟩
    else if closes c then ⟨none, s.depth - 1, c⟩
    else ⟨none, s.depth, c⟩

/-- Whether a `|` here ends an alternative. -/
def atTop (s : ScanState) : Bool :=
  s.quote.isNone && s.depth == 0

end ScanState

/-- **The alternatives of a right-hand side**, with the blanks around them. -/
def alternatives (t : Text) : List Text :=
  go .start t
where
  /-- From a place in the middle of an alternative, the rest of it and the
  alternatives behind. -/
  go (s : ScanState) : Text → List Text
    | [] => [[]]
    | c :: cs =>
      if c == '|' && s.atTop then [] :: go (s.next c) cs
      else
        match go (s.next c) cs with
        | [] => [[c]]
        | piece :: pieces => (c :: piece) :: pieces

end Union

end Fabula
