import Fabula.Text.Blank

/-!
# Scanning with a look behind

A pattern of this library is a function that is given the character before a
place, and the text from that place on, and answers what follows its match
there, if there is one. `Text.search?` finds the leftmost place where a
pattern matches; `Text.replaceAll` replaces the matches, from the left and
without overlap. Both show a pattern the text as it was: the character before
a place is that of the text searched, also where a match ended.
-/

namespace Fabula

/-- A letter, a digit, `_` or `$`: a character that continues a name. Names in
the files this library edits are ASCII. -/
def isNameChar (c : Char) : Bool :=
  c.isAlphanum || c == '_' || c == '$'

/-- Whether the character before a place continues a name, so that what
begins there is the rest of a longer one. -/
def continuesName (previous : Option Char) : Bool :=
  previous.any isNameChar

namespace Text

/-- **The leftmost place where `m` matches**: the text before it, and what `m`
answers there. -/
def search? {α : Type} (m : Option Char → Text → Option α) (previous : Option Char) :
    Text → Option (Text × α)
  | [] => (m previous []).map fun a => ([], a)
  | c :: cs =>
    match m previous (c :: cs) with
    | some a => some ([], a)
    | none => (search? m (some c) cs).map fun (front, a) => (c :: front, a)

/-- The last character of a text, or else the one that stood before it. -/
def lastOr (previous : Option Char) (t : Text) : Option Char :=
  t.getLast?.or previous

/-- **The text with every match of `m` replaced**, from the left and without
overlap. A pattern that answers a rest that is not shorter has matched
nothing. -/
def replaceAll (m : Option Char → Text → Option Text) (new : Text) (previous : Option Char)
    (t : Text) : Text :=
  match t with
  | [] => []
  | c :: cs =>
    match m previous (c :: cs) with
    | some rest =>
      if rest.length < (c :: cs).length then
        new ++ replaceAll m new (lastOr previous ((c :: cs).take ((c :: cs).length - rest.length))) rest
      else c :: replaceAll m new (some c) cs
    | none => c :: replaceAll m new (some c) cs
termination_by t.length
decreasing_by
  all_goals simp only [List.length_cons] at *
  all_goals omega

/-- **What stands behind each match of `m`**, in order: where the search for
the next one begins. -/
def behindMatches (m : Option Char → Text → Option Text) (previous : Option Char)
    (t : Text) : List Text :=
  match t with
  | [] => []
  | c :: cs =>
    match m previous (c :: cs) with
    | some rest =>
      if rest.length < (c :: cs).length then
        rest :: behindMatches m
          (lastOr previous ((c :: cs).take ((c :: cs).length - rest.length))) rest
      else behindMatches m (some c) cs
    | none => behindMatches m (some c) cs
termination_by t.length
decreasing_by
  all_goals simp only [List.length_cons] at *
  all_goals omega

end Text

end Fabula
