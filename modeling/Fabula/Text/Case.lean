import Fabula.Text.CaseTable
import Fabula.Text.CasedTable

/-!
# Upper and lower case

The full case mappings of Unicode: a character may become several, as `ß`
becomes `SS`. One mapping looks around itself. A capital sigma becomes `ς` at
the end of a word and `σ` elsewhere, and it is at the end of a word when a
cased letter comes before it and none comes after, characters that case
ignores being passed over on both sides.
-/

namespace Fabula

/-- Whether a character has case. -/
def isCased (c : Char) : Bool :=
  inRanges casedRanges c.toNat

/-- Whether a character is passed over when a word's end is looked for. -/
def isCaseIgnorable (c : Char) : Bool :=
  inRanges caseIgnorableRanges c.toNat

/-- **The upper case of a character.** -/
def upperCase (c : Char) : Text :=
  if c.toNat < 0x80 then [c.toUpper]
  else
    match expandingUpper.lookup c.toNat with
    | some image => image.map Char.ofNat
    | none => [((CaseRun.image? CaseRun.upper c.toNat).map Char.ofNat).getD c]

/-- The lower case of a character, wherever it stands. -/
def lowerCase (c : Char) : Text :=
  if c.toNat < 0x80 then [c.toLower]
  else
    match expandingLower.lookup c.toNat with
    | some image => image.map Char.ofNat
    | none => [((CaseRun.image? CaseRun.lower c.toNat).map Char.ofNat).getD c]

namespace Text

/-- Whether the first character that case does not ignore is cased. -/
def meetsCased (t : Text) : Bool :=
  match t.dropWhile isCaseIgnorable with
  | c :: _ => isCased c
  | [] => false

/-- **The text in lower case.** -/
def toLower (t : Text) : Text :=
  go [] t
where
  /-- `behind` is what was passed, nearest first. -/
  go (behind : Text) : Text → Text
    | [] => []
    | c :: cs =>
      (if c = 'Σ' then [if meetsCased behind && !meetsCased cs then 'ς' else 'σ']
        else lowerCase c) ++ go (c :: behind) cs

/-- **The text with its first character in upper case.** -/
def capitalize : Text → Text
  | [] => []
  | c :: cs => upperCase c ++ cs

end Text

end Fabula
