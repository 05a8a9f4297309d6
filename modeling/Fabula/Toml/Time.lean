import Fabula.Toml.Number

/-!
# Times in TOML

A time is a day, a time of day, or both with `T` or one space between them; a
day with a time of day may have an offset. Days are those of the calendar,
leap years included.
-/

namespace Fabula

namespace Toml

/-- Reads a number of so many decimal digits. -/
def readDigits? (count : Nat) (t : Text) : Option (Nat × Text) := do
  let digits ← (t.take count).mapM (digitBelow? 10)
  if digits.length = count then pure (ofDigits 10 digits, t.drop count) else none

/-- The number of days of a month. -/
def daysIn (year month : Nat) : Nat :=
  if month = 2 then
    if year % 4 = 0 ∧ (year % 100 ≠ 0 ∨ year % 400 = 0) then 29 else 28
  else if month = 4 ∨ month = 6 ∨ month = 9 ∨ month = 11 then 30
  else 31

/-- **What follows a day.** -/
def afterDay? (t : Text) : Option Text := do
  let (year, t) ← readDigits? 4 t
  let t ← Text.after? ['-'] t
  let (month, t) ← readDigits? 2 t
  let t ← Text.after? ['-'] t
  let (day, t) ← readDigits? 2 t
  if 1 ≤ month ∧ month ≤ 12 ∧ 1 ≤ day ∧ day ≤ daysIn year month then pure t else none

/-- What follows the fraction of a second, when there is one. -/
def afterFraction? : Text → Option Text
  | '.' :: rest =>
    if (rest.head?.any fun c => c.isDigit) then some (rest.dropWhile fun c => c.isDigit)
    else none
  | t => some t

/-- **What follows a time of day.** -/
def afterClock? (t : Text) : Option Text := do
  let (hour, t) ← readDigits? 2 t
  let t ← Text.after? [':'] t
  let (minute, t) ← readDigits? 2 t
  let t ← Text.after? [':'] t
  let (second, t) ← readDigits? 2 t
  if hour ≤ 23 ∧ minute ≤ 59 ∧ second ≤ 60 then afterFraction? t else none

/-- Whether a text is an offset, or empty. -/
def isOffset : Text → Bool
  | [] => true
  | ['Z'] => true
  | ['z'] => true
  | c :: rest =>
    (c == '+' || c == '-') &&
      ((do
        let (hour, t) ← readDigits? 2 rest
        let t ← Text.after? [':'] t
        let (minute, t) ← readDigits? 2 t
        pure (hour ≤ 23 && minute ≤ 59 && t = [])) : Option Bool).getD false

/-- **Whether a text is a day.** -/
def isDay (t : Text) : Bool :=
  afterDay? t == some []

/-- **Whether a text is a time.** -/
def isTime (t : Text) : Bool :=
  match afterDay? t with
  | some [] => true
  | some (c :: rest) =>
    (c == 'T' || c == 't' || c == ' ') && (afterClock? rest).any isOffset
  | none => afterClock? t == some []

end Toml

end Fabula
