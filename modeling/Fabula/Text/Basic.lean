/-!
# Text

Everything this library edits is text, and everything it proves about an edit
is a statement about characters in order. So a text is a list of characters:
a splice is `++`, a match is a decomposition of the list, and a scan is a
recursion on it. Byte offsets, which callers see as spans, are only a measure
of such a decomposition (`Text.byteSize`).

The two searches everything else is built from are here: `Text.after?`, what
follows a given text at the head of another, and `Text.cut?`, the leftmost
place where a given text occurs.
-/

namespace Fabula

/-- A text: its characters in order. -/
abbrev Text := List Char

namespace Text

/-- What is asked of all characters of a text is decided by going through it, not through
all characters. -/
instance decidableForallMem (p : Char → Prop) [DecidablePred p] (t : Text) :
    Decidable (∀ c ∈ t, p c) :=
  List.decidableBAll p t

/-- The number of bytes the text takes in UTF-8. -/
def byteSize (t : Text) : Nat :=
  t.foldr (fun c size => c.utf8Size + size) 0

@[simp] theorem byteSize_nil : byteSize [] = 0 := rfl

@[simp] theorem byteSize_cons (c : Char) (t : Text) :
    byteSize (c :: t) = c.utf8Size + byteSize t := rfl

@[simp] theorem byteSize_append (s t : Text) : byteSize (s ++ t) = byteSize s + byteSize t := by
  induction s with
  | nil => simp
  | cons c s ih => rw [List.cons_append, byteSize_cons, byteSize_cons, ih, Nat.add_assoc]

/-! ## What a text begins with -/

/-- **What follows `p` at the head of the text**, when the text begins with
`p`. -/
def after? : Text → Text → Option Text
  | [], t => some t
  | _ :: _, [] => none
  | p :: ps, c :: cs => if p = c then after? ps cs else none

/-- Reading `p` off the head and putting it back are inverse. -/
theorem after?_eq_some_iff {p t r : Text} : after? p t = some r ↔ t = p ++ r := by
  induction p generalizing t with
  | nil => simp [after?, eq_comm]
  | cons p ps ih =>
    cases t with
    | nil => simp [after?]
    | cons c cs =>
      by_cases h : p = c
      · simp [after?, h, ih]
      · simp [after?, h, eq_comm (a := c)]

@[simp] theorem after?_append (p r : Text) : after? p (p ++ r) = some r :=
  after?_eq_some_iff.2 rfl

/-- Whether the text begins with `p`. -/
def startsWith (t p : Text) : Bool :=
  (after? p t).isSome

/-- Whether the text ends with `p`. -/
def endsWith (t p : Text) : Bool :=
  (after? p.reverse t.reverse).isSome

/-- What precedes `p` at the end of the text, when the text ends with `p`. -/
def before? (p t : Text) : Option Text :=
  (after? p.reverse t.reverse).map List.reverse

/-! ## Where a text occurs -/

/-- **The leftmost occurrence of `needle`**: the text before it and the text
after it. The empty text occurs at the start of every text. -/
def cut? (needle : Text) : Text → Option (Text × Text)
  | [] => (after? needle []).map fun rest => ([], rest)
  | c :: cs =>
    match after? needle (c :: cs) with
    | some rest => some ([], rest)
    | none => (cut? needle cs).map fun (front, rest) => (c :: front, rest)

/-- A cut loses nothing: the two sides and the needle make up the text. -/
theorem eq_of_cut? {needle t front rest : Text} (h : cut? needle t = some (front, rest)) :
    t = front ++ needle ++ rest := by
  induction t generalizing front with
  | nil =>
    obtain ⟨r, hr, heq⟩ := Option.map_eq_some_iff.1 h
    obtain ⟨rfl, rfl⟩ := Prod.mk.inj heq
    simpa using after?_eq_some_iff.1 hr
  | cons c cs ih =>
    rw [cut?] at h
    split at h
    · rename_i r hr
      obtain ⟨rfl, rfl⟩ := Prod.mk.inj (Option.some.inj h)
      simpa using after?_eq_some_iff.1 hr
    · obtain ⟨⟨f, r⟩, hr, heq⟩ := Option.map_eq_some_iff.1 h
      obtain ⟨rfl, rfl⟩ := Prod.mk.inj heq
      simp [ih hr]

/-- Whether `needle` occurs in the text. -/
def contains (t needle : Text) : Bool :=
  (cut? needle t).isSome

/-! ## Pieces -/

/-- The pieces between the occurrences of `sep`; a text without `sep` is one
piece. -/
def split (sep : Char) : Text → List Text
  | [] => [[]]
  | c :: cs =>
    if c = sep then [] :: split sep cs
    else
      match split sep cs with
      | [] => [[c]]
      | piece :: pieces => (c :: piece) :: pieces

/-- The pieces, with `sep` between any two of them. -/
def join (sep : Text) (pieces : List Text) : Text :=
  sep.intercalate pieces

/-- The text of a number in base ten. -/
def ofNat (n : Nat) : Text :=
  Nat.toDigits 10 n

/-- The text, with blanks in front until it is `width` characters long. -/
def padLeft (width : Nat) (t : Text) : Text :=
  List.replicate (width - t.length) ' ' ++ t

end Text

end Fabula
