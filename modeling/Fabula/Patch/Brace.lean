import Fabula.Patch.Error

/-!
# Braces, one level deep

A container is read without parsing the language it is written in: its body
runs to the brace that closes it, and its entries may hold braces of their
own, but no braces inside those. `Brace.body?` reads such a body. Where it
fails, `Brace.diagnose` counts the braces without a limit and says why.

One level is what a regular expression can read, and it is all that is offered.
The count is made for the message alone: it tells a body that is nested too
deeply from one that does not end, and it is never used to edit anything.
-/

namespace Fabula

namespace Brace

/-- **The body of a container**, read from just behind its opening brace: the
text up to the closing brace, and the text behind that. `inner` tells whether
the place is inside the braces of an entry, where a further opening brace is
one level too many. -/
def body? (inner : Bool) : Text → Option (Text × Text)
  | [] => none
  | c :: cs =>
    if c = '{' then
      if inner then none else (body? true cs).map fun (body, rest) => (c :: body, rest)
    else if c = '}' then
      if inner then (body? false cs).map fun (body, rest) => (c :: body, rest)
      else some ([], cs)
    else (body? inner cs).map fun (body, rest) => (c :: body, rest)

/-- A body that could be read, its closing brace and the rest make up the
text. -/
theorem eq_of_body? {inner : Bool} {t body rest : Text} (h : body? inner t = some (body, rest)) :
    t = body ++ '}' :: rest := by
  induction t generalizing inner body with
  | nil => simp [body?] at h
  | cons c cs ih =>
    rw [body?] at h
    split at h
    · split at h
      · simp at h
      · obtain ⟨⟨b, r⟩, hb, heq⟩ := Option.map_eq_some_iff.1 h
        obtain ⟨rfl, rfl⟩ := Prod.mk.inj heq
        simp [← ih hb]
    · split at h
      · rename_i hc
        split at h
        · obtain ⟨⟨b, r⟩, hb, heq⟩ := Option.map_eq_some_iff.1 h
          obtain ⟨rfl, rfl⟩ := Prod.mk.inj heq
          simp [← ih hb]
        · obtain ⟨rfl, rfl⟩ := Prod.mk.inj (Option.some.inj h)
          simp [hc]
      · obtain ⟨⟨b, r⟩, hb, heq⟩ := Option.map_eq_some_iff.1 h
        obtain ⟨rfl, rfl⟩ := Prod.mk.inj heq
        simp [← ih hb]

/-- The deepest nesting met before the braces balance, from a place that is
`depth` levels deep; nothing when they never do. -/
def deepest? (depth deepest : Nat) : Text → Option Nat
  | [] => none
  | c :: cs =>
    if c = '{' then deepest? (depth + 1) (max deepest (depth + 1)) cs
    else if c = '}' then
      if depth = 1 then some deepest else deepest? (depth - 1) deepest cs
    else deepest? depth deepest cs

/-- Why no body could be read from behind an opening brace. -/
def diagnose (t : Text) : Malformation :=
  match deepest? 1 1 t with
  | some deepest => .tooDeep (deepest - 1)
  | none => .unclosed

end Brace

end Fabula
