import Fabula.Text.Basic

/-!
# Random picks

A source of randomness is a list of throws, each a number of 32 bits; when it
is used up every further throw is zero. To pick one of `n` candidates, a throw
`v` is spread over them: the product `v * n` has the index in its high 32 bits.
So that no candidate is favoured, a throw is repeated when the low 32 bits of
the product lie above a bound.
-/

namespace Fabula

/-- **A source of randomness.** -/
abbrev Dice := List UInt32

namespace Dice

/-- The highest low half with which a throw counts: as many throws lead to
each candidate. -/
def zone (n : Nat) : Nat :=
  n <<< (31 - n.log2) - 1

/-- **An index below `n`**, and the throws that are left. -/
def index (n : Nat) : Dice → Nat × Dice
  | [] => (0, [])
  | v :: rest =>
    let product := v.toNat * n
    if product % 2 ^ 32 ≤ zone n then (product / 2 ^ 32, rest) else index n rest

/-- **One of the candidates**, and the throws that are left. Where there is
none, nothing is thrown. -/
def pick {α : Type} (candidates : List α) (dice : Dice) : Option α × Dice :=
  if candidates.isEmpty then (none, dice)
  else
    let (i, dice) := dice.index candidates.length
    (candidates[i]?, dice)

end Dice

end Fabula
