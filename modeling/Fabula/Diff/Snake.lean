import Fabula.Text.Basic

/-!
# Where to cut two lists in the middle

A shortest edit script of two lists is a path through a grid: a step right
drops an old line, a step down adds a new one, and where the two lines are
equal a diagonal step is free. The search goes from both corners at once, one
more step of cost in each round, and keeps for every diagonal how far it has
come. Where the two searches meet on a diagonal the path can be cut, and each
half is a smaller problem of the same kind.

The forward search counts from the upper left corner, the backward search from
the lower right one. A round visits its diagonals from the highest down. The
place that is answered is where the last free run began, for the forward
search, and where it ended, for the backward one.
-/

namespace Fabula

namespace Snake

/-- How far each diagonal has been followed; diagonals run from `-bound` to
`bound`. -/
structure Frontier where
  /-- The highest diagonal there is room for. -/
  bound : Nat
  /-- The old lines passed, by diagonal. -/
  reach : Array Nat

namespace Frontier

/-- A search that has not begun. -/
def start (bound : Nat) : Frontier :=
  ⟨bound, Array.replicate (2 * bound + 1) 0⟩

/-- How far a diagonal has been followed. -/
def get (f : Frontier) (k : Int) : Nat :=
  f.reach.getD (k + f.bound).toNat 0

/-- Notes how far a diagonal has been followed. -/
def set (f : Frontier) (k : Int) (x : Nat) : Frontier :=
  { f with reach := f.reach.setIfInBounds (k + f.bound).toNat x }

/-- Where a path of cost `d` enters diagonal `k`: from the neighbour that
leads further. -/
def enter (f : Frontier) (d : Nat) (k : Int) : Nat :=
  if k = -d || (k != d && f.get (k - 1) < f.get (k + 1)) then f.get (k + 1)
  else f.get (k - 1) + 1

end Frontier

/-- How many lines are equal from two places on. -/
def run (a b : Array Text) (x y : Nat) : Nat :=
  go (a.size - x) x y
where
  /-- `n` bounds the lines that are left. -/
  go : Nat → Nat → Nat → Nat
    | 0, _, _ => 0
    | n + 1, x, y =>
      match a[x]?, b[y]? with
      | some s, some t => if s = t then go n (x + 1) (y + 1) + 1 else 0
      | _, _ => 0

/-- How many lines are equal from place `x` of one list and place `y` of the
other on, the places being possibly outside. -/
def runAt (a b : Array Text) (x : Nat) (y : Int) : Nat :=
  if 0 ≤ y then run a b x y.toNat else 0

/-- The diagonals of a round, from the highest down. -/
def diagonals (d : Nat) : List Int :=
  (List.range (d + 1)).map fun (i : Nat) => (d : Int) - 2 * i

/-- What one round answers: a place to cut, or the frontier behind it. -/
abbrev Round := Frontier ⊕ (Nat × Nat)

/-- One round of the forward search. -/
def forward (a b : Array Text) (d : Nat) (backward : Frontier) : List Int → Frontier → Round
  | [], f => .inl f
  | k :: ks, f =>
    let delta : Int := (a.size : Int) - b.size
    let x := f.enter d k
    let y := (x : Int) - k
    let x' := x + runAt a b x y
    let f := f.set k x'
    let met := delta % 2 ≠ 0 && (k - delta).natAbs + 1 ≤ d
      && a.size ≤ x' + backward.get (-(k - delta))
    if met then .inr (x, y.toNat) else forward a b d backward ks f

/-- One round of the backward search, over the two lists reversed. -/
def backward (a b : Array Text) (d : Nat) (forward : Frontier) : List Int → Frontier → Round
  | [], f => .inl f
  | k :: ks, f =>
    let delta : Int := (a.size : Int) - b.size
    let x := f.enter d k
    let y := (x : Int) - k
    let n := runAt a b x y
    let f := f.set k (x + n)
    let met := delta % 2 = 0 && (k - delta).natAbs ≤ d
      && a.size ≤ x + n + forward.get (-(k - delta))
    if met then .inr (a.size - (x + n), ((b.size : Int) - (y + n)).toNat)
    else backward a b d forward ks f

/-- **A place to cut the two lists**, as a number of old and of new lines. -/
def find (as bs : List Text) : Option (Nat × Nat) :=
  let rounds := (as.length + bs.length + 1) / 2 + 1
  go rounds 0 (.start (rounds + 1)) (.start (rounds + 1))
where
  /-- The rounds that are left, the cost of the next one, and how far the two
  searches have come. -/
  go : Nat → Nat → Frontier → Frontier → Option (Nat × Nat)
    | 0, _, _, _ => none
    | left + 1, d, f, b =>
      match forward as.toArray bs.toArray d b (diagonals d) f with
      | .inr cut => some cut
      | .inl f =>
        match backward as.reverse.toArray bs.reverse.toArray d f (diagonals d) b with
        | .inr cut => some cut
        | .inl b => go left (d + 1) f b

end Snake

end Fabula
