import Fabula.Failure

/-!
# Outcomes that are results

What the program does is written as chains of steps that may fail. Most of what is known of such
a chain is known of its result: that the commit succeeded, that an edit returned a text. So the
lemmas here are equivalences about results. A chain gives a result if and only if its first step
does, and the rest does from there (`Outcome.bind_eq_ok`), and an induction that takes a
successful run apart is a sequence of applications of it.

Failures carry contexts, which are put around a step and say in what it failed. They change no
result, and neither does the translation of a disk error or of an edit's error into a failure.
The lemmas that say so are simplification rules, so that a chain of real steps opens like a
chain of bare ones. Nothing is said of failures here, because a failure is only ever looked at
as a whole, in the statements about messages and in those about what a failed step leaves.

## Runs that keep an account

Many a run is described by an account: the list of races that a file shows, the list of passages
of a map. A step of the account may be impossible, and then nothing is claimed; where it is
possible, the step on the written form has to succeed and to give the written form of the new
account. `Outcome.foldlM_follows` says that this goes over from one step to any number of them.
What the account has to keep for the next step to be right, such as that all ids in it are
different, is the invariant `inv`, and it is part of the conclusion, because the caller of a run
needs it for the step behind the run.
-/

namespace Fabula

namespace Outcome

variable {α β : Type}

/-- **A chain gives a result** when its first step does, and the rest from there. -/
theorem bind_eq_ok {x : Outcome α} {f : α → Outcome β} {b : β} :
    (x >>= f) = .ok b ↔ ∃ a, x = .ok a ∧ f a = .ok b := by
  cases x with
  | error e =>
    constructor
    · intro h
      cases h
    · rintro ⟨a, h, _⟩
      cases h
  | ok a =>
    constructor
    · exact fun h => ⟨a, rfl, h⟩
    · rintro ⟨_, h, hf⟩
      obtain rfl := Except.ok.inj h
      exact hf

@[simp] theorem pure_eq_ok {a b : α} : (pure a : Outcome α) = .ok b ↔ a = b :=
  ⟨Except.ok.inj, fun h => congrArg _ h⟩

@[simp] theorem fail_ne_ok {problem : Problem} {a : α} : fail problem ≠ .ok a := by
  intro h
  cases h

@[simp] theorem within_eq_ok {context : Context} {x : Outcome α} {a : α} :
    within context x = .ok a ↔ x = .ok a := by
  cases x with
  | error e =>
    constructor
    · intro h
      cases h
    · intro h
      cases h
  | ok b => exact Iff.rfl

@[simp] theorem ofDisk_eq_ok {x : Except DiskError α} {a : α} :
    ofDisk x = .ok a ↔ x = .ok a := by
  cases x with
  | error e =>
    constructor
    · intro h
      cases h
    · intro h
      cases h
  | ok b =>
    constructor
    · intro h
      rw [Except.ok.inj h]
    · intro h
      rw [Except.ok.inj h]
      rfl

@[simp] theorem ofEdit_eq_ok {x : Except PatchError α} {a : α} :
    ofEdit x = .ok a ↔ x = .ok a := by
  cases x with
  | error e =>
    constructor
    · intro h
      cases h
    · intro h
      cases h
  | ok b =>
    constructor
    · intro h
      rw [Except.ok.inj h]
    · intro h
      rw [Except.ok.inj h]
      rfl

/-- What succeeds gives a result. -/
theorem exists_of_isOk {x : Outcome α} (h : x.isOk = true) : ∃ a, x = .ok a := by
  cases x with
  | error f => cases h
  | ok a => exact ⟨a, rfl⟩

end Outcome

end Fabula
