import Fabula.Proofs.Outcome
import Fabula.Registry.PassageMap
import Fabula.Registry.Races

/-!
# Edits under any engine

An edit makes searches, and its engine may give one of them up. All that can come of it is
the error that says so. It cannot make an edit write another text, or refuse it for another
reason: what an edit does with what a search has found does not depend on the engine. Such
an operation is called steady here (`IsSteady`), and each edit is: under any engine it
answers what it answers under the tireless one, or it was given up.

So the theory of the edits is a theory of the tireless engine, where nothing is in the way
of a proof: the searches that are made drop out of the definitions (`Container.locate_tireless`,
`Container.withoutEntry_tireless`, `UnionDeclaration.find_tireless`), and an edit is a
function of its text. It is carried to every other engine in one of two ways. What is known
to have succeeded was not given up, so that a statement about a result holds of it at once
(`IsSteady.tireless_eq_ok`). What is claimed to succeed is claimed of operations that are
not given up (`Completes`), and of these it holds as well (`IsSteady.eq`).

Operations that are made of steady ones are steady, however they go on with what they are
answered (`IsSteady.bind`, `IsSteady.foldlM`), and with them the registry functions, which
put contexts around the failures of the edits. Only `removeLoader` looks into a failure, and
takes a missing container for a success; it lets one through that was given up.
-/

namespace Fabula

/-! ## Errors of searches that were given up -/

/-- Whether it is the error of a search that was given up. -/
def PatchError.isGivenUp : PatchError → Bool
  | pattern _ => true
  | _ => false

/-- Whether what went wrong is a search that was given up. -/
def Failure.isGivenUp (f : Failure) : Bool :=
  match f.problem with
  | .edit e => e.isGivenUp
  | _ => false

/-- Errors that may be those of searches that were given up. -/
class MayGiveUp (ε : Type) where
  /-- Whether it is such an error. -/
  isGivenUp : ε → Bool

instance : MayGiveUp PatchError := ⟨PatchError.isGivenUp⟩

instance : MayGiveUp Failure := ⟨Failure.isGivenUp⟩

section Steady

variable {ε α β : Type} [MayGiveUp ε]

/-- **No search of the operation was given up.** It may have failed otherwise. -/
def Completes (x : Except ε α) : Prop :=
  ∀ e, x = .error e → MayGiveUp.isGivenUp e = false

instance (x : Except ε α) : Decidable (Completes x) :=
  match x with
  | .ok _ => .isTrue fun _ h => by cases h
  | .error e =>
    decidable_of_iff (MayGiveUp.isGivenUp e = false)
      ⟨fun h _ he => Except.error.inj he ▸ h, fun h => h e rfl⟩

theorem completes_of_eq_ok {x : Except ε α} {a : α} (h : x = .ok a) : Completes x := by
  rintro e rfl
  cases h

theorem completes_error {e : ε} (h : MayGiveUp.isGivenUp e = false) :
    Completes (.error e : Except ε α) :=
  fun _ he => Except.error.inj he ▸ h

/-- **A chain completes** when its first step does, and the rest from there. -/
theorem completes_bind_iff {x : Except ε α} {f : α → Except ε β} :
    Completes (x >>= f) ↔ Completes x ∧ ∀ a, x = .ok a → Completes (f a) := by
  cases x with
  | error e =>
    constructor
    · intro h
      exact ⟨fun e' he' => h e' (Except.error.inj he' ▸ rfl), fun a ha => by cases ha⟩
    · rintro ⟨h, _⟩ e' he'
      exact h e' (Except.error.inj he' ▸ rfl)
  | ok a =>
    constructor
    · intro h
      exact ⟨completes_of_eq_ok rfl, fun b hb => Except.ok.inj hb ▸ h⟩
    · rintro ⟨_, h⟩
      exact h a rfl

/-- **An operation that its engine can only give up.** Under any engine it answers what it
answers under the tireless one, unless a search of it is given up. -/
def IsSteady (op : Engine → Except ε α) : Prop :=
  ∀ E, op E = op Engine.tireless ∨ ∃ e, op E = .error e ∧ MayGiveUp.isGivenUp e = true

namespace IsSteady

variable {op : Engine → Except ε α} {E : Engine} {a : α}

/-- **What completes is what the tireless engine answers.** -/
theorem eq (h : IsSteady op) (hop : Completes (op E)) : op E = op Engine.tireless := by
  rcases h E with heq | ⟨e, he, hgiven⟩
  · exact heq
  · rw [hop e he] at hgiven
    cases hgiven

/-- **What succeeds** succeeds under the tireless engine, with the same result. -/
theorem tireless_eq_ok (h : IsSteady op) (hop : op E = .ok a) : op Engine.tireless = .ok a := by
  rw [← h.eq (completes_of_eq_ok hop), hop]

/-- What succeeds has the result it has under the tireless engine. -/
theorem result_eq (h : IsSteady op) {b : α} (htireless : op Engine.tireless = .ok a)
    (hop : op E = .ok b) : b = a :=
  Except.ok.inj ((h.tireless_eq_ok hop).symm.trans htireless)

/-- **A chain that completes** succeeds step by step as it does under the tireless engine. -/
theorem bind_eq_ok {next : Engine → α → Except ε β} {b : β} (h : IsSteady op)
    (hnext : ∀ a, IsSteady fun E => next E a) (ha : op Engine.tireless = .ok a)
    (hb : next Engine.tireless a = .ok b) (hchain : Completes (op E >>= next E)) :
    op E = .ok a ∧ next E a = .ok b := by
  obtain ⟨hfirst, hrest⟩ := completes_bind_iff.1 hchain
  have hop := (h.eq hfirst).trans ha
  exact ⟨hop, ((hnext a).eq (hrest a hop)).trans hb⟩

/-- **What a chain that completes can come to** is what it comes to under the tireless engine. -/
theorem exists_bind_eq_ok_iff {next : Engine → α → Except ε β} {b : β} (h : IsSteady op)
    (hnext : ∀ a, IsSteady fun E => next E a) (hchain : Completes (op E >>= next E)) :
    (∃ a, op E = .ok a ∧ next E a = .ok b) ↔
      ∃ a, op Engine.tireless = .ok a ∧ next Engine.tireless a = .ok b := by
  constructor
  · rintro ⟨a, ha, hb⟩
    exact ⟨a, h.tireless_eq_ok ha, (hnext a).tireless_eq_ok hb⟩
  · rintro ⟨a, ha, hb⟩
    exact ⟨a, h.bind_eq_ok hnext ha hb hchain⟩

/-- What does not search at all is steady. -/
theorem const (x : Except ε α) : IsSteady fun _ => x :=
  fun _ => .inl rfl

/-- **A chain of steady operations is steady.** -/
theorem bind {next : Engine → α → Except ε β} (h : IsSteady op)
    (hnext : ∀ a, IsSteady fun E => next E a) : IsSteady fun E => op E >>= next E := by
  intro E
  rcases h E with heq | ⟨e, he, hgiven⟩
  · cases hx : op Engine.tireless with
    | error e => exact .inl (by simp only [heq, hx]; rfl)
    | ok a =>
      rcases hnext a E with ha | ⟨e, he, hgiven⟩
      · exact .inl (by simp only [heq, hx]; exact ha)
      · exact .inr ⟨e, by simp only [heq, hx]; exact he, hgiven⟩
  · exact .inr ⟨e, by simp only [he]; rfl, hgiven⟩

/-- **A run of steady operations is steady.** -/
theorem foldlM {σ : Type} {step : Engine → σ → α → Except ε σ}
    (h : ∀ s a, IsSteady fun E => step E s a) (l : List α) (s : σ) :
    IsSteady fun E => l.foldlM (step E) s := by
  induction l generalizing s with
  | nil => exact const _
  | cons a l ih =>
    simp only [List.foldlM_cons]
    exact (h s a).bind fun s' => ih s'

end IsSteady

end Steady

namespace IsSteady

variable {α : Type}

/-- The result of a steady edit. -/
theorem ofEdit {op : Engine → Except PatchError α} (h : IsSteady op) :
    IsSteady fun E => Outcome.ofEdit (op E) := by
  intro E
  rcases h E with heq | ⟨e, he, hgiven⟩
  · exact .inl (by simp only [heq])
  · exact .inr ⟨.of (.edit e), by simp only [he]; rfl, hgiven⟩

/-- A context around a failure does not change what it is. -/
theorem within {op : Engine → Outcome α} (h : IsSteady op) (context : Context) :
    IsSteady fun E => Outcome.within context (op E) := by
  intro E
  rcases h E with heq | ⟨f, hf, hgiven⟩
  · exact .inl (by simp only [heq])
  · exact .inr ⟨⟨context :: f.contexts, f.problem⟩, by simp only [hf]; rfl, hgiven⟩

end IsSteady

/-! ## Searches -/

namespace Engine

theorem isSteady_complete (p : Pattern) (t : Text) (start : Nat) :
    IsSteady fun _ : Engine => complete p t start := by
  intro E
  cases h : E.givesUp? p t start with
  | none => exact .inl (by simp only [complete, h]; rfl)
  | some reason => exact .inr ⟨.pattern reason, by simp only [complete, h], rfl⟩

/-- What follows a search completes when the search is not given up and it does. -/
theorem completes_then_iff [Engine] {α : Type} {p : Pattern} {t : Text} {start : Nat}
    {x : Except PatchError α} :
    Completes (complete p t start >>= fun _ => x) ↔ givesUp? p t start = none ∧ Completes x := by
  unfold complete
  cases givesUp? p t start with
  | none => exact (and_iff_right rfl).symm
  | some reason => exact iff_of_false (fun h => by cases h _ rfl) fun h => by cases h.1

theorem isSteady_replaceAll (p : Pattern) (m : Option Char → Text → Option Text) (new t : Text) :
    IsSteady fun _ : Engine => replaceAll p m new t := by
  have hsearches : ∀ rests : List Text, IsSteady fun _ : Engine =>
      rests.forM fun rest => complete p t (t.byteSize - rest.byteSize) := by
    intro rests
    induction rests with
    | nil => exact .const _
    | cons rest rests ih => exact (isSteady_complete p t _).bind fun _ => ih
  exact (hsearches _).bind fun _ => .const _

end Engine

/-! ## Edits -/

namespace Container

theorem isSteady_locate (kind : ContainerKind) (name source : Text) :
    IsSteady fun _ : Engine => locate kind name source := by
  refine (Engine.isSteady_complete _ _ _).bind fun _ => ?_
  cases Text.search? (kind.headerAt? name) none source with
  | none => exact .const _
  | some found => exact (Engine.isSteady_complete _ _ _).bind fun _ => .const _

theorem isSteady_withoutEntry (c : Container) (key : Text) :
    IsSteady fun _ : Engine => c.withoutEntry key := by
  refine (Engine.isSteady_replaceAll _ _ _ _).bind fun withoutObjects => ?_
  by_cases hobjects : withoutObjects ≠ c.written
  · simp only [if_pos hobjects]
    exact .const _
  · simp only [if_neg hobjects]
    exact (Engine.isSteady_replaceAll _ _ _ _).bind fun _ => .const _

end Container

theorem isSteady_insertEntry (kind : ContainerKind) (name entry : Text)
    (punctuation : Punctuation) (source : Text) :
    IsSteady fun _ : Engine => insertEntry kind name entry punctuation source :=
  (Container.isSteady_locate kind name source).bind fun _ => .const _

theorem isSteady_removeEntry (kind : ContainerKind) (name key source : Text) :
    IsSteady fun _ : Engine => removeEntry kind name key source :=
  (Container.isSteady_locate kind name source).bind fun c =>
    (c.isSteady_withoutEntry key).bind fun _ => .const _

theorem Union.isSteady_withoutNever (t : Text) : IsSteady fun _ : Engine => withoutNever t :=
  (Engine.isSteady_replaceAll _ _ _ _).bind fun _ =>
    (Engine.isSteady_replaceAll _ _ _ _).bind fun _ => .const _

theorem UnionDeclaration.isSteady_find (typeName source : Text) :
    IsSteady fun _ : Engine => find typeName source := by
  refine (Engine.isSteady_complete _ _ _).bind fun _ => ?_
  cases Text.search? (declares? typeName) none source with
  | none => exact .const _
  | some found =>
    exact (Engine.isSteady_complete _ _ _).bind fun _ =>
      (Union.isSteady_withoutNever _).bind fun _ => .const _

theorem isSteady_extendUnion (typeName variant source : Text) :
    IsSteady fun _ : Engine => extendUnion typeName variant source :=
  (UnionDeclaration.isSteady_find typeName source).bind fun _ => .const _

theorem isSteady_shrinkUnion (typeName variant source : Text) :
    IsSteady fun _ : Engine => shrinkUnion typeName variant source :=
  (UnionDeclaration.isSteady_find typeName source).bind fun _ => .const _

section Completes

variable [Engine] {kind : ContainerKind} {name source typeName : Text}

/-- **All that an insertion searches for** is its container. -/
theorem completes_insertEntry_iff {entry : Text} {punctuation : Punctuation} :
    Completes (insertEntry kind name entry punctuation source) ↔
      Completes (Container.locate kind name source) :=
  completes_bind_iff.trans (and_iff_left fun _ _ => completes_of_eq_ok rfl)

/-- All that an extension searches for is the declaration. -/
theorem completes_extendUnion_iff {variant : Text} :
    Completes (extendUnion typeName variant source) ↔
      Completes (UnionDeclaration.find typeName source) :=
  completes_bind_iff.trans (and_iff_left fun _ _ => completes_of_eq_ok rfl)

end Completes

/-! ## The registry -/

namespace Entity

variable (e : Entity) (source : Text)

theorem isSteady_addToRegister : IsSteady fun _ : Engine => e.addToRegister source :=
  (isSteady_insertEntry _ _ _ _ _).ofEdit.within _

theorem isSteady_addToWorldState : IsSteady fun _ : Engine => e.addToWorldState source :=
  (isSteady_insertEntry _ _ _ _ _).ofEdit.within _

theorem isSteady_removeFromRegister : IsSteady fun _ : Engine => e.removeFromRegister source :=
  (isSteady_removeEntry _ _ _ _).ofEdit.within _

theorem isSteady_removeFromWorldState :
    IsSteady fun _ : Engine => e.removeFromWorldState source :=
  (isSteady_removeEntry _ _ _ _).ofEdit.within _

end Entity

theorem isSteady_addLoader (event module source : Text) :
    IsSteady fun _ : Engine => addLoader event module source :=
  (isSteady_insertEntry _ _ _ _ _).ofEdit.within _

/-- A removal that was given up is not taken for one of a missing loader. -/
theorem isSteady_removeLoader (event source : Text) :
    IsSteady fun _ : Engine => removeLoader event source := by
  intro E
  unfold removeLoader
  rcases isSteady_removeEntry .property loaderContainer event source E with heq | ⟨e, he, hgiven⟩
  · exact .inl (by simp only [heq])
  · cases e with
    | pattern reason => exact .inr ⟨_, by simp only [he]; rfl, rfl⟩
    | _ => cases hgiven

namespace PassageRef

variable (p : PassageRef) (module source : Text)

theorem isSteady_addTo : IsSteady fun _ : Engine => p.addTo module source :=
  ((isSteady_extendUnion _ _ _).ofEdit.within _).bind fun _ =>
    (isSteady_insertEntry _ _ _ _ _).ofEdit.within _

theorem isSteady_removeFrom : IsSteady fun _ : Engine => p.removeFrom module source :=
  ((isSteady_shrinkUnion _ _ _).ofEdit.within _).bind fun _ =>
    (isSteady_removeEntry _ _ _ _).ofEdit.within _

end PassageRef

section Tireless

open scoped Engine.Tireless

namespace Engine

@[simp] theorem complete_tireless (p : Pattern) (t : Text) (start : Nat) :
    complete p t start = .ok () :=
  rfl

@[simp] theorem replaceAll_tireless (p : Pattern) (m : Option Char → Text → Option Text)
    (new t : Text) : replaceAll p m new t = .ok (Text.replaceAll m new none t) := by
  have hsearches : ∀ rests : List Text,
      (rests.forM fun rest => complete p t (t.byteSize - rest.byteSize)) = .ok () := by
    intro rests
    induction rests with
    | nil => rfl
    | cons rest rests ih => exact ih
  unfold replaceAll
  rw [hsearches]
  rfl

end Engine

namespace Container

/-- Locating, without the searches. -/
theorem locate_tireless (kind : ContainerKind) (name source : Text) :
    locate kind name source =
      match Text.search? (kind.headerAt? name) none source with
      | none => .error (.containerNotFound name)
      | some (front, header, behind) =>
        match Brace.body? false behind with
        | none => .error (.malformedContainer name (Brace.diagnose behind))
        | some (body, rest) => .ok { kind, name, front, header, body, rest } :=
  rfl

/-- **The tireless engine gives no search up** for a container. -/
theorem completes_locate_tireless (kind : ContainerKind) (name source : Text) :
    Completes (locate kind name source) := by
  rw [locate_tireless]
  rcases Text.search? (kind.headerAt? name) none source with _ | ⟨front, header, behind⟩
  · exact completes_error rfl
  · dsimp only
    cases Brace.body? false behind with
    | none => exact completes_error rfl
    | some _ => exact completes_of_eq_ok rfl

/-- Taking out the entries of a key, without the searches. -/
theorem withoutEntry_tireless (c : Container) (key : Text) :
    c.withoutEntry key =
      let withoutObjects := Text.replaceAll (Removal.object? key) ['\n'] none c.written
      if withoutObjects ≠ c.written then .ok withoutObjects
      else
        let withoutLines := Text.replaceAll (Removal.line? key) ['\n'] none c.written
        if withoutLines ≠ c.written then .ok withoutLines
        else .error (.entryNotFound c.name key) := by
  unfold withoutEntry
  simp only [Engine.replaceAll_tireless]
  rfl

end Container

/-- Dropping the placeholder, without the searches. -/
theorem Union.withoutNever_tireless (t : Text) : withoutNever t = .ok (stripped t) := by
  unfold withoutNever
  simp only [Engine.replaceAll_tireless]
  rfl

/-- Finding a declaration, without the searches. -/
theorem UnionDeclaration.find_tireless (typeName source : Text) :
    find typeName source =
      match Text.search? (declares? typeName) none source with
      | none => .error (.containerNotFound typeName)
      | some (_, tail) =>
        let rhs := Text.trimRight (tail.takeWhile (· != ';'))
        .ok {
          typeName
          front := source.take (source.length - tail.length)
          rhs
          rest := tail.drop rhs.length } := by
  unfold find
  simp only [Engine.complete_tireless, Union.withoutNever_tireless]
  rfl

/-- The tireless engine gives no search up for a declaration. -/
theorem UnionDeclaration.completes_find_tireless (typeName source : Text) :
    Completes (find typeName source) := by
  rw [find_tireless]
  rcases Text.search? (declares? typeName) none source with _ | ⟨_, tail⟩
  · exact completes_error rfl
  · exact completes_of_eq_ok rfl

end Tireless

end Fabula
