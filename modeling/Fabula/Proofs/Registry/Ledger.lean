import Mathlib.Data.List.Nodup
import Fabula.Proofs.Outcome
import Fabula.Proofs.Registry.Entries

/-!
# The registry files of a ledger

A ledger is what the registry files are about: entities by kind and id, in the order they were
created. Both files are functions of it (`Ledger.register`, `Ledger.worldState`). Each of them
is a sheet with a container for every kind, in which every entity of the kind has a line, and it
has an import line for every entity on top, the newest first. What an edit of a registry file
does is then said in terms of the ledger.

## What is fixed and what is not

The first lines of both files are written when a project is set up, by hand or from a template,
and nothing is known of them but that no key stands there. They are a parameter (`Heads`). All
that an edit needs is that there is no colon in them. A head is usually made of import lines and
of the first line of a literal.

What the ledger determines is everything below, and on top the imports. These are in the reverse
order, so the text of a ledger is not the text of its beginning with something behind it: an
entity that is added goes into three places, and everything around these stays
(`Ledger.containers_insert`).

## Valid ledgers

Two things are asked of a ledger. No entity is on it twice, since the second one would be taken
out with the first. And no id is the name of a container (`IsFreeId`), since it might be found
for that container's header. Both can be read off the ids. A creation keeps them, when it is of
a free id that its kind does not have yet (`Ledger.IsValid.concat`), and so does every removal.

From a valid ledger come the properties of its containers which edits ask for: the entries are
fit for lines, they have no keys but their own, and no container is found in the place of
another one (`Ledger.IsValid.passesOver_container`). Hence an entry goes into the container of
its kind (`Ledger.insertEntry_containers`), which is the first edit of a file of a
ledger and the one that all others are compared to.
-/

namespace Fabula

open scoped Engine.Tireless

open Removal Registry

/-- **A ledger**: entities by kind and id, in the order they were created. -/
abbrev Ledger := List (EntityKind × Text)

/-- **What the registry files of a project begin with**, below the imports of its entities and
through the brace of the literal. Whoever set up the project wrote it, and nothing is known of
it but that no key stands there: a key has a colon behind it. -/
structure Heads where
  register : Text
  worldState : Text
  register_colon : ':' ∉ register
  worldState_colon : ':' ∉ worldState

namespace EntityKind

/-- The kinds, in the order of their containers. -/
def all : List EntityKind :=
  [character, sideCharacter, location, event]

/-- The place of the container of a kind among the containers. -/
def rank : EntityKind → Nat
  | character => 0
  | sideCharacter => 1
  | location => 2
  | event => 3

/-- What the file of an entity is called in the folder of its kind, without the ending
of a source file. -/
def fileStem (kind : EntityKind) (id : Text) : Text :=
  match kind with
  | character => id
  | sideCharacter => id
  | location => id ++ ".location".toList
  | event => id ++ '/' :: (id ++ ".event".toList)

/-- **The module of an entity**, seen from the registry files: the folders are called
like the containers. -/
def moduleOf (kind : EntityKind) (id : Text) : Text :=
  '.' :: '/' :: (kind.container ++ '/' :: kind.fileStem id)

theorem mem_all (kind : EntityKind) : kind ∈ all := by
  cases kind <;> decide

theorem rank_injective {kind kind' : EntityKind} (h : kind.rank = kind'.rank) : kind = kind' := by
  revert h
  cases kind <;> cases kind' <;> decide

/-- **The kinds in front of one and behind it.** -/
theorem exists_all_eq (kind : EntityKind) : ∃ before after, all = before ++ kind :: after ∧
    (∀ k ∈ before, k.rank < kind.rank) ∧ ∀ k ∈ after, kind.rank < k.rank := by
  cases kind with
  | character => exact ⟨[], _, rfl, by decide, by decide⟩
  | sideCharacter => exact ⟨[character], _, rfl, by decide, by decide⟩
  | location => exact ⟨[character, sideCharacter], _, rfl, by decide, by decide⟩
  | event => exact ⟨[character, sideCharacter, location], _, rfl, by decide, by decide⟩

theorem isWord_container (kind : EntityKind) : IsWord kind.container := by
  cases kind <;> exact ⟨by decide, by decide⟩

theorem container_injective {kind kind' : EntityKind} (h : kind.container = kind'.container) :
    kind = kind' := by
  revert h
  cases kind <;> cases kind' <;> decide

theorem isSpelled_moduleOf (kind : EntityKind) {id : Text} (h : IsNameText id) :
    IsSpelled moduleMarks (kind.moduleOf id) := by
  have hid : IsSpelled moduleMarks id := .of_name h
  have hfolder : IsSpelled moduleMarks ('.' :: '/' :: kind.container) := by
    cases kind <;> decide
  have hstem : IsSpelled moduleMarks (kind.fileStem id) := by
    cases kind with
    | character => exact hid
    | sideCharacter => exact hid
    | location => exact hid.append (by decide)
    | event => exact hid.append (.cons (hid.append (by decide)) (by decide))
  exact hfolder.append (hstem.cons (by decide))

/-- **No two entities have one module.** -/
theorem moduleOf_injective {kind kind' : EntityKind} {id id' : Text}
    (h : kind.moduleOf id = kind'.moduleOf id') : kind = kind' ∧ id = id' := by
  have hfolder : kind.container ++ '/' :: kind.fileStem id =
      kind'.container ++ '/' :: kind'.fileStem id' := (List.cons.inj (List.cons.inj h).2).2
  obtain rfl : kind = kind' := by
    have hhead : ∀ (kind : EntityKind) (t : Text),
        (kind.container ++ t).head? = kind.container.head? := by
      intro kind t
      cases kind <;> rfl
    have hfirst := congrArg List.head? hfolder
    rw [hhead, hhead] at hfirst
    revert hfirst
    cases kind <;> cases kind' <;> decide
  refine ⟨rfl, ?_⟩
  have hstem := (List.cons.inj (List.append_cancel_left hfolder)).2
  cases kind with
  | character => exact hstem
  | sideCharacter => exact hstem
  | location => exact List.append_cancel_right hstem
  | event =>
    have hlen := congrArg List.length hstem
    simp only [fileStem, List.length_append, List.length_cons] at hlen
    exact (List.append_inj hstem (by omega)).1

end EntityKind

/-- **A free id**: one that is no container's name. -/
def IsFreeId (id : Text) : Prop :=
  id.isId = true ∧ id ∉ loaderContainer :: EntityKind.all.map EntityKind.container

instance (id : Text) : Decidable (IsFreeId id) :=
  inferInstanceAs (Decidable (_ ∧ _))

namespace IsFreeId

variable {id : Text} (h : IsFreeId id)

include h in
theorem isWord : IsWord id :=
  isWord_of_isId h.1

include h in
theorem ne_container (kind : EntityKind) : id ≠ kind.container := by
  rintro rfl
  exact h.2 (List.mem_cons_of_mem _ (List.mem_map_of_mem kind.mem_all))

include h in
theorem ne_loaderContainer : id ≠ loaderContainer := by
  rintro rfl
  exact h.2 List.mem_cons_self

end IsFreeId

namespace Ledger

/-- The entity of a ledger as the registry files refer to it. -/
def entity (x : EntityKind × Text) : Entity :=
  ⟨x.1, x.2, x.1.moduleOf x.2⟩

/-- **The ids of a kind**, in the order they were created. -/
def ids (live : Ledger) (kind : EntityKind) : List Text :=
  live.filterMap fun x => if x.1 = kind then some x.2 else none

/-- The import lines, the newest first. -/
def imports (importOf : Entity → Text) (live : Ledger) : Text :=
  live.reverse.flatMap fun x => importOf (entity x)

/-- The container of a kind. -/
def containerOf (entryOf : Entity → Text) (live : Ledger) (kind : EntityKind) :
    Text × List Text :=
  (kind.container, (live.ids kind).map fun id => entryOf (entity (kind, id)))

/-- The module of an event's passage map, seen from the register. -/
def passagesModule (id : Text) : Text :=
  '.' :: '/' :: (EntityKind.event.container ++ '/' ::
    (id ++ '/' :: (id ++ ".passages".toList)))

/-- The loader of an event's passages. -/
def loader (id : Text) : Text :=
  loaderEntry id (passagesModule id)

/-- What a register begins with when it imports the engine of the game. -/
def registerHead : Text :=
  "import \x7b Engine \x7d from 'code/Engine';\n\nexport const register = \x7b".toList

theorem not_mem_registerHead : ':' ∉ registerHead := by
  decide

/-- A register that loads the passages of certain events. -/
def registerSheet (heads : Heads) (live : Ledger) (events : List Text) : Text :=
  sheet .comma (imports Entity.registerImport live ++ heads.register)
    (EntityKind.all.map (containerOf Entity.registerEntry live) ++
      [(loaderContainer, events.map loader)])

/-- **The register of a ledger.** -/
def register (heads : Heads) (live : Ledger) : Text :=
  registerSheet heads live (live.ids .event)

/-- What a world state begins with when it imports the data that all characters have. -/
def worldStateHead : Text :=
  "import \x7b TCharacterData \x7d from 'types/TCharacter';\n\nexport type TWorldState = \x7b".toList

theorem not_mem_worldStateHead : ':' ∉ worldStateHead := by
  decide

/-- **The world state of a ledger.** -/
def worldState (heads : Heads) (live : Ledger) : Text :=
  sheet .semicolon (imports Entity.worldStateImport live ++ heads.worldState)
    (EntityKind.all.map (containerOf Entity.worldStateMember live))

/-- The two heads with an import of their own. -/
def usualHeads : Heads :=
  ⟨registerHead, worldStateHead, not_mem_registerHead, not_mem_worldStateHead⟩

/-- Two heads that import nothing. -/
def bareHeads : Heads :=
  ⟨"export const register = \x7b".toList, "export type TWorldState = \x7b".toList, by decide,
    by decide⟩

/-! ## The containers of a ledger -/

variable {live xs ys : Ledger} {kind kind' : EntityKind} {id key : Text}
  {entryOf : Entity → Text}

theorem mem_ids : id ∈ live.ids kind ↔ (kind, id) ∈ live := by
  unfold ids
  rw [List.mem_filterMap]
  constructor
  · rintro ⟨⟨kind', id'⟩, hx, hid⟩
    split_ifs at hid with hkind
    obtain rfl := Option.some.inj hid
    rw [← hkind]
    exact hx
  · intro hx
    exact ⟨_, hx, if_pos rfl⟩

theorem ids_append (xs ys : Ledger) (kind : EntityKind) :
    ids (xs ++ ys) kind = xs.ids kind ++ ys.ids kind :=
  List.filterMap_append

theorem ids_insert (xs ys : Ledger) (kind : EntityKind) (id : Text) :
    ids (xs ++ (kind, id) :: ys) kind = xs.ids kind ++ id :: ys.ids kind := by
  rw [ids_append]
  congr 1
  exact List.filterMap_cons_some (if_pos rfl)

theorem ids_insert_of_ne (xs ys : Ledger) (id : Text) (h : kind ≠ kind') :
    ids (xs ++ (kind, id) :: ys) kind' = ids (xs ++ ys) kind' := by
  rw [ids_append, ids_append]
  congr 1
  exact List.filterMap_cons_none (if_neg h)

/-- **The containers around the one of a kind** do not change with its entities. -/
theorem containers_insert (entryOf : Entity → Text) (xs ys : Ledger) (kind : EntityKind)
    (id : Text) : ∃ before after : List (Text × List Text),
      EntityKind.all.map (containerOf entryOf (xs ++ (kind, id) :: ys)) =
        before ++ (kind.container, (xs.ids kind).map (fun id => entryOf (entity (kind, id))) ++
          entryOf (entity (kind, id)) ::
            (ys.ids kind).map fun id => entryOf (entity (kind, id))) :: after ∧
      EntityKind.all.map (containerOf entryOf (xs ++ ys)) =
        before ++ (kind.container, (xs.ids kind).map (fun id => entryOf (entity (kind, id))) ++
          (ys.ids kind).map fun id => entryOf (entity (kind, id))) :: after ∧
      ∀ b ∈ before, ∃ kind', kind' ≠ kind ∧ b = containerOf entryOf (xs ++ ys) kind' := by
  obtain ⟨front, rest, hall, hfront, hrest⟩ := kind.exists_all_eq
  have hkeep : ∀ kinds : List EntityKind, (∀ kind' ∈ kinds, kind ≠ kind') →
      kinds.map (containerOf entryOf (xs ++ (kind, id) :: ys)) =
        kinds.map (containerOf entryOf (xs ++ ys)) := by
    intro kinds hkinds
    refine List.map_congr_left fun kind' hkind' => ?_
    rw [containerOf, containerOf, ids_insert_of_ne xs ys id (hkinds kind' hkind')]
  have hfront' : ∀ kind' ∈ front, kind ≠ kind' := by
    rintro kind' hkind' rfl
    exact (hfront kind hkind').false
  have hrest' : ∀ kind' ∈ rest, kind ≠ kind' := by
    rintro kind' hkind' rfl
    exact (hrest kind hkind').false
  refine ⟨front.map (containerOf entryOf (xs ++ ys)), rest.map (containerOf entryOf (xs ++ ys)),
    ?_, ?_, ?_⟩
  · rw [hall, List.map_append, List.map_cons, hkeep front hfront', hkeep rest hrest', containerOf,
      ids_insert, List.map_append, List.map_cons]
  · rw [hall, List.map_append, List.map_cons, containerOf, ids_append, List.map_append]
  · intro b hb
    obtain ⟨kind', hkind', rfl⟩ := List.mem_map.1 hb
    exact ⟨kind', (hfront' kind' hkind').symm, rfl⟩

/-- **A ledger of a project**: no entity twice, and no id that is a container's name. -/
structure IsValid (live : Ledger) : Prop where
  nodup : live.Nodup
  free : ∀ x ∈ live, IsFreeId x.2

/-- **Entries by which a container is edited**: fit for a line, and without keys but
their id and the one of a reference. -/
structure IsListing (entryOf : Entity → Text) : Prop where
  fit : ∀ e : Entity, IsWord e.id → IsFit (entryOf e)
  unused : ∀ (e : Entity) (key : Text), IsWord e.id → IsWord key → key ≠ e.id → key ≠ refKey →
    IsUnused key (entryOf e)

theorem isListing_registerEntry : IsListing Entity.registerEntry where
  fit := by
    intro e he
    have hvalue := isPlainValue_symbol e.kind he.isNameText
    rw [registerEntry_eq]
    exact isFit_of_isWord he hvalue.one_line hvalue.balanced
  unused := by
    intro e key he hkey hne _
    rw [registerEntry_eq]
    exact isUnused_of_ne hkey he hne (isPlainValue_symbol e.kind he.isNameText).no_colon

theorem isListing_worldStateMember : IsListing Entity.worldStateMember where
  fit := fun _ he => isFit_worldStateMember he
  unused := fun _ _ he hkey hne href =>
    isUnused_iff_lacks.2 (lacks_worldStateMember hkey he hne fun h => absurd h href)

namespace IsValid

variable (h : IsValid live)

include h in
theorem isWord {x : EntityKind × Text} (hx : x ∈ live) : IsWord (entity x).id :=
  (h.free x hx).isWord

include h in
/-- Nothing is lost when an entity goes. -/
theorem of_insert (hlive : live = xs ++ (kind, id) :: ys) :
    IsValid (xs ++ ys) ∧ IsFreeId id ∧ (kind, id) ∉ xs ++ ys := by
  subst hlive
  have hnodup := List.nodup_middle.1 h.nodup
  rw [List.nodup_cons] at hnodup
  refine ⟨⟨hnodup.2, fun x hx => h.free x ?_⟩, h.free (kind, id) (by simp), hnodup.1⟩
  rw [List.mem_append, List.mem_cons]
  exact (List.mem_append.1 hx).imp_right .inr

include h in
/-- **A new entity** may be added to a ledger. -/
theorem concat (hid : IsFreeId id) (hnew : (kind, id) ∉ live) : IsValid (live ++ [(kind, id)]) := by
  refine ⟨?_, fun x hx => ?_⟩
  · rw [← List.concat_eq_append]
    exact h.nodup.concat hnew
  · rcases List.mem_append.1 hx with hx | hx
    · exact h.free x hx
    · rw [List.mem_singleton.1 hx]
      exact hid

include h in
/-- The entries of a container are fit. -/
theorem fit (hl : IsListing entryOf) {ids : List Text} (hids : ∀ id ∈ ids, (kind, id) ∈ live) :
    ∀ e ∈ ids.map fun id => entryOf (entity (kind, id)), IsFit e := by
  intro e he
  obtain ⟨id, hid, rfl⟩ := List.mem_map.1 he
  exact hl.fit _ (h.isWord (hids id hid))

include h in
/-- **Headers of another word are passed over** in a container. -/
theorem passesOver (hl : IsListing entryOf) (hkey : IsWord key) (href : key ≠ refKey)
    (hkind : key ≠ kind.container) (hids : ∀ id, (kind, id) ∈ live → key ≠ id) :
    PassesOver key (containerOf entryOf live kind) := by
  refine ⟨kind.isWord_container, hkind, fun e he => ?_⟩
  obtain ⟨id, hid, rfl⟩ := List.mem_map.1 he
  have hmem := mem_ids.1 hid
  exact (hl.unused _ _ (h.isWord hmem) hkey (hids id hmem) href).lacks _

include h in
/-- No container's header is read in the container of another kind. -/
theorem passesOver_container (hl : IsListing entryOf) (hne : kind' ≠ kind) :
    PassesOver kind.container (containerOf entryOf live kind') :=
  h.passesOver hl kind.isWord_container (by cases kind <;> decide)
    (fun heq => hne (EntityKind.container_injective heq).symm)
    fun _ hmem heq => (h.free _ hmem).ne_container kind heq.symm

end IsValid

/-! ## Adding to a ledger -/

/-- **An entry is added** to the container of its kind. -/
theorem insertEntry_containers {p : Punctuation} {front : Text} {more : List (Text × List Text)}
    (h : IsValid live) (hl : IsListing entryOf) (kind : EntityKind)
    (hfront : Lacks kind.container MayOpen front) (hid : IsFreeId id) :
    insertEntry .property kind.container (entryOf (entity (kind, id))) p
        (sheet p front (EntityKind.all.map (containerOf entryOf live) ++ more)) =
      .ok (sheet p front (EntityKind.all.map (containerOf entryOf (live ++ [(kind, id)])) ++ more)) := by
  obtain ⟨before, after, hnew, hold, hbefore⟩ := containers_insert entryOf live [] kind id
  rw [List.append_nil] at hold hbefore
  have hids : List.map (fun id => entryOf (entity (kind, id))) (ids [] kind) = [] := rfl
  rw [hids] at hnew hold
  rw [List.append_nil] at hold
  rw [hnew, hold, List.append_assoc, List.append_assoc, List.cons_append, List.cons_append]
  refine insertEntry_sheet hfront kind.isWord_container (fun b hb => ?_)
    (h.fit hl fun _ hmem => mem_ids.1 hmem) (hl.fit _ hid.isWord).one_line
  obtain ⟨kind', hne, rfl⟩ := hbefore b hb
  exact h.passesOver_container hl hne

end Ledger

end Fabula
