import Mathlib.Data.List.Induction
import Fabula.Proofs.Patch.KeyedEntries
import Fabula.Proofs.Registry.Edits

/-!
# Registry files of any history

A ledger has ids that are free (`IsFreeId`). An edit of a registry file asks for less: the id
has to be valid, and nothing keeps it from being the name of a container, or from being listed
twice. What a file looks like after some additions is still told by what was added, as long as
every addition finds the container of its kind. This module says when that is, and what the file
is then (`Registry.Format.text`).

The two files are treated as one. They differ in what an entity is imported by, in what stands
behind its key and how that is written, and in which entries can be read as headers. A
`Registry.Format` has these as fields, together with what the proofs need of them. Every
statement is then about a format, and so about both files.

## What hides a container

A container is found by the first text that reads as its header. Above the containers there is
no colon, and no container is called like another one. So such a text can only be in an entry of
a kind before, and there it must be the key of the entry with a brace behind it. No entry of the
register has that. A member of the world state has, when its id is the container's name
(`Entity.Hides`).

Therefore an entity is added behind the others of its kind, when none of those that are there
hides the container (`Registry.Format.add_text`). It does not matter what the entity itself
hides, since the container was found before the entity was there.

## Any number of additions

A history is a list of entities, and the condition on it is about pairs: no entity hides the
container of a later one. By induction from the end of the list, the file of a history is the
one it should be, from a file without entities on (`Registry.Format.addAll_text`). The two
orders differ here. The file has its entries by kind, and the condition is about who came first.
-/

namespace Fabula

open scoped Engine.Tireless

open Removal Registry

/-- **An entity hides the container** of a later kind in the world state when it is called like
it: its member stands in front and begins like the header. -/
def Entity.Hides (e : Entity) (kind : EntityKind) : Prop :=
  e.kind.rank < kind.rank ∧ e.id = kind.container

instance (e : Entity) (kind : EntityKind) : Decidable (e.Hides kind) :=
  inferInstanceAs (Decidable (_ ∧ _))

/-- **An entity with a valid id**, from a module whose name holds no header of a container. -/
structure NamedEntity extends Entity where
  isId : id.isId = true
  module_lacks : ∀ kind : EntityKind, Lacks kind.container IsObject module

namespace NamedEntity

variable {listed : List NamedEntity} {kind : EntityKind}

theorem isWord (e : NamedEntity) : IsWord e.id :=
  isWord_of_isId e.isId

/-- **The entities of a kind**, in the order they were added. -/
def ofKind (listed : List NamedEntity) (kind : EntityKind) : List NamedEntity :=
  listed.filter fun e => e.kind = kind

theorem mem_ofKind {e : NamedEntity} : e ∈ ofKind listed kind ↔ e ∈ listed ∧ e.kind = kind := by
  simp [ofKind]

theorem ofKind_concat (listed : List NamedEntity) (e : NamedEntity) :
    ofKind (listed ++ [e]) e.kind = ofKind listed e.kind ++ [e] := by
  simp [ofKind]

theorem ofKind_concat_of_ne (listed : List NamedEntity) {e : NamedEntity} (h : e.kind ≠ kind) :
    ofKind (listed ++ [e]) kind = ofKind listed kind := by
  simp [ofKind, h]

end NamedEntity

namespace Registry

open NamedEntity

/-- **What a registry file is written in**: how it lists entities, and the edits of it. -/
structure Format where
  /-- What ends an entry. -/
  punctuation : Punctuation
  /-- The containers behind those of the kinds. -/
  more : List (Text × List Text)
  /-- The line that imports what an entity is listed with. -/
  importOf : Entity → Text
  /-- The entry of an entity. -/
  entryOf : Entity → Text
  /-- What the entry is behind the id and a colon. -/
  valueOf : Entity → Text
  /-- How that is written. -/
  shape : Shape
  /-- Whether the entry of an entity reads as the header of a container behind it. -/
  hides : Entity → EntityKind → Prop
  /-- Adds an entity. -/
  add : Entity → Text → Outcome Text
  /-- Removes an entity. -/
  remove : Entity → Text → Outcome Text
  importing : Ledger.IsImporting importOf
  listing : Ledger.IsListing entryOf
  entry_eq : ∀ e, entryOf e = e.id ++ ':' :: valueOf e
  fits : ∀ e, IsNameText e.id → shape.Fits (valueOf e)
  lacks : ∀ (e : Entity) (kind : EntityKind), IsWord e.id → e.kind.rank < kind.rank →
    ¬hides e kind → Lacks kind.container IsObject (entryOf e)
  add_eq_ok : ∀ e source text, add e source = .ok text ↔
    insertEntry .property e.kind.container (entryOf e) punctuation (importOf e ++ source) = .ok text
  remove_eq_ok : ∀ e source text, remove e source = .ok text ↔
    removeEntry .property e.kind.container e.id (withoutImport (importOf e) source) = .ok text

namespace Format

/-! ## The two formats -/

/-- A value of the register has no line break and no braces. -/
theorem fits_symbol (kind : EntityKind) {id : Text} (h : IsNameText id) :
    Shape.line.Fits (' ' :: kind.symbol id) := by
  have hspelled : IsSpelled [' '] (' ' :: kind.symbol id) :=
    .cons (.of_name (kind.isNameText_symbol h)) (by simp)
  exact ⟨hspelled.not_mem (by decide) (by decide), hspelled.not_mem (by decide) (by decide),
    hspelled.not_mem (by decide) (by decide)⟩

/-- A value of the world state is one object and the rest of a line. -/
theorem fits_member {e : Entity} (h : IsNameText e.id) :
    Shape.object.Fits ([' '] ++ '{' :: (memberFields e ++ '}' :: (memberAnd ++ memberData e))) := by
  have hbehind := isSpelled_behindFields h
  exact ⟨[' '], memberFields e, memberAnd ++ memberData e, by decide,
    not_mem_memberFields h (by decide) (by decide), not_mem_memberFields h (by decide) (by decide),
    hbehind.not_mem (by decide) (by decide),
    Brace.isBalanced_of_not_mem (hbehind.not_mem (by decide) (by decide))
      (hbehind.not_mem (by decide) (by decide)), rfl⟩

/-- **The format of the register.** -/
def register : Format where
  punctuation := .comma
  more := [(loaderContainer, [])]
  importOf := Entity.registerImport
  entryOf := Entity.registerEntry
  valueOf := fun e => ' ' :: e.kind.symbol e.id
  shape := .line
  hides := fun _ _ => False
  add := Entity.addToRegister
  remove := Entity.removeFromRegister
  importing := Ledger.isImporting_registerImport
  listing := Ledger.isListing_registerEntry
  entry_eq := registerEntry_eq
  fits := fun e he => fits_symbol e.kind he
  lacks := by
    intro e kind he _ _
    refine lacks_object_of_not_mem ?_
    rw [registerEntry_eq]
    simp [he.not_mem (c := '{') (by decide),
      (e.kind.isNameText_symbol he.isNameText).not_mem (c := '{') (by decide) (by decide)]
  add_eq_ok := fun _ _ _ => Outcome.within_eq_ok.trans Outcome.ofEdit_eq_ok
  remove_eq_ok := fun _ _ _ => Outcome.within_eq_ok.trans Outcome.ofEdit_eq_ok

/-- **The format of the world state.** -/
def worldState : Format where
  punctuation := .semicolon
  more := []
  importOf := Entity.worldStateImport
  entryOf := Entity.worldStateMember
  valueOf := fun e => [' '] ++ '{' :: (memberFields e ++ '}' :: (memberAnd ++ memberData e))
  shape := .object
  hides := Entity.Hides
  add := Entity.addToWorldState
  remove := Entity.removeFromWorldState
  importing := Ledger.isImporting_worldStateImport
  listing := Ledger.isListing_worldStateMember
  entry_eq := worldStateMember_eq
  fits := fun _ he => fits_member he
  lacks := by
    intro e kind he hrank hfree
    exact lacks_worldStateMember kind.isWord_container he (fun h => hfree ⟨hrank, h.symm⟩)
      fun _ t => not_isObject_memberRef e t
  add_eq_ok := fun _ _ _ => Outcome.within_eq_ok.trans Outcome.ofEdit_eq_ok
  remove_eq_ok := fun _ _ _ => Outcome.within_eq_ok.trans Outcome.ofEdit_eq_ok

/-! ## Files that list entities -/

variable (F : Format) {head front : Text} {listed added : List NamedEntity} {kind : EntityKind}
  {before after : List EntityKind}

/-- The entries of a kind. -/
def entries (listed : List NamedEntity) (kind : EntityKind) : List Text :=
  (ofKind listed kind).map fun e => F.entryOf e.toEntity

/-- The containers of kinds. -/
def containers (listed : List NamedEntity) (kinds : List EntityKind) : List (Text × List Text) :=
  kinds.map fun kind => (kind.container, F.entries listed kind)

/-- A file that lists entities, below certain lines. -/
def sheet (front : Text) (listed : List NamedEntity) : Text :=
  Registry.sheet F.punctuation front (F.containers listed EntityKind.all ++ F.more)

/-- The lines above the containers: the imports, the newest first, and what the file begins
with below them. -/
def top (head : Text) (listed : List NamedEntity) : Text :=
  listed.reverse.flatMap (fun e => F.importOf e.toEntity) ++ head

/-- **The file that lists entities**, in the order they were added. -/
def text (head : Text) (listed : List NamedEntity) : Text :=
  F.sheet (F.top head listed) listed

example : register.text "export const register = \x7b".toList [] =
    "export const register = \x7b
\tcharacters: \x7b
\t\x7d,
\tsideCharacters: \x7b
\t\x7d,
\tlocations: \x7b
\t\x7d,
\tevents: \x7b
\t\x7d,
\tpassages: \x7b
\t\x7d,
\x7d;
".toList := by
  decide +kernel

/-- Without entities, the files are those of a ledger without any. -/
example : register.text Ledger.registerHead [] = Ledger.register Ledger.usualHeads [] ∧
    worldState.text Ledger.worldStateHead [] = Ledger.worldState Ledger.usualHeads [] :=
  ⟨rfl, rfl⟩

theorem top_concat (head : Text) (listed : List NamedEntity) (e : NamedEntity) :
    F.top head (listed ++ [e]) = F.importOf e.toEntity ++ F.top head listed := by
  simp [top]

/-- What stands in front of a file belongs to its first lines. -/
theorem append_sheet (line front : Text) (listed : List NamedEntity) :
    line ++ F.sheet front listed = F.sheet (line ++ front) listed :=
  Ledger.append_sheet _ _ _ _

/-- A file around the container of a kind. -/
theorem sheet_eq (hall : EntityKind.all = before ++ kind :: after) (front : Text)
    (listed : List NamedEntity) : F.sheet front listed = Registry.sheet F.punctuation front
      (F.containers listed before ++
        (kind.container, F.entries listed kind) :: (F.containers listed after ++ F.more)) := by
  simp [sheet, containers, hall]

/-- A file around the entry of an entity. -/
theorem sheet_eq_entry {x : NamedEntity} {xs ys : List NamedEntity}
    (hall : EntityKind.all = before ++ x.kind :: after) (hx : ofKind listed x.kind = xs ++ x :: ys)
    (front : Text) : F.sheet front listed =
      entryFront F.punctuation front (F.containers listed before) x.kind.container
          (xs.map fun e => F.entryOf e.toEntity) ++
        (F.entryOf x.toEntity ++ entryRest F.punctuation (ys.map fun e => F.entryOf e.toEntity)
          (F.containers listed after ++ F.more)) := by
  rw [F.sheet_eq hall, entries, hx, List.map_append, List.map_cons, sheet_append_entry]

theorem entries_concat (listed : List NamedEntity) (e : NamedEntity) :
    F.entries (listed ++ [e]) e.kind = F.entries listed e.kind ++ [F.entryOf e.toEntity] := by
  rw [entries, ofKind_concat, List.map_append]
  rfl

theorem entries_concat_of_ne (listed : List NamedEntity) {e : NamedEntity} (h : e.kind ≠ kind) :
    F.entries (listed ++ [e]) kind = F.entries listed kind := by
  rw [entries, ofKind_concat_of_ne listed h]
  rfl

/-- **A file in which an entity is the last of its kind**, around the container of the kind. -/
theorem sheet_concat {e : NamedEntity} (hall : EntityKind.all = before ++ e.kind :: after)
    (hbefore : ∀ k ∈ before, k.rank < e.kind.rank) (hafter : ∀ k ∈ after, e.kind.rank < k.rank)
    (front : Text) (listed : List NamedEntity) :
    F.sheet front (listed ++ [e]) = Registry.sheet F.punctuation front
      (F.containers listed before ++
        (e.kind.container, F.entries listed e.kind ++ [F.entryOf e.toEntity]) ::
          (F.containers listed after ++ F.more)) := by
  have hkeep : ∀ kinds : List EntityKind, (∀ k ∈ kinds, e.kind ≠ k) →
      F.containers (listed ++ [e]) kinds = F.containers listed kinds := by
    intro kinds hkinds
    exact List.map_congr_left fun k hk => by rw [F.entries_concat_of_ne listed (hkinds k hk)]
  rw [F.sheet_eq hall, entries_concat, hkeep before, hkeep after]
  · exact fun k hk h => (h ▸ hafter k hk).false
  · exact fun k hk h => (h ▸ hbefore k hk).false

/-! ## What stands in front of a container -/

/-- **An import holds no header** of a container, when its module does not. -/
theorem lacks_importLine {key symbol module t : Text} (hkey : IsWord key)
    (hsymbol : IsNameText symbol) (hmodule : Lacks key IsObject module) (ht : Lacks key MayOpen t) :
    Lacks key MayOpen (importLine symbol module ++ t) := by
  have himport : importLine symbol module ++ t =
      (importLead ++ '{' :: ' ' :: (symbol ++ " \x7d from ".toList)) ++
        '\'' :: (module ++ '\'' :: ';' :: '\n' :: t) := by
    have hfrom : importFrom = ' ' :: "from '".toList := by decide
    have hend : importEnd = ['\'', ';'] := by decide
    rw [importLine_eq, bareImport, hfrom, hend]
    simp
  have hlead : ':' ∉ importLead ++ '{' :: ' ' :: (symbol ++ " \x7d from ".toList) := by
    have hword : ':' ∉ importLead := by decide
    simp [hword, hsymbol.not_mem (c := ':') (by decide) (by decide)]
  have hquote : ∀ z t, MayOpen (z ++ '\'' :: t) → MayOpen z := fun _ _ => .of_append
  rw [himport]
  refine .append hkey (by decide) (by decide) hquote (lacks_of_not_mem hlead) ?_
  refine .append hkey (by decide) (by decide) (fun _ _ => .of_mayOpen (by decide) (by decide))
    hmodule ?_
  exact .cons hkey (by decide) (.cons hkey (by decide) ht)

/-- **No header is read in the lines above.** -/
theorem lacks_top (hhead : ':' ∉ head) (listed : List NamedEntity) (kind : EntityKind) :
    Lacks kind.container MayOpen (F.top head listed) := by
  have hlines : ∀ xs : List NamedEntity,
      Lacks kind.container MayOpen (xs.flatMap (fun e => F.importOf e.toEntity) ++ head) := by
    intro xs
    induction xs with
    | nil => exact lacks_of_not_mem hhead
    | cons e xs ih =>
      obtain ⟨symbol, hsymbol, heq⟩ := F.importing e.toEntity e.isWord.isNameText
      rw [List.flatMap_cons, List.append_assoc, heq]
      exact lacks_importLine kind.isWord_container hsymbol (e.module_lacks kind) ih
  exact hlines listed.reverse

/-- **No header is read among entries** when none of them hides the container looked for. -/
theorem passesOver_entries {xs : List NamedEntity} {k : EntityKind} (hk : k.rank < kind.rank)
    (hxs : ∀ x ∈ xs, x.kind = k ∧ ¬F.hides x.toEntity kind) :
    PassesOver kind.container (k.container, xs.map fun e => F.entryOf e.toEntity) := by
  refine ⟨k.isWord_container, fun h => ?_, fun t ht => ?_⟩
  · obtain rfl := EntityKind.container_injective h
    exact hk.false
  · obtain ⟨x, hx, rfl⟩ := List.mem_map.1 ht
    obtain ⟨rfl, hfree⟩ := hxs x hx
    exact F.lacks _ kind x.isWord hk hfree

/-- The containers in front of one are passed over when no entity in them hides it. -/
theorem passesOver_containers (hbefore : ∀ k ∈ before, k.rank < kind.rank)
    (hclear : ∀ x ∈ listed, x.kind ∈ before → ¬F.hides x.toEntity kind) :
    ∀ b ∈ F.containers listed before, PassesOver kind.container b := by
  intro b hb
  obtain ⟨k, hk, rfl⟩ := List.mem_map.1 hb
  refine F.passesOver_entries (hbefore k hk) fun x hx => ?_
  obtain ⟨hlisted, rfl⟩ := mem_ofKind.1 hx
  exact ⟨rfl, hclear x hlisted hk⟩

theorem isFit_entries {t : Text} (ht : t ∈ F.entries listed kind) : IsFit t := by
  obtain ⟨x, _, rfl⟩ := List.mem_map.1 ht
  exact F.listing.fit _ x.isWord

/-! ## Edits of a file -/

/-- **The container of a kind is found** when no entity hides it, and it lists the entities of
the kind. -/
theorem locate_sheet (hfront : Lacks kind.container MayOpen front)
    (hclear : ∀ x ∈ listed, ¬F.hides x.toEntity kind) :
    ∃ c, Container.locate .property kind.container (F.sheet front listed) = .ok c ∧
      c.body = body F.punctuation (F.entries listed kind) := by
  obtain ⟨before, after, hall, hbefore, _⟩ := kind.exists_all_eq
  rw [F.sheet_eq hall]
  exact ⟨_, Registry.locate_sheet hfront kind.isWord_container
    (F.passesOver_containers hbefore fun x hx _ => hclear x hx) fun _ => F.isFit_entries,
    (body_eq _ _).symm⟩

/-- **An entry is added** behind the others of its kind. -/
theorem insertEntry_sheet {e : NamedEntity} (hfront : Lacks e.kind.container MayOpen front)
    (hclear : ∀ x ∈ listed, ¬F.hides x.toEntity e.kind) :
    insertEntry .property e.kind.container (F.entryOf e.toEntity) F.punctuation
      (F.sheet front listed) = .ok (F.sheet front (listed ++ [e])) := by
  obtain ⟨before, after, hall, hbefore, hafter⟩ := e.kind.exists_all_eq
  rw [F.sheet_eq hall, F.sheet_concat hall hbefore hafter]
  exact Registry.insertEntry_sheet hfront e.kind.isWord_container
    (F.passesOver_containers hbefore fun x hx _ => hclear x hx) (fun _ => F.isFit_entries)
    (F.listing.fit _ e.isWord).one_line

/-- **Adding an entity** to a file, in which none hides the container of its kind. -/
theorem add_text (hhead : ':' ∉ head) {e : NamedEntity}
    (hclear : ∀ x ∈ listed, ¬F.hides x.toEntity e.kind) :
    F.add e.toEntity (F.text head listed) = .ok (F.text head (listed ++ [e])) := by
  rw [F.add_eq_ok, text, append_sheet, ← top_concat]
  exact F.insertEntry_sheet (F.lacks_top hhead _ _) hclear

/-- **Adding any number of entities**, none of which hides the container of a later one, to a
file without entities. -/
theorem addAll_text (hhead : ':' ∉ head)
    (hclear : added.Pairwise fun x y => ¬F.hides x.toEntity y.kind) :
    added.foldlM (fun text e => F.add e.toEntity text) (F.text head []) =
      .ok (F.text head added) := by
  induction added using List.reverseRecOn with
  | nil => rfl
  | append_singleton added e ih =>
    obtain ⟨hadded, _, hlast⟩ := List.pairwise_append.1 hclear
    rw [List.foldlM_append, ih hadded]
    show F.add e.toEntity (F.text head added) >>= pure = _
    rw [F.add_text hhead fun x hx => hlast x hx e (List.mem_singleton_self e)]
    rfl

end Format

end Registry

end Fabula
