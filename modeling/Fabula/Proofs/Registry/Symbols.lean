import Fabula.Proofs.Patch.Insertion
import Fabula.Proofs.Registry.Ledger
import Fabula.Proofs.Registry.Readings

/-!
# The names a file imports

What an entity or a passage is imported by is made of its ids and an ending for its kind, and no
one looks whether the name is taken. This module says when two names are the same, in terms of
the ids, and which names a file imports.

## When names are the same

The first letter of an id is written in upper case, so ids that differ in its case alone have
one name (`Text.AlikeAtFirst`). There is no other way for ids to agree, because their first
characters have an upper case of one character each, with which the rest begins at the same
place (`Text.capitalize_eq_iff`).

Characters and side characters have no ending, so they have one name when their ids have. Two
different endings cannot both end one name, unless one of them ends with the other
(`append_ne_append`). A name with an ending and one without can be the same, when the
id of the latter ends so. Taken together these are the clashes of symbols
(`EntityKind.SymbolClash`). The types of the data do have an ending for each kind, and only
`Side` is one that an id may have as well (`EntityKind.DataTypeClash`).

The ids of a passage are put together without anything between them (`PassageRef.stem`), so that
there are as many clashes as there are ways to split a text.

## What a file imports

The names that a file imports are read off its top. Of a ledger they are the symbols of its
entities and those of the head, and no two of them are the same when no two entities clash, and
none with the head (`Ledger.nodup_symbols_iff`, `Ledger.nodup_dataTypes_iff`). This needs the
imports to stay on top, as they are, when an entry is inserted below them, in whatever
container. An insertion goes behind a header, and a header has a colon, which the top has not
(`Registry.ImportsOnTop.insertEntry`).
-/

namespace Fabula

open scoped Engine.Tireless

open Removal Registry

/-! ## Upper case -/

namespace Text

variable {s t : Text}

/-- **Two texts that differ in the case of their first letter at most.** -/
def AlikeAtFirst (s t : Text) : Prop :=
  s.head?.map Char.toUpper = t.head?.map Char.toUpper ∧ s.tail = t.tail

theorem capitalize_cons_of_isId {c : Char} (h : Text.isId (c :: s) = true) :
    capitalize (c :: s) = c.toUpper :: s := by
  have hname := (isWord_of_isId h).name_char c List.mem_cons_self
  have hlow := (toNat_of_isNameChar hname).2
  rw [capitalize, upperCase, if_pos (by omega)]
  rfl

/-- **Ids have one name in upper case** when they are alike but for their first letter. -/
theorem capitalize_eq_iff (hs : s.isId = true) (ht : t.isId = true) :
    s.capitalize = t.capitalize ↔ AlikeAtFirst s t := by
  cases s with
  | nil => cases hs
  | cons c s =>
    cases t with
    | nil => cases ht
    | cons d t =>
      rw [capitalize_cons_of_isId hs, capitalize_cons_of_isId ht, List.cons.injEq]
      simp [AlikeAtFirst]

end Text

/-- **Of two endings of one text** one ends with the other. -/
theorem append_ne_append {s t w v : Text} (h : ¬ w <:+ v) (h' : ¬ v <:+ w) : s ++ w ≠ t ++ v := by
  intro heq
  rcases List.suffix_or_suffix_of_suffix (List.suffix_append s w) (heq ▸ List.suffix_append t v)
    with hw | hv
  · exact h hw
  · exact h' hv

/-! ## Entities -/

namespace EntityKind

/-- **Two entities of one name**, by kind and id. -/
def SymbolClash (x y : EntityKind × Text) : Prop :=
  match x.1, y.1 with
  | location, location | event, event => x.2 = y.2
  | location, event | event, location => False
  | location, _ => x.2 ++ "Location".toList = y.2.capitalize
  | event, _ => x.2 ++ "Event".toList = y.2.capitalize
  | _, location => x.2.capitalize = y.2 ++ "Location".toList
  | _, event => x.2.capitalize = y.2 ++ "Event".toList
  | _, _ => Text.AlikeAtFirst x.2 y.2

/-- **Two entities with data of one name.** -/
def DataTypeClash (x y : EntityKind × Text) : Prop :=
  match x.1, y.1 with
  | character, sideCharacter => x.2.capitalize = y.2.capitalize ++ "Side".toList
  | sideCharacter, character => x.2.capitalize ++ "Side".toList = y.2.capitalize
  | kind, kind' => kind = kind' ∧ Text.AlikeAtFirst x.2 y.2

variable {x y : EntityKind × Text}

/-- **Entities have one name** when they clash, and not otherwise. -/
theorem symbol_eq_iff (hx : x.2.isId = true) (hy : y.2.isId = true) :
    x.1.symbol x.2 = y.1.symbol y.2 ↔ SymbolClash x y := by
  have hending : ∀ s t : Text, s ++ "Location".toList ≠ t ++ "Event".toList := fun _ _ =>
    append_ne_append (by decide) (by decide)
  obtain ⟨kind, id⟩ := x
  obtain ⟨kind', id'⟩ := y
  cases kind <;> cases kind'
  case location.location => exact List.append_left_inj _
  case event.event => exact List.append_left_inj _
  case location.event => exact iff_of_false (hending id id') not_false
  case event.location => exact iff_of_false (hending id' id).symm not_false
  case character.character => exact Text.capitalize_eq_iff hx hy
  case character.sideCharacter => exact Text.capitalize_eq_iff hx hy
  case sideCharacter.character => exact Text.capitalize_eq_iff hx hy
  case sideCharacter.sideCharacter => exact Text.capitalize_eq_iff hx hy
  all_goals exact Iff.rfl

/-- What the type of an entity's data ends with. -/
def dataEnding : EntityKind → Text
  | character => "CharacterData".toList
  | sideCharacter => "SideCharacterData".toList
  | location => "LocationData".toList
  | event => "EventData".toList

theorem dataType_eq (kind : EntityKind) (id : Text) :
    kind.dataType id = 'T' :: (id.capitalize ++ kind.dataEnding) := by
  cases kind <;> rfl

/-- **Data have one name** when the entities clash in this, and not otherwise. -/
theorem dataType_eq_iff (hx : x.2.isId = true) (hy : y.2.isId = true) :
    x.1.dataType x.2 = y.1.dataType y.2 ↔ DataTypeClash x y := by
  have hside : sideCharacter.dataEnding = "Side".toList ++ character.dataEnding := by
    decide
  have hapart : ∀ kind kind' : EntityKind, kind ≠ kind' →
      (kind ≠ character ∨ kind' ≠ sideCharacter) → ¬ kind.dataEnding <:+ kind'.dataEnding := by
    intro kind kind'
    cases kind <;> cases kind' <;> decide
  obtain ⟨kind, id⟩ := x
  obtain ⟨kind', id'⟩ := y
  rw [dataType_eq, dataType_eq, List.cons.injEq, and_iff_right rfl]
  by_cases hkind : kind = kind'
  · subst hkind
    rw [List.append_left_inj]
    cases kind <;> exact (Text.capitalize_eq_iff hx hy).trans (and_iff_right rfl).symm
  · cases kind <;> cases kind'
    case character.sideCharacter =>
      rw [hside, ← List.append_assoc, List.append_left_inj]
      exact Iff.rfl
    case sideCharacter.character =>
      rw [hside, ← List.append_assoc, List.append_left_inj]
      exact Iff.rfl
    all_goals
      exact iff_of_false (append_ne_append (hapart _ _ hkind (by simp))
        (hapart _ _ (Ne.symm hkind) (by simp))) fun hclash => hkind hclash.1

end EntityKind

/-! ## Passages -/

namespace PassageRef

/-- **What a passage is told by in its passage map**: the two ids it has besides its event,
with nothing between them. -/
def stem (p : PassageRef) : Text :=
  p.character ++ p.passage.capitalize

theorem symbol_eq (p : PassageRef) : p.symbol = p.stem ++ "Passage".toList := rfl

/-- **Passages have one name** when their ids make up the same text. -/
theorem symbol_eq_iff {p q : PassageRef} : p.symbol = q.symbol ↔ p.stem = q.stem := by
  rw [symbol_eq, symbol_eq, List.append_left_inj]

/-- **What a passage map imports besides** its passages has the name of a passage only for
the type of all of them. -/
theorem symbol_mem_fixedImports {p : PassageRef} :
    p.symbol ∈ PassageMap.fixedImports.map Prod.fst ↔ p.stem = "TEvent".toList := by
  have hengine : p.symbol ≠ "Engine".toList :=
    append_ne_append (t := []) (by decide) (by decide)
  have hworld : p.symbol ≠ "TWorldState".toList :=
    append_ne_append (t := []) (by decide) (by decide)
  have hpassage : "TEventPassage".toList = "TEvent".toList ++ "Passage".toList := by
    decide
  simp only [PassageMap.fixedImports, List.map_cons, List.map_nil, List.mem_cons,
    List.not_mem_nil, or_false]
  rw [or_iff_right hengine, or_iff_right hworld, hpassage, symbol_eq, List.append_left_inj]

end PassageRef

/-! ## Lists of names -/

/-- **Names are pairwise different** when no two things on the list clash. -/
theorem nodup_reverse_map_iff {α : Type} {f : α → Text} {clash : α → α → Prop} {xs : List α}
    (h : ∀ x ∈ xs, ∀ y ∈ xs, f x = f y ↔ clash x y) :
    (xs.reverse.map f).Nodup ↔ xs.Pairwise fun x y => ¬ clash x y := by
  rw [List.map_reverse, List.nodup_reverse, List.Nodup, List.pairwise_map]
  exact List.Pairwise.iff_of_mem fun hx hy => not_congr (h _ hx _ hy)

namespace Ledger

variable {live : Ledger}

/-- **What a register imports for a ledger**: the entities with their modules, the newest
first. -/
def symbols (live : Ledger) : List (Text × Text) :=
  live.reverse.map fun x => (x.1.symbol x.2, x.1.moduleOf x.2)

/-- **What a world state imports for a ledger.** -/
def dataTypes (live : Ledger) : List (Text × Text) :=
  live.reverse.map fun x => (x.1.dataType x.2, x.1.moduleOf x.2)

/-- What a register with the usual head imports, below its entities. -/
def registerImports : List (Text × Text) :=
  [("Engine".toList, "code/Engine".toList)]

theorem topImports_registerHead : topImports registerHead = registerImports := by
  decide

/-- What a world state with the usual head imports, below its entities. -/
def worldStateImports : List (Text × Text) :=
  [("TCharacterData".toList, "types/TCharacter".toList)]

theorem topImports_worldStateHead : topImports worldStateHead = worldStateImports := by
  decide

theorem nodup_symbols_iff (h : ∀ x ∈ live, x.2.isId = true) :
    (live.symbols.map Prod.fst).Nodup ↔
      live.Pairwise fun x y => ¬ EntityKind.SymbolClash x y := by
  rw [symbols, List.map_map]
  exact nodup_reverse_map_iff fun x hx y hy => EntityKind.symbol_eq_iff (h x hx) (h y hy)

theorem nodup_dataTypes_iff (h : ∀ x ∈ live, x.2.isId = true) :
    (live.dataTypes.map Prod.fst).Nodup ↔
      live.Pairwise fun x y => ¬ EntityKind.DataTypeClash x y := by
  rw [dataTypes, List.map_map]
  exact nodup_reverse_map_iff fun x hx y hy => EntityKind.dataType_eq_iff (h x hx) (h y hy)

end Ledger

/-- **A passage map imports no name twice** when no two of its passages have one stem, and none
has that of the type. -/
theorem PassageMap.nodup_imports_iff (present : PassageMap) :
    ((present.imports ++ fixedImports).map Prod.fst).Nodup ↔
      (present.Pairwise fun x y => x.1.stem ≠ y.1.stem) ∧
        ∀ x ∈ present, x.1.stem ≠ "TEvent".toList := by
  have hfixed : (fixedImports.map Prod.fst).Nodup := by
    decide
  have himports : (present.imports.map Prod.fst).Nodup ↔
      present.Pairwise fun x y => x.1.stem ≠ y.1.stem := by
    rw [imports, List.map_map]
    exact nodup_reverse_map_iff fun _ _ _ _ => PassageRef.symbol_eq_iff
  rw [List.map_append, List.nodup_append', himports, and_iff_right hfixed]
  refine and_congr_right fun _ => ⟨fun h x hx heq => ?_, fun h n hn hfix => ?_⟩
  · refine h (a := x.1.symbol) ?_ (PassageRef.symbol_mem_fixedImports.2 heq)
    exact List.mem_map.2 ⟨_, List.mem_map.2 ⟨x, List.mem_reverse.2 hx, rfl⟩, rfl⟩
  · obtain ⟨i, hi, rfl⟩ := List.mem_map.1 hn
    obtain ⟨x, hx, rfl⟩ := List.mem_map.1 hi
    exact h x (List.mem_reverse.1 hx) (PassageRef.symbol_mem_fixedImports.1 hfix)

/-! ## What stands on top of a file -/

namespace Registry

/-- **Certain imports are on top of a text**, with a head below them that has no key, and an
indented line below that. -/
structure ImportsOnTop (is : List (Text × Text)) (head t : Text) : Prop where
  lines : ∀ i ∈ is, IsImportable i.1 i.2 ∧ ':' ∉ i.2
  head_colon : ':' ∉ head
  begins : importLines is ++ (head ++ ['\n', '\t']) <+: t

namespace ImportsOnTop

variable {is : List (Text × Text)} {head t t' name entry symbol module : Text}
  {punctuation : Punctuation}

theorem colon_not_mem (h : ImportsOnTop is head t) :
    ':' ∉ importLines is ++ (head ++ ['\n', '\t']) := by
  intro hmem
  rcases List.mem_append.1 hmem with hmem | hmem
  · obtain ⟨i, hi, hline⟩ := List.mem_flatMap.1 hmem
    obtain ⟨himportable, hmodule⟩ := h.lines i hi
    exact not_mem_importLine himportable (by decide) (by decide) hmodule hline
  · rcases List.mem_append.1 hmem with hmem | hmem
    · exact h.head_colon hmem
    · exact absurd hmem (by decide)

/-- **Nothing is imported** above the head of a text. -/
theorem nil (hhead : ':' ∉ head) (h : head ++ ['\n', '\t'] <+: t) : ImportsOnTop [] head t :=
  ⟨fun _ hi => absurd hi List.not_mem_nil, hhead, h⟩

/-- **They stay on top** when an entry is inserted below, whatever the engine. -/
theorem insertEntry [Engine] (h : ImportsOnTop is head t)
    (ht : Fabula.insertEntry .property name entry punctuation t = .ok t') :
    ImportsOnTop is head t' := by
  have ht := (isSteady_insertEntry _ _ _ _ _).tireless_eq_ok ht
  exact ⟨h.lines, h.head_colon, insertEntry_front h.colon_not_mem h.begins ht⟩

/-- **A new import comes on top of the others.** -/
theorem importLine (h : ImportsOnTop is head t) (himportable : IsImportable symbol module)
    (hmodule : ':' ∉ module) :
    ImportsOnTop ((symbol, module) :: is) head (Fabula.importLine symbol module ++ t) where
  lines := List.forall_mem_cons.2 ⟨⟨himportable, hmodule⟩, h.lines⟩
  head_colon := h.head_colon
  begins := by
    show Fabula.importLine symbol module ++ importLines is ++ (head ++ ['\n', '\t']) <+: _
    rw [List.append_assoc, List.prefix_append_right_inj]
    exact h.begins

/-- **What is read on top**: these imports and those of the head. -/
theorem topImports_eq (h : ImportsOnTop is head t) : topImports t = is ++ topImports head := by
  obtain ⟨rest, rfl⟩ := h.begins
  rw [List.append_assoc, topImports_importLines fun i hi => (h.lines i hi).1, List.append_assoc]
  exact congrArg (is ++ ·) (topImports_tab head rest)

end ImportsOnTop

end Registry

end Fabula
