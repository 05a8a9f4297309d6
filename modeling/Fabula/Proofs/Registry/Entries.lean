import Fabula.Naming.Id
import Fabula.Proofs.Registry.Imports
import Fabula.Proofs.Registry.Sheet
import Fabula.Registry.PassageMap

/-!
# The entries of the registry files

What an entity is listed by is read off its kind and its id alone: a line of the register, a
member of the world state, a loader when it is an event, and an import in each file. This module
says of each of these texts what an edit will ask for, so that no later proof looks at the
letters.

There are three questions. Is the text fit for its place, one line with balanced braces that
does not begin with a blank? Does it begin with the key by which it will be found again? And
does it hold any other key, which would be found in its place?

## Ids

All three are answered by the characters. An id is a word (`isWord_of_isId`), and the names that
are made of it, by writing its first letter in upper case and adding an ending, have only
characters that continue a name (`IsNameText`). Whatever else there is in an entry is a fixed
list of marks, such as the quotes and slashes around a module. So every entry is spelled with
names and marks (`IsSpelled`), which is closed under putting texts together, and a line feed or
a brace is in none of them because it is neither.

In particular a key is a word with a colon behind it. Where the only colon of an entry is the
one behind its id, the only key is the id, since a word that ends there and begins behind no
character of a name is the whole of it (`isUnused_of_ne`).

## Members of the world state

The members have two colons more. One is behind their field `ref`, which may be an id as well.
So an event called `ref` would have its key in every member. What follows it there is a type,
however, and no object, and a removal that has an object to look for passes over it. This is why
what a text lacks is said for keys with a certain kind of value: a member lacks the entries of
every word but its id, and of the word `ref` it lacks the objects
(`Registry.lacks_worldStateMember`).
-/

namespace Fabula

open Removal

/-! ## Ids and names -/

theorem isNameChar_of_isIdChar {c : Char} (h : Text.isIdChar c = true) : isNameChar c = true := by
  unfold Text.isIdChar at h
  unfold isNameChar
  rw [h, Bool.true_or]

/-- **An id is a word.** -/
theorem isWord_of_isId {id : Text} (h : id.isId = true) : IsWord id := by
  cases id with
  | nil => cases h
  | cons c cs =>
    rw [Text.isId, Bool.and_eq_true, List.all_eq_true] at h
    refine ⟨List.cons_ne_nil c cs, fun d hd => ?_⟩
    rcases List.mem_cons.1 hd with rfl | hd
    · unfold isNameChar Char.isAlphanum
      rw [h.1]
      rfl
    · exact isNameChar_of_isIdChar (h.2 d hd)

/-- **An id ends at the first point**, so two names that begin with ids and points have the
same ids and go on in the same way. -/
theorem append_point_inj {id id' s t : Text} (h : id.isId = true) (h' : id'.isId = true)
    (heq : id ++ '.' :: s = id' ++ '.' :: t) : id = id' ∧ s = t := by
  have hpoint : ∀ {id : Text}, id.isId = true → '.' ∉ id := fun hid hmem =>
    absurd ((isWord_of_isId hid).2 _ hmem) (by decide)
  exact Text.append_cons_inj (hpoint h) (hpoint h') heq

/-- **A text of characters that continue a name**, and of certain marks. -/
def IsSpelled (marks : List Char) (t : Text) : Prop :=
  ∀ c ∈ t, isNameChar c = true ∨ c ∈ marks

instance (marks : List Char) (t : Text) : Decidable (IsSpelled marks t) :=
  inferInstanceAs (Decidable (∀ c ∈ t, isNameChar c = true ∨ c ∈ marks))

/-- A text that has no marks. -/
abbrev IsNameText (t : Text) : Prop :=
  IsSpelled [] t

namespace IsSpelled

variable {marks : List Char} {s t : Text}

theorem not_mem (h : IsSpelled marks t) {c : Char} (hc : isNameChar c = false)
    (hmark : c ∉ marks) : c ∉ t := by
  intro hm
  rcases h c hm with hname | hm
  · rw [hc] at hname
    cases hname
  · exact hmark hm

theorem append (hs : IsSpelled marks s) (ht : IsSpelled marks t) : IsSpelled marks (s ++ t) := by
  intro c hc
  rcases List.mem_append.1 hc with hc | hc
  · exact hs c hc
  · exact ht c hc

theorem cons (ht : IsSpelled marks t) {c : Char} (hc : c ∈ marks) : IsSpelled marks (c :: t) :=
  append (s := [c]) (fun _ hd => .inr (List.mem_singleton.1 hd ▸ hc)) ht

/-- A text without marks may have any. -/
theorem of_name (h : IsNameText t) : IsSpelled marks t :=
  fun c hc => .inl ((h c hc).resolve_right List.not_mem_nil)

/-- A name in upper case is a name. -/
theorem capitalize (h : IsNameText t) : IsNameText t.capitalize := by
  cases t with
  | nil => exact h
  | cons c cs =>
    have hupper : ∀ n < 123, isNameChar (Char.ofNat n) = true →
        isNameChar (Char.ofNat n).toUpper = true := by
      decide +kernel
    have hc := (h c List.mem_cons_self).resolve_right List.not_mem_nil
    have hlow := (Text.toNat_of_isNameChar hc).2
    refine append (fun d hd => .inl ?_) fun d hd => h d (List.mem_cons_of_mem _ hd)
    rw [upperCase, if_pos (by omega), List.mem_singleton] at hd
    have hd' := hupper c.toNat (by omega)
    rw [Char.ofNat_toNat] at hd'
    rw [hd]
    exact hd' hc

end IsSpelled

theorem Removal.IsWord.isNameText {w : Text} (h : IsWord w) : IsNameText w :=
  fun c hc => .inl (h.name_char c hc)

namespace EntityKind

variable {id : Text}

/-- An entity is exported under a name. -/
theorem isNameText_symbol (kind : EntityKind) (h : IsNameText id) : IsNameText (kind.symbol id) := by
  cases kind with
  | character => exact h.capitalize
  | sideCharacter => exact h.capitalize
  | location => exact h.append (by decide)
  | event => exact h.append (by decide)

/-- The type of its data is exported under a name. -/
theorem isNameText_dataType (kind : EntityKind) (h : IsNameText id) :
    IsNameText (kind.dataType id) := by
  have hlead : IsNameText ('T' :: id.capitalize) :=
    IsSpelled.append (s := ['T']) (by decide) h.capitalize
  cases kind with
  | character => exact hlead.append (by decide)
  | sideCharacter => exact hlead.append (by decide)
  | location => exact hlead.append (by decide)
  | event => exact hlead.append (by decide)

end EntityKind

namespace Registry

/-! ## The register -/

variable {key id : Text} {e : Entity}

theorem registerEntry_eq (e : Entity) :
    e.registerEntry = e.id ++ ':' :: (' ' :: e.kind.symbol e.id) := by
  have hcolon : ": ".toList = [':', ' '] := by decide
  unfold Entity.registerEntry
  rw [hcolon]
  simp

/-- **The value of an entry on a line**: behind a blank, one line without colons
and braces that does not begin with a brace. -/
structure IsPlainValue (value : Text) : Prop where
  one_line : '\n' ∉ value
  no_colon : ':' ∉ value
  balanced : Brace.IsBalanced value
  no_object : ¬IsObject value

/-- An entry that begins with an id is fit for a line. -/
theorem isFit_of_isWord {value : Text} (hid : IsWord id) (hline : '\n' ∉ value)
    (hbalanced : Brace.IsBalanced value) : IsFit (id ++ ':' :: value) where
  one_line := by
    simp [hid.not_mem (c := '\n') (by decide), hline]
  balanced := by
    have hhead : Brace.IsBalanced (id ++ [':']) :=
      Brace.isBalanced_of_not_mem (by simp [hid.isKey.not_open]) (by simp [hid.isKey.not_close])
    have := hhead.append hbalanced
    rwa [List.append_assoc] at this
  begins := by
    obtain ⟨c, cs, hk, hc⟩ := hid.isKey.exists_cons
    exact ⟨c, cs ++ ':' :: value, by rw [hk]; rfl, hc⟩

/-- A text without colons and braces on one line is a plain value. -/
theorem isPlainValue_of_isSpelled {marks : List Char} {value : Text} (h : IsSpelled marks value)
    (hmarks : ∀ c ∈ ['\n', ':', '{', '}'], c ∉ marks) : IsPlainValue value := by
  have hnot : ∀ c ∈ ['\n', ':', '{', '}'], c ∉ value := by
    intro c hc
    refine h.not_mem ?_ (hmarks c hc)
    revert c
    decide
  refine ⟨hnot _ (by simp), hnot _ (by simp),
    Brace.isBalanced_of_not_mem (hnot _ (by simp)) (hnot _ (by simp)), fun hobject => ?_⟩
  have hmem := List.mem_of_mem_head? (Option.mem_def.2 hobject)
  exact hnot '{' (by simp) ((List.dropWhile_suffix isBlank).subset hmem)

theorem isPlainValue_symbol (kind : EntityKind) (h : IsNameText id) :
    IsPlainValue (' ' :: kind.symbol id) := by
  have hspelled : IsSpelled [' '] (' ' :: kind.symbol id) :=
    .cons (.of_name (kind.isNameText_symbol h)) (by simp)
  exact isPlainValue_of_isSpelled hspelled (by decide)

/-- A word that is not the id does not occur as a key in an entry on a line. -/
theorem isUnused_of_ne {value : Text} (hkey : IsWord key) (hid : IsWord id) (hne : key ≠ id)
    (hvalue : ':' ∉ value) : IsUnused key (id ++ ':' :: value) :=
  isUnused_iff_lacks.2 (.colon hkey hid hne (lacks_of_not_mem hvalue))

/-! ## Modules and loaders -/

/-- The marks in the name of a module. -/
def moduleMarks : List Char :=
  ['.', '/']

theorem isImportable {symbol module : Text} (hs : IsNameText symbol)
    (h : IsSpelled moduleMarks module) : IsImportable symbol module where
  symbol_name := fun c hc => (hs c hc).resolve_right List.not_mem_nil
  module_line := h.not_mem (by decide) (by decide)
  module_open := h.not_mem (by decide) (by decide)
  module_close := h.not_mem (by decide) (by decide)

/-- What a loader begins with, behind its key and colon. -/
def loaderLead : Text :=
  " () => import('".toList

/-- What a loader ends with. -/
def loaderEnd : Text :=
  "')".toList

theorem loaderEntry_eq (event module : Text) :
    loaderEntry event module = event ++ ':' :: (loaderLead ++ (module ++ loaderEnd)) := by
  have hlead : ": () => import('".toList = ':' :: loaderLead := by decide
  unfold loaderEntry loaderEnd
  rw [hlead]
  simp

theorem isPlainValue_loader {module : Text} (h : IsSpelled moduleMarks module) :
    IsPlainValue (loaderLead ++ (module ++ loaderEnd)) := by
  have hlead : IsSpelled (moduleMarks ++ " ()=>'".toList) loaderLead := by
    decide
  have hend : IsSpelled (moduleMarks ++ " ()=>'".toList) loaderEnd := by
    decide
  refine isPlainValue_of_isSpelled (hlead.append (.append (fun c hc => ?_) hend)) (by decide)
  exact (h c hc).imp_right (List.mem_append_left _)

/-! ## The world state -/

/-- The field of a member that holds its reference. -/
def refKey : Text :=
  "ref".toList

theorem isWord_refKey : IsWord refKey :=
  ⟨by decide, by decide⟩

/-- The type a member refers to. -/
def refType : EntityKind → Text
  | .character => "TCharacter".toList
  | .sideCharacter => "TSideCharacter".toList
  | .location => "TLocation".toList
  | .event => "TEvent".toList

/-- What closes the reference of a member. -/
def refEnd : Text :=
  "'> ".toList

/-- What stands between the reference of a member and its data. -/
def memberAnd : Text :=
  " & ".toList

/-- The reference of a member, behind its key and colon. -/
def memberRef (e : Entity) : Text :=
  ' ' :: (refType e.kind ++ '<' :: '\'' :: (e.id ++ refEnd))

/-- What a member holds between its braces. -/
def memberFields (e : Entity) : Text :=
  ' ' :: (refKey ++ ':' :: memberRef e)

/-- What a member is apart from its reference. -/
def memberData (e : Entity) : Text :=
  match e.kind with
  | .character => "TCharacterData & Partial<".toList ++ (e.kind.dataType e.id ++ ['>'])
  | .sideCharacter => "TSideCharacterData & Partial<".toList ++ (e.kind.dataType e.id ++ ['>'])
  | .location => "Partial<".toList ++ (e.kind.dataType e.id ++ ['>'])
  | .event => e.kind.dataType e.id

/-- A reference with its data, as an object entry. -/
theorem ref_eq (id type data : Text) :
    id ++ ": \x7b ref: ".toList ++ type ++ "<'".toList ++ id ++ "'> \x7d & ".toList ++ data =
      id ++ ':' :: ([' '] ++ '{' :: (' ' :: (refKey ++ ':' :: (' ' :: (type ++ '<' :: '\'' ::
        (id ++ refEnd)))) ++ '}' :: (memberAnd ++ data))) := by
  have href : ": \x7b ref: ".toList = ':' :: ' ' :: '{' :: ' ' :: (refKey ++ [':', ' ']) := by
    decide
  have hclose : "'> \x7d & ".toList = refEnd ++ '}' :: memberAnd := by
    decide
  have hopen : "<'".toList = ['<', '\''] := by
    decide
  rw [href, hclose, hopen]
  simp

/-- **A member of the world state**, as an object entry. -/
theorem worldStateMember_eq (e : Entity) : e.worldStateMember =
    e.id ++ ':' :: ([' '] ++ '{' :: (memberFields e ++ '}' :: (memberAnd ++ memberData e))) := by
  have hassoc : ∀ a b c d : Text, a ++ b ++ c ++ d = a ++ (b ++ (c ++ d)) := by
    intro a b c d
    rw [List.append_assoc, List.append_assoc]
  obtain ⟨kind, id, module⟩ := e
  cases kind with
  | character => exact (hassoc _ _ _ _).trans (ref_eq id _ _)
  | sideCharacter => exact (hassoc _ _ _ _).trans (ref_eq id _ _)
  | location => exact (hassoc _ _ _ _).trans (ref_eq id _ _)
  | event => exact ref_eq id _ _

/-- The marks in a member, apart from its braces and the colons of its keys. -/
def typeMarks : List Char :=
  [' ', '&', '<', '>', '\'']

theorem isSpelled_memberRef (h : IsNameText e.id) : IsSpelled typeMarks (memberRef e) := by
  have htype : IsSpelled typeMarks (refType e.kind) := by
    cases e.kind <;> decide
  have hend : IsSpelled typeMarks refEnd := by
    decide
  have hid : IsSpelled typeMarks (e.id ++ refEnd) := .append (.of_name h) hend
  exact .cons (htype.append (.cons (.cons hid (by decide)) (by decide))) (by decide)

/-- A reference begins with a type, and no object. -/
theorem not_isObject_memberRef (e : Entity) (t : Text) : ¬IsObject (memberRef e ++ t) := by
  obtain ⟨u, hu⟩ : ∃ u, refType e.kind = 'T' :: u := by
    cases e.kind <;> exact ⟨_, rfl⟩
  intro hobject
  unfold IsObject memberRef at hobject
  rw [hu, List.cons_append, List.dropWhile_cons_of_pos (by decide), List.cons_append,
    List.cons_append, List.dropWhile_cons_of_neg (by decide)] at hobject
  exact absurd (Option.some.inj hobject) (by decide)

theorem isSpelled_memberData (h : IsNameText e.id) : IsSpelled typeMarks (memberData e) := by
  have htype : IsSpelled typeMarks (e.kind.dataType e.id) := .of_name (e.kind.isNameText_dataType h)
  have hlast : IsSpelled typeMarks (e.kind.dataType e.id ++ ['>']) := htype.append (by decide)
  unfold memberData
  split
  · exact .append (by decide) hlast
  · exact .append (by decide) hlast
  · exact .append (by decide) hlast
  · exact htype

theorem not_mem_memberFields (h : IsNameText e.id) {c : Char} (hc : isNameChar c = false)
    (hmark : c ∉ ':' :: typeMarks) : c ∉ memberFields e := by
  rw [List.mem_cons, not_or] at hmark
  have hfirst : c ≠ ' ' := by
    rintro rfl
    exact hmark.2 (by decide)
  unfold memberFields
  simp [hfirst, hmark.1, isWord_refKey.not_mem hc, (isSpelled_memberRef h).not_mem hc hmark.2]

theorem isBalanced_memberFields (h : IsNameText e.id) : Brace.IsBalanced (memberFields e) :=
  Brace.isBalanced_of_not_mem (not_mem_memberFields h (by decide) (by decide))
    (not_mem_memberFields h (by decide) (by decide))

theorem isSpelled_behindFields (h : IsNameText e.id) :
    IsSpelled typeMarks (memberAnd ++ memberData e) :=
  .append (by decide) (isSpelled_memberData h)

/-- **A member is fit for a line.** -/
theorem isFit_worldStateMember (h : IsWord e.id) : IsFit e.worldStateMember := by
  have hfields := not_mem_memberFields (e := e) (c := '\n') h.isNameText (by decide) (by decide)
  have hbehind := isSpelled_behindFields h.isNameText
  rw [worldStateMember_eq]
  refine isFit_of_isWord h ?_ ?_
  · have hline := hbehind.not_mem (c := '\n') (by decide) (by decide)
    generalize memberAnd ++ memberData e = data at hline ⊢
    simp [hfields, hline]
  · have hbraces : Brace.IsBalanced ('{' :: memberFields e ++ ['}']) :=
      Brace.isBalanced_braces (not_mem_memberFields h.isNameText (by decide) (by decide))
        (not_mem_memberFields h.isNameText (by decide) (by decide))
    have hrest : Brace.IsBalanced (memberAnd ++ memberData e) :=
      Brace.isBalanced_of_not_mem (hbehind.not_mem (by decide) (by decide))
        (hbehind.not_mem (by decide) (by decide))
    have hblank : Brace.IsBalanced [' '] := by
      decide
    have hall := hblank.append (hbraces.append hrest)
    rwa [List.append_assoc, List.cons_append, List.singleton_append] at hall

/-- **What a member lacks**: the entries of every word but its id, and for the key of
its reference those with a value that no reference begins. -/
theorem lacks_worldStateMember {value : Text → Prop} (hkey : IsWord key) (h : IsWord e.id)
    (hne : key ≠ e.id) (hvalue : key = refKey → ∀ t, ¬value (memberRef e ++ t)) :
    Lacks key value e.worldStateMember := by
  have hbehind : ':' ∉ memberRef e ++ '}' :: (memberAnd ++ memberData e) := by
    have hrefs := (isSpelled_memberRef h.isNameText).not_mem (c := ':') (by decide) (by decide)
    have hdata := (isSpelled_memberData h.isNameText).not_mem (c := ':') (by decide) (by decide)
    have hand : ':' ∉ memberAnd := by
      decide
    simp [hrefs, hdata, hand]
  have hmember : e.worldStateMember = e.id ++ ':' :: ' ' :: '{' :: ' ' :: (refKey ++ ':' ::
      (memberRef e ++ '}' :: (memberAnd ++ memberData e))) := by
    rw [worldStateMember_eq, memberFields]
    simp
  rw [hmember]
  refine .colon hkey h hne (.cons hkey (by decide) (.cons hkey (by decide)
    (.cons hkey (by decide) ?_)))
  by_cases href : key = refKey
  · intro x y heq hy
    rw [href] at heq
    obtain rfl := IsKey.once_of_not_mem (isWord_refKey.not_mem (by decide)) hbehind x y heq
    rw [List.nil_append, List.append_cancel_left_eq, List.cons.injEq] at heq
    rw [← heq.2] at hy
    exact absurd hy (hvalue href _)
  · exact .colon hkey isWord_refKey href (lacks_of_not_mem hbehind)

end Registry

end Fabula
