import Fabula.Proofs.Registry.Ledger

/-!
# Edits of the registry files as edits of a ledger

The registry files of a ledger are functions of it. Adding an entity and removing one are edits
of texts, made of searches, replacements and insertions. This module says that they are edits of
the ledger all the same: an addition to the file of a ledger is the file of the ledger with the
entity behind the others (`Ledger.addToRegister_eq`, `Ledger.addToWorldState_eq`), a removal is
the file of the ledger without it, wherever it stands in it (`Ledger.removeFromRegister_eq`,
`Ledger.removeFromWorldState_eq`), and every other byte is the same.

Either file is edited in two places, and each of the two edits has to find its own place in a
text that the other one has changed.

## Import lines

The imports stand on top, the newest first, so a new one goes in front of everything. What a
removal takes out is the first line that reads like the entity's import. Two entities may have
the same symbol, but they never have the same module, and a line of imports that ends with
another line of imports is that line. So what is found first is the entity's own line
(`Ledger.withoutImport_imports`).

Import lines are in front of all containers, and a container is found by the first text that
reads as its header. An import has no colon, and therefore neither has the top of the file
(`Ledger.IsValid.lacks_imports`).

## Entries

The containers follow each other, and the edit of one of them is the edit of a sheet, which is
already known. What is asked for there is that no entry has a key but its own, or none whose
value is an object. This is where the ledger has to be valid: an id that is the name of a
container could be taken for its header, and two entities of one kind and one id would both be
removed.

## Loaders

The loaders are a container as well, behind all others (`Ledger.addLoader_eq`,
`Ledger.removeLoader_eq`). A loader that is removed is looked for once more, among the lines
that spread the passages of an event, and these are recognized by three points. A register of a
ledger does not have three points in a row, if its head has none, because the few points in the
name of a module stand apart from each other (`Ledger.isSparse_registerSheet`).
-/

namespace Fabula

open scoped Engine.Tireless

namespace Ledger

open Removal Registry

variable {heads : Heads} {live xs ys : Ledger} {events : List Text} {kind : EntityKind} {id : Text}
  {importOf : Entity → Text}

/-! ## Import lines -/

/-- **Lines that import** a name from the module of an entity. -/
def IsImporting (importOf : Entity → Text) : Prop :=
  ∀ e : Entity, IsNameText e.id →
    ∃ symbol, IsNameText symbol ∧ importOf e = importLine symbol e.module

theorem isImporting_registerImport : IsImporting Entity.registerImport :=
  fun e he => ⟨_, e.kind.isNameText_symbol he, rfl⟩

theorem isImporting_worldStateImport : IsImporting Entity.worldStateImport :=
  fun e he => ⟨_, e.kind.isNameText_dataType he, rfl⟩

/-- A new import comes first. -/
theorem imports_concat (importOf : Entity → Text) (live : Ledger) (x : EntityKind × Text) :
    imports importOf (live ++ [x]) = importOf (entity x) ++ imports importOf live := by
  unfold imports
  rw [List.reverse_append, List.reverse_singleton, List.singleton_append, List.flatMap_cons]

theorem imports_insert (importOf : Entity → Text) (xs ys : Ledger) (x : EntityKind × Text) :
    imports importOf (xs ++ x :: ys) =
      imports importOf ys ++ (importOf (entity x) ++ imports importOf xs) := by
  unfold imports
  rw [List.reverse_append, List.reverse_cons, List.flatMap_append, List.flatMap_append,
    List.flatMap_singleton, List.append_assoc]

theorem imports_append (importOf : Entity → Text) (xs ys : Ledger) :
    imports importOf (xs ++ ys) = imports importOf ys ++ imports importOf xs := by
  unfold imports
  rw [List.reverse_append, List.flatMap_append]

/-- The import of an entity of a ledger. -/
theorem IsValid.importOf_eq (h : IsValid live) (himport : IsImporting importOf)
    {x : EntityKind × Text} (hx : x ∈ live) : ∃ symbol,
      IsImportable symbol (x.1.moduleOf x.2) ∧
        importOf (entity x) = bareImport symbol (x.1.moduleOf x.2) ++ ['\n'] := by
  have hname := (h.free x hx).isWord.isNameText
  obtain ⟨symbol, hsymbol, heq⟩ := himport (entity x) hname
  exact ⟨symbol, isImportable hsymbol (x.1.isSpelled_moduleOf hname),
    heq.trans (importLine_eq _ _)⟩

/-- **The import of an entity is the first line that reads like it**, so that it is the
one that is taken out. -/
theorem withoutImport_imports (h : IsValid (xs ++ (kind, id) :: ys))
    (himport : IsImporting importOf) (t : Text) :
    withoutImport (importOf (entity (kind, id))) (imports importOf (xs ++ (kind, id) :: ys) ++ t) =
      imports importOf (xs ++ ys) ++ t := by
  obtain ⟨_, _, hnew⟩ := h.of_insert rfl
  obtain ⟨symbol, hsymbol, heq⟩ := h.importOf_eq himport (x := (kind, id)) (by simp)
  -- the lines above, without their line breaks
  have hlines : imports importOf ys =
      Text.unlines (ys.reverse.map fun x => (importOf (entity x)).dropLast) := by
    unfold imports Text.unlines
    rw [List.flatMap_map]
    refine List.flatMap_congr fun x hx => ?_
    obtain ⟨s, _, hs⟩ := h.importOf_eq himport (x := x) (by simp [List.mem_reverse.1 hx])
    rw [hs, List.dropLast_concat]
  rw [imports_insert, imports_append, hlines, heq]
  have hbefore : ∀ b ∈ ys.reverse.map fun x => (importOf (entity x)).dropLast,
      '\n' ∉ b ∧ ¬bareImport symbol (kind.moduleOf id) <:+ b := by
    intro b hb
    obtain ⟨x, hx, rfl⟩ := List.mem_map.1 hb
    have hmem := List.mem_reverse.1 hx
    obtain ⟨s, himportable, hs⟩ := h.importOf_eq himport (x := x) (by simp [hmem])
    rw [hs, List.dropLast_concat]
    refine ⟨himportable.one_line, fun hsuffix => ?_⟩
    obtain ⟨_, hmodule⟩ := eq_of_isSuffix_bareImport himportable hsuffix
    obtain ⟨hkind, hid⟩ := EntityKind.moduleOf_injective hmodule
    obtain rfl : (kind, id) = x := Prod.ext hkind hid
    exact hnew (List.mem_append_right _ hmem)
  have hgroup : ∀ s line t u : Text, s ++ ((line ++ ['\n']) ++ t) ++ u =
      s ++ (line ++ '\n' :: (t ++ u)) := by
    simp
  rw [hgroup, withoutImport_eq hsymbol.one_line hbefore, List.append_assoc]

/-- **There is no key in front of the containers**, nor a header. -/
theorem IsValid.lacks_imports (h : IsValid live) (himport : IsImporting importOf) {head key : Text}
    {value : Text → Prop} (hhead : ':' ∉ head) : Lacks key value (imports importOf live ++ head) := by
  refine lacks_of_not_mem fun hmem => ?_
  rcases List.mem_append.1 hmem with hmem | hmem
  · obtain ⟨x, hx, hc⟩ := List.mem_flatMap.1 hmem
    obtain ⟨symbol, hsymbol, heq⟩ := h.importOf_eq himport (List.mem_reverse.1 hx)
    have hmodule : ':' ∉ x.1.moduleOf x.2 := (x.1.isSpelled_moduleOf
      (h.isWord (List.mem_reverse.1 hx)).isNameText).not_mem (by decide) (by decide)
    have hlead : ':' ∉ importLead := by decide
    have hfrom : ':' ∉ importFrom := by decide
    have hend : ':' ∉ importEnd := by decide
    rw [heq] at hc
    simp [bareImport, hsymbol.not_mem (c := ':') (by decide), hmodule, hlead, hfrom, hend] at hc
  · exact hhead hmem

/-! ## Adding -/

/-- What stands in front of a sheet belongs to its first lines. -/
theorem append_sheet (p : Punctuation) (line front : Text) (blocks : List (Text × List Text)) :
    line ++ sheet p front blocks = sheet p (line ++ front) blocks := by
  unfold sheet
  rw [List.append_assoc]

theorem IsValid.of_concat (h : IsValid (live ++ [(kind, id)])) :
    IsValid live ∧ IsFreeId id ∧ (kind, id) ∉ live := by
  have hinsert := h.of_insert rfl
  rwa [List.append_nil] at hinsert

/-- **An entity is added to a sheet** with its import and its entry. -/
theorem insertEntry_imports {p : Punctuation} {entryOf : Entity → Text} {head : Text}
    {more : List (Text × List Text)} (h : IsValid (live ++ [(kind, id)]))
    (himport : IsImporting importOf) (hl : IsListing entryOf) (hhead : ':' ∉ head) :
    insertEntry .property kind.container (entryOf (entity (kind, id))) p
        (importOf (entity (kind, id)) ++ sheet p (imports importOf live ++ head)
          (EntityKind.all.map (containerOf entryOf live) ++ more)) =
      .ok (sheet p (imports importOf (live ++ [(kind, id)]) ++ head)
        (EntityKind.all.map (containerOf entryOf (live ++ [(kind, id)])) ++ more)) := by
  obtain ⟨hlive, hid, _⟩ := h.of_concat
  rw [append_sheet, ← List.append_assoc, ← imports_concat]
  exact insertEntry_containers hlive hl kind (h.lacks_imports himport hhead) hid

/-- **Adding an entity to the register** appends it to the ledger. -/
theorem addToRegister_eq (h : IsValid (live ++ [(kind, id)])) (events : List Text) :
    (entity (kind, id)).addToRegister (registerSheet heads live events) =
      .ok (registerSheet heads (live ++ [(kind, id)]) events) := by
  unfold Entity.addToRegister
  rw [Outcome.within_eq_ok, Outcome.ofEdit_eq_ok]
  exact insertEntry_imports h isImporting_registerImport isListing_registerEntry
    heads.register_colon

/-- **Adding an entity to the world state** appends it to the ledger. -/
theorem addToWorldState_eq (h : IsValid (live ++ [(kind, id)])) :
    (entity (kind, id)).addToWorldState (worldState heads live) =
      .ok (worldState heads (live ++ [(kind, id)])) := by
  unfold Entity.addToWorldState
  rw [Outcome.within_eq_ok, Outcome.ofEdit_eq_ok]
  unfold worldState
  rw [← List.append_nil (List.map _ _), ← List.append_nil (List.map _ _)]
  exact insertEntry_imports h isImporting_worldStateImport isListing_worldStateMember
    heads.worldState_colon

/-! ## Loaders -/

theorem isWord_loaderContainer : IsWord loaderContainer :=
  ⟨by decide, by decide⟩

theorem isSpelled_passagesModule (hid : IsWord id) : IsSpelled moduleMarks (passagesModule id) := by
  have hname : IsSpelled moduleMarks id := .of_name hid.isNameText
  have hfolder : IsSpelled moduleMarks ('.' :: '/' :: EntityKind.event.container) := by
    decide
  have hend : IsSpelled moduleMarks ".passages".toList := by
    decide
  exact hfolder.append (.cons (hname.append (.cons (hname.append hend) (by decide))) (by decide))

/-- What a loader is behind its key and colon. -/
def loaderValue (id : Text) : Text :=
  loaderLead ++ (passagesModule id ++ loaderEnd)

theorem loader_eq (id : Text) : loader id = id ++ ':' :: loaderValue id :=
  loaderEntry_eq id _

theorem isPlainValue_loaderValue (hid : IsWord id) : IsPlainValue (loaderValue id) :=
  isPlainValue_loader (isSpelled_passagesModule hid)

theorem isFit_loader (hid : IsWord id) : IsFit (loader id) := by
  have hvalue := isPlainValue_loaderValue hid
  rw [loader_eq]
  exact isFit_of_isWord hid hvalue.one_line hvalue.balanced

/-- The loaders are behind all other containers, which are passed over. -/
theorem IsValid.passesOver_loaderContainer (h : IsValid live) :
    ∀ b ∈ EntityKind.all.map (containerOf Entity.registerEntry live),
      PassesOver loaderContainer b := by
  intro b hb
  obtain ⟨kind, _, rfl⟩ := List.mem_map.1 hb
  exact h.passesOver isListing_registerEntry isWord_loaderContainer (by decide)
    (by cases kind <;> decide) fun _ hmem heq => (h.free _ hmem).ne_loaderContainer heq.symm

/-- **Adding a loader to the register** appends it to the loaders. -/
theorem addLoader_eq (h : IsValid live) (hevents : ∀ event ∈ events, IsWord event)
    (hid : IsWord id) :
    addLoader id (passagesModule id) (registerSheet heads live events) =
      .ok (registerSheet heads live (events ++ [id])) := by
  unfold addLoader
  rw [Outcome.within_eq_ok, Outcome.ofEdit_eq_ok]
  unfold registerSheet
  rw [List.map_append]
  refine insertEntry_sheet (h.lacks_imports isImporting_registerImport heads.register_colon)
    isWord_loaderContainer h.passesOver_loaderContainer (fun e he => ?_) (isFit_loader hid).one_line
  obtain ⟨event, hevent, rfl⟩ := List.mem_map.1 he
  exact isFit_loader (hevents event hevent)

/-! ## Removing -/

section Removing

variable {entryOf : Entity → Text} (h : IsValid (xs ++ (kind, id) :: ys))

include h in
/-- The other entries of a container are of other ids. -/
theorem IsValid.other_ids {e : Text}
    (he : e ∈ (xs.ids kind).map (fun id => entryOf (entity (kind, id))) ++
      (ys.ids kind).map fun id => entryOf (entity (kind, id))) :
    ∃ id', IsFreeId id' ∧ id ≠ id' ∧ e = entryOf (entity (kind, id')) := by
  obtain ⟨hvalid, _, hnew⟩ := h.of_insert rfl
  rw [← List.map_append, ← ids_append] at he
  obtain ⟨id', hid', rfl⟩ := List.mem_map.1 he
  have hmem := mem_ids.1 hid'
  refine ⟨id', hvalid.free _ hmem, ?_, rfl⟩
  rintro rfl
  exact hnew hmem

include h in
/-- All entries of a container have balanced braces. -/
theorem IsValid.balanced (hl : IsListing entryOf) :
    ∀ e ∈ (xs.ids kind).map (fun id => entryOf (entity (kind, id))) ++
        entryOf (entity (kind, id)) :: (ys.ids kind).map fun id => entryOf (entity (kind, id)),
      Brace.IsBalanced e := by
  intro e he
  rw [← List.map_cons (f := fun id => entryOf (entity (kind, id))), ← List.map_append,
    ← ids_insert] at he
  exact (h.fit hl (fun _ hmem => mem_ids.1 hmem) e he).balanced

/-- **Removing an entity from the register** takes it out of the ledger. -/
theorem removeFromRegister_eq (h : IsValid (xs ++ (kind, id) :: ys)) (events : List Text) :
    (entity (kind, id)).removeFromRegister (registerSheet heads (xs ++ (kind, id) :: ys) events) =
      .ok (registerSheet heads (xs ++ ys) events) := by
  obtain ⟨hvalid, hid, _⟩ := h.of_insert rfl
  obtain ⟨before, after, hold, hnew, hbefore⟩ :=
    containers_insert Entity.registerEntry xs ys kind id
  have hvalue := isPlainValue_symbol kind hid.isWord.isNameText
  have hbalanced := h.balanced isListing_registerEntry
  have hentry : (entity (kind, id)).registerEntry = id ++ ':' :: (' ' :: kind.symbol id) :=
    registerEntry_eq _
  unfold Entity.removeFromRegister
  rw [Outcome.within_eq_ok, Outcome.ofEdit_eq_ok]
  unfold registerSheet
  rw [← append_sheet, withoutImport_imports h isImporting_registerImport, append_sheet, hold, hnew]
  rw [hentry] at hbalanced ⊢
  rw [List.append_assoc, List.append_assoc, List.cons_append, List.cons_append]
  refine removeEntry_sheet_line (hvalid.lacks_imports isImporting_registerImport heads.register_colon)
    kind.isWord_container (fun b hb => ?_) hbalanced hid.isWord (hid.ne_container kind)
    (fun e he => ?_) hvalue.no_colon hvalue.one_line hvalue.no_object
  · obtain ⟨kind', hne, rfl⟩ := hbefore b hb
    exact hvalid.passesOver_container isListing_registerEntry hne
  · obtain ⟨id', hid', hne, rfl⟩ := h.other_ids he
    rw [registerEntry_eq]
    exact isUnused_of_ne hid.isWord hid'.isWord hne
      (isPlainValue_symbol kind hid'.isWord.isNameText).no_colon

/-- **Removing an entity from the world state** takes it out of the ledger. -/
theorem removeFromWorldState_eq (h : IsValid (xs ++ (kind, id) :: ys)) :
    (entity (kind, id)).removeFromWorldState (worldState heads (xs ++ (kind, id) :: ys)) =
      .ok (worldState heads (xs ++ ys)) := by
  obtain ⟨hvalid, hid, _⟩ := h.of_insert rfl
  obtain ⟨before, after, hold, hnew, hbefore⟩ :=
    containers_insert Entity.worldStateMember xs ys kind id
  have hbalanced := h.balanced isListing_worldStateMember
  have hname := hid.isWord.isNameText
  have hentry : (entity (kind, id)).worldStateMember = id ++ ':' :: ([' '] ++ '{' ::
      (memberFields (entity (kind, id)) ++ '}' :: (memberAnd ++ memberData (entity (kind, id))))) :=
    worldStateMember_eq _
  unfold Entity.removeFromWorldState
  rw [Outcome.within_eq_ok, Outcome.ofEdit_eq_ok]
  unfold worldState
  rw [← append_sheet, withoutImport_imports h isImporting_worldStateImport, append_sheet, hold,
    hnew]
  rw [hentry] at hbalanced ⊢
  refine removeEntry_sheet_object (hvalid.lacks_imports isImporting_worldStateImport heads.worldState_colon)
    kind.isWord_container (fun b hb => ?_) hbalanced hid.isWord (hid.ne_container kind)
    (fun e he => ?_) (by decide) (isBalanced_memberFields hname)
    ((isSpelled_behindFields hname).not_mem (by decide) (by decide))
  · obtain ⟨kind', hne, rfl⟩ := hbefore b hb
    exact hvalid.passesOver_container isListing_worldStateMember hne
  · obtain ⟨id', hid', hne, rfl⟩ := h.other_ids he
    exact lacks_worldStateMember hid.isWord hid'.isWord hne
      fun _ t => not_isObject_memberRef _ t

end Removing

/-! ## Spread lines -/

/-- **A text without three points in a row.** -/
def IsSparse (t : Text) : Prop :=
  ∀ x y, t ≠ x ++ '.' :: '.' :: '.' :: y

namespace IsSparse

variable {s t : Text}

theorem of_count (h : t.count '.' ≤ 2) : IsSparse t := by
  rintro x y rfl
  rw [List.count_append, List.count_cons_self, List.count_cons_self, List.count_cons_self] at h
  omega

theorem of_not_mem (h : '.' ∉ t) : IsSparse t :=
  of_count (by rw [List.count_eq_zero_of_not_mem h]; exact Nat.zero_le _)

theorem append (hs : IsSparse s) (ht : IsSparse t) {c : Char} (hc : c ≠ '.') :
    IsSparse (s ++ c :: t) := by
  intro x y heq
  have hnot : c ∉ ['.', '.', '.'] := by
    simp [hc]
  rcases Text.split_occurrence (y := y) hnot heq with ⟨z, hz, _⟩ | ⟨z, _, hz⟩
  · exact hs x z hz
  · exact ht z y hz

theorem cons (ht : IsSparse t) {c : Char} (hc : c ≠ '.') : IsSparse (c :: t) :=
  append (s := []) (of_not_mem List.not_mem_nil) ht hc

theorem prepend (hs : '.' ∉ s) (ht : IsSparse t) : IsSparse (s ++ t) := by
  induction s with
  | nil => exact ht
  | cons c s ih =>
    rw [List.mem_cons, not_or] at hs
    exact cons (ih hs.2) (Ne.symm hs.1)

theorem isPieced (p : Punctuation) : IsPieced p IsSparse IsSparse where
  cons := fun _ hc ht => ht.cons hc
  append := fun hs ht => hs.append ht (by cases p <;> decide)

end IsSparse

/-- What ends a file's name has two points at most. -/
theorem isSparse_stem (hid : IsWord id) {ending : Text} (hending : ending.count '.' ≤ 2) :
    IsSparse (id ++ ending) := by
  refine .of_count ?_
  rw [List.count_append, List.count_eq_zero_of_not_mem (hid.not_mem (by decide)), Nat.zero_add]
  exact hending

theorem isSparse_folder (kind : EntityKind) {t : Text} (ht : IsSparse t) :
    IsSparse ('.' :: '/' :: (kind.container ++ '/' :: t)) := by
  have hpoint : IsSparse ['.'] := .of_count (by decide)
  have hfolder : IsSparse (kind.container ++ '/' :: t) :=
    .append (.of_not_mem (kind.isWord_container.not_mem (by decide))) ht (by decide)
  exact hpoint.append hfolder (by decide)

theorem isSparse_moduleOf (kind : EntityKind) (hid : IsWord id) :
    IsSparse (kind.moduleOf id) := by
  have hname : IsSparse id := .of_not_mem (hid.not_mem (by decide))
  refine isSparse_folder kind ?_
  cases kind with
  | character => exact hname
  | sideCharacter => exact hname
  | location => exact isSparse_stem hid (by decide)
  | event => exact hname.append (isSparse_stem hid (by decide)) (by decide)

theorem isSparse_passagesModule (hid : IsWord id) : IsSparse (passagesModule id) := by
  have hname : IsSparse id := .of_not_mem (hid.not_mem (by decide))
  exact isSparse_folder .event (hname.append (isSparse_stem hid (by decide)) (by decide))

theorem isSparse_loader (hid : IsWord id) : IsSparse (loader id) := by
  have hend : loaderEnd = ['\'', ')'] := by
    decide
  rw [loader_eq, loaderValue, hend]
  refine .append (.of_not_mem (hid.not_mem (by decide))) ?_ (by decide)
  exact .prepend (by decide)
    ((isSparse_passagesModule hid).append (.of_not_mem (by decide)) (by decide))

/-- The imports of a ledger's register spread nothing. -/
theorem IsValid.isSparse_imports (h : IsValid live) {t : Text} (ht : IsSparse t) :
    IsSparse (imports Entity.registerImport live ++ t) := by
  have hlines : ∀ xs : Ledger, (∀ x ∈ xs, x ∈ live) →
      IsSparse (xs.flatMap (fun x => (entity x).registerImport) ++ t) := by
    intro xs hxs
    induction xs with
    | nil => exact ht
    | cons x xs ih =>
      have hx := hxs x List.mem_cons_self
      have hrest := ih fun y hy => hxs y (List.mem_cons_of_mem _ hy)
      obtain ⟨symbol, hsymbol, heq⟩ := h.importOf_eq isImporting_registerImport hx
      have hend : importEnd = ['\'', ';'] := by
        decide
      rw [List.flatMap_cons, heq, bareImport, hend]
      simp only [List.append_assoc, List.cons_append, List.nil_append]
      refine .prepend (by decide) (.cons (.cons (.prepend (hsymbol.not_mem (by decide)) ?_)
        (by decide)) (by decide))
      refine .cons (.cons (.prepend (by decide) ?_) (by decide)) (by decide)
      exact (isSparse_moduleOf x.1 (h.isWord hx)).append (.cons (.cons hrest (by decide)) (by decide))
        (by decide)
  exact hlines _ fun x hx => List.mem_reverse.1 hx

/-- **A register of a ledger spreads nothing**, when its head does not. -/
theorem isSparse_registerSheet (hhead : IsSparse heads.register) (h : IsValid live)
    (hevents : ∀ event ∈ events, IsWord event) : IsSparse (registerSheet heads live events) := by
  unfold registerSheet
  rw [← append_sheet]
  refine h.isSparse_imports (.append hhead ?_ (by decide))
  refine (IsSparse.isPieced .comma).blocks (fun b hb => ?_) (.of_not_mem (by decide))
  have hnamed : ∀ {name : Text}, IsWord name → ∀ t, IsSparse t → IsSparse (name ++ ':' :: t) :=
    fun hname _ ht => .append (.of_not_mem (hname.not_mem (by decide))) ht (by decide)
  rcases List.mem_append.1 hb with hb | hb
  · obtain ⟨kind, _, rfl⟩ := List.mem_map.1 hb
    refine ⟨hnamed kind.isWord_container, fun e he => ?_⟩
    obtain ⟨id, hid, rfl⟩ := List.mem_map.1 he
    have hname := (h.isWord (mem_ids.1 hid)).isNameText
    have hsymbol := (kind.isNameText_symbol hname).not_mem (c := '.') (by decide) (by decide)
    rw [registerEntry_eq]
    exact hnamed (h.isWord (mem_ids.1 hid)) _ (.cons (.of_not_mem hsymbol) (by decide))
  · rw [List.mem_singleton.1 hb]
    refine ⟨hnamed isWord_loaderContainer, fun e he => ?_⟩
    obtain ⟨event, hevent, rfl⟩ := List.mem_map.1 he
    exact isSparse_loader (hevents event hevent)

/-- **Removing a loader from the register** takes it out of the loaders. -/
theorem removeLoader_eq {before after : List Text} (hhead : IsSparse heads.register)
    (h : IsValid live) (hid : IsFreeId id)
    (hothers : ∀ event ∈ before ++ after, IsWord event ∧ id ≠ event) :
    removeLoader id (registerSheet heads live (before ++ id :: after)) =
      .ok (registerSheet heads live (before ++ after)) := by
  have hvalue := isPlainValue_loaderValue hid.isWord
  have hremove : removeEntry .property loaderContainer id
      (registerSheet heads live (before ++ id :: after)) = .ok (registerSheet heads live (before ++ after)) := by
    unfold registerSheet
    rw [List.map_append, List.map_append, List.map_cons, loader_eq id]
    refine removeEntry_sheet_line (h.lacks_imports isImporting_registerImport heads.register_colon)
      isWord_loaderContainer h.passesOver_loaderContainer (fun e he => ?_) hid.isWord
      hid.ne_loaderContainer (fun e he => ?_) hvalue.no_colon hvalue.one_line hvalue.no_object
    · rw [← loader_eq, ← List.map_cons, ← List.map_append] at he
      obtain ⟨event, hevent, rfl⟩ := List.mem_map.1 he
      refine (isFit_loader ?_).balanced
      rcases List.mem_append.1 hevent with hevent | hevent
      · exact (hothers event (List.mem_append_left _ hevent)).1
      · rcases List.mem_cons.1 hevent with rfl | hevent
        · exact hid.isWord
        · exact (hothers event (List.mem_append_right _ hevent)).1
    · rw [← List.map_append] at he
      obtain ⟨event, hevent, rfl⟩ := List.mem_map.1 he
      obtain ⟨hword, hne⟩ := hothers event hevent
      rw [loader_eq]
      exact isUnused_of_ne hid.isWord hword hne (isPlainValue_loaderValue hword).no_colon
  have hspread : Text.contains (registerSheet heads live (before ++ after)) (loaderSpread id) = false := by
    refine Text.contains_eq_false fun x y heq => ?_
    refine isSparse_registerSheet hhead h (fun event hevent => (hothers event hevent).1) x
      (Template.passageRecord id ++ y) ?_
    rw [heq]
    rfl
  unfold removeLoader
  rw [hremove]
  exact congrArg Except.ok (if_neg (by rw [hspread]; exact Bool.false_ne_true))

end Ledger

end Fabula
