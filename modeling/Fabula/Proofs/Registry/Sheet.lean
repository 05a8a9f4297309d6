import Fabula.Proofs.Patch.Lines

/-!
# A registry file as a sheet of containers

A registry file is a front, then one container after the other, each with its entries on lines
of their own, and the end of the literal that holds them (`Registry.sheet`). On such a file the
edits of a container are edits of a list: an insertion appends to it
(`Registry.insertEntry_sheet`), a removal takes the entry of the key out, whatever stands before
and behind it (`Registry.removeEntry_sheet_line` and `Registry.removeEntry_sheet_object`).

## What is missing in front

An edit finds its way by words, the container's name and the entry's key, and the first place
that fits is taken. So what has to be known about a sheet is what it lacks in front of that
place. A word is looked for between characters that are no part of a name. Where texts are put
together with such characters between them, as lines and containers are, the whole lacks a word
when its pieces do. This argument is the same for every property of this kind, and is made once
(`Registry.IsPieced`): from entries to the lines of a container, from these to the container
with its name, and from containers to the sheet.

With that, no header of the name is read in front of a container if none is in the front, in the
containers before, and in their entries (`Registry.isFront_sheetFront`). The containers before
have other names. An entry of one of them is passed over when it has another key, or has no
object behind it (`Registry.PassesOver`).

## Around a container and around an entry

A sheet is split in two ways: around the body of a container (`Registry.sheet_append`), to
insert an entry and to find the container, and around an entry in it
(`Registry.sheet_append_entry`), to remove it. The two splits are equations between texts, and
the edits of a container in a text, which are known, are rewritten along them. The layout
differs between the two registry files in punctuation only, so that is a parameter.
-/

namespace Fabula

open scoped Engine.Tireless

namespace Registry

open Removal

/-- An entry on a line of its own. -/
def line (p : Punctuation) (entry : Text) : Text :=
  "\t\t".toList ++ entry ++ [p.char, '\n']

/-- What stands between the braces of a container. -/
def body (p : Punctuation) (entries : List Text) : Text :=
  '\n' :: (entries.flatMap (line p) ++ ['\t'])

/-- **A container with its entries**, from its name through its closing brace. -/
def written (p : Punctuation) (name : Text) (entries : List Text) : Text :=
  name ++ ": \x7b".toList ++ body p entries ++ ['}']

/-- A container on lines of its own. -/
def block (p : Punctuation) (name : Text) (entries : List Text) : Text :=
  '\t' :: written p name entries ++ [p.char, '\n']

/-- **A registry file**: lines up to the literal, the containers in it, and its end. -/
def sheet (p : Punctuation) (front : Text) (blocks : List (Text × List Text)) : Text :=
  front ++ '\n' :: (blocks.flatMap (fun b => block p b.1 b.2) ++ "\x7d;\n".toList)

variable {p : Punctuation} {front name key rest : Text} {entries : List Text}

/-! ## What a container lacks -/

/-- **A property `P` that a file has when its entries have `Q`**: characters that are no part
of a name may stand in front, and punctuation behind an entry. -/
structure IsPieced (p : Punctuation) (Q P : Text → Prop) : Prop where
  cons : ∀ {c t}, isNameChar c = false → c ≠ '.' → P t → P (c :: t)
  append : ∀ {s t}, Q s → P t → P (s ++ p.char :: t)

namespace IsPieced

variable {Q P : Text → Prop} {t : Text}

theorem lines (hP : IsPieced p Q P) (h : ∀ e ∈ entries, Q e) (ht : P t) :
    P (entries.flatMap (line p) ++ t) := by
  induction entries with
  | nil => exact ht
  | cons e entries ih =>
    have hrest := ih fun e he => h e (List.mem_cons_of_mem _ he)
    have hline : (e :: entries).flatMap (line p) ++ t =
        '\t' :: '\t' :: (e ++ p.char :: '\n' :: (entries.flatMap (line p) ++ t)) := by
      simp [line]
    rw [hline]
    refine hP.cons (by decide) (by decide) (hP.cons (by decide) (by decide) ?_)
    exact hP.append (h e List.mem_cons_self) (hP.cons (by decide) (by decide) hrest)

/-- **A container has what its entries have**, and its name in front of a colon. -/
theorem written (hP : IsPieced p Q P) (hname : ∀ t, P t → P (name ++ ':' :: t))
    (h : ∀ e ∈ entries, Q e) (ht : P t) : P (written p name entries ++ t) := by
  have hwritten : Registry.written p name entries ++ t =
      name ++ ':' :: ' ' :: '{' :: '\n' :: (entries.flatMap (line p) ++ '\t' :: '}' :: t) := by
    simp [Registry.written, body]
  rw [hwritten]
  refine hname _ (hP.cons (by decide) (by decide) (hP.cons (by decide) (by decide) ?_))
  refine hP.cons (by decide) (by decide) (hP.lines h ?_)
  exact hP.cons (by decide) (by decide) (hP.cons (by decide) (by decide) ht)

/-- **Containers have what their entries have**, behind the first blank. -/
theorem blocks (hP : IsPieced p Q P) {bs : List (Text × List Text)}
    (h : ∀ b ∈ bs, (∀ t, P t → P (b.1 ++ ':' :: t)) ∧ ∀ e ∈ b.2, Q e) (ht : P t) :
    P (bs.flatMap (fun b => block p b.1 b.2) ++ t) := by
  induction bs with
  | nil => exact ht
  | cons b bs ih =>
    obtain ⟨hname, he⟩ := h b List.mem_cons_self
    have hblock : (b :: bs).flatMap (fun b => block p b.1 b.2) ++ t =
        '\t' :: (Registry.written p b.1 b.2 ++ p.char :: '\n' ::
          (bs.flatMap (fun b => block p b.1 b.2) ++ t)) := by
      simp [block]
    have hpoint : p.char ≠ '.' := by
      cases p <;> decide
    rw [hblock]
    refine hP.cons (by decide) (by decide) (hP.written hname he ?_)
    refine hP.cons p.isNameChar_char hpoint (hP.cons (by decide) (by decide) ?_)
    exact ih fun b' hb' => h b' (List.mem_cons_of_mem _ hb')

end IsPieced

/-- To lack the entries of a word is such a property. -/
theorem isPieced_lacks {value value' : Text → Prop} (hkey : IsWord key)
    (hvalue : ∀ z t, value (z ++ p.char :: t) → value' z) :
    IsPieced p (Lacks key value') (Lacks key value) where
  cons := fun hc _ ht => .cons hkey hc ht
  append := fun hs ht => .append hkey p.isNameChar_char p.char_ne_colon hvalue hs ht

/-- **A container lacks what its entries lack**, unless it is one itself. -/
theorem lacks_written {value : Text → Prop} (hkey : IsWord key) (hname : IsWord name)
    (hne : key ≠ name) (hvalue : ∀ z t, value (z ++ p.char :: t) → value z)
    (h : ∀ e ∈ entries, Lacks key value e) : Lacks key value (written p name entries) := by
  have hwritten := (isPieced_lacks hkey hvalue).written
    (fun _ ht => .colon hkey hname hne ht) h (lacks_of_not_mem (t := []) (by simp))
  rwa [List.append_nil] at hwritten

/-- **A container in which no header is read**: it has another name, and so have its entries
that are objects. -/
def PassesOver (key : Text) (b : Text × List Text) : Prop :=
  IsWord b.1 ∧ key ≠ b.1 ∧ ∀ e ∈ b.2, Lacks key IsObject e

/-- **No header is read in front of a container** when none is in the lines above and in the
containers before. -/
theorem lacks_blocks {blocks : List (Text × List Text)} (hkey : IsWord key)
    (hfront : Lacks key MayOpen front) (h : ∀ b ∈ blocks, PassesOver key b) :
    Lacks key MayOpen (front ++ '\n' :: blocks.flatMap fun b => block p b.1 b.2) := by
  have hP : IsPieced p (Lacks key IsObject) (Lacks key MayOpen) :=
    isPieced_lacks hkey fun _ _ => .of_mayOpen p.isBlank_char p.char_ne_open
  have hblocks : Lacks key MayOpen (blocks.flatMap (fun b => block p b.1 b.2) ++ []) := by
    refine hP.blocks (fun b hb => ?_) (lacks_of_not_mem (by simp))
    obtain ⟨hname, hne, he⟩ := h b hb
    exact ⟨fun _ ht => .colon hkey hname hne ht, he⟩
  rw [List.append_nil] at hblocks
  exact .append hkey (by decide) (by decide) (fun _ _ => .of_append) hfront hblocks

/-! ## Editing a container -/

/-- **An entry fit for a line**: one line with balanced braces that does not begin
with a blank. -/
structure IsFit (e : Text) : Prop extends IsListed e where
  one_line : '\n' ∉ e

/-- How the entries of a registry file stand. -/
def style (p : Punctuation) : EntryStyle :=
  ⟨p, ['\t'], by decide⟩

/-- Lines begin with a line break where they end with one. -/
theorem cons_lines (p : Punctuation) (entries : List Text) :
    '\n' :: entries.flatMap (line p) = (style p).lines entries ++ ['\n'] := by
  induction entries with
  | nil => rfl
  | cons e entries ih =>
    rw [EntryStyle.lines_cons, List.flatMap_cons, List.append_assoc, List.append_assoc,
      List.cons_append, ← ih]
    simp [line, style, EntryStyle.lead]

theorem body_eq (p : Punctuation) (entries : List Text) :
    body p entries = (style p).body entries := by
  unfold body EntryStyle.body
  rw [← List.cons_append, cons_lines, List.append_assoc]
  rfl

theorem written_eq (p : Punctuation) (name : Text) (entries : List Text) :
    written p name entries = (style p).written .property name entries := by
  unfold written EntryStyle.written
  rw [body_eq, List.append_assoc]
  rfl

/-- The line before a container may stand in front of it. -/
theorem isFront_tab (hname : IsWord name) (hlacks : Lacks name MayOpen front) :
    IsFront .property name (front ++ ['\t']) := by
  refine isFront_concat (fun header hh => ?_) hlacks (by decide) ?_
  · obtain ⟨blanks, hblanks, rfl⟩ := hh
    refine ⟨_, rfl, fun z t behind hz => ⟨t, ?_⟩⟩
    have hbrace : blanks ++ ['{'] ++ behind = blanks ++ '{' :: behind := by simp
    unfold IsObject
    rw [← hz, hbrace, Text.dropWhile_blanks _ hblanks (by decide)]
    rfl
  · simp [hname.not_mem (c := '\t') (by decide)]

section Sheet

variable {before after : List (Text × List Text)}

/-- What stands in front of a container of a sheet. -/
def sheetFront (p : Punctuation) (front : Text) (before : List (Text × List Text)) : Text :=
  front ++ '\n' :: before.flatMap (fun b => block p b.1 b.2) ++ ['\t']

/-- What stands behind a container of a sheet. -/
def sheetRest (p : Punctuation) (after : List (Text × List Text)) : Text :=
  p.char :: '\n' :: (after.flatMap (fun b => block p b.1 b.2) ++ "\x7d;\n".toList)

/-- Below the front the first container stands on an indented line. -/
theorem prefix_sheet (p : Punctuation) (front : Text) (b : Text × List Text)
    (blocks : List (Text × List Text)) : front ++ ['\n', '\t'] <+: sheet p front (b :: blocks) :=
  (List.prefix_append_right_inj _).2 (List.prefix_append _ _)

/-- A sheet around one of its containers. -/
theorem sheet_append (p : Punctuation) (front name : Text) (entries : List Text)
    (before after : List (Text × List Text)) :
    sheet p front (before ++ (name, entries) :: after) = sheetFront p front before ++
      ((style p).written .property name entries ++ sheetRest p after) := by
  unfold sheet sheetFront sheetRest
  rw [List.flatMap_append, List.flatMap_cons, block, written_eq]
  simp only [List.append_assoc, List.cons_append, List.nil_append]

/-- No header is read in front of a container of a sheet. -/
theorem isFront_sheetFront (hfront : Lacks name MayOpen front) (hname : IsWord name)
    (hbefore : ∀ b ∈ before, PassesOver name b) :
    IsFront .property name (sheetFront p front before) :=
  isFront_tab hname (lacks_blocks hname hfront hbefore)

/-- **The container of a name is found** in a sheet. -/
theorem locate_sheet (hfront : Lacks name MayOpen front) (hname : IsWord name)
    (hbefore : ∀ b ∈ before, PassesOver name b) (h : ∀ e ∈ entries, IsFit e) :
    Container.locate .property name (sheet p front (before ++ (name, entries) :: after)) =
      .ok ((style p).container .property name (sheetFront p front before) entries
        (sheetRest p after)) := by
  rw [sheet_append]
  exact locate_lined (isFront_sheetFront hfront hname hbefore) fun e he => (h e he).balanced

/-- **An insertion into a sheet** appends to the container of the name. -/
theorem insertEntry_sheet (hfront : Lacks name MayOpen front) (hname : IsWord name)
    (hbefore : ∀ b ∈ before, PassesOver name b)
    (h : ∀ e ∈ entries, IsFit e) {entry : Text} (hentry : '\n' ∉ entry) :
    insertEntry .property name entry p (sheet p front (before ++ (name, entries) :: after)) =
      .ok (sheet p front (before ++ (name, entries ++ [entry]) :: after)) := by
  rw [sheet_append, sheet_append]
  refine (insertEntry_lined (s := style p) (isFront_sheetFront hfront hname hbefore)
    (fun e he => (h e he).toIsListed) entry).trans ?_
  rw [Text.deepen_of_not_mem _ hentry]

/-- **A removal from a sheet** takes entries out of the container of the name, as it does from
the container alone. -/
theorem removeEntry_sheet {kept : List Text} (hfront : Lacks name MayOpen front)
    (hname : IsWord name) (hbefore : ∀ b ∈ before, PassesOver name b)
    (h : ∀ x ∈ entries, Brace.IsBalanced x)
    (hwithout : ∀ front rest,
      ((style p).container .property name front entries rest).withoutEntry key =
        .ok ((style p).written .property name kept)) :
    removeEntry .property name key (sheet p front (before ++ (name, entries) :: after)) =
      .ok (sheet p front (before ++ (name, kept) :: after)) := by
  rw [sheet_append, sheet_append]
  exact removeEntry_lined (isFront_sheetFront hfront hname hbefore) h (hwithout _ _)

/-- **A removal of a line from a sheet** takes it out of the container of the name. -/
theorem removeEntry_sheet_line {xs ys : List Text} {value : Text}
    (hfront : Lacks name MayOpen front) (hname : IsWord name)
    (hbefore : ∀ b ∈ before, PassesOver name b)
    (h : ∀ x ∈ xs ++ (key ++ ':' :: value) :: ys, Brace.IsBalanced x)
    (hkey : IsWord key) (hne : key ≠ name) (hothers : ∀ x ∈ xs ++ ys, IsUnused key x)
    (hvalue : ':' ∉ value) (hline : '\n' ∉ value) (hobject : ¬IsObject value) :
    removeEntry .property name key
        (sheet p front (before ++ (name, xs ++ (key ++ ':' :: value) :: ys) :: after)) =
      .ok (sheet p front (before ++ (name, xs ++ ys) :: after)) := by
  refine removeEntry_sheet hfront hname hbefore h fun _ _ => ?_
  refine EntryStyle.withoutEntry_line hkey.isKey hline hobject
    (IsKey.once_of_not_mem (hkey.not_mem (by decide)) hvalue) ?_
  rw [← written_eq, isUnused_iff_lacks]
  exact lacks_written hkey hname hne (fun _ _ _ => trivial)
    fun e he => isUnused_iff_lacks.1 (hothers e he)

/-- **A removal of an object from a sheet** takes it out of the container of the name. -/
theorem removeEntry_sheet_object {xs ys : List Text} {gap fields value : Text}
    (hfront : Lacks name MayOpen front) (hname : IsWord name)
    (hbefore : ∀ b ∈ before, PassesOver name b)
    (h : ∀ x ∈ xs ++ (key ++ ':' :: (gap ++ '{' :: (fields ++ '}' :: value))) :: ys,
      Brace.IsBalanced x)
    (hkey : IsWord key) (hne : key ≠ name) (hothers : ∀ x ∈ xs ++ ys, Lacks key IsObject x)
    (hgap : ∀ c ∈ gap, isBlank c = true) (hfields : Brace.IsBalanced fields)
    (hline : '\n' ∉ value) :
    removeEntry .property name key (sheet p front (before ++
        (name, xs ++ (key ++ ':' :: (gap ++ '{' :: (fields ++ '}' :: value))) :: ys) :: after)) =
      .ok (sheet p front (before ++ (name, xs ++ ys) :: after)) := by
  refine removeEntry_sheet hfront hname hbefore h fun _ _ => ?_
  refine EntryStyle.withoutEntry_object hkey.isKey hgap hfields hline ?_
  rw [← written_eq]
  exact lacks_written hkey hname hne (fun _ _ => .of_append_cons p.isBlank_char p.char_ne_open)
    hothers

/-! ## Around an entry -/

/-- What stands in front of an entry of a sheet: what stands in front of its container, the
header of that, and the entries before. -/
def entryFront (p : Punctuation) (front : Text) (before : List (Text × List Text)) (name : Text)
    (xs : List Text) : Text :=
  sheetFront p front before ++
    (name ++ ':' :: ' ' :: '{' :: '\n' :: (xs.flatMap (line p) ++ ['\t', '\t']))

/-- What stands behind an entry of a sheet. -/
def entryRest (p : Punctuation) (ys : List Text) (after : List (Text × List Text)) : Text :=
  p.char :: '\n' :: (ys.flatMap (line p) ++ '\t' :: '}' :: sheetRest p after)

theorem entryFront_eq (p : Punctuation) (front : Text) (before : List (Text × List Text))
    (name : Text) (xs : List Text) :
    entryFront p front before name xs = front ++ entryFront p [] before name xs := by
  simp [entryFront, sheetFront]

/-- A sheet around one of its entries. -/
theorem sheet_append_entry (p : Punctuation) (front name entry : Text) (xs ys : List Text)
    (before after : List (Text × List Text)) :
    sheet p front (before ++ (name, xs ++ entry :: ys) :: after) =
      entryFront p front before name xs ++ (entry ++ entryRest p ys after) := by
  have hopen : ": \x7b".toList = [':', ' ', '{'] := by decide
  rw [sheet_append, ← written_eq, written, hopen]
  simp [body, line, entryFront, entryRest]

/-- **No header is read in front of an entry** of a sheet when none is in the lines above, in
the containers before, and in the entries before. -/
theorem isFront_entryFront {key : Text} {xs : List Text} (hfront : Lacks key MayOpen front)
    (hkey : IsWord key) (hbefore : ∀ b ∈ before, PassesOver key b)
    (hxs : PassesOver key (name, xs)) :
    IsFront .property key (entryFront p front before name xs) := by
  obtain ⟨hname, hne, hentries⟩ := hxs
  have hP : IsPieced p (Lacks key IsObject) (Lacks key MayOpen) :=
    isPieced_lacks hkey fun _ _ => .of_mayOpen p.isBlank_char p.char_ne_open
  have hlines : Lacks key MayOpen (xs.flatMap (line p) ++ ['\t']) :=
    hP.lines hentries (lacks_of_not_mem (by decide))
  have hsplit : entryFront p front before name xs =
      front ++ '\n' :: before.flatMap (fun b => block p b.1 b.2) ++
        '\t' :: (name ++ ':' :: ' ' :: '{' :: '\n' :: (xs.flatMap (line p) ++ ['\t'])) ++
          ['\t'] := by
    simp [entryFront, sheetFront]
  rw [hsplit]
  refine isFront_tab hkey ?_
  refine .append hkey (by decide) (by decide) (fun _ _ => MayOpen.of_append)
    (lacks_blocks hkey hfront hbefore) (.colon hkey hname hne ?_)
  exact .cons hkey (by decide) (.cons hkey (by decide) (.cons hkey (by decide) hlines))

end Sheet

end Registry

end Fabula
