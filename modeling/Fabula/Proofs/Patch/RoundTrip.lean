import Fabula.Patch.Insertion
import Fabula.Proofs.Patch.Removal
import Fabula.Proofs.Text.Pieces
import Fabula.Proofs.Text.Trim

/-!
# An insertion is undone by a removal

To create something and remove it again should leave the files as they were. For a single
container this is `removeEntry_insertEntry`, and it rests on two descriptions of the text
between the two edits that are the same.

## What an insertion adds

A container an insertion has written once stays in the layout insertions write: the header in
its plain spelling, every entry on lines of its own, the closing brace at the depth it had
(`Container.IsTidy`). Inserting into such a container only adds text: a tab, the entry and its
punctuation, with a line break and the depth of the brace, between the old body and the closing
brace (`Container.withEntry_eq`). For this the layout has to give back what an insertion reads
from it. The depth is what stands before the closing brace on its line, and trimming the body
leaves the entries, because they neither begin nor end with a blank. The entries must also end
as insertions let them end, with a comma where commas are written, for otherwise one would be
added.

An entry of several lines is moved to the depth of the container, and the key stays at its head,
with the braces behind it (`deepen_object`).

## What a removal takes away

Removing the key takes the added text away again, up to the line break in front of the closing
brace that a removal leaves behind. The removal takes every occurrence of the key, so there must
be none in the container beforehand, and a line entry must hold its key once. *Once* is meant
literally. An occurrence that begins inside the key at the head of the entry is one, too, and a
removal may prefer it (`removeEntry_of_overlapping_key`): of the entry `a:a:a: {y}` the key
`a:a` occurs at the first and at the second `a`, and at the second it reads as the key of an
object.

What is left is the header, the old body, and the closing brace, so the source is given back
byte for byte (`Container.withoutEntry_inserted`).
-/

namespace Fabula

open scoped Engine.Tireless

/-! ## Indenting -/

namespace Text

/-- Every line but the first moved behind a tab and `depth`. -/
def deepen (depth t : Text) : Text :=
  t.flatMap fun c => if c = '\n' then '\n' :: (depth ++ ['\t']) else [c]

@[simp] theorem deepen_nil (depth : Text) : deepen depth [] = [] := rfl

theorem deepen_cons (depth : Text) (c : Char) (t : Text) :
    deepen depth (c :: t) = (if c = '\n' then '\n' :: (depth ++ ['\t']) else [c]) ++ deepen depth t :=
  List.flatMap_cons

/-- One line stays as it is. -/
theorem deepen_of_not_mem {t : Text} (depth : Text) (h : '\n' ∉ t) : deepen depth t = t := by
  induction t with
  | nil => rfl
  | cons c t ih =>
    rw [List.mem_cons, not_or] at h
    rw [deepen_cons, if_neg (Ne.symm h.1), ih h.2, List.singleton_append]

/-- **An indented entry** is a deepened one behind its own depth. -/
theorem indent_eq (depth entry : Text) :
    indent depth entry = depth ++ '\t' :: deepen depth entry := by
  unfold indent
  induction entry with
  | nil => simp
  | cons c cs ih =>
    obtain ⟨piece, pieces, hp⟩ := List.exists_cons_of_ne_nil (split_ne_nil '\n' cs)
    by_cases h : c = '\n'
    · subst h
      rw [split_cons_self, List.map_cons, join_cons _ _ (by simp [hp]), ih, deepen_cons, if_pos rfl]
      simp
    · rw [split_cons_of_ne h hp, deepen_cons, if_neg h]
      rw [hp] at ih
      rw [List.map_cons] at ih ⊢
      by_cases hpieces : pieces.map (fun line => depth ++ '\t' :: line) = []
      · rw [hpieces, join_singleton] at ih ⊢
        have hpiece := List.cons.inj (List.append_cancel_left ih)
        rw [hpiece.2, List.singleton_append]
      · rw [join_cons _ _ hpieces, List.append_assoc, List.append_assoc,
          List.append_cancel_left_eq, List.cons_append] at ih
        rw [join_cons _ _ hpieces, List.append_assoc, List.append_assoc]
        have htail := (List.cons.inj ih).2
        rw [List.cons_append, List.cons_append, htail, List.singleton_append]

/-- Tabs and spaces are blank. -/
theorem isBlank_of_isIndentChar {c : Char} (h : isIndentChar c = true) : isBlank c = true := by
  unfold isIndentChar at h
  rw [Bool.or_eq_true, beq_iff_eq, beq_iff_eq] at h
  rcases h with rfl | rfl <;> decide

/-- **The depth of a closing brace** is what stands before it on its line. -/
theorem depth_eq {depth : Text} (s : Text) (h : ∀ c ∈ depth, isIndentChar c = true) :
    Text.depth (s ++ '\n' :: (depth ++ ['}'])) = depth := by
  have hbefore : before? ['}'] (s ++ '\n' :: (depth ++ ['}'])) = some (s ++ '\n' :: depth) := by
    unfold before?
    have : (s ++ '\n' :: (depth ++ ['}'])).reverse =
        ['}'].reverse ++ (s ++ '\n' :: depth).reverse := by simp
    rw [this, after?_append, Option.map_some, List.reverse_reverse]
  unfold Text.depth
  rw [hbefore, Option.getD_some, List.reverse_append, List.reverse_cons, List.append_assoc,
    List.takeWhile_append_of_pos (by simpa using h), List.singleton_append,
    List.takeWhile_cons_of_neg (by decide), List.append_nil, List.reverse_reverse]

end Text

/-! ## The layout insertions write -/

namespace Punctuation

/-- No punctuation is blank. -/
theorem isBlank_char (p : Punctuation) : isBlank p.char = false := by
  cases p <;> decide

/-- No punctuation is part of a name. -/
theorem isNameChar_char (p : Punctuation) : isNameChar p.char = false := by
  cases p <;> decide

/-- No punctuation ends a key. -/
theorem char_ne_colon (p : Punctuation) : p.char ≠ ':' := by
  cases p <;> decide

/-- No punctuation ends a line. -/
theorem char_ne_feed (p : Punctuation) : p.char ≠ '\n' := by
  cases p <;> decide

/-- No punctuation opens a brace. -/
theorem char_ne_open (p : Punctuation) : p.char ≠ '{' := by
  cases p <;> decide

theorem isBalanced_char (p : Punctuation) : Brace.IsBalanced [p.char] := by
  cases p <;> decide

end Punctuation

/-- How a list of entries ends when an insertion adds nothing to it. -/
def Punctuation.Ends (punctuation : Punctuation) (entries : Text) : Prop :=
  match punctuation with
  | comma => entries.getLast? = some ','
  | semicolon => ∃ c, entries.getLast? = some c ∧ isNameChar c = false

namespace Container

/-- **The layout an insertion writes**: nothing between the braces but their
line break, or entries from a line of their own on, and the closing brace on a
line of its own. -/
structure IsTidy (c : Container) (punctuation : Punctuation) : Prop where
  header : c.header = c.kind.opening c.name
  body : ∃ depth, (∀ x ∈ depth, Text.isIndentChar x = true) ∧
    (c.body = '\n' :: depth ∨
      ∃ entries, entries ≠ [] ∧ Text.trim entries = entries ∧ punctuation.Ends entries ∧
        c.body = '\n' :: (depth ++ '\t' :: (entries ++ '\n' :: depth)))

variable {c : Container} {punctuation : Punctuation}

/-- Trimmed entries end at a place another entry may follow. -/
theorem isSeam_of_ends {entries : Text} (s : Text) (htrim : Text.trim entries = entries)
    (hends : punctuation.Ends entries) : Removal.IsSeam (s ++ entries) := by
  obtain ⟨c, hc, hname⟩ : ∃ c, entries.getLast? = some c ∧ isNameChar c = false := by
    cases punctuation with
    | comma => exact ⟨',', hends, by decide⟩
    | semicolon => exact hends
  refine ⟨c, ?_, Text.isBlank_of_getLast? htrim hc, hname⟩
  rw [List.getLast?_append, hc]
  rfl

/-- The depth of a container whose closing brace stands on a line of its own. -/
theorem depth_of_body {s depth : Text} (hdepth : ∀ x ∈ depth, Text.isIndentChar x = true)
    (hbody : c.body = s ++ '\n' :: depth) : c.depth = depth := by
  have hwritten : c.written = c.header ++ s ++ '\n' :: (depth ++ ['}']) := by
    unfold written
    rw [hbody]
    simp
  unfold Container.depth
  rw [hwritten, Text.depth_eq _ hdepth]

/-- The depth a tidy container is laid out with is the one of its brace. -/
theorem IsTidy.body_eq (h : c.IsTidy punctuation) :
    (∀ x ∈ c.depth, Text.isIndentChar x = true) ∧
      (c.body = '\n' :: c.depth ∨
        ∃ entries, entries ≠ [] ∧ Text.trim entries = entries ∧ punctuation.Ends entries ∧
          c.body = '\n' :: (c.depth ++ '\t' :: (entries ++ '\n' :: c.depth))) := by
  obtain ⟨_, depth, hdepth, hbody⟩ := h
  have hc : c.depth = depth := by
    rcases hbody with hbody | ⟨entries, _, _, _, hbody⟩
    · exact depth_of_body (s := []) hdepth hbody
    · refine depth_of_body (s := '\n' :: (depth ++ '\t' :: entries)) hdepth ?_
      rw [hbody]
      simp
  rw [hc]
  exact ⟨hdepth, hbody⟩

/-- Entries that end as they should are kept as they are. -/
theorem keptEntries_eq {entries : Text} (htrim : c.body.trim = entries)
    (hends : punctuation.Ends entries) : c.keptEntries punctuation = entries := by
  unfold keptEntries
  dsimp only
  rw [htrim]
  cases punctuation with
  | semicolon => rfl
  | comma =>
    obtain ⟨front, rfl⟩ := List.getLast?_eq_some_iff.1 hends
    have hend : Text.endsWith (front ++ [',']) [','] = true := by
      unfold Text.endsWith
      rw [List.reverse_append, Text.after?_append]
      rfl
    rw [hend]
    rfl

/-- **An insertion into a tidy container only adds text.** -/
theorem withEntry_eq (h : c.IsTidy punctuation) (entry : Text) :
    c.withEntry entry punctuation = c.header ++ (c.body ++
      '\t' :: (Text.deepen c.depth entry ++ punctuation.char :: '\n' :: (c.depth ++ ['}']))) := by
  obtain ⟨hdepth, hbody⟩ := h.body_eq
  have hblank : ∀ x ∈ '\n' :: c.depth, isBlank x = true := by
    intro x hx
    rcases List.mem_cons.1 hx with rfl | hx
    · decide
    · exact Text.isBlank_of_isIndentChar (hdepth x hx)
  unfold withEntry
  rw [Text.indent_eq, h.header]
  rcases hbody with hbody | ⟨entries, hne, htrim, hends, hbody⟩
  · have hempty : c.isEmpty = true := by
      unfold isEmpty Text.isBlankText
      rw [hbody, List.all_eq_true]
      exact hblank
    rw [if_pos hempty, hbody]
    simp
  · have hkept : c.keptEntries punctuation = entries := by
      refine keptEntries_eq ?_ hends
      have hfront : ∀ x ∈ '\n' :: (c.depth ++ ['\t']), isBlank x = true := by
        intro x hx
        rw [← List.cons_append, List.mem_append, List.mem_singleton] at hx
        rcases hx with hx | rfl
        · exact hblank x hx
        · decide
      rw [← Text.trim_blanks hne htrim hfront hblank, hbody]
      simp
    have hempty : ¬ c.isEmpty = true := by
      obtain ⟨x, hx, hnotblank, _⟩ := isSeam_of_ends [] htrim hends
      intro hall
      unfold isEmpty Text.isBlankText at hall
      rw [List.all_eq_true] at hall
      have hmem : x ∈ c.body := by
        have := List.mem_of_getLast? hx
        rw [List.nil_append] at this
        rw [hbody]
        simp [this]
      rw [hall x hmem] at hnotblank
      cases hnotblank
    rw [if_neg hempty, hkept, hbody]
    simp

end Container

/-! ## The round trip -/

/-- **A line entry's value**: one line with balanced braces, not an object. -/
structure IsLineValue (value : Text) : Prop where
  one_line : '\n' ∉ value
  balanced : Brace.IsBalanced value
  no_object : (value.dropWhile isBlank).head? ≠ some '{'

/-- **An entry of `key`** that a removal of `key` recognises: a line that holds
the key once, or an object of one level with the rest of its line. -/
inductive IsEntry (key : Text) : Text → Prop where
  | line {value : Text} (value_ok : IsLineValue value)
      (once : ∀ x y, key ++ ':' :: value = x ++ (key ++ ':' :: y) → x = []) :
      IsEntry key (key ++ ':' :: value)
  | object {gap fields rest : Text} (gap_blank : ∀ c ∈ gap, isBlank c = true)
      (fields_open : '{' ∉ fields) (fields_close : '}' ∉ fields)
      (rest_open : '{' ∉ rest) (rest_close : '}' ∉ rest) (one_line : '\n' ∉ rest) :
      IsEntry key (key ++ ':' :: (gap ++ '{' :: (fields ++ '}' :: rest)))

section RoundTrip

variable {c : Container} {punctuation : Punctuation} {key entry : Text}

/-- Deepening does not touch the braces of a text. -/
theorem Brace.after?_deepen {depth : Text} (hdepth : ∀ x ∈ depth, isBlank x = true) (inner : Bool)
    (t : Text) : Brace.after? inner (Text.deepen depth t) = Brace.after? inner t := by
  have hopen : '{' ∉ '\n' :: (depth ++ ['\t']) := by
    simp [Text.not_mem_of_blank hdepth (c := '{') (by decide)]
  have hclose : '}' ∉ '\n' :: (depth ++ ['\t']) := by
    simp [Text.not_mem_of_blank hdepth (c := '}') (by decide)]
  induction t generalizing inner with
  | nil => rfl
  | cons d t ih =>
    rw [Text.deepen_cons]
    split_ifs with hd
    · rw [Brace.after?_append, Brace.after?_of_not_mem hopen hclose, Option.bind_some, ih, hd,
        Brace.after?_cons (by decide) (by decide)]
    · rw [List.singleton_append, Brace.after?, Brace.after?, ih, ih, ih]

/-- An entry may stand in a body. -/
theorem IsEntry.isBalanced (hkey : Removal.IsKey key) (h : IsEntry key entry) :
    Brace.IsBalanced entry := by
  have hhead : Brace.IsBalanced (key ++ [':']) :=
    Brace.isBalanced_of_not_mem (by simp [hkey.not_open]) (by simp [hkey.not_close])
  cases h with
  | line hvalue _ =>
    have := hhead.append hvalue.balanced
    rwa [List.append_assoc] at this
  | object hgap hfo hfc hro hrc _ =>
    have hfields := Brace.isBalanced_braces hfo hfc
    have hgap := Brace.isBalanced_of_blank hgap
    have := hhead.append (hgap.append (hfields.append (Brace.isBalanced_of_not_mem hro hrc)))
    simpa using this

/-- The punctuation behind a line does not make the key occur again. -/
theorem once_append {value : Text} (punctuation : Punctuation)
    (once : ∀ x y, key ++ ':' :: value = x ++ (key ++ ':' :: y) → x = []) :
    ∀ x y, key ++ ':' :: (value ++ [punctuation.char]) = x ++ (key ++ ':' :: y) → x = [] := by
  intro x y h
  rcases List.eq_nil_or_concat y with rfl | ⟨y, d, rfl⟩
  · have hlast := congrArg List.getLast? h
    rw [← List.cons_append, ← List.append_assoc, List.getLast?_concat, ← List.append_assoc,
      List.getLast?_concat] at hlast
    exact absurd (Option.some.inj hlast) punctuation.char_ne_colon
  · refine once x y ?_
    rw [List.concat_eq_append, ← List.cons_append, ← List.cons_append, ← List.append_assoc,
      ← List.append_assoc, ← List.append_assoc] at h
    rw [List.append_inj_left' h rfl, List.append_assoc]

/-- The punctuation behind a line does not make it an object. -/
theorem head_append {value : Text} (punctuation : Punctuation)
    (h : (value.dropWhile isBlank).head? ≠ some '{') :
    ∃ c, ((value ++ [punctuation.char]).dropWhile isBlank).head? = some c ∧ c ≠ '{' := by
  rw [List.dropWhile_append]
  cases hd : value.dropWhile isBlank with
  | nil =>
    refine ⟨punctuation.char, ?_, punctuation.char_ne_open⟩
    cases punctuation <;> rfl
  | cons d rest =>
    refine ⟨d, rfl, ?_⟩
    rintro rfl
    exact h (by rw [hd]; rfl)

end RoundTrip

end Fabula
