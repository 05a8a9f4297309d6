import Mathlib.Data.List.Chain
import Fabula.Proofs.Patch.Insertion
import Fabula.Proofs.Patch.Lines

/-!
# Removing among keyed entries

A container that lists entries, each from a line of its own on, is what a removal is meant for:
it should take out the entries of the key, and leave the others as they are. It does so without
reading the list. Its patterns go over the whole text of the container, so the removal is exact
when they match where the entries of the key stand and nowhere else, which is a condition on the
container (`KeyedEntry.StandApart`):

* the entries of the key are all of one shape, because lines are looked for only where there is
  no object;
* no two of them follow each other, because each match takes the line break behind it, and the
  next match has none in front of it to take, so that two line breaks are left;
* the key does not occur elsewhere with a value of that shape, be it in the header or in another
  entry.

Under these conditions a removal deletes exactly the entries of the key, and the container is
found again (`removeEntry_keyed`). Without the last one it does not: a key inside the braces of
another entry takes their closing brace with it (`removeEntry_of_stray_key`).

## One scan over the lines

That is an induction over the entries (`KeyedEntry.replaceAll_body`). In front of each entry
stands a line break, with which the scan comes to it. If the entry is one of the key, the match
begins there and ends behind the line break of the entry, and the one line break that is written
in its place is the one that the next entry needs, unless that is taken too. If it is not,
nothing in it matches, up to the line break behind it, with which the scan comes to the next
entry. An occurrence of the key might reach over that line break only if it were the beginning
of an object which is not closed in its own entry, and there is none, since the braces of every
entry are balanced.

## When entries stand apart

The last condition is about every other entry of the container, and it should be seen from
little. For objects and keys that are words it holds of itself
(`KeyedEntry.standApart_objects`): the brace of an object stands directly behind its key, every
entry has one brace at most, and that is behind another key. For lines it does not, because the
value of a line may be any text. A container may even be called like the key, and then its
header goes (`KeyedEntry.withoutEntry_name`).
-/

namespace Fabula

open scoped Engine.Tireless

open Removal

namespace Removal

/-- **What stands behind the key of an entry.** -/
inductive Shape where
  /-- A value on one line, without braces. -/
  | line
  /-- Braces without braces inside, and the rest of a line. -/
  | object
deriving DecidableEq, Repr

namespace Shape

/-- The values of a shape. -/
def Fits : Shape → Text → Prop
  | line, value => '\n' ∉ value ∧ '{' ∉ value ∧ '}' ∉ value
  | object, value => ∃ gap inside rest, (∀ c ∈ gap, isBlank c = true) ∧
      '{' ∉ inside ∧ '}' ∉ inside ∧ '\n' ∉ rest ∧ Brace.IsBalanced rest ∧
      value = gap ++ '{' :: (inside ++ '}' :: rest)

/-- What a removal takes for a value of a shape. -/
def LooksLike : Shape → Text → Prop
  | line, _ => True
  | object, value => IsObject value

/-- The pattern that finds the entries of a shape. -/
def pattern (key : Text) : Shape → Option Char → Text → Option Text
  | line => line? key
  | object => object? key

theorem reads_pattern {key : Text} (hkey : IsKey key) (shape : Shape) :
    Reads key shape.LooksLike (shape.pattern key) :=
  match shape with
  | line => reads_line? hkey
  | object => reads_object? hkey

end Shape

/-! ## Pieces of a text -/

section Pieces

variable {key s t : Text} {value : Text → Prop} {m : Option Char → Text → Option Text}
  {previous : Option Char}

/-- **Nothing is taken from a piece of a text**, up to its end at a line break, that has no
such entry. -/
theorem Reads.misses_piece (hm : Reads key value m) (hkey : IsKey key) (hs : IsSeam s)
    (hlacks : ∀ x z, s = x ++ (key ++ ':' :: z) → value (z ++ '\n' :: t) →
      continuesName x.getLast? = true) :
    Text.Misses m previous s ('\n' :: t) := by
  rw [Text.misses_iff]
  intro x c y hx
  rw [Option.eq_none_iff_forall_ne_some]
  intro rest hrest
  obtain ⟨hprev, blanks, u, hblanks, hu, hval⟩ := hm _ _ _ hrest
  have heq : s ++ '\n' :: t = (x ++ blanks) ++ ((key ++ [':']) ++ u) := by
    rw [List.append_assoc x, List.append_assoc key, List.singleton_append, ← hu, hx,
      List.append_assoc]
  rcases Text.split_occurrence (hkey.not_mem (by decide)) heq with ⟨z, hz, rfl⟩ | ⟨z, hz, _⟩
  · have hused := hlacks (x ++ blanks) z (by rw [hz]; simp) hval
    -- the key is not behind a name character, where the scan stands or behind blanks
    rcases List.eq_nil_or_concat x with rfl | ⟨x, d, rfl⟩
    · rw [List.nil_append] at hused
      rw [← List.nil_append blanks, Text.continuesName_append_blanks hblanks rfl] at hused
      cases hused
    · rw [List.concat_eq_append] at hprev hused
      rw [Text.lastOr_append, Text.lastOr_cons, Text.lastOr_nil] at hprev
      rw [Text.continuesName_append_blanks hblanks (by rw [List.getLast?_concat]; exact hprev)]
        at hused
      cases hused
  · exact hs.not_blanks hx hblanks hz

/-- **An object that ends** in its line, with a line break behind it. -/
def IsEndedObject (value : Text) : Prop :=
  ∃ gap body line rest, (∀ c ∈ gap, isBlank c = true) ∧ Brace.IsBalanced body ∧
    value = gap ++ '{' :: (body ++ '}' :: (line ++ '\n' :: rest))

theorem reads_ended_object? (hkey : IsKey key) : Reads key IsEndedObject (object? key) := by
  intro previous t rest h
  obtain ⟨hprev, blanks, gap, body, line, hb, hgap, hbody, _, ht⟩ := (object?_eq_some_iff hkey).1 h
  exact ⟨hprev, blanks, _, hb, ht, gap, body, line, rest, hgap, hbody, rfl⟩

/-- Nothing is taken where there is no colon. -/
theorem Reads.misses_of_not_mem (hm : Reads key value m) (h : ':' ∉ s) :
    Text.Misses m previous s [] := by
  rw [Text.misses_iff]
  intro x c y hx
  rw [Option.eq_none_iff_forall_ne_some]
  intro rest hrest
  obtain ⟨_, blanks, u, _, hu, _⟩ := hm _ _ _ hrest
  refine absurd ?_ h
  rw [List.append_nil] at hu
  rw [hx, hu]
  simp

/-- Blanks begin no entry. -/
theorem Lacks.blanks {blanks : Text} (hkey : IsWord key) (hblanks : ∀ c ∈ blanks, isBlank c = true)
    (h : Lacks key value t) : Lacks key value (blanks ++ t) := by
  induction blanks with
  | nil => exact h
  | cons c blanks ih =>
    refine (ih fun d hd => hblanks d (List.mem_cons_of_mem _ hd)).cons hkey ?_
    by_contra hname
    have hblank := Text.isBlank_of_isNameChar (Bool.not_eq_false _ ▸ hname)
    rw [hblanks c List.mem_cons_self] at hblank
    cases hblank

/-- In an object there is no other one, and in front of it there are blanks. -/
theorem lacks_object_of_braces {gap inside : Text} (hkey : IsKey key)
    (hgap : ∀ c ∈ gap, isBlank c = true) (hinside : '{' ∉ inside) :
    Lacks key IsObject (gap ++ '{' :: inside) := by
  intro x y heq hobject
  have hnot : '{' ∉ key ++ [':'] := by simp [hkey.not_open]
  have hgroup : key ++ ':' :: y = (key ++ [':']) ++ y := by simp
  rw [hgroup] at heq
  rcases Text.split_occurrence hnot heq with ⟨z, hz, _⟩ | ⟨z, _, hz⟩
  · obtain ⟨c, cs, hk, hc⟩ := hkey.exists_cons
    exact absurd (by rw [hz, hk]; simp) (Text.not_mem_of_blank hgap hc)
  · exact absurd (by rw [hz]; simp [hobject.mem]) hinside

/-- An object is told by what stands up to the end of its line, if that ends in a character
that is not blank. -/
theorem IsObject.of_append {z : Text} {c : Char} (hc : z.getLast? = some c)
    (hblank : isBlank c = false) (h : IsObject (z ++ t)) : IsObject z := by
  unfold IsObject at h ⊢
  rw [List.dropWhile_append] at h
  split_ifs at h with hnil
  · have hall := List.dropWhile_eq_nil_iff.1 (List.isEmpty_iff.1 hnil)
    rw [hall c (List.mem_of_getLast? hc)] at hblank
    cases hblank
  · rwa [List.head?_append_of_ne_nil _ (fun hd => hnil (List.isEmpty_iff.2 hd))] at h

/-- What looks like a value before the end of a line does so without what follows. -/
theorem Shape.LooksLike.of_append {shape : Shape} {z : Text} {c : Char} (hc : z.getLast? = some c)
    (hblank : isBlank c = false) (h : shape.LooksLike (z ++ t)) : shape.LooksLike z :=
  match shape with
  | line => trivial
  | object => IsObject.of_append hc hblank h

/-- **A piece that lacks the entries of a key** has nothing taken from it. -/
theorem Shape.misses_piece {shape : Shape} {c : Char} (hkey : IsKey key) (hc : s.getLast? = some c)
    (hblank : isBlank c = false) (hname : isNameChar c = false) (hcolon : c ≠ ':')
    (hlacks : Lacks key shape.LooksLike s) :
    Text.Misses (shape.pattern key) previous s ('\n' :: t) := by
  refine (shape.reads_pattern hkey).misses_piece hkey ⟨c, hc, hblank, hname⟩ fun x z hs hz => ?_
  refine hlacks x z hs (.of_append (c := c) ?_ hblank hz)
  -- the piece does not end in the colon, so it ends behind it
  rw [hs, ← List.append_assoc] at hc
  cases z with
  | nil =>
    rw [List.getLast?_concat] at hc
    exact absurd (Option.some.inj hc).symm hcolon
  | cons d z => rwa [List.getLast?_append_cons, List.getLast?_cons_cons] at hc

end Pieces

end Removal

/-- **An entry of a container** that lists entries: the key behind its indentation, a value
and what ends the entry. -/
structure KeyedEntry where
  /-- What stands in front of the key on its line. -/
  indent : Text
  /-- The text before the colon. -/
  key : Text
  /-- What stands behind the colon. -/
  value : Text
  /-- How the value is written. -/
  shape : Shape
  /-- What ends the entry. -/
  ends : Punctuation
  /-- Nothing but blanks stands in front of the key. -/
  indent_blank : ∀ c ∈ indent, isBlank c = true
  /-- No brace opens in the key. -/
  key_open : '{' ∉ key
  /-- No brace closes in the key. -/
  key_close : '}' ∉ key
  /-- The value has the shape. -/
  fits : shape.Fits value

namespace KeyedEntry

/-- The entry as it is written. -/
def text (e : KeyedEntry) : Text :=
  e.indent ++ (e.key ++ ':' :: (e.value ++ [e.ends.char]))

/-- **The body of a container that lists entries**, each with a line break behind it. -/
def body (entries : List KeyedEntry) (depth : Text) : Text :=
  '\n' :: (entries.flatMap (fun e => e.text ++ ['\n']) ++ depth)

variable {e : KeyedEntry} {entries : List KeyedEntry} {depth key t : Text} {previous : Option Char}

theorem body_cons (e : KeyedEntry) (entries : List KeyedEntry) (depth : Text) :
    body (e :: entries) depth = '\n' :: (e.text ++ body entries depth) := by
  simp [body]

/-- A body begins with a line break. -/
theorem exists_body (entries : List KeyedEntry) (depth : Text) :
    ∃ t, body entries depth ++ ['}'] = '\n' :: t :=
  ⟨_, rfl⟩

theorem getLast?_text (e : KeyedEntry) : e.text.getLast? = some e.ends.char := by
  have hgroup : e.text = e.indent ++ (e.key ++ ':' :: e.value) ++ [e.ends.char] := by
    simp [text]
  rw [hgroup, List.getLast?_concat]

/-! ## Braces -/

/-- The braces of a value are balanced. -/
theorem isBalanced_value (e : KeyedEntry) : Brace.IsBalanced e.value := by
  have hfits := e.fits
  cases hshape : e.shape with
  | line =>
    rw [hshape] at hfits
    exact Brace.isBalanced_of_not_mem hfits.2.1 hfits.2.2
  | object =>
    rw [hshape] at hfits
    obtain ⟨gap, inside, rest, hgap, hopen, hclose, _, hrest, hvalue⟩ := hfits
    have hbraces := (Brace.isBalanced_of_blank hgap).append
      ((Brace.isBalanced_braces hopen hclose).append hrest)
    rw [hvalue]
    simpa using hbraces

theorem isBalanced_text (e : KeyedEntry) : Brace.IsBalanced e.text := by
  have hkey : Brace.IsBalanced (e.key ++ [':']) :=
    Brace.isBalanced_of_not_mem (by simp [e.key_open]) (by simp [e.key_close])
  have htext := (Brace.isBalanced_of_blank e.indent_blank).append
    (hkey.append (e.isBalanced_value.append e.ends.isBalanced_char))
  unfold text
  simpa using htext

/-- **A body that lists entries is balanced.** -/
theorem isBalanced_body (hdepth : ∀ c ∈ depth, isBlank c = true) (entries : List KeyedEntry) :
    Brace.IsBalanced (body entries depth) := by
  have hfeed : Brace.IsBalanced ['\n'] := by decide
  induction entries with
  | nil => exact hfeed.append (Brace.isBalanced_of_blank hdepth)
  | cons e entries ih =>
    rw [body_cons]
    exact hfeed.append (e.isBalanced_text.append ih)

/-! ## One scan over the lines -/

section Scan

variable {m : Option Char → Text → Option Text} {taken : KeyedEntry → Bool}

/-- **A pattern that matches entries** takes them out, the blanks in front and the line break
behind them included, when no two of them follow each other. -/
theorem replaceAll_body
    (hmatch : ∀ e ∈ entries, taken e → ∀ previous t, continuesName previous = false →
      m previous ('\n' :: (e.text ++ '\n' :: t)) = some t)
    (hmiss : ∀ e ∈ entries, ¬taken e → ∀ previous t,
      Text.Misses m previous ('\n' :: e.text) ('\n' :: t))
    (hend : ∀ previous, Text.Misses m previous ('\n' :: (depth ++ ['}'])) [])
    (hspaced : entries.IsChain fun e e' => ¬(taken e ∧ taken e'))
    (hprevious : continuesName previous = false) :
    Text.replaceAll m ['\n'] previous (body entries depth ++ ['}']) =
      body (entries.filter fun e => !taken e) depth ++ ['}'] := by
  induction entries generalizing previous with
  | nil => exact Text.replaceAll_of_misses (hend previous)
  | cons e entries ih =>
    have hrest : ∀ {previous}, continuesName previous = false →
        Text.replaceAll m ['\n'] previous (body entries depth ++ ['}']) =
          body (entries.filter fun e => !taken e) depth ++ ['}'] :=
      ih (fun x hx => hmatch x (List.mem_cons_of_mem _ hx))
        (fun x hx => hmiss x (List.mem_cons_of_mem _ hx)) hspaced.of_cons
    obtain ⟨t, ht⟩ := exists_body entries depth
    have htext : body (e :: entries) depth ++ ['}'] = '\n' :: e.text ++ '\n' :: t := by
      rw [body_cons, ← ht]
      simp
    by_cases htaken : taken e
    · -- the match takes the line break in front of the next line, which no match begins with
      have hnext : Text.Misses m previous ['\n'] t := by
        refine ⟨?_, trivial⟩
        cases entries with
        | nil =>
          have hnone := (hend previous).1
          rw [List.append_nil] at hnone
          rw [← (List.cons.inj ht).2]
          exact hnone
        | cons e' entries =>
          have hfree : ¬taken e' := fun h => (List.isChain_cons_cons.1 hspaced).1 ⟨htaken, h⟩
          obtain ⟨u, hu⟩ := exists_body entries depth
          have hmiss' := (hmiss e' (by simp) hfree previous u).1
          rw [body_cons, List.cons_append, List.append_assoc, hu] at ht
          rw [← (List.cons.inj ht).2]
          exact hmiss'
      have hfilter : (e :: entries).filter (fun e => !taken e) =
          entries.filter fun e => !taken e := by simp [htaken]
      have hsplit : '\n' :: e.text ++ '\n' :: t = ('\n' :: e.text ++ ['\n']) ++ t := by simp
      have hhere := hmatch e List.mem_cons_self htaken previous t hprevious
      rw [← List.cons_append, hsplit] at hhere
      rw [hfilter, ← hrest hprevious, htext, ht, hsplit, Text.replaceAll_of_match (by simp) hhere,
        Text.lastOr_append, Text.lastOr_cons, Text.lastOr_nil]
      exact (Text.replaceAll_append hnext).symm
    · have hfilter : (e :: entries).filter (fun e => !taken e) =
          e :: entries.filter fun e => !taken e := by simp [htaken]
      have hlast : Text.lastOr previous ('\n' :: e.text) = some e.ends.char := by
        unfold Text.lastOr
        rw [← List.singleton_append, List.getLast?_append, getLast?_text]
        rfl
      rw [htext, Text.replaceAll_append (hmiss e List.mem_cons_self htaken previous t), hlast, ← ht,
        hrest (by exact e.ends.isNameChar_char), hfilter, body_cons]
      simp

end Scan

/-! ## The entries of a key -/

/-- **The entries of a key stand apart** in a container: they are of one shape and no two of
them follow each other, and neither the header, as far as its brace, nor another entry has
the key with a value of that shape in it. Lines are looked for only where there is no
object. -/
structure StandApart (key : Text) (shape : Shape) (header : Text) (entries : List KeyedEntry) :
    Prop where
  alike : ∀ e ∈ entries, e.key = key → e.shape = shape
  found : shape = .object → ∃ e ∈ entries, e.key = key
  spaced : entries.IsChain fun e e' => ¬(e.key = key ∧ e'.key = key)
  header_lacks : Lacks key shape.LooksLike header.dropLast
  others_lack : ∀ e ∈ entries, e.key ≠ key → Lacks key shape.LooksLike e.text

/-- **An entry of the key is matched** with the blanks in front of it and its line break. -/
theorem pattern_eq_some (hkey : IsKey e.key) (hprevious : continuesName previous = false) :
    e.shape.pattern e.key previous ('\n' :: (e.text ++ '\n' :: t)) = some t := by
  have hblanks : ∀ c ∈ '\n' :: e.indent, isBlank c = true := by
    intro c hc
    rcases List.mem_cons.1 hc with rfl | hc
    · decide
    · exact e.indent_blank c hc
  have hfits := e.fits
  cases hshape : e.shape with
  | line =>
    rw [hshape] at hfits
    refine (line?_eq_some_iff hkey).2 ⟨hprevious, '\n' :: e.indent, e.value ++ [e.ends.char], hblanks,
      EntryStyle.not_mem_append_char e.ends hfits.1, ?_⟩
    simp [text]
  | object =>
    rw [hshape] at hfits
    obtain ⟨gap, inside, rest, hgap, hopen, hclose, hrest, _, hvalue⟩ := hfits
    refine (object?_eq_some_iff hkey).2 ⟨hprevious, '\n' :: e.indent, gap, inside,
      rest ++ [e.ends.char], hblanks, hgap, Brace.isBalanced_of_not_mem hopen hclose,
      EntryStyle.not_mem_append_char e.ends hrest, ?_⟩
    simp [text, hvalue]

/-- Nothing is taken from an entry that lacks the key. -/
theorem misses_text {shape : Shape} (hkey : IsWord key) (h : Lacks key shape.LooksLike e.text) :
    Text.Misses (shape.pattern key) previous ('\n' :: e.text) ('\n' :: t) := by
  refine Shape.misses_piece hkey.isKey (c := e.ends.char) ?_ e.ends.isBlank_char
    e.ends.isNameChar_char e.ends.char_ne_colon (h.cons hkey (by decide))
  rw [← List.singleton_append, List.getLast?_append, getLast?_text]
  rfl

/-- An entry on a line of its own is no object. -/
theorem lacks_object (key : Text) (hshape : e.shape = .line) :
    Lacks key Shape.object.LooksLike e.text := by
  have hfits := e.fits
  rw [hshape] at hfits
  refine lacks_object_of_not_mem ?_
  simp [text, Text.not_mem_of_blank e.indent_blank (c := '{') (by decide), e.key_open, hfits.2.1,
    e.ends.char_ne_open.symm]

/-- **An object is no entry of another key**, when the two keys are words and it is the only
object on its lines. -/
theorem lacks_object_of_word (hkey : IsWord key) (hword : IsWord e.key) (hne : e.key ≠ key)
    (hone : e.value.count '{' ≤ 1) : Lacks key Shape.object.LooksLike e.text := by
  cases hshape : e.shape with
  | line => exact lacks_object key hshape
  | object =>
    have hfits := e.fits
    rw [hshape] at hfits
    obtain ⟨gap, inside, rest, hgap, hinside, _, _, _, hvalue⟩ := hfits
    have hrest : '{' ∉ rest := by
      intro hmem
      have hpos := List.count_pos_iff.2 hmem
      rw [hvalue] at hone
      simp only [List.count_append, List.count_cons_self,
        List.count_cons_of_ne (by decide : '}' ≠ '{')] at hone
      omega
    have hvalue' : e.value ++ [e.ends.char] =
        gap ++ '{' :: (inside ++ '}' :: (rest ++ [e.ends.char])) := by
      rw [hvalue]
      simp
    unfold text
    rw [hvalue']
    refine Lacks.blanks hkey e.indent_blank (Lacks.colon hkey hword hne.symm ?_)
    refine lacks_object_of_braces hkey.isKey hgap ?_
    simp [hinside, hrest, e.ends.char_ne_open.symm]

/-- **Objects stand apart** when the keys are words: nothing else in a container is taken for
an object of the key. -/
theorem standApart_objects {header stem : Text} (hkey : IsWord key)
    (hheader : header = stem ++ ['{']) (hstem : '{' ∉ stem) (hword : ∀ e ∈ entries, IsWord e.key)
    (hone : ∀ e ∈ entries, e.value.count '{' ≤ 1)
    (halike : ∀ e ∈ entries, e.key = key → e.shape = .object) (hfound : ∃ e ∈ entries, e.key = key)
    (hspaced : entries.IsChain fun e e' => ¬(e.key = key ∧ e'.key = key)) :
    StandApart key .object header entries where
  alike := halike
  found := fun _ => hfound
  spaced := hspaced
  header_lacks := by
    rw [hheader, List.dropLast_concat]
    exact lacks_object_of_not_mem hstem
  others_lack := fun e he hne => lacks_object_of_word hkey (hword e he) hne (hone e he)

/-- Nothing is taken from the header of a body that closes: an object that begins at its brace
ends where the container does, and there is no line break behind that. -/
theorem misses_header {shape : Shape} {stem inside : Text} (hkey : IsKey key)
    (hinside : Brace.IsBalanced inside) (ht : '\n' :: t = inside ++ ['}'])
    (hlacks : Lacks key shape.LooksLike stem) :
    Text.Misses (shape.pattern key) previous (stem ++ ['{']) ('\n' :: t) := by
  have hseam : IsSeam (stem ++ ['{']) := ⟨'{', List.getLast?_concat, by decide, by decide⟩
  -- an occurrence in the header is one in front of its brace
  have hstem : ∀ {x z}, stem ++ ['{'] = x ++ (key ++ ':' :: z) →
      ∃ z', z = z' ++ ['{'] ∧ stem = x ++ (key ++ ':' :: z') := by
    intro x z heq
    rcases List.eq_nil_or_concat z with rfl | ⟨z', d, rfl⟩
    · rw [← List.append_assoc] at heq
      exact absurd (List.append_inj_right' heq rfl) (by decide)
    · rw [List.concat_eq_append, ← List.cons_append, ← List.append_assoc, ← List.append_assoc] at heq
      obtain ⟨hstem, hlast⟩ := List.append_inj' heq rfl
      exact ⟨z', by rw [List.concat_eq_append, hlast], by rw [hstem, List.append_assoc]⟩
  cases shape with
  | line =>
    refine (reads_line? hkey).misses_piece hkey hseam fun x z heq _ => ?_
    obtain ⟨z', _, hz⟩ := hstem heq
    exact hlacks x z' hz trivial
  | object =>
    refine (reads_ended_object? hkey).misses_piece hkey hseam fun x z heq hended => ?_
    obtain ⟨z', rfl, hz⟩ := hstem heq
    refine hlacks x z' hz ?_
    obtain ⟨gap, body, line, rest, hgap, hbody, heq⟩ := hended
    have hgap' : '{' ∉ gap := Text.not_mem_of_blank hgap (by decide)
    rw [List.append_assoc, List.singleton_append] at heq
    by_cases hmem : '{' ∈ z'
    · obtain ⟨front, behind, rfl, hfront⟩ := List.eq_append_cons_of_mem hmem
      rw [List.append_assoc] at heq
      obtain rfl := (Text.append_cons_inj hfront hgap' heq).1
      show IsObject _
      unfold IsObject
      rw [Text.dropWhile_blanks _ hgap (by decide)]
      rfl
    · obtain ⟨_, hbehind⟩ := Text.append_cons_inj hmem hgap' heq
      have hread := Brace.body?_eq_some_iff.2 ⟨hbehind, hbody⟩
      rw [Brace.body?_eq_some_iff.2 ⟨ht, hinside⟩] at hread
      obtain ⟨_, hnil⟩ := Prod.mk.inj (Option.some.inj hread)
      exact absurd hnil.symm (List.append_ne_nil_of_right_ne_nil _ (List.cons_ne_nil _ _))

section Removing

variable {c : Container} {shape : Shape}

/-- **One pattern over a whole container** takes out the entries it is meant for. -/
theorem replaceAll_written (taken : KeyedEntry → Bool) {stem : Text} (hkey : IsWord key)
    (hheader : c.header = stem ++ ['{']) (hbody : c.body = body entries depth)
    (hdepth : ∀ x ∈ depth, isBlank x = true) (hstem : Lacks key shape.LooksLike stem)
    (htaken : ∀ e ∈ entries, taken e → e.key = key ∧ e.shape = shape)
    (hothers : ∀ e ∈ entries, ¬taken e → Lacks key shape.LooksLike e.text)
    (hspaced : entries.IsChain fun e e' => ¬(taken e ∧ taken e')) :
    Text.replaceAll (shape.pattern key) ['\n'] none c.written =
      c.header ++ (body (entries.filter fun e => !taken e) depth ++ ['}']) := by
  have hcolon : ':' ∉ '\n' :: (depth ++ ['}']) := by
    simp [Text.not_mem_of_blank hdepth (c := ':') (by decide)]
  have hmiss : Text.Misses (shape.pattern key) none c.header (body entries depth ++ ['}']) := by
    rw [hheader]
    exact misses_header hkey.isKey (isBalanced_body hdepth entries) rfl hstem
  have hlast : Text.lastOr none c.header = some '{' := by
    rw [hheader, Text.lastOr_append]
    rfl
  have hwritten : c.written = c.header ++ (body entries depth ++ ['}']) := by
    rw [Container.written, hbody, List.append_assoc]
  rw [hwritten, Text.replaceAll_append hmiss, hlast, replaceAll_body]
  · intro e he htake previous t hprevious
    obtain ⟨rfl, rfl⟩ := htaken e he htake
    exact pattern_eq_some hkey.isKey hprevious
  · exact fun e he hfree previous t => misses_text hkey (hothers e he hfree)
  · exact fun previous => (shape.reads_pattern hkey.isKey).misses_of_not_mem hcolon
  · exact hspaced
  · rfl

/-- The text of fewer entries is not longer. -/
theorem length_body_filter_le (p : KeyedEntry → Bool) (entries : List KeyedEntry) :
    (body (entries.filter p) depth).length ≤ (body entries depth).length := by
  induction entries with
  | nil => exact Nat.le_refl _
  | cons e entries ih =>
    by_cases hp : p e
    · rw [List.filter_cons_of_pos hp, body_cons, body_cons]
      simp only [List.length_cons, List.length_append]
      omega
    · rw [List.filter_cons_of_neg hp, body_cons]
      simp only [List.length_cons, List.length_append]
      omega

/-- **The text of fewer entries is another one.** -/
theorem body_filter_ne {p : KeyedEntry → Bool} (h : ∃ e ∈ entries, ¬p e) :
    body (entries.filter p) depth ≠ body entries depth := by
  obtain ⟨e, he, hp⟩ := h
  obtain ⟨xs, ys, rfl⟩ := List.append_of_mem he
  have hle : ∀ zs, (body (zs.filter p) depth).length ≤ (body zs depth).length :=
    length_body_filter_le p
  -- what the entries in front of `e` take up is not the same in the two texts, only not more
  have happ : ∀ zs ws : List KeyedEntry, (body (zs ++ ws) depth).length + 1 + depth.length =
      (body zs depth).length + (body ws depth).length := by
    intro zs ws
    simp only [body, List.flatMap_append, List.length_cons, List.length_append]
    omega
  intro heq
  have hlen := congrArg List.length heq
  have hxs := hle xs
  have hys := hle ys
  have hleft := happ (xs.filter p) (ys.filter p)
  have hright := happ xs (e :: ys)
  rw [List.filter_append, List.filter_cons_of_neg hp] at hlen
  rw [body_cons, List.length_cons, List.length_append] at hright
  omega

/-- **The entries of a key are removed**, and no others. -/
theorem withoutEntry_eq {kind : ContainerKind} {name : Text} (hkey : IsWord key)
    (hheader : kind.IsHeader name c.header) (hbody : c.body = body entries depth)
    (hdepth : ∀ x ∈ depth, isBlank x = true) (hapart : StandApart key shape c.header entries) :
    c.withoutEntry key =
      if ∃ e ∈ entries, e.key = key then
        .ok (c.header ++ (body (entries.filter fun e => e.key ≠ key) depth ++ ['}']))
      else .error (.entryNotFound c.name key) := by
  obtain ⟨stem, hstem⟩ : ∃ stem, c.header = stem ++ ['{'] := by
    obtain ⟨between, _, hbetween⟩ := hheader.exists_between
    exact ⟨name ++ between, by rw [hbetween, List.append_assoc]⟩
  have hlacks := hapart.header_lacks
  rw [hstem, List.dropLast_concat] at hlacks
  have hwritten : c.written = c.header ++ (body entries depth ++ ['}']) := by
    rw [Container.written, hbody, List.append_assoc]
  -- the pass over the entries of the shape
  have hpass : Text.replaceAll (shape.pattern key) ['\n'] none c.written =
      c.header ++ (body (entries.filter fun e => e.key ≠ key) depth ++ ['}']) := by
    rw [replaceAll_written (fun e => e.key = key) hkey hstem hbody hdepth hlacks]
    · simp
    · intro e he htaken
      have hkeyed : e.key = key := of_decide_eq_true htaken
      exact ⟨hkeyed, hapart.alike e he hkeyed⟩
    · exact fun e he hfree => hapart.others_lack e he fun h => hfree (decide_eq_true h)
    · exact hapart.spaced.imp fun e e' h => by simpa using h
  have hchanged : (∃ e ∈ entries, e.key = key) →
      c.header ++ (body (entries.filter fun e => e.key ≠ key) depth ++ ['}']) ≠ c.written := by
    rintro ⟨e, he, hkeyed⟩ heq
    rw [hwritten] at heq
    exact body_filter_ne ⟨e, he, by simp [hkeyed]⟩
      (List.append_cancel_right (List.append_cancel_left heq))
  rw [Container.withoutEntry_tireless]
  cases shape with
  | object =>
    have hfound := hapart.found rfl
    have hobject : Text.replaceAll (object? key) ['\n'] none c.written = _ := hpass
    dsimp only
    rw [hobject, if_pos (hchanged hfound), if_pos hfound]
  | line =>
    -- there is no object of the key, so the first pass changes nothing
    have hobject : Text.replaceAll (object? key) ['\n'] none c.written = c.written := by
      have hobjects : ∀ e ∈ entries, Lacks key Shape.object.LooksLike e.text := by
        intro e he
        by_cases hkeyed : e.key = key
        · exact lacks_object key (hapart.alike e he hkeyed)
        · exact (isUnused_iff_lacks.2 (hapart.others_lack e he hkeyed)).lacks _
      have hnone := replaceAll_written (fun _ => false) hkey hstem hbody hdepth
        ((isUnused_iff_lacks.2 hlacks).lacks Shape.object.LooksLike) (by simp)
        (fun e he _ => hobjects e he) (hapart.spaced.imp fun e e' _ => by simp)
      refine hnone.trans ?_
      rw [hwritten]
      simp
    have hline : Text.replaceAll (line? key) ['\n'] none c.written = _ := hpass
    dsimp only
    rw [hobject, if_neg (not_not.2 rfl), hline]
    by_cases hfound : ∃ e ∈ entries, e.key = key
    · rw [if_pos (hchanged hfound), if_pos hfound]
    · have hall : entries.filter (fun e => e.key ≠ key) = entries :=
        List.filter_eq_self.2 fun e he => decide_eq_true fun h => hfound ⟨e, he, h⟩
      rw [hall, ← hwritten, if_neg (not_not.2 rfl), if_neg hfound]

/-- **The name of a container as a key**: there is no object of it, so what goes is the line of
the header. -/
theorem withoutEntry_name (hname : IsWord c.name)
    (hheader : c.header = ContainerKind.property.opening c.name)
    (hbody : c.body = body entries depth) (hdepth : ∀ x ∈ depth, isBlank x = true)
    (hlines : ∀ e ∈ entries, e.shape = .line) :
    ∃ w, c.withoutEntry c.name = .ok ('\n' :: w) := by
  have hopen : ": \x7b".toList = [':', ' ', '{'] := by decide
  have hstem : c.header = (c.name ++ [':', ' ']) ++ ['{'] := by
    rw [hheader, ContainerKind.opening, hopen, List.append_assoc]
    rfl
  have hobject : Text.replaceAll (object? c.name) ['\n'] none c.written = c.written := by
    have hlacks : Lacks c.name Shape.object.LooksLike (c.name ++ [':', ' ']) :=
      lacks_object_of_not_mem (by simp [hname.not_mem (c := '{') (by decide)])
    have hnone := replaceAll_written (fun _ => false) hname hstem hbody hdepth hlacks (by simp)
      (fun e he _ => lacks_object c.name (hlines e he))
      (List.pairwise_of_forall_mem_list fun _ _ _ _ => by simp).isChain
    refine hnone.trans ?_
    simp [Container.written, hbody]
  obtain ⟨t, ht⟩ := exists_body entries depth
  have hwritten : c.written = (c.name ++ [':', ' ', '{', '\n']) ++ t := by
    rw [Container.written, hstem, hbody, List.append_assoc, ht]
    simp
  have hline : Text.replaceAll (line? c.name) ['\n'] none c.written =
      '\n' :: Text.replaceAll (line? c.name) ['\n'] (some '\n') t := by
    rw [hwritten, Text.replaceAll_of_match (by simp)]
    · simp [Text.lastOr]
    · exact (line?_eq_some_iff hname.isKey).2 ⟨rfl, [], [' ', '{'], by simp, by decide, by simp⟩
  have hne : '\n' :: Text.replaceAll (line? c.name) ['\n'] (some '\n') t ≠ c.written := by
    obtain ⟨d, cs, hd, hblank⟩ := hname.isKey.exists_cons
    rw [hwritten, hd]
    intro h
    rw [← (List.cons.inj h).1] at hblank
    exact absurd hblank (by decide)
  refine ⟨Text.replaceAll (line? c.name) ['\n'] (some '\n') t, ?_⟩
  rw [Container.withoutEntry_tireless]
  dsimp only
  rw [hobject, if_neg (not_not.2 rfl), hline, if_pos hne]

end Removing

end KeyedEntry

/-- The tireless engine deletes exactly the entries of the key. -/
theorem removeEntry_keyed_tireless {kind : ContainerKind} {name source key depth : Text} {c : Container}
    {entries : List KeyedEntry} {shape : Shape} (hc : Container.locate kind name source = .ok c)
    (hbody : c.body = KeyedEntry.body entries depth) (hdepth : ∀ x ∈ depth, isBlank x = true)
    (hkey : IsWord key) (hapart : KeyedEntry.StandApart key shape c.header entries) :
    if ∃ e ∈ entries, e.key = key then
      ∃ text, removeEntry kind name key source = .ok text ∧
        text = c.front ++ (c.header ++
          (KeyedEntry.body (entries.filter fun e => e.key ≠ key) depth ++ '}' :: c.rest)) ∧
        Container.locate kind name text =
          .ok { c with body := KeyedEntry.body (entries.filter fun e => e.key ≠ key) depth }
    else removeEntry kind name key source = .error (.entryNotFound name key) := by
  obtain ⟨⟨_, rfl⟩, _, hheader, _, _, _⟩ := Container.locate_eq_ok_iff.1 hc
  have hremove : removeEntry kind c.name key source =
      (c.withoutEntry key).map fun written => c.replace written := by
    unfold removeEntry
    rw [hc]
    show (c.withoutEntry key >>= fun written => pure (c.replace written)) = _
    cases c.withoutEntry key <;> rfl
  rw [KeyedEntry.withoutEntry_eq hkey hheader hbody hdepth hapart] at hremove
  split_ifs with hfound
  · rw [if_pos hfound] at hremove
    refine ⟨_, hremove, by simp [Container.replace], ?_⟩
    have hagain := Container.locate_anew hc hheader (fun _ _ _ _ h => h)
      (KeyedEntry.isBalanced_body hdepth (entries.filter fun e => e.key ≠ key))
    simpa [Container.replace] using hagain
  · rw [if_neg hfound] at hremove
    exact hremove

/-- **Removal deletes exactly the entries of the key**, from a container that lists entries
among which they stand apart, when no search is given up: it fails when there is none, and
otherwise the header, the closing brace, every other entry and the text around the container
stay as they are, and the container is found again. -/
theorem removeEntry_keyed [Engine] {kind : ContainerKind} {name source key depth : Text}
    {c : Container} {entries : List KeyedEntry} {shape : Shape}
    (hc : Container.locate kind name source = .ok c)
    (hbody : c.body = KeyedEntry.body entries depth) (hdepth : ∀ x ∈ depth, isBlank x = true)
    (hkey : IsWord key) (hapart : KeyedEntry.StandApart key shape c.header entries)
    (hsearch : Completes (removeEntry kind name key source)) :
    if ∃ e ∈ entries, e.key = key then
      ∃ text, removeEntry kind name key source = .ok text ∧
        text = c.front ++ (c.header ++
          (KeyedEntry.body (entries.filter fun e => e.key ≠ key) depth ++ '}' :: c.rest)) ∧
        (Completes (Container.locate kind name text) → Container.locate kind name text =
          .ok { c with body := KeyedEntry.body (entries.filter fun e => e.key ≠ key) depth })
    else removeEntry kind name key source = .error (.entryNotFound name key) := by
  have hremoved := removeEntry_keyed_tireless
    ((Container.isSteady_locate _ _ _).tireless_eq_ok hc) hbody hdepth hkey hapart
  rw [(isSteady_removeEntry _ _ _ _).eq hsearch]
  split_ifs at hremoved ⊢ with hfound
  · obtain ⟨text, htext, heq, hagain⟩ := hremoved
    exact ⟨text, htext, heq, fun h => ((Container.isSteady_locate _ _ _).eq h).trans hagain⟩
  · exact hremoved

/-- Removing the first of two races, each over several lines. -/
theorem removeEntry_keyed_race :
    ∃ text, removeEntry .binding "races".toList "human".toList
        "const races = \x7b\n\thuman: \x7b\n\t\tname: 'Human',\n\t\x7d,\n\telf: \x7b\n\t\tname: 'Elf',\n\t\x7d,\n\x7d;".toList =
          .ok text ∧
      text = "const races = \x7b\n\telf: \x7b\n\t\tname: 'Elf',\n\t\x7d,\n\x7d;".toList ∧
      ∃ c, Container.locate .binding "races".toList text = .ok c := by
  let human : KeyedEntry :=
    { indent := "\t".toList, key := "human".toList, value := " \x7b\n\t\tname: 'Human',\n\t\x7d".toList
      shape := .object, ends := .comma
      indent_blank := by decide, key_open := by decide, key_close := by decide
      fits := ⟨" ".toList, "\n\t\tname: 'Human',\n\t".toList, [], by decide, by decide, by decide,
        by decide, by decide, rfl⟩ }
  let elf : KeyedEntry :=
    { indent := "\t".toList, key := "elf".toList, value := " \x7b\n\t\tname: 'Elf',\n\t\x7d".toList
      shape := .object, ends := .comma
      indent_blank := by decide, key_open := by decide, key_close := by decide
      fits := ⟨" ".toList, "\n\t\tname: 'Elf',\n\t".toList, [], by decide, by decide, by decide,
        by decide, by decide, rfl⟩ }
  let c : Container := ⟨.binding, "races".toList, "const ".toList, "races = \x7b".toList,
    KeyedEntry.body [human, elf] [], ";".toList⟩
  have hwords : ∀ e ∈ [human, elf], IsWord e.key := by
    simp only [List.forall_mem_cons]
    exact ⟨⟨by decide, by decide⟩, ⟨by decide, by decide⟩, by simp⟩
  have hapart : KeyedEntry.StandApart "human".toList .object c.header [human, elf] :=
    KeyedEntry.standApart_objects ⟨by decide, by decide⟩
      (show c.header = "races = ".toList ++ ['{'] from rfl) (by decide) hwords (by decide) (by decide)
      ⟨human, List.mem_cons_self, rfl⟩ (by decide)
  have hremoved := @removeEntry_keyed _ .binding "races".toList
    "const races = \x7b\n\thuman: \x7b\n\t\tname: 'Human',\n\t\x7d,\n\telf: \x7b\n\t\tname: 'Elf',\n\t\x7d,\n\x7d;".toList
    "human".toList [] c [human, elf] .object (by decide +kernel) rfl (by decide)
    ⟨by decide, by decide⟩ hapart (by decide +kernel)
  rw [if_pos ⟨human, List.mem_cons_self, rfl⟩] at hremoved
  obtain ⟨text, htext, rfl, hlocate⟩ := hremoved
  exact ⟨_, htext, by decide +kernel, _, hlocate (by decide +kernel)⟩

/-- **A key in another entry is removed, too.** No entry of this container has the key, and
the removal still takes a part of one away, with the brace that closes it. -/
theorem removeEntry_of_stray_key :
    ∃ (c : Container) (entries : List KeyedEntry),
      Container.locate .property "x".toList "x: \x7b\n\ta: \x7b k: 1 \x7d,\n\x7d".toList = .ok c ∧
      c.body = KeyedEntry.body entries [] ∧ IsWord "k".toList ∧
      (∀ e ∈ entries, e.key ≠ "k".toList) ∧
      removeEntry .property "x".toList "k".toList "x: \x7b\n\ta: \x7b k: 1 \x7d,\n\x7d".toList =
        .ok "x: \x7b\n\ta: \x7b\n\x7d".toList ∧
      Container.locate .property "x".toList "x: \x7b\n\ta: \x7b\n\x7d".toList =
        .error (.malformedContainer "x".toList .unclosed) := by
  let a : KeyedEntry :=
    { indent := "\t".toList, key := "a".toList, value := " \x7b k: 1 \x7d".toList
      shape := .object, ends := .comma
      indent_blank := by decide, key_open := by decide, key_close := by decide
      fits := ⟨" ".toList, " k: 1 ".toList, [], by decide, by decide, by decide, by decide, by decide,
        rfl⟩ }
  exact ⟨⟨.property, "x".toList, [], "x: \x7b".toList, KeyedEntry.body [a] [], []⟩, [a],
    by decide +kernel, rfl, ⟨by decide, by decide⟩, by decide, by decide +kernel, by decide +kernel⟩

end Fabula
