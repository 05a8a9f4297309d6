import Fabula.Patch.Removal
import Fabula.Proofs.Patch.Container

/-!
# What a removal takes away

A removal looks for the key of an entry and takes away what follows it, and there are two
patterns for that. Objects go as a whole, with the rest of their last line; only if there are
none, entries on a line go with that line. Both patterns begin with the blanks in front of the
key, so that the line break there goes too, and leave one line break in the place of everything.
This module says which text goes, for an entry that stands between a front and a rest
(`Container.withoutEntry_object`, `Container.withoutEntry_line`).

## Where a key occurs

A match is an *occurrence* of the key and its colon, not directly behind a character that
continues a name. A key has no blanks in it. Therefore, in a text made of a front, some blanks,
an entry and a rest behind a line break, an occurrence lies in one of the three parts
(`Removal.IsKey.occurrence_cases`): if it began in the front and ended in the entry, the blanks
between them would be in it.

In the front and in the rest there must be no entry of the key. That is said with the value it
would have (`Removal.Lacks`), because an occurrence that is followed by a line does no harm when
objects are removed. Keys are unused if they occur with no value at all (`Removal.IsUnused`).
For keys that are words both can be told from the parts of a text with other characters between
them (`Removal.Lacks.append`), which is how a file of many entries is seen to lack one.

## What is matched

The match takes the blanks in front of the key with it. Therefore the front has to end in a
character that is neither blank, or the match would begin earlier, nor part of a name, or it
could not begin there (`Removal.IsSeam`). Entries with punctuation end like that, and so does a
header. Behind the key, the value decides. A line is not an object (`Removal.misses_object?`),
so the pattern of objects passes over it, and the removal comes to the second pattern, if no
part of the line begins an entry of the key again.

So the pattern misses the front, matches the entry from its blanks through its line break, and
misses the rest, and the replacement is the front, one line break, and the rest. It is shorter
than what there was, so the removal has taken something away, and says so.
-/

namespace Fabula

open scoped Engine.Tireless

namespace Removal

/-! ## Keys and where they occur -/

/-- **What an entry is removed by**: a text without blanks and braces. -/
structure IsKey (key : Text) : Prop where
  ne_nil : key ≠ []
  not_blank : ∀ c ∈ key, isBlank c = false
  not_open : '{' ∉ key
  not_close : '}' ∉ key

/-- **A key is unused** in a text when the key and a colon occur there only
directly behind a character that continues a name. -/
def IsUnused (key t : Text) : Prop :=
  ∀ x y, t = x ++ (key ++ ':' :: y) → continuesName x.getLast? = true

/-- **A text lacks the entries of a key that have a certain value**: where the key
and a colon occur, they continue a name or no such value follows. -/
def Lacks (key : Text) (value : Text → Prop) (t : Text) : Prop :=
  ∀ x y, t = x ++ (key ++ ':' :: y) → value y → continuesName x.getLast? = true

variable {key : Text}

theorem IsUnused.lacks {t : Text} (h : IsUnused key t) (value : Text → Prop) :
    Lacks key value t :=
  fun x y ht _ => h x y ht

theorem key?_eq_some_iff {t rest : Text} : key? key t = some rest ↔ t = key ++ ':' :: rest := by
  unfold key?
  constructor
  · intro h
    split at h
    · rename_i r hr
      obtain rfl := Option.some.inj h
      exact Text.after?_eq_some_iff.1 hr
    · cases h
  · rintro rfl
    rw [Text.after?_append]
    rfl

theorem isUnused_iff {t : Text} :
    IsUnused key t ↔
      Text.search? (fun previous t => if continuesName previous then none else key? key t)
        none t = none := by
  rw [Text.search?_eq_none_iff, Text.misses_iff]
  constructor
  · intro h
    refine ⟨fun x c y hx => ?_, ?_⟩
    · split_ifs with hprev
      · rfl
      · by_contra hsome
        obtain ⟨rest, hrest⟩ := Option.ne_none_iff_exists'.1 hsome
        rw [List.append_nil] at hrest
        rw [Text.lastOr_none] at hprev
        exact hprev (h x rest (by rw [hx, key?_eq_some_iff.1 hrest]))
    · split_ifs with hprev
      · rfl
      · by_contra hsome
        obtain ⟨rest, hrest⟩ := Option.ne_none_iff_exists'.1 hsome
        exact absurd (key?_eq_some_iff.1 hrest).symm
          (List.append_ne_nil_of_right_ne_nil _ (List.cons_ne_nil _ _))
  · rintro ⟨h, _⟩ x y ht
    by_contra hprev
    obtain ⟨c, u, hu⟩ : ∃ c u, key ++ ':' :: y = c :: u :=
      List.exists_cons_of_ne_nil (List.append_ne_nil_of_right_ne_nil _ (List.cons_ne_nil _ _))
    have hmiss := h x c u (by rw [ht, hu])
    rw [Text.lastOr_none, if_neg hprev, List.append_nil, ← hu, key?_eq_some_iff.2 rfl] at hmiss
    cases hmiss

instance (key t : Text) : Decidable (IsUnused key t) :=
  decidable_of_iff _ isUnused_iff.symm

namespace IsKey

variable (h : IsKey key)

include h in
/-- No blank stands in a key, nor in the colon behind it. -/
theorem not_mem {c : Char} (hc : isBlank c = true) : c ∉ key ++ [':'] := by
  intro hm
  rcases List.mem_append.1 hm with hm | hm
  · rw [h.not_blank c hm] at hc
    cases hc
  · obtain rfl := List.mem_singleton.1 hm
    exact absurd hc (by decide)

include h in
theorem exists_cons : ∃ c cs, key = c :: cs ∧ isBlank c = false := by
  obtain ⟨c, cs, hk⟩ := List.exists_cons_of_ne_nil h.ne_nil
  exact ⟨c, cs, hk, h.not_blank c (by rw [hk]; exact List.mem_cons_self)⟩

include h in
/-- No key is read at a blank. -/
theorem key?_blank {c : Char} {t : Text} (hc : isBlank c = true) : key? key (c :: t) = none := by
  by_contra hsome
  obtain ⟨rest, hrest⟩ := Option.ne_none_iff_exists'.1 hsome
  obtain ⟨d, cs, hk, hd⟩ := h.exists_cons
  rw [key?_eq_some_iff, hk] at hrest
  obtain ⟨rfl, _⟩ := List.cons.inj hrest
  rw [hc] at hd
  cases hd

include h in
/-- Blanks in front of a text do not belong to an occurrence in it. -/
theorem behind_blanks {blanks s x y : Text} (hb : ∀ c ∈ blanks, isBlank c = true)
    (heq : blanks ++ s = x ++ (key ++ ':' :: y)) :
    ∃ z, x = blanks ++ z ∧ s = z ++ (key ++ ':' :: y) := by
  obtain ⟨c, cs, rfl, hc⟩ := h.exists_cons
  exact Text.behind_blanks hb hc heq

include h in
/-- **Where a key occurs** in a front, some blanks, an entry and the text from
the end of its line on. -/
theorem occurrence_cases {s blanks e t x y : Text} (hne : blanks ≠ [])
    (hb : ∀ c ∈ blanks, isBlank c = true)
    (heq : s ++ (blanks ++ (e ++ '\n' :: t)) = x ++ (key ++ ':' :: y)) :
    (∃ z, s = x ++ (key ++ ':' :: z)) ∨
    (∃ z v, x = s ++ (blanks ++ z) ∧ e = z ++ (key ++ ':' :: v) ∧ y = v ++ '\n' :: t) ∨
    ∃ z, x = s ++ (blanks ++ (e ++ '\n' :: z)) ∧ t = z ++ (key ++ ':' :: y) := by
  have happ : ∀ y, key ++ ':' :: y = (key ++ [':']) ++ y := fun y => by
    rw [List.append_assoc, List.singleton_append]
  have hfeed : isBlank '\n' = true := by decide
  obtain ⟨b, blanks, rfl⟩ := List.exists_cons_of_ne_nil hne
  rw [List.cons_append, happ] at heq
  rcases Text.split_occurrence (h.not_mem (hb b List.mem_cons_self)) heq with
    ⟨z, hs, _⟩ | ⟨z, rfl, hbehind⟩
  · exact .inl ⟨z, hs.trans (by rw [happ z])⟩
  rw [← happ] at hbehind
  obtain ⟨z, rfl, hentry⟩ :=
    h.behind_blanks (fun c hc => hb c (List.mem_cons_of_mem _ hc)) hbehind
  rw [happ] at hentry
  rcases Text.split_occurrence (h.not_mem hfeed) hentry with ⟨v, he, hy⟩ | ⟨v, rfl, ht⟩
  · exact .inr (.inl ⟨z, v, by simp, he.trans (by rw [happ v]), hy⟩)
  · exact .inr (.inr ⟨v, by simp, ht.trans (by rw [happ y])⟩)

/-- A key occurs once in an entry that has one colon, behind the key. -/
theorem once_of_not_mem {value : Text} (hkey : ':' ∉ key) (hvalue : ':' ∉ value) (x y : Text)
    (heq : key ++ ':' :: value = x ++ (key ++ ':' :: y)) : x = [] := by
  rcases Text.split_occurrence hkey heq with ⟨z, hz, _⟩ | ⟨z, _, hz⟩
  · have hlen := congrArg List.length hz
    simp only [List.length_append] at hlen
    exact List.eq_nil_of_length_eq_zero (by omega)
  · exact absurd (by rw [hz]; simp) hvalue

end IsKey

/-! ## Keys that are words -/

/-- **A word**: a text of characters that continue a name. Ids and the names of
containers are words. -/
structure IsWord (w : Text) : Prop where
  ne_nil : w ≠ []
  name_char : ∀ c ∈ w, isNameChar c = true

namespace IsWord

theorem not_mem (h : IsWord key) {c : Char} (hc : isNameChar c = false) : c ∉ key := by
  intro hm
  rw [h.name_char c hm] at hc
  cases hc

theorem isKey (h : IsWord key) : IsKey key where
  ne_nil := h.ne_nil
  not_blank := fun c hc => Text.isBlank_of_isNameChar (h.name_char c hc)
  not_open := h.not_mem (by decide)
  not_close := h.not_mem (by decide)

end IsWord

section Lacks

variable {value : Text → Prop} {s t w : Text} {c : Char}

/-- Where there is no colon there is no entry. -/
theorem lacks_of_not_mem (h : ':' ∉ t) : Lacks key value t :=
  fun x y ht => absurd (by rw [ht]; simp) h

/-- What a word lacks in two texts it lacks in both, with a character between them
that is no part of a name. -/
theorem Lacks.append {value' : Text → Prop} (hkey : IsWord key) (hc : isNameChar c = false)
    (hcolon : c ≠ ':') (hvalue : ∀ z t, value (z ++ c :: t) → value' z) (hs : Lacks key value' s)
    (ht : Lacks key value t) : Lacks key value (s ++ c :: t) := by
  intro x y heq hy
  have hnot : c ∉ key ++ [':'] := by
    simp [hkey.not_mem hc, hcolon]
  have happ : key ++ ':' :: y = (key ++ [':']) ++ y := by simp
  rw [happ] at heq
  rcases Text.split_occurrence hnot heq with ⟨z, hz, rfl⟩ | ⟨z, rfl, hz⟩
  · exact hs x z (by rw [hz]; simp) (hvalue z t hy)
  · have hlast := ht z y (by rw [hz]; simp) hy
    cases z with
    | nil => cases hlast
    | cons d z =>
      rw [List.getLast?_append_cons, List.getLast?_cons_cons]
      exact hlast

/-- A character that is no part of a name begins no entry. -/
theorem Lacks.cons (hkey : IsWord key) (hc : isNameChar c = false)
    (ht : Lacks key value t) : Lacks key value (c :: t) := by
  intro x y heq hy
  cases x with
  | nil =>
    obtain ⟨d, cs, hk⟩ := List.exists_cons_of_ne_nil hkey.ne_nil
    rw [hk] at heq
    obtain ⟨rfl, _⟩ := List.cons.inj heq
    exact absurd (by rw [hk]; exact List.mem_cons_self) (hkey.not_mem hc)
  | cons d x =>
    obtain ⟨rfl, ht'⟩ := List.cons.inj heq
    have hlast := ht x y ht' hy
    cases x with
    | nil => cases hlast
    | cons e x =>
      rw [List.getLast?_cons_cons]
      exact hlast

/-- The entry of another word is no entry of the key. -/
theorem Lacks.colon (hkey : IsWord key) (hw : IsWord w) (hne : key ≠ w)
    (ht : Lacks key value t) : Lacks key value (w ++ ':' :: t) := by
  intro x y heq hy
  rcases Text.split_occurrence (hkey.not_mem (c := ':') (by decide)) heq with
    ⟨z, hz, hrest⟩ | ⟨z, rfl, hz⟩
  · cases z with
    | nil =>
      rw [List.append_nil] at hz
      rcases List.eq_nil_or_concat x with rfl | ⟨x, d, rfl⟩
      · exact absurd hz.symm hne
      · rw [List.concat_eq_append, List.getLast?_concat]
        exact hw.name_char d (by rw [hz]; simp)
    | cons d z =>
      obtain ⟨rfl, _⟩ := List.cons.inj hrest
      exact absurd (by rw [hz]; simp) (hw.not_mem (c := ':') (by decide))
  · have hlast := ht z y hz hy
    cases z with
    | nil => cases hlast
    | cons d z =>
      rw [List.getLast?_append_cons, List.getLast?_cons_cons]
      exact hlast

/-- A key that is unused lacks every entry. -/
theorem isUnused_iff_lacks : IsUnused key t ↔ Lacks key (fun _ => True) t :=
  ⟨fun h => h.lacks _, fun h x y ht => h x y ht trivial⟩

end Lacks

/-! ## What the patterns match -/

/-- **An object entry** is matched from its blanks through its line. -/
theorem object?_eq_some_iff (hkey : IsKey key) {previous : Option Char} {t rest : Text} :
    object? key previous t = some rest ↔
      continuesName previous = false ∧ ∃ blanks gap body line,
        (∀ c ∈ blanks, isBlank c = true) ∧ (∀ c ∈ gap, isBlank c = true) ∧
        Brace.IsBalanced body ∧ '\n' ∉ line ∧
        t = blanks ++ (key ++ ':' :: (gap ++ '{' :: (body ++ '}' :: (line ++ '\n' :: rest)))) := by
  unfold object?
  split_ifs with hprev
  · simp [hprev]
  rw [Text.skipBlanks?_eq (fun c u hc => ?_)]
  · simp only [Option.bind_eq_bind, Option.bind_eq_some_iff, key?_eq_some_iff]
    constructor
    · rintro ⟨u, hu, ⟨brace, v⟩, hv, ⟨body, w⟩, hw, hrest⟩
      obtain ⟨gap, hgap, rfl, rfl⟩ := ContainerKind.throughBrace?_eq_some_iff.1 hv
      obtain ⟨rfl, hbody⟩ := Brace.body?_eq_some_iff.1 hw
      obtain ⟨line, hline, rfl⟩ := Text.afterLine?_eq_some_iff.1 hrest
      obtain ⟨blanks, hb, ht⟩ := Text.eq_blanks_append t
      exact ⟨by simpa using hprev, blanks, gap, body, line, hb, hgap, hbody, hline, by rw [← hu, ← ht]⟩
    · rintro ⟨_, blanks, gap, body, line, hb, hgap, hbody, hline, rfl⟩
      obtain ⟨c, cs, hk, hc⟩ := hkey.exists_cons
      refine ⟨_, by rw [hk, List.cons_append, Text.dropWhile_blanks _ hb hc], _,
        ContainerKind.throughBrace?_eq_some_iff.2 ⟨gap, hgap, rfl, rfl⟩, _,
        Brace.body?_eq_some_iff.2 ⟨rfl, hbody⟩, Text.afterLine?_eq_some_iff.2 ⟨line, hline, rfl⟩⟩
  · rw [hkey.key?_blank hc]
    rfl

/-- **A line entry** is matched from its blanks through its line. -/
theorem line?_eq_some_iff (hkey : IsKey key) {previous : Option Char} {t rest : Text} :
    line? key previous t = some rest ↔
      continuesName previous = false ∧ ∃ blanks line,
        (∀ c ∈ blanks, isBlank c = true) ∧ '\n' ∉ line ∧
        t = blanks ++ (key ++ ':' :: (line ++ '\n' :: rest)) := by
  unfold line?
  split_ifs with hprev
  · simp [hprev]
  rw [Text.skipBlanks?_eq (fun c u hc => ?_)]
  · simp only [Option.bind_eq_bind, Option.bind_eq_some_iff, key?_eq_some_iff]
    constructor
    · rintro ⟨u, hu, hrest⟩
      obtain ⟨line, hline, rfl⟩ := Text.afterLine?_eq_some_iff.1 hrest
      obtain ⟨blanks, hb, ht⟩ := Text.eq_blanks_append t
      exact ⟨by simpa using hprev, blanks, line, hb, hline, by rw [← hu, ← ht]⟩
    · rintro ⟨_, blanks, line, hb, hline, rfl⟩
      obtain ⟨c, cs, hk, hc⟩ := hkey.exists_cons
      exact ⟨_, by rw [hk, List.cons_append, Text.dropWhile_blanks _ hb hc],
        Text.afterLine?_eq_some_iff.2 ⟨line, hline, rfl⟩⟩
  · rw [hkey.key?_blank hc]
    rfl

/-- A value that is an object. -/
def IsObject (value : Text) : Prop :=
  (value.dropWhile isBlank).head? = some '{'

/-- **A pattern reads a key** when it matches only at an occurrence of it that has
such a value, with blanks in front. -/
def Reads (key : Text) (value : Text → Prop) (m : Option Char → Text → Option Text) : Prop :=
  ∀ previous t rest, m previous t = some rest →
    continuesName previous = false ∧
      ∃ blanks u, (∀ c ∈ blanks, isBlank c = true) ∧ t = blanks ++ (key ++ ':' :: u) ∧ value u

theorem reads_object? (hkey : IsKey key) : Reads key IsObject (object? key) := by
  intro previous t rest h
  obtain ⟨hprev, blanks, gap, body, line, hb, hgap, _, _, ht⟩ := (object?_eq_some_iff hkey).1 h
  refine ⟨hprev, blanks, _, hb, ht, ?_⟩
  unfold IsObject
  rw [Text.dropWhile_blanks _ hgap (by decide)]
  rfl

theorem reads_line? (hkey : IsKey key) : Reads key (fun _ => True) (line? key) := by
  intro previous t rest h
  obtain ⟨hprev, blanks, line, hb, _, ht⟩ := (line?_eq_some_iff hkey).1 h
  exact ⟨hprev, blanks, _, hb, ht, trivial⟩

/-- An object has a brace. -/
theorem IsObject.mem {t : Text} (h : IsObject t) : '{' ∈ t :=
  (List.dropWhile_suffix _).subset (List.mem_of_mem_head? (Option.mem_def.2 h))

/-- Without braces there is no object. -/
theorem lacks_object_of_not_mem {t : Text} (h : '{' ∉ t) : Lacks key IsObject t := by
  intro x y ht hobject
  exact absurd (by rw [ht]; simp [hobject.mem]) h

/-- **An object is told by what stands in front of a character** that is neither a blank nor
the brace. -/
theorem IsObject.of_append_cons {z t : Text} {c : Char} (hblank : isBlank c = false) (hc : c ≠ '{')
    (h : IsObject (z ++ c :: t)) : IsObject z := by
  unfold IsObject at h ⊢
  rw [List.dropWhile_append] at h
  cases hd : z.dropWhile isBlank with
  | nil =>
    rw [hd] at h
    replace h : ((c :: t).dropWhile isBlank).head? = some '{' := h
    rw [List.dropWhile_cons_of_neg (by simp [hblank])] at h
    exact absurd (Option.some.inj h) hc
  | cons d rest =>
    rw [hd] at h
    exact h

/-- **What may begin an object**, depending on what follows. -/
def MayOpen (value : Text) : Prop :=
  ∃ t, IsObject (value ++ t)

theorem MayOpen.of_append {z t : Text} (h : MayOpen (z ++ t)) : MayOpen z := by
  obtain ⟨u, hu⟩ := h
  exact ⟨t ++ u, by rwa [← List.append_assoc]⟩

/-- A character that is neither a blank nor the brace settles it. -/
theorem IsObject.of_mayOpen {z t : Text} {c : Char} (hblank : isBlank c = false) (hc : c ≠ '{')
    (h : MayOpen (z ++ c :: t)) : IsObject z := by
  obtain ⟨u, hu⟩ := h
  rw [List.append_assoc] at hu
  exact hu.of_append_cons hblank hc

/-- An object is told by what stands in front of the next key. -/
theorem IsObject.of_key (hkey : IsKey key) {z blanks e : Text} (t : Text)
    (hb : ∀ c ∈ blanks, isBlank c = true) (h : IsObject (z ++ (blanks ++ (key ++ e)))) :
    IsObject (z ++ t) := by
  unfold IsObject at h ⊢
  obtain ⟨front, hfront, hz⟩ := Text.eq_blanks_append z
  cases hd : z.dropWhile isBlank with
  | nil =>
    -- only blanks stand there, and a key does not begin with a brace
    rw [hd, List.append_nil] at hz
    obtain ⟨c, cs, hk, hc⟩ := hkey.exists_cons
    have hall : ∀ d ∈ z ++ blanks, isBlank d = true := by
      intro d hmem
      rcases List.mem_append.1 hmem with hmem | hmem
      · exact hfront d (hz ▸ hmem)
      · exact hb d hmem
    rw [← List.append_assoc, hk, List.cons_append, Text.dropWhile_blanks _ hall hc] at h
    obtain rfl := Option.some.inj h
    exact absurd (by rw [hk]; exact List.mem_cons_self) hkey.not_open
  | cons c rest =>
    rw [List.dropWhile_append, hd] at h ⊢
    exact h

/-! ## What the patterns miss -/

/-- **A place an entry may follow**: the text ends in a character that is
neither blank nor part of a name. -/
def IsSeam (s : Text) : Prop :=
  ∃ c, s.getLast? = some c ∧ isBlank c = false ∧ isNameChar c = false

/-- What reaches from inside a text to behind a seam is not made of blanks. -/
theorem IsSeam.not_blanks {s x y v blanks : Text} {c : Char} (h : IsSeam s) (hs : s = x ++ c :: y)
    (hb : ∀ c ∈ blanks, isBlank c = true) (heq : x ++ blanks = s ++ v) : False := by
  obtain ⟨d, hd, hblank, _⟩ := h
  rw [hs, List.append_assoc, List.append_cancel_left_eq] at heq
  have hmem : d ∈ c :: y := by
    rw [hs, List.getLast?_append, Option.or_eq_some_iff] at hd
    rcases hd with hd | ⟨hd, _⟩
    · exact List.mem_of_getLast? hd
    · exact absurd (List.getLast?_eq_none_iff.1 hd) (List.cons_ne_nil c y)
  rw [hb d (by rw [heq]; exact List.mem_append_left _ hmem)] at hblank
  cases hblank

section Misses

variable {m : Option Char → Text → Option Text} {value : Text → Prop} {s blanks e t : Text}

/-- **Nothing is taken from the front** when there is no such entry. -/
theorem Reads.misses_front (hm : Reads key value m) (hkey : IsKey key) (hs : IsSeam s)
    (hne : blanks ≠ []) (hb : ∀ c ∈ blanks, isBlank c = true)
    (hlacks : Lacks key value (s ++ '\n' :: t))
    (hvalue : ∀ z, value (z ++ (blanks ++ (e ++ '\n' :: t))) → value (z ++ '\n' :: t)) :
    Text.Misses m none s (blanks ++ (e ++ '\n' :: t)) := by
  rw [Text.misses_iff]
  intro x c y hx
  by_contra hsome
  obtain ⟨rest, hrest⟩ := Option.ne_none_iff_exists'.1 hsome
  obtain ⟨hprev, gap, u, hgap, hu, hval⟩ := hm _ _ _ hrest
  have heq : s ++ (blanks ++ (e ++ '\n' :: t)) = (x ++ gap) ++ (key ++ ':' :: u) := by
    rw [List.append_assoc x, ← hu, hx, List.append_assoc]
  rcases hkey.occurrence_cases hne hb heq with ⟨z, hz⟩ | ⟨z, v, hz, _⟩ | ⟨z, hz, _⟩
  · have hbehind : u = z ++ (blanks ++ (e ++ '\n' :: t)) := by
      rw [hz, List.append_assoc, List.append_cancel_left_eq, List.append_assoc,
        List.append_cancel_left_eq] at heq
      exact (List.cons.inj heq).2.symm
    have hused := hlacks (x ++ gap) (z ++ '\n' :: t) (by rw [hz]; simp)
      (hvalue z (hbehind ▸ hval))
    rw [Text.lastOr_none] at hprev
    rw [Text.continuesName_append_blanks hgap hprev] at hused
    cases hused
  · exact hs.not_blanks hx hgap hz
  · exact hs.not_blanks hx hgap hz

/-- **A text that lacks the entries** is passed over. -/
theorem Reads.misses (hm : Reads key value m) (hlacks : Lacks key value t) :
    Text.Misses m none t [] := by
  rw [Text.misses_iff]
  intro x c y hx
  by_contra hsome
  obtain ⟨rest, hrest⟩ := Option.ne_none_iff_exists'.1 hsome
  obtain ⟨hprev, gap, u, hgap, hu, hval⟩ := hm _ _ _ hrest
  have hused := hlacks (x ++ gap) u
    (by rw [hx, List.append_assoc, ← hu, List.append_nil]) hval
  rw [Text.lastOr_none] at hprev
  rw [Text.continuesName_append_blanks hgap hprev] at hused
  cases hused

/-- **Nothing is taken from the rest** when there is no such entry. -/
theorem Reads.misses_rest (hm : Reads key value m) (hlacks : Lacks key value (s ++ '\n' :: t)) :
    Text.Misses m (some '\n') t [] := by
  have hall := hm.misses hlacks
  rw [List.append_cons, Text.misses_append_iff, Text.lastOr_append, Text.lastOr_cons] at hall
  exact hall.2

/-- **A line is no object**: the pattern of an object entry passes over an entry
whose value does not begin with a brace. -/
theorem misses_object? {line : Text} (hkey : IsKey key) (hne : blanks ≠ [])
    (hb : ∀ c ∈ blanks, isBlank c = true)
    (hvalue : ∃ c, (line.dropWhile isBlank).head? = some c ∧ c ≠ '{')
    (honly : ∀ x y, key ++ ':' :: line = x ++ (key ++ ':' :: y) → x = [])
    (hunused : IsUnused key (s ++ '\n' :: t)) :
    Text.Misses (object? key) none (s ++ (blanks ++ (key ++ ':' :: line ++ '\n' :: t))) [] := by
  rw [Text.misses_iff]
  intro x c y hx
  by_contra hsome
  obtain ⟨rest, hrest⟩ := Option.ne_none_iff_exists'.1 hsome
  obtain ⟨hprev, pre, gap, body, behind, hpre, hgap, _, _, ht⟩ := (object?_eq_some_iff hkey).1 hrest
  rw [Text.lastOr_none] at hprev
  have hfree := Text.continuesName_append_blanks hpre hprev
  rw [List.append_nil] at ht
  rw [ht, ← List.append_assoc x] at hx
  rcases hkey.occurrence_cases hne hb hx with ⟨z, hz⟩ | ⟨z, v, hz, he, hv⟩ | ⟨z, hz, hz'⟩
  · have hused := hunused (x ++ pre) (z ++ '\n' :: t) (by rw [hz]; simp)
    rw [hfree] at hused
    cases hused
  · -- the only occurrence in the entry is its key, and no brace follows that
    obtain rfl := honly z v he
    rw [List.nil_append, List.append_cancel_left_eq] at he
    obtain ⟨_, rfl⟩ := List.cons.inj he
    obtain ⟨d, hd, hbrace⟩ := hvalue
    obtain ⟨first, hfirst, hline⟩ := Text.eq_blanks_append line
    cases hdrop : line.dropWhile isBlank with
    | nil => rw [hdrop] at hd; cases hd
    | cons d' w =>
      rw [hdrop] at hd hline
      obtain rfl := Option.some.inj hd
      have hdb : isBlank d' = false := by
        have := List.head?_dropWhile_not isBlank line
        rw [hdrop] at this
        simpa using this
      have hleft := congrArg (List.dropWhile isBlank) hv
      rw [Text.dropWhile_blanks _ hgap (by decide), hline, List.append_assoc, List.cons_append,
        Text.dropWhile_blanks _ hfirst hdb] at hleft
      exact hbrace (List.cons.inj hleft).1.symm
  · have hused := hunused (s ++ '\n' :: z) (gap ++ '{' :: (body ++ '}' :: (behind ++ '\n' :: rest)))
      (by rw [hz']; simp)
    rw [hz] at hfree
    have hlast : (s ++ (blanks ++ (key ++ ':' :: line ++ '\n' :: z))).getLast? =
        (s ++ '\n' :: z).getLast? := by
      rw [← List.append_assoc, ← List.append_assoc, List.getLast?_append_cons,
        List.getLast?_append_cons]
    rw [hlast, hused] at hfree
    cases hfree

end Misses

end Removal

namespace Container

open Removal

variable {c : Container} {key s blanks t line : Text}

/-- A shorter text is another one. -/
private theorem ne_of_entry (e : Text) (hkey : IsKey key) :
    s ++ '\n' :: t ≠ s ++ (blanks ++ (key ++ ':' :: e ++ '\n' :: t)) := by
  intro h
  have hlen := congrArg List.length h
  have hpos := List.length_pos_of_ne_nil hkey.ne_nil
  simp only [List.length_append, List.length_cons] at hlen
  omega

/-- **An object entry goes as a whole**, with the blanks in front of it. -/
theorem withoutEntry_object {gap body : Text} (hkey : IsKey key) (hs : IsSeam s)
    (hne : blanks ≠ []) (hb : ∀ c ∈ blanks, isBlank c = true) (hgap : ∀ c ∈ gap, isBlank c = true)
    (hbody : Brace.IsBalanced body) (hline : '\n' ∉ line)
    (hlacks : Lacks key IsObject (s ++ '\n' :: t))
    (hc : c.written =
      s ++ (blanks ++ (key ++ ':' :: (gap ++ '{' :: (body ++ '}' :: line)) ++ '\n' :: t))) :
    c.withoutEntry key = .ok (s ++ '\n' :: t) := by
  have happ : blanks ++ (key ++ ':' :: (gap ++ '{' :: (body ++ '}' :: line)) ++ '\n' :: t) =
      (blanks ++ (key ++ ':' :: (gap ++ '{' :: (body ++ '}' :: line))) ++ ['\n']) ++ t := by simp
  have hmatch : object? key (Text.lastOr none s)
      (blanks ++ (key ++ ':' :: (gap ++ '{' :: (body ++ '}' :: line)) ++ '\n' :: t)) = some t := by
    obtain ⟨d, hd, _, hname⟩ := hs
    refine (object?_eq_some_iff hkey).2
      ⟨?_, blanks, gap, body, line, hb, hgap, hbody, hline, by simp⟩
    rw [Text.lastOr_none, hd]
    exact hname
  have hmiss := (reads_object? hkey).misses_front hkey hs hne hb hlacks
    (e := key ++ ':' :: (gap ++ '{' :: (body ++ '}' :: line))) fun z hz => by
      rw [List.append_assoc key] at hz
      exact hz.of_key hkey _ hb
  have hreplaced : Text.replaceAll (object? key) ['\n'] none c.written = s ++ '\n' :: t := by
    rw [hc]
    rw [happ] at hmatch hmiss ⊢
    refine Text.replaceAll_eq (by simp) hmiss hmatch ?_
    rw [Text.lastOr_append, Text.lastOr_append]
    exact (reads_object? hkey).misses_rest hlacks
  rw [withoutEntry_tireless]
  dsimp only
  rw [hreplaced, if_pos]
  rw [hc]
  exact ne_of_entry _ hkey

/-- **A line entry goes with its line**, when its value is no object and its key
occurs in it once. -/
theorem withoutEntry_line (hkey : IsKey key) (hs : IsSeam s) (hne : blanks ≠ [])
    (hb : ∀ c ∈ blanks, isBlank c = true)
    (hvalue : ∃ c, (line.dropWhile isBlank).head? = some c ∧ c ≠ '{')
    (honly : ∀ x y, key ++ ':' :: line = x ++ (key ++ ':' :: y) → x = []) (hline : '\n' ∉ line)
    (hunused : IsUnused key (s ++ '\n' :: t))
    (hc : c.written = s ++ (blanks ++ (key ++ ':' :: line ++ '\n' :: t))) :
    c.withoutEntry key = .ok (s ++ '\n' :: t) := by
  have happ : blanks ++ (key ++ ':' :: line ++ '\n' :: t) =
      (blanks ++ (key ++ ':' :: line) ++ ['\n']) ++ t := by simp
  have hmatch : line? key (Text.lastOr none s) (blanks ++ (key ++ ':' :: line ++ '\n' :: t)) =
      some t := by
    obtain ⟨d, hd, _, hname⟩ := hs
    refine (line?_eq_some_iff hkey).2 ⟨?_, blanks, line, hb, hline, by simp⟩
    rw [Text.lastOr_none, hd]
    exact hname
  have hlacks := hunused.lacks fun _ => True
  have hmiss := (reads_line? hkey).misses_front hkey hs hne hb hlacks
    (e := key ++ ':' :: line) fun _ _ => trivial
  have hobject : Text.replaceAll (object? key) ['\n'] none c.written = c.written := by
    rw [hc]
    exact Text.replaceAll_of_misses (misses_object? hkey hne hb hvalue honly hunused)
  have hreplaced : Text.replaceAll (line? key) ['\n'] none c.written = s ++ '\n' :: t := by
    rw [hc]
    rw [happ] at hmatch hmiss ⊢
    refine Text.replaceAll_eq (by simp) hmiss hmatch ?_
    rw [Text.lastOr_append, Text.lastOr_append]
    exact (reads_line? hkey).misses_rest hlacks
  rw [withoutEntry_tireless]
  dsimp only
  rw [hobject, if_neg (not_not.2 rfl), hreplaced, if_pos]
  rw [hc]
  exact ne_of_entry _ hkey

/-- **A removal leaves a line break**: it takes something away, and that leaves one. -/
theorem feed_mem_of_withoutEntry {w : Text} (h : c.withoutEntry key = .ok w) : '\n' ∈ w := by
  have hfeed : '\n' ∈ ['\n'] := List.mem_singleton_self _
  rw [withoutEntry_tireless] at h
  dsimp only at h
  split_ifs at h with hobject hline
  · obtain rfl := Except.ok.inj h
    exact Text.mem_replaceAll hfeed hobject
  · obtain rfl := Except.ok.inj h
    exact Text.mem_replaceAll hfeed hline

end Container

/-- **A removal goes on in the container** that is found. -/
theorem removeEntry_of_locate {kind : ContainerKind} {name key source : Text} {c : Container}
    (h : Container.locate kind name source = .ok c) :
    removeEntry kind name key source = (c.withoutEntry key).map c.replace := by
  unfold removeEntry
  rw [h]
  show (c.withoutEntry key >>= fun written => pure (c.replace written)) = _
  cases c.withoutEntry key <;> rfl

end Fabula
