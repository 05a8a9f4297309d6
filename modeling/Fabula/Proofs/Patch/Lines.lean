import Fabula.Proofs.Patch.RoundTrip

/-!
# Entries on lines of their own

The edits of a container keep one layout: every entry begins on a line of its own, one tab
deeper than the closing brace, and is ended by its punctuation. A container so laid out is told
by the list of its entries (`EntryStyle.written`), and its edits are edits of that list. The
registry files, the map of passages and the races are all lists of this kind, and what is proved
here once is used for each of them, at any depth, for both kinds of containers, and for entries
of one line or of several.

## Adding an entry

A container of listed entries is tidy (`EntryStyle.isTidy_container`): the entries, from the
first character of the first to the last punctuation, are trimmed, because an entry begins with
no blank and no punctuation is one. So an insertion adds the entry and nothing else, behind the
others (`insertEntry_lined`). It adds it indented, which for an entry of one line is the entry
itself.

## Taking an entry out

The entry of a key is between those in front of it and those behind it, and the layout is such
that a removal finds what it needs at both ends. In front of the entry ends a header or another
entry, in either case in a character that is no blank and continues no name
(`EntryStyle.isSeam_lines`). Behind it is a line break. What a removal leaves there is one line
break, and this is the one with which the entries behind begin, or the closing brace. So an
entry is taken out whatever stands before and behind it (`EntryStyle.withoutEntry_line`,
`EntryStyle.withoutEntry_object`), and a container from which the last entry was taken is the
one with no entries, not one with an empty line.

That the other entries and the name of the container lack the key has to be known, and it is
asked for of the container without the entry.

## The text around

What an edit needs to know of the text around the container is only that no header of the same
name comes first (`IsFront`). It is said for whatever follows, so that it does not have to be
said again when the container has changed. A text is such a front if what a header begins with
does not occur in it, and does not begin in it and end behind it (`isFront_concat`).
-/

namespace Fabula

open scoped Engine.Tireless

open Removal

/-- **How the entries of a container stand**: what ends them, and how deep the brace
behind them is. -/
structure EntryStyle where
  /-- What ends an entry. -/
  punctuation : Punctuation
  /-- What stands before the closing brace on its line. -/
  depth : Text
  /-- The depth is made of tabs and spaces. -/
  depth_indent : ∀ c ∈ depth, Text.isIndentChar c = true

/-- **A text that may be listed** as an entry: its braces are balanced, and it does not
begin with a blank. -/
structure IsListed (e : Text) : Prop where
  balanced : Brace.IsBalanced e
  begins : ∃ c t, e = c :: t ∧ isBlank c = false

namespace EntryStyle

variable (s : EntryStyle)

/-- What leads from a line to the next entry. -/
def lead : Text :=
  '\n' :: (s.depth ++ ['\t'])

/-- The entries, each behind its line break. -/
def lines (entries : List Text) : Text :=
  entries.flatMap fun e => s.lead ++ (e ++ [s.punctuation.char])

/-- What stands between the braces of a container. -/
def body (entries : List Text) : Text :=
  s.lines entries ++ '\n' :: s.depth

/-- **A container with its entries**, from its name through its closing brace. -/
def written (kind : ContainerKind) (name : Text) (entries : List Text) : Text :=
  kind.opening name ++ (s.body entries ++ ['}'])

variable {s} {entries : List Text}

theorem isBlank_of_mem_lead (s : EntryStyle) {c : Char} (h : c ∈ s.lead) : isBlank c = true := by
  unfold lead at h
  rw [List.mem_cons, List.mem_append, List.mem_singleton] at h
  rcases h with rfl | h | rfl
  · decide
  · exact Text.isBlank_of_isIndentChar (s.depth_indent c h)
  · decide

theorem lines_append (xs ys : List Text) : s.lines (xs ++ ys) = s.lines xs ++ s.lines ys :=
  List.flatMap_append

theorem lines_cons (e : Text) (entries : List Text) :
    s.lines (e :: entries) = s.lead ++ (e ++ s.punctuation.char :: s.lines entries) := by
  show s.lead ++ (e ++ [s.punctuation.char]) ++ s.lines entries = _
  simp

theorem getLast?_lines (h : entries ≠ []) :
    (s.lines entries).getLast? = some s.punctuation.char := by
  rcases List.eq_nil_or_concat entries with rfl | ⟨xs, e, rfl⟩
  · exact absurd rfl h
  · rw [List.concat_eq_append, lines_append, lines_cons]
    show (s.lines xs ++ (s.lead ++ (e ++ [s.punctuation.char]))).getLast? = _
    rw [← List.append_assoc, ← List.append_assoc, List.getLast?_concat]

/-- **Entries with balanced braces make a balanced body.** -/
theorem balanced_body (h : ∀ e ∈ entries, Brace.IsBalanced e) :
    Brace.IsBalanced (s.body entries) := by
  have hclose : Brace.IsBalanced ('\n' :: s.depth) := Brace.isBalanced_of_blank fun c hc =>
    isBlank_of_mem_lead s (List.mem_append_left _ hc)
  have hend := s.punctuation.isBalanced_char
  have hlead : Brace.IsBalanced s.lead :=
    Brace.isBalanced_of_blank fun c hc => isBlank_of_mem_lead s hc
  refine .append ?_ hclose
  induction entries with
  | nil => rfl
  | cons e entries ih =>
    have he := (h e List.mem_cons_self).append hend
    exact (hlead.append he).append (ih fun x hx => h x (List.mem_cons_of_mem _ hx))

/-! ## The container that is found -/

variable {kind : ContainerKind} {name front rest : Text}

/-- The container in front of which `front` stands, as a decomposition of the text. -/
def container (s : EntryStyle) (kind : ContainerKind) (name front : Text) (entries : List Text)
    (rest : Text) : Container :=
  ⟨kind, name, front, kind.opening name, s.body entries, rest⟩

theorem container_written :
    (s.container kind name front entries rest).written = s.written kind name entries :=
  List.append_assoc _ _ _

theorem container_replace (new : Text) :
    (s.container kind name front entries rest).replace new = front ++ (new ++ rest) :=
  List.append_assoc _ _ _

theorem container_depth : (s.container kind name front entries rest).depth = s.depth :=
  Container.depth_of_body s.depth_indent rfl

/-- **A container of listed entries is laid out** as insertions write it. -/
theorem isTidy_container (h : ∀ e ∈ entries, IsListed e) :
    (s.container kind name front entries rest).IsTidy s.punctuation := by
  refine ⟨rfl, s.depth, s.depth_indent, ?_⟩
  cases entries with
  | nil => exact .inl rfl
  | cons e entries =>
    -- the entries, from the first character of the first to the last punctuation
    obtain ⟨c, t, hct, hblank⟩ := (h e List.mem_cons_self).begins
    have hlast : (e ++ s.punctuation.char :: s.lines entries).getLast? =
        some s.punctuation.char := by
      have hlines := getLast?_lines (s := s) (List.cons_ne_nil e entries)
      rwa [lines_cons, List.getLast?_append_of_ne_nil _ (by simp)] at hlines
    refine .inr ⟨e ++ s.punctuation.char :: s.lines entries, by simp, ?_, ?_, ?_⟩
    · exact Text.trim_of_ends (by rw [hct]; rfl) hblank hlast s.punctuation.isBlank_char
    · cases hp : s.punctuation with
      | comma =>
        rw [hp] at hlast
        exact hlast
      | semicolon =>
        rw [hp] at hlast
        exact ⟨';', hlast, by decide⟩
    · show s.lines (e :: entries) ++ '\n' :: s.depth = _
      rw [lines_cons, lead]
      simp

/-- **A new entry is written behind the others.** -/
theorem withEntry_container (h : ∀ e ∈ entries, IsListed e) (entry : Text) :
    (s.container kind name front entries rest).withEntry entry s.punctuation =
      s.written kind name (entries ++ [Text.deepen s.depth entry]) := by
  rw [Container.withEntry_eq (isTidy_container h), container_depth]
  show kind.opening name ++ (s.lines entries ++ '\n' :: s.depth ++ _) = _
  rw [written, body, lines_append, lines_cons, lead]
  simp [lines]

/-- A place between entries is one an entry may follow. -/
theorem isSeam_lines (s : EntryStyle) (kind : ContainerKind) (name : Text) (entries : List Text) :
    IsSeam (kind.opening name ++ s.lines entries) := by
  cases entries with
  | nil =>
    refine ⟨'{', ?_, by decide, by decide⟩
    show (kind.opening name ++ []).getLast? = some '{'
    rw [List.append_nil]
    cases kind with
    | property => exact List.getLast?_append_of_ne_nil _ (by decide)
    | binding => exact List.getLast?_append_of_ne_nil _ (by decide)
  | cons e entries =>
    refine ⟨s.punctuation.char, ?_, s.punctuation.isBlank_char, s.punctuation.isNameChar_char⟩
    rw [List.getLast?_append, getLast?_lines (List.cons_ne_nil e entries)]
    rfl

/-! ## Taking an entry out -/

/-- The lines behind an entry, without the line break in front of them. -/
def behind (s : EntryStyle) (entries : List Text) : Text :=
  (s.body entries).tail ++ ['}']

theorem cons_behind (s : EntryStyle) (entries : List Text) :
    '\n' :: s.behind entries = s.body entries ++ ['}'] := by
  unfold behind body
  cases entries with
  | nil => rfl
  | cons e entries =>
    rw [lines_cons, lead]
    rfl

/-- A container around a place between its entries. -/
theorem written_append (xs ys : List Text) : s.written kind name (xs ++ ys) =
    kind.opening name ++ s.lines xs ++ '\n' :: s.behind ys := by
  rw [cons_behind, written, body, body, lines_append]
  simp

/-- A container around one of its entries. -/
theorem written_split (xs ys : List Text) (e : Text) : s.written kind name (xs ++ e :: ys) =
    kind.opening name ++ s.lines xs ++
      (s.lead ++ (e ++ [s.punctuation.char] ++ '\n' :: s.behind ys)) := by
  rw [cons_behind, written, body, body, lines_append, lines_cons]
  simp

variable {xs ys : List Text} {key value : Text}

theorem lead_ne_nil (s : EntryStyle) : s.lead ≠ [] :=
  List.cons_ne_nil _ _

/-- Punctuation does not break a line. -/
theorem not_mem_append_char (p : Punctuation) (h : '\n' ∉ value) : '\n' ∉ value ++ [p.char] := by
  simp [h, p.char_ne_feed.symm]

/-- **An entry on a line is taken out** from between the others. -/
theorem withoutEntry_line (hkey : IsKey key) (hline : '\n' ∉ value) (hobject : ¬IsObject value)
    (honce : ∀ x y, key ++ ':' :: value = x ++ (key ++ ':' :: y) → x = [])
    (hunused : IsUnused key (s.written kind name (xs ++ ys))) :
    (s.container kind name front (xs ++ (key ++ ':' :: value) :: ys) rest).withoutEntry key =
      .ok (s.written kind name (xs ++ ys)) := by
  rw [written_append] at hunused ⊢
  refine Container.withoutEntry_line hkey (isSeam_lines s kind name xs) s.lead_ne_nil
    (fun c hc => isBlank_of_mem_lead s hc) (head_append s.punctuation hobject)
    (once_append s.punctuation honce) (not_mem_append_char s.punctuation hline) hunused ?_
  rw [container_written, written_split]
  simp

/-- **An object entry is taken out** from between the others. -/
theorem withoutEntry_object {gap fields : Text} (hkey : IsKey key)
    (hgap : ∀ c ∈ gap, isBlank c = true) (hfields : Brace.IsBalanced fields) (hline : '\n' ∉ value)
    (hlacks : Lacks key IsObject (s.written kind name (xs ++ ys))) :
    (s.container kind name front (xs ++ (key ++ ':' :: (gap ++ '{' :: (fields ++ '}' :: value))) ::
      ys) rest).withoutEntry key = .ok (s.written kind name (xs ++ ys)) := by
  rw [written_append] at hlacks ⊢
  refine Container.withoutEntry_object hkey (isSeam_lines s kind name xs) s.lead_ne_nil
    (fun c hc => isBlank_of_mem_lead s hc) hgap hfields (not_mem_append_char s.punctuation hline) hlacks ?_
  rw [container_written, written_split]
  simp

end EntryStyle

/-! ## Editing a text -/

/-- **What may stand in front of a container**: no header of its name begins there, and
it does not end in the middle of a name. -/
structure IsFront (kind : ContainerKind) (name front : Text) : Prop where
  ends : continuesName front.getLast? = false
  misses : ∀ t, Text.Misses (kind.headerAt? name) none front t

/-- **A front in which no header begins**: what every header of the name begins with, as far
as its colon, occurs there only behind a character that continues a name or with another value
than the headers have, and it does not reach across the last character. -/
theorem isFront_concat {kind : ContainerKind} {name front w : Text} {value : Text → Prop} {c : Char}
    (hheader : ∀ header, kind.IsHeader name header →
      ∃ u, header = w ++ ':' :: u ∧ ∀ z t behind, u ++ behind = z ++ t → value z)
    (hlacks : Lacks w value front) (hname : isNameChar c = false) (hc : c ∉ w ++ [':']) :
    IsFront kind name (front ++ [c]) := by
  refine ⟨by rw [List.getLast?_concat]; exact hname, fun t => ?_⟩
  rw [Text.misses_iff]
  intro x b y hx
  by_contra hsome
  obtain ⟨⟨header, behind⟩, hm⟩ := Option.ne_none_iff_exists'.1 hsome
  obtain ⟨hprev, hh, ht⟩ := ContainerKind.headerAt?_eq_some_iff.1 hm
  obtain ⟨u, rfl, hvalue⟩ := hheader header hh
  rw [Text.lastOr_none] at hprev
  have heq : front ++ c :: t = x ++ ((w ++ [':']) ++ (u ++ behind)) := by
    have hgroup : front ++ c :: t = front ++ [c] ++ t := by simp
    rw [hgroup, hx, List.append_assoc, ht]
    simp
  rcases Text.split_occurrence hc heq with ⟨z, hz, hrest⟩ | ⟨z, hz, _⟩
  · have hused := hlacks x z (by rw [hz]; simp) (hvalue z _ _ hrest)
    rw [hprev] at hused
    cases hused
  · -- the occurrence would begin behind the front
    have hlen := congrArg List.length hx
    rw [hz] at hlen
    simp only [List.length_append, List.length_cons, List.length_nil] at hlen
    omega

section Editing

variable {s : EntryStyle} {kind : ContainerKind} {name front rest key value : Text}
  {entries xs ys : List Text}

/-- **A container is found** behind its front. -/
theorem locate_of_front {body : Text} (hfront : IsFront kind name front)
    (hbody : Brace.IsBalanced body) (rest : Text) :
    Container.locate kind name (front ++ (kind.opening name ++ (body ++ '}' :: rest))) =
      .ok ⟨kind, name, front, kind.opening name, body, rest⟩ :=
  Container.locate_eq_ok_iff.2
    ⟨⟨rfl, rfl⟩, rfl, kind.isHeader_opening name, hfront.ends, hbody, hfront.misses _⟩

/-- A container of listed entries is found behind its front. -/
theorem locate_lined (hfront : IsFront kind name front)
    (h : ∀ e ∈ entries, Brace.IsBalanced e) :
    Container.locate kind name (front ++ (s.written kind name entries ++ rest)) =
      .ok (s.container kind name front entries rest) := by
  have hwritten : s.written kind name entries ++ rest =
      kind.opening name ++ (s.body entries ++ '}' :: rest) := by
    simp [EntryStyle.written]
  rw [hwritten]
  exact locate_of_front hfront (EntryStyle.balanced_body h) rest

/-- **An insertion appends an entry.** -/
theorem insertEntry_lined (hfront : IsFront kind name front) (h : ∀ e ∈ entries, IsListed e)
    (entry : Text) :
    insertEntry kind name entry s.punctuation (front ++ (s.written kind name entries ++ rest)) =
      .ok (front ++ (s.written kind name (entries ++ [Text.deepen s.depth entry]) ++ rest)) := by
  unfold insertEntry
  rw [locate_lined hfront fun e he => (h e he).balanced]
  show Except.ok (_ : Text) = _
  rw [EntryStyle.withEntry_container h, EntryStyle.container_replace]

/-- **A removal takes out the entry of the key**, once it takes it out of the
container. -/
theorem removeEntry_lined {new : Text} (hfront : IsFront kind name front)
    (h : ∀ e ∈ entries, Brace.IsBalanced e)
    (hwithout : (s.container kind name front entries rest).withoutEntry key = .ok new) :
    removeEntry kind name key (front ++ (s.written kind name entries ++ rest)) =
      .ok (front ++ (new ++ rest)) := by
  rw [removeEntry_of_locate (locate_lined hfront h), hwithout]
  show Except.ok (_ : Text) = _
  rw [EntryStyle.container_replace]

end Editing

end Fabula
