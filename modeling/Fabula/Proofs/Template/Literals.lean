import Mathlib.Data.Fin.Tuple.Basic
import Fabula.Proofs.Patch.Brace
import Fabula.Proofs.Registry.Entries
import Fabula.Proofs.Registry.Races

/-!
# Texts in literals

The generated files are TypeScript, and a shown text is put between the quotes of a string
literal there. What keeps it there is a matter of reading the file from its start: a quote
opens a literal or is a character of one, depending on what was read before. So the reader is
modelled, as a `Place` that every character moves: in the code, or in a literal that began
with one of the three quotes. A backslash in a literal takes the next character with it; a
literal in `'` or `"` ends with its line at the latest; and in a back-quoted one the opening
brace directly behind a dollar sign leads back to the code, until its closing brace.

Comments and regular expressions are not read. They begin with a slash, so they are ruled out
by showing that no slash stands outside the literals.

`Quotes` says what is asked of a text that is written with shown texts in it: for every choice
of accepted texts the same remains when the contents of all literals are erased, the braces
are the same, and every text is the whole content of one literal, in a place that does not
depend on it. A text that is fixed but for its literals has this property
(`quotes_fill`), since an accepted text has none of the characters that could end its literal.
-/

namespace Fabula

namespace Template

/-! ## The reader -/

/-- **What the next character of a literal may be taken for.** -/
inductive Mode where
  /-- A character of its own. -/
  | plain
  /-- The character a backslash escapes. -/
  | escaped
  /-- The line feed of a line break that a backslash escapes. -/
  | returned
  /-- The brace of a substitution. -/
  | dollar
deriving DecidableEq, Repr

/-- **A place in a TypeScript file.** The list has a number for each substitution around it,
the innermost first: how many braces were opened in the substitution and not closed yet. -/
inductive Place where
  /-- In the code. -/
  | code (braces : List Nat)
  /-- In a literal. -/
  | literal (quote : Char) (mode : Mode) (braces : List Nat)
deriving DecidableEq, Repr

namespace Place

/-- Where a file begins. -/
def start : Place :=
  code []

/-- The three quotes. -/
def isQuote (c : Char) : Bool :=
  c == '\'' || c == '"' || c == '\x60'

/-- Behind an opening brace of the code. -/
def opened : List Nat → Place
  | [] => code []
  | n :: braces => code ((n + 1) :: braces)

/-- Behind a closing brace of the code, which may end a substitution. -/
def closed : List Nat → Place
  | [] => code []
  | 0 :: braces => literal '\x60' .plain braces
  | (n + 1) :: braces => code (n :: braces)

/-- Behind a character of a literal that no backslash escapes. -/
def within (quote : Char) (mode : Mode) (braces : List Nat) (c : Char) : Place :=
  if c = '\\' then literal quote .escaped braces
  else if c = quote then code braces
  else if quote = '\x60' then
    if c = '$' then literal quote .dollar braces
    else if c = '{' ∧ mode = .dollar then code (0 :: braces)
    else literal quote .plain braces
  else if c = '\r' ∨ (c = '\n' ∧ mode ≠ .returned) then code braces
  else literal quote .plain braces

/-- **The place behind one more character.** -/
def next : Place → Char → Place
  | code braces, c =>
    if isQuote c then literal c .plain braces
    else if c = '{' then opened braces
    else if c = '}' then closed braces
    else code braces
  | literal quote .escaped braces, c =>
    literal quote (if c = '\r' then .returned else .plain) braces
  | literal quote mode braces, c => within quote mode braces c

/-- The place behind a text. -/
def after (p : Place) (t : Text) : Place :=
  t.foldl next p

/-- **What is left of a character** when the contents of literals are erased: nothing of it in
a literal, unless it ends the literal or opens a substitution. -/
def left : Place → Char → Text
  | code _, c => [c]
  | literal quote mode braces, c =>
    match (literal quote mode braces).next c with
    | code _ => if c = '{' then ['$', '{'] else [c]
    | literal .. => []

/-- **A text without the contents of its literals.** -/
def erased : Place → Text → Text
  | _, [] => []
  | p, c :: t => left p c ++ erased (p.next c) t

/-- A place in the code, or in a literal in `'` or `"`, where nothing is pending. -/
def isSettled : Place → Bool
  | code _ => true
  | literal quote mode _ => (quote == '\'' || quote == '"') && mode == .plain

variable {p : Place} {s t : Text} {c : Char}

@[simp] theorem after_nil : after p [] = p := rfl

@[simp] theorem after_cons : after p (c :: t) = after (p.next c) t := rfl

theorem after_append (p : Place) (s t : Text) : after p (s ++ t) = after (after p s) t :=
  List.foldl_append

theorem erased_append (p : Place) (s t : Text) :
    erased p (s ++ t) = erased p s ++ erased (after p s) t := by
  induction s generalizing p with
  | nil => rfl
  | cons c s ih => rw [List.cons_append, erased, ih, erased, after_cons, List.append_assoc]

/-- Erasing adds nothing, but for the mark of a substitution. -/
theorem mem_erased (h : c ∈ erased p t) : c ∈ t ∨ c ∈ ['$', '{'] := by
  induction t generalizing p with
  | nil => cases h
  | cons d t ih =>
    rw [erased, List.mem_append] at h
    rcases h with h | h
    · cases p with
      | code braces => exact .inl (List.mem_singleton.1 h ▸ List.mem_cons_self)
      | literal quote mode braces =>
        unfold left at h
        dsimp only at h
        split at h
        · split_ifs at h
          · exact .inr h
          · exact .inl (List.mem_singleton.1 h ▸ List.mem_cons_self)
        · cases h
    · exact (ih h).imp_left (List.mem_cons_of_mem d)

/-! ## Names and shown texts -/

theorem next_of_isNameChar (hp : p.isSettled = true) (hc : isNameChar c = true) : p.next c = p := by
  have hne : ∀ {d}, isNameChar d = false → c ≠ d := by
    rintro d hd rfl
    rw [hd] at hc
    cases hc
  cases p with
  | code braces =>
    have hquote : isQuote c = false := by
      simp only [isQuote, Bool.or_eq_false_iff, beq_eq_false_iff_ne]
      exact ⟨⟨hne (by decide), hne (by decide)⟩, hne (by decide)⟩
    rw [next, hquote, if_neg Bool.false_ne_true, if_neg (hne (by decide)), if_neg (hne (by decide))]
  | literal quote mode braces =>
    simp only [isSettled, Bool.and_eq_true, Bool.or_eq_true, beq_iff_eq] at hp
    obtain ⟨hquote, rfl⟩ := hp
    have hends : c ≠ quote ∧ quote ≠ '\x60' := by
      rcases hquote with rfl | rfl
      · exact ⟨hne (by decide), by decide⟩
      · exact ⟨hne (by decide), by decide⟩
    show within quote .plain braces c = _
    rw [within, if_neg (hne (by decide)), if_neg hends.1, if_neg hends.2,
      if_neg (not_or.2 ⟨hne (by decide), fun h => hne (by decide) h.1⟩)]

/-- **A name moves nothing**, in the code and in a literal. -/
theorem after_name {w : Text} (hw : IsNameText w) (hp : p.isSettled = true) : after p w = p := by
  induction w with
  | nil => rfl
  | cons c w ih =>
    have hc : isNameChar c = true := (hw c List.mem_cons_self).resolve_right List.not_mem_nil
    rw [after_cons, next_of_isNameChar hp hc, ih fun d hd => hw d (List.mem_cons_of_mem c hd)]

/-- The quotes a shown text is put between. Of the double quote it is not kept clear. -/
def IsShownQuote (quote : Char) : Prop :=
  quote = '\'' ∨ quote = '\x60'

variable {quote : Char} {mode : Mode} {braces : List Nat}

/-- **No character of a shown text ends its literal**, nor does it open a substitution. -/
theorem next_of_not_forbidden (hquote : IsShownQuote quote) (hmode : mode = .plain ∨ mode = .dollar)
    (hc : Text.isForbidden c = false) :
    ∃ mode', (mode' = .plain ∨ mode' = .dollar) ∧
      (literal quote mode braces).next c = literal quote mode' braces := by
  have hne : ∀ {d}, Text.isForbidden d = true → c ≠ d := by
    rintro d hd rfl
    rw [hd] at hc
    cases hc
  have hnext : (literal quote mode braces).next c = within quote mode braces c := by
    rcases hmode with rfl | rfl <;> rfl
  rw [hnext, within, if_neg (hne (by decide))]
  rcases hquote with rfl | rfl
  · rw [if_neg (hne (by decide)), if_neg (by decide),
      if_neg (not_or.2 ⟨hne (by decide), fun h => hne (by decide) h.1⟩)]
    exact ⟨.plain, .inl rfl, rfl⟩
  · rw [if_neg (hne (by decide)), if_pos rfl]
    split
    · exact ⟨.dollar, .inr rfl, rfl⟩
    · rw [if_neg fun h => hne (by decide) h.1]
      exact ⟨.plain, .inl rfl, rfl⟩

/-- **A shown text stays in its literal**, and is erased. -/
theorem after_shown (hquote : IsShownQuote quote) (hmode : mode = .plain ∨ mode = .dollar)
    (ht : t.isShown = true) :
    ∃ mode', (mode' = .plain ∨ mode' = .dollar) ∧
      after (literal quote mode braces) t = literal quote mode' braces ∧
      erased (literal quote mode braces) t = [] := by
  induction t generalizing mode with
  | nil => exact ⟨mode, hmode, rfl, rfl⟩
  | cons c t ih =>
    rw [Text.isShown, List.any_cons, Bool.not_or, Bool.and_eq_true, Bool.not_eq_true'] at ht
    obtain ⟨mode', hmode', hnext⟩ := next_of_not_forbidden hquote hmode ht.1
    obtain ⟨mode'', hmode'', hafter, herased⟩ := ih hmode' ht.2
    refine ⟨mode'', hmode'', by rw [after_cons, hnext, hafter], ?_⟩
    rw [erased, hnext, herased, List.append_nil, left, hnext]

/-- The quote ends the literal. -/
theorem next_quote (hquote : IsShownQuote quote) (hmode : mode = .plain ∨ mode = .dollar) :
    (literal quote mode braces).next quote = code braces ∧
      left (literal quote mode braces) quote = [quote] := by
  rcases hquote with rfl | rfl <;> rcases hmode with rfl | rfl <;> exact ⟨rfl, rfl⟩

/-- The quote begins it. -/
theorem next_code (hquote : IsShownQuote quote) :
    (code braces).next quote = literal quote .plain braces := by
  rcases hquote with rfl | rfl <;> rfl

/-- **A literal with a shown text in it is read as two quotes**: it leads back to the code, and
nothing else is left of it. -/
theorem after_quoted (hquote : IsShownQuote quote) (ht : t.isShown = true) (u : Text) :
    after (code braces) (quote :: (t ++ quote :: u)) = after (code braces) u ∧
      erased (code braces) (quote :: (t ++ quote :: u)) = quote :: quote :: erased (code braces) u := by
  obtain ⟨mode, hmode, hafter, herased⟩ :=
    after_shown hquote (.inl rfl) ht
  obtain ⟨hnext, hleft⟩ := next_quote hquote hmode
  constructor
  · rw [after_cons, next_code hquote, after_append, hafter, after_cons, hnext]
  · rw [erased, next_code hquote, erased_append, hafter, herased, List.nil_append, erased, hnext, hleft]
    rfl

/-- **A text leads from one place to another**, and no slash stands outside of its literals. -/
structure Reads (p : Place) (t : Text) (q : Place) : Prop where
  after_eq : after p t = q
  slash_not_mem : '/' ∉ erased p t

namespace Reads

variable {q r : Place}

instance (p : Place) (t : Text) (q : Place) : Decidable (Reads p t q) :=
  decidable_of_iff (after p t = q ∧ '/' ∉ erased p t) ⟨fun h => ⟨h.1, h.2⟩, fun h => ⟨h.1, h.2⟩⟩

theorem append (hs : Reads p s q) (ht : Reads q t r) : Reads p (s ++ t) r where
  after_eq := by rw [after_append, hs.after_eq, ht.after_eq]
  slash_not_mem := by
    rw [erased_append, hs.after_eq, List.mem_append, not_or]
    exact ⟨hs.slash_not_mem, ht.slash_not_mem⟩

theorem name {w : Text} (hp : p.isSettled = true) (hw : IsNameText w) : Reads p w p where
  after_eq := after_name hw hp
  slash_not_mem := fun h => by
    rcases mem_erased h with h | h
    · exact hw.not_mem (by decide) List.not_mem_nil h
    · exact absurd h (by decide)

/-- A name between two texts. -/
theorem through {w : Text} (hq : q.isSettled = true) (hw : IsNameText w) (hs : Reads p s q)
    (ht : Reads q t r) : Reads p (s ++ w ++ t) r :=
  (hs.append (.name hq hw)).append ht

/-- **A literal with a shown text in it.** -/
theorem quoted (hquote : IsShownQuote quote) (ht : t.isShown = true) {u : Text}
    (hu : Reads (code braces) u r) : Reads (code braces) (quote :: (t ++ quote :: u)) r where
  after_eq := (after_quoted hquote ht u).1.trans hu.after_eq
  slash_not_mem := by
    have hslash : '/' ≠ quote := by
      rcases hquote with rfl | rfl <;> decide
    rw [(after_quoted hquote ht u).2, List.mem_cons, List.mem_cons, not_or, not_or]
    exact ⟨hslash, hslash, hu.slash_not_mem⟩

end Reads

end Place

/-! ## What is asked of a written text -/

open Place Brace

/-- **A text is the content of a literal**: behind what stands in front of it the reader is in
the code, its quote opens a literal, the reader stays in that literal from one end of the text
to the other, and the quote behind it leads back to the code. -/
structure IsContent (front : Text) (quote : Char) (t : Text) : Prop where
  exists_code : ∃ braces, after start front = code braces ∧
    after start (front ++ quote :: (t ++ [quote])) = code braces
  inside : ∀ u, u <+: t → ∃ mode braces, after start (front ++ quote :: u) = literal quote mode braces

/-- Texts that pass the check of what is to be shown. -/
def AreAccepted {n : ℕ} (texts : Fin n → Text) : Prop :=
  ∀ i, ∃ what, checkShown what (texts i) = .ok ()

/-- **What is written from shown texts quotes them.** -/
structure Quotes {n : ℕ} (write : (Fin n → Text) → Text) : Prop where
  /-- No two choices of texts differ outside of literals. -/
  erased_eq : ∀ s t, AreAccepted s → AreAccepted t →
    erased start (write s) = erased start (write t)
  /-- Nor do they differ in their braces, inside of literals and outside. -/
  braces_eq : ∀ s t, AreAccepted s → AreAccepted t → braces (write s) = braces (write t)
  /-- Every literal is closed, and neither a comment begins outside of literals nor a regular
  expression. -/
  reads : ∀ s, AreAccepted s → Reads start (write s) start
  /-- Every text is the whole content of one literal. -/
  isContent : ∀ s i, AreAccepted s → ∃ front quote back,
    (∀ t, write (Function.update s i t) = front ++ quote :: (t ++ quote :: back)) ∧
      IsContent front quote (s i)

theorem checkShown_eq_ok_iff {what t : Text} {u : Unit} :
    checkShown what t = .ok u ↔ t.isShown = true := by
  unfold checkShown Text.isShown
  cases h : t.find? Text.isForbidden with
  | none =>
    refine iff_of_true rfl ?_
    rw [Bool.not_eq_true', List.any_eq_false]
    exact List.find?_eq_none.1 h
  | some c =>
    refine iff_of_false (by rintro ⟨⟩) ?_
    rw [Bool.not_eq_true', List.any_eq_false]
    exact fun hnone => hnone c (List.mem_of_find?_eq_some h) (List.find?_some h)

theorem areAccepted_iff {n : ℕ} {texts : Fin n → Text} :
    AreAccepted texts ↔ ∀ i, (texts i).isShown = true :=
  forall_congr' fun _ => ⟨fun ⟨_, h⟩ => checkShown_eq_ok_iff.1 h,
    fun h => ⟨[], checkShown_eq_ok_iff.2 h⟩⟩

/-! ## Texts that are fixed but for their literals -/

/-- **What stands before a shown text**: a text that is fixed, and the quote. -/
structure Hole where
  front : Text
  quote : Char

/-- **A text with shown texts in its literals.** -/
def fill : {n : ℕ} → (Fin n → Hole) → Text → (Fin n → Text) → Text
  | 0, _, last, _ => last
  | _ + 1, holes, last, texts =>
    (holes 0).front ++ (holes 0).quote ::
      (texts 0 ++ (holes 0).quote :: fill (fun i => holes i.succ) last fun i => texts i.succ)

/-- **The literal of a hole is opened in the code.** -/
structure Hole.IsPlain (hole : Hole) : Prop where
  reads : Reads start hole.front start
  isShownQuote : IsShownQuote hole.quote

/-- Shown texts have no braces. -/
theorem braces_of_isShown {t : Text} (ht : t.isShown = true) : braces t = [] :=
  braces_of_not_mem (Race.not_mem_of_isShown ht (by decide)) (Race.not_mem_of_isShown ht (by decide))

namespace Hole.IsPlain

variable {n : ℕ} {hole : Hole} {t : Text} (h : hole.IsPlain)

include h in
/-- A hole and its text lead back to the code. -/
theorem after_eq (ht : t.isShown = true) (u : Text) :
    after start (hole.front ++ hole.quote :: (t ++ hole.quote :: u)) = after start u := by
  rw [after_append, h.reads.after_eq]
  exact (after_quoted h.isShownQuote ht u).1

include h in
theorem erased_eq (ht : t.isShown = true) (u : Text) :
    erased start (hole.front ++ hole.quote :: (t ++ hole.quote :: u)) =
      erased start hole.front ++ hole.quote :: hole.quote :: erased start u := by
  rw [erased_append, h.reads.after_eq]
  exact congrArg _ (after_quoted h.isShownQuote ht u).2

include h in
theorem isContent (ht : t.isShown = true) : IsContent hole.front hole.quote t where
  exists_code := ⟨[], h.reads.after_eq, h.after_eq ht []⟩
  inside := by
    rintro u ⟨v, rfl⟩
    have hu : Text.isShown u = true := by
      rw [Text.isShown, List.any_append, Bool.not_or, Bool.and_eq_true] at ht
      exact ht.1
    obtain ⟨mode, _, hafter, _⟩ := after_shown h.isShownQuote (.inl rfl) hu
    refine ⟨mode, [], ?_⟩
    rw [after_append, h.reads.after_eq, after_cons, start, next_code h.isShownQuote, hafter]

include h in
theorem braces_eq (ht : t.isShown = true) (u : Text) :
    braces (hole.front ++ hole.quote :: (t ++ hole.quote :: u)) = braces hole.front ++ braces u := by
  have hquote : braces [hole.quote] = [] := by
    rcases h.isShownQuote with hq | hq <;> rw [hq] <;> rfl
  have hcons : ∀ u, braces (hole.quote :: u) = braces u := fun u => by
    rw [← List.singleton_append, braces_append, hquote, List.nil_append]
  rw [braces_append, hcons, braces_append, braces_of_isShown ht, hcons, List.nil_append]

end Hole.IsPlain

/-- What is a content stays one behind a text that leads back to the code. -/
theorem IsContent.behind {x front t : Text} {quote : Char} (h : IsContent front quote t)
    (hx : ∀ u, after start (x ++ u) = after start u) : IsContent (x ++ front) quote t where
  exists_code := by
    obtain ⟨braces, hfront, hclosed⟩ := h.exists_code
    exact ⟨braces, by rw [hx, hfront], by rw [List.append_assoc, hx, hclosed]⟩
  inside := fun u hu => by
    rw [List.append_assoc, hx]
    exact h.inside u hu

section Fill

variable {n : ℕ} {last : Text}

theorem after_fill_cons {holes : Fin (n + 1) → Hole} (h : (holes 0).IsPlain)
    {texts : Fin (n + 1) → Text} (htexts : (texts 0).isShown = true) (u : Text) :
    after start ((holes 0).front ++ (holes 0).quote :: (texts 0 ++ [(holes 0).quote]) ++ u) =
      after start u := by
  rw [← h.after_eq htexts u]
  simp

theorem erased_fill_eq {holes : Fin n → Hole} (hholes : ∀ i, (holes i).IsPlain)
    {s t : Fin n → Text} (hs : ∀ i, (s i).isShown = true) (ht : ∀ i, (t i).isShown = true) :
    erased start (fill holes last s) = erased start (fill holes last t) := by
  induction n with
  | zero => rfl
  | succ n ih =>
    rw [fill, fill, (hholes 0).erased_eq (hs 0), (hholes 0).erased_eq (ht 0),
      ih (fun i => hholes i.succ) (fun i => hs i.succ) fun i => ht i.succ]

theorem braces_fill_eq {holes : Fin n → Hole} (hholes : ∀ i, (holes i).IsPlain)
    {s t : Fin n → Text} (hs : ∀ i, (s i).isShown = true) (ht : ∀ i, (t i).isShown = true) :
    braces (fill holes last s) = braces (fill holes last t) := by
  induction n with
  | zero => rfl
  | succ n ih =>
    rw [fill, fill, (hholes 0).braces_eq (hs 0), (hholes 0).braces_eq (ht 0),
      ih (fun i => hholes i.succ) (fun i => hs i.succ) fun i => ht i.succ]

/-- The whole is read back to the code. -/
theorem reads_fill {holes : Fin n → Hole} (hholes : ∀ i, (holes i).IsPlain)
    (hlast : Reads start last start) {s : Fin n → Text} (hs : ∀ i, (s i).isShown = true) :
    Reads start (fill holes last s) start := by
  induction n with
  | zero => exact hlast
  | succ n ih =>
    have hrest := ih (fun i => hholes i.succ) fun i => hs i.succ
    exact (hholes 0).reads.append (hrest.quoted (hholes 0).isShownQuote (hs 0))

/-- **Every text is the content of a literal**, at a place that does not depend on it. -/
theorem isContent_fill {holes : Fin n → Hole} (hholes : ∀ i, (holes i).IsPlain)
    {s : Fin n → Text} (hs : ∀ i, (s i).isShown = true) (i : Fin n) :
    ∃ front quote back,
      (∀ t, fill holes last (Function.update s i t) = front ++ quote :: (t ++ quote :: back)) ∧
        IsContent front quote (s i) := by
  induction n with
  | zero => exact i.elim0
  | succ n ih =>
    cases i using Fin.cases with
    | zero =>
      have htail : ∀ t, (fun i : Fin n => Function.update s 0 t i.succ) = fun i => s i.succ :=
        fun t => Fin.tail_update_zero s t
      refine ⟨(holes 0).front, (holes 0).quote, fill (fun i => holes i.succ) last fun i => s i.succ,
        fun t => ?_, (hholes 0).isContent (hs 0)⟩
      rw [fill, htail, Function.update_self]
    | succ i =>
      obtain ⟨front, quote, back, hfill, hcontent⟩ :=
        ih (fun i => hholes i.succ) (fun i => hs i.succ) i
      refine ⟨(holes 0).front ++ (holes 0).quote :: (s 0 ++ [(holes 0).quote]) ++ front, quote, back,
        fun t => ?_, hcontent.behind (after_fill_cons (hholes 0) (hs 0))⟩
      have htail : (fun j : Fin n => Function.update s i.succ t j.succ) =
          Function.update (fun j => s j.succ) i t := Fin.tail_update_succ s i t
      rw [fill, htail, hfill, Function.update_of_ne (Fin.succ_ne_zero i).symm]
      simp

end Fill

/-- **A text that is fixed but for its literals quotes what is put into them.** -/
theorem quotes_fill {n : ℕ} {holes : Fin n → Hole} {last : Text} (hholes : ∀ i, (holes i).IsPlain)
    (hlast : Reads start last start) : Quotes (fill holes last) where
  erased_eq := fun _ _ hs ht => erased_fill_eq hholes (areAccepted_iff.1 hs) (areAccepted_iff.1 ht)
  braces_eq := fun _ _ hs ht => braces_fill_eq hholes (areAccepted_iff.1 hs) (areAccepted_iff.1 ht)
  reads := fun _ hs => reads_fill hholes hlast (areAccepted_iff.1 hs)
  isContent := fun _ i hs => isContent_fill hholes (areAccepted_iff.1 hs) i

end Template

end Fabula
