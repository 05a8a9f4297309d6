import Mathlib.Data.List.Infix
import Fabula.Proofs.Patch.Container

/-!
# What locating answers

A container is found by reading a header and then a body, one level of braces at a time; only
when that fails are the braces counted, for the message. This module says what the two come to
without either of them: by the positions of headers in the source, and by the depth of the
braces behind the first one. There is one verdict on every source (`Container.Verdict`), and
locating answers with it (`Container.locate_exact`).

## Counting

Counting is the specification, so `Brace.climb` counts on the text alone: the opening braces of
a text less its closing ones. A body closes when it leads from one level deep to one level deep
and nothing that it begins with leads out before (`Brace.Closes`). There is at most one such
body, because of two of them the longer one would begin with the shorter one and the brace
behind that, which leads out (`Brace.Closes.unique`). Hence the reading of a body and the search
for the deepest level stop at the same brace. The former is a count that refuses to go deeper
than two (`Brace.isBalanced_iff`), the latter one that has no such bound
(`Brace.deepest?_eq_some_iff`).

## The verdict

It is one of four. No header is in the source, and the container is missing. Or the body behind
the first header closes, and nothing in it is deeper than two: the container is found, with its
span. Or it closes after having gone deeper, and the error tells how deep. Or it never closes.
The first header decides in each case. A header behind it is not used instead when the first one
fails, and the verdict says so, as it speaks of the first header only.

That locating answers with a verdict is a case distinction along the definition. That it answers
with *the* verdict needs that there is only one, which in each case is the uniqueness of the
first header, of the body that closes, or of the greatest depth. So the two are equivalent, and
a statement about locating may be read off the text.

## Engines

Two searches are made, one for a header and one for the whole container from the first header
on. If neither is given up the verdict is the answer, and otherwise the answer is the error that
says so and no verdict at all (`Container.completes_locate_iff`).
-/

namespace Fabula

open scoped Engine.Tireless

namespace Brace

/-! ## Counting braces -/

/-- **How much deeper a text leads**: its opening braces less its closing ones. -/
def climb (t : Text) : Int :=
  t.count '{' - t.count '}'

@[simp] theorem climb_nil : climb [] = 0 := rfl

@[simp] theorem climb_append (s t : Text) : climb (s ++ t) = climb s + climb t := by
  simp only [climb, List.count_append, Int.natCast_add]
  omega

theorem climb_cons (c : Char) (t : Text) : climb (c :: t) = climb [c] + climb t :=
  climb_append [c] t

theorem climb_open : climb ['{'] = 1 := by decide

theorem climb_close : climb ['}'] = -1 := by decide

theorem climb_other {c : Char} (ho : c ≠ '{') (hc : c ≠ '}') : climb [c] = 0 := by
  simp [climb, ho, hc]

/-- **A body closes**, from a place that is `n` levels deep: it leads one level deep,
where a closing brace leads out, and nothing it begins with leads out before. -/
structure Closes (n : Int) (body : Text) : Prop where
  level : n + climb body = 1
  inside : ∀ x, x <+: body → 1 ≤ n + climb x

/-- **No place in a body is deeper** than `m`. -/
def IsWithin (n m : Int) (body : Text) : Prop :=
  ∀ x, x <+: body → n + climb x ≤ m

variable {n m : Int} {c : Char} {t body body' rest rest' : Text}

theorem forall_prefix_cons {p : Int → Prop} :
    (∀ x, x <+: c :: t → p (n + climb x)) ↔
      p n ∧ ∀ x, x <+: t → p (n + climb [c] + climb x) := by
  constructor
  · intro h
    refine ⟨by simpa using h [] (List.nil_prefix), fun x hx => ?_⟩
    have hcons := h (c :: x) (List.cons_prefix_cons.2 ⟨rfl, hx⟩)
    rwa [climb_cons, ← Int.add_assoc] at hcons
  · rintro ⟨hn, h⟩ x hx
    rcases List.prefix_cons_iff.1 hx with rfl | ⟨y, rfl, hy⟩
    · simpa using hn
    · rw [climb_cons, ← Int.add_assoc]
      exact h y hy

theorem closes_nil_iff : Closes n [] ↔ n = 1 := by
  constructor
  · intro h
    simpa using h.level
  · rintro rfl
    refine ⟨rfl, fun x hx => ?_⟩
    rw [List.prefix_nil.1 hx]
    decide

theorem closes_cons_iff : Closes n (c :: t) ↔ 1 ≤ n ∧ Closes (n + climb [c]) t := by
  have hlevel : n + climb (c :: t) = n + climb [c] + climb t := by
    rw [climb_cons, Int.add_assoc]
  constructor
  · rintro ⟨hl, hi⟩
    obtain ⟨hn, ht⟩ := forall_prefix_cons.1 hi
    exact ⟨hn, hlevel ▸ hl, ht⟩
  · rintro ⟨hn, hl, ht⟩
    exact ⟨hlevel.trans hl, forall_prefix_cons.2 ⟨hn, ht⟩⟩

theorem isWithin_nil_iff : IsWithin n m [] ↔ n ≤ m := by
  constructor
  · intro h
    simpa using h [] List.nil_prefix
  · intro h x hx
    rw [List.prefix_nil.1 hx, climb_nil]
    omega

theorem isWithin_cons_iff : IsWithin n m (c :: t) ↔ n ≤ m ∧ IsWithin (n + climb [c]) m t :=
  forall_prefix_cons (p := (· ≤ m))

theorem Closes.one_le (h : Closes n body) : 1 ≤ n := by
  simpa using h.inside [] List.nil_prefix

/-- **A text closes at one place**: what a body that closes begins with, and a closing
brace, lead out of it. -/
theorem Closes.unique (h : Closes n body) (h' : Closes n body')
    (heq : body ++ '}' :: rest = body' ++ '}' :: rest') : body = body' := by
  have hlonger : ∀ {b b' z : Text}, Closes n b → Closes n b' → b' = b ++ '}' :: z → False := by
    rintro b b' z hb hb' rfl
    have hout := hb'.inside (b ++ ['}']) ⟨z, by simp⟩
    rw [climb_append, climb_close] at hout
    have := hb.level
    omega
  rcases List.append_eq_append_iff.1 heq with ⟨z, hz, hrest⟩ | ⟨z, hz, hrest⟩
  all_goals
    cases z with
    | nil => simp_all
    | cons d z =>
      obtain ⟨rfl, _⟩ := List.cons.inj hrest
      first
        | exact (hlonger h h' hz).elim
        | exact (hlonger h' h hz).elim

/-! ## Reading a body -/

/-- How deep the places are that a body is read at. -/
def level (inner : Bool) : Int :=
  if inner then 2 else 1

theorem not_closes_zero : ¬Closes 0 t := by
  intro h
  have := h.one_le
  omega

theorem not_isWithin (h : m < n) : ¬IsWithin n m t := by
  intro ht
  have := ht [] List.nil_prefix
  rw [climb_nil] at this
  omega

/-- **Reading a body counts as far as two.** -/
theorem after?_eq_some_false_iff (inner : Bool) :
    after? inner t = some false ↔ Closes (level inner) t ∧ IsWithin (level inner) 2 t := by
  induction t generalizing inner with
  | nil =>
    rw [closes_nil_iff, isWithin_nil_iff]
    cases inner <;> decide
  | cons c t ih =>
    rw [after?, closes_cons_iff, isWithin_cons_iff]
    split_ifs with hopen hinner hclose hinner
    · -- a brace inside the braces of an entry is one level too many
      subst hopen hinner
      rw [climb_open]
      exact iff_of_false (by simp) fun h => not_isWithin (by decide) h.2.2
    · obtain rfl := Bool.eq_false_iff.2 hinner
      subst hopen
      rw [ih true, climb_open]
      simp [level]
    · subst hclose hinner
      rw [ih false, climb_close]
      simp [level]
    · obtain rfl := Bool.eq_false_iff.2 hinner
      subst hclose
      rw [climb_close]
      exact iff_of_false (by simp) fun h => not_closes_zero h.1.2
    · rw [ih inner, climb_other hopen hclose, Int.add_zero]
      cases inner <;> simp [level]

/-- **A balanced body is one that closes and is two levels deep at most.** -/
theorem isBalanced_iff : IsBalanced t ↔ Closes 1 t ∧ IsWithin 1 2 t :=
  after?_eq_some_false_iff false

/-! ## The deepest level -/

/-- **The deepest level of a body**, from a place that is `n` levels deep, or else
`least` levels. -/
structure IsPeak (n : Int) (least : Nat) (body : Text) (d : Nat) : Prop where
  least_le : least ≤ d
  within : IsWithin n d body
  reached : d = least ∨ ∃ x, x <+: body ∧ n + climb x = d

theorem isPeak_cons_iff {least d : Nat} (h : n ≤ least) :
    IsPeak n least (c :: t) d ↔ IsPeak (n + climb [c]) (max least (n + climb [c]).toNat) t d := by
  have hcases : ∀ d : Int, (∃ x, x <+: c :: t ∧ n + climb x = d) ↔
      n = d ∨ ∃ x, x <+: t ∧ n + climb [c] + climb x = d := by
    intro d
    have hall := forall_prefix_cons (n := n) (c := c) (t := t) (p := (· ≠ d))
    rw [← not_iff_not, not_exists, not_or, not_exists]
    simp only [not_and]
    exact hall
  constructor
  · rintro ⟨hleast, hwithin, hreached⟩
    obtain ⟨hn, ht⟩ := isWithin_cons_iff.1 hwithin
    have hfirst := ht [] List.nil_prefix
    rw [climb_nil] at hfirst
    refine ⟨by omega, ht, ?_⟩
    rw [hcases] at hreached
    rcases hreached with hd | hd | hd
    · exact .inl (by omega)
    · exact .inl (by omega)
    · exact .inr hd
  · rintro ⟨hleast, hwithin, hreached⟩
    refine ⟨by omega, isWithin_cons_iff.2 ⟨by omega, hwithin⟩, ?_⟩
    rw [hcases]
    rcases hreached with hd | hd
    · by_cases hleast : d = least
      · exact .inl hleast
      · exact .inr (.inr ⟨[], List.nil_prefix, by rw [climb_nil]; omega⟩)
    · exact .inr (.inr hd)

theorem isPeak_nil_iff {least d : Nat} (h : n ≤ least) : IsPeak n least [] d ↔ d = least := by
  constructor
  · rintro ⟨hleast, _, hd | ⟨x, hx, hd⟩⟩
    · exact hd
    · rw [List.prefix_nil.1 hx, climb_nil] at hd
      omega
  · rintro rfl
    exact ⟨Nat.le_refl _, isWithin_nil_iff.2 h, .inl rfl⟩

theorem exists_isPeak {least : Nat} (h : n ≤ least) (t : Text) : ∃ d, IsPeak n least t d := by
  induction t generalizing n least with
  | nil => exact ⟨least, (isPeak_nil_iff h).2 rfl⟩
  | cons c t ih =>
    have hle : n + climb [c] ≤ (max least (n + climb [c]).toNat : Nat) := by omega
    obtain ⟨d, hd⟩ := ih hle
    exact ⟨d, (isPeak_cons_iff h).2 hd⟩

/-- **What the search for the deepest level finds**: the peak of a body that closes. -/
theorem deepest?_eq_some_iff {depth least d : Nat} (h : 1 ≤ depth) (hleast : depth ≤ least) :
    deepest? depth least t = some d ↔
      ∃ body rest, t = body ++ '}' :: rest ∧ Closes depth body ∧ IsPeak depth least body d := by
  induction t generalizing depth least with
  | nil =>
    refine iff_of_false (by simp [deepest?]) ?_
    rintro ⟨body, rest, heq, _⟩
    exact absurd heq.symm (by simp)
  | cons c t ih =>
    -- a body behind the first character, seen from in front of it
    have hcons : ∀ {m : Nat}, (m : Int) = depth + climb [c] → (c = '}' → depth ≠ 1) →
        ((∃ body rest, t = body ++ '}' :: rest ∧ Closes m body ∧ IsPeak m (max least m) body d) ↔
          ∃ body rest, c :: t = body ++ '}' :: rest ∧ Closes depth body ∧
            IsPeak depth least body d) := by
      intro m hm hne
      have hpeak : ∀ body, IsPeak m (max least m) body d ↔ IsPeak depth least (c :: body) d := by
        intro body
        rw [isPeak_cons_iff (by omega), ← hm, Int.toNat_natCast]
      constructor
      · rintro ⟨body, rest, rfl, hcloses, hbody⟩
        exact ⟨c :: body, rest, rfl, closes_cons_iff.2 ⟨by omega, hm ▸ hcloses⟩, (hpeak body).1 hbody⟩
      · rintro ⟨body, rest, heq, hcloses, hbody⟩
        cases body with
        | nil =>
          obtain ⟨rfl, _⟩ := List.cons.inj heq
          have := hcloses.level
          rw [climb_nil] at this
          exact absurd (by omega) (hne rfl)
        | cons e body =>
          obtain ⟨rfl, rfl⟩ := List.cons.inj heq
          exact ⟨body, rest, rfl, hm ▸ (closes_cons_iff.1 hcloses).2, (hpeak body).2 hbody⟩
    rw [deepest?]
    split_ifs with hopen hclose hone
    · subst hopen
      rw [ih (by omega) (by omega)]
      exact hcons (by rw [climb_open]; omega) fun h => absurd h (by decide)
    · subst hclose hone
      rw [Option.some.injEq]
      constructor
      · rintro rfl
        exact ⟨[], t, rfl, closes_nil_iff.2 rfl, (isPeak_nil_iff (by exact_mod_cast hleast)).2 rfl⟩
      · rintro ⟨body, rest, heq, hcloses, hbody⟩
        have hnil : '}' :: t = [] ++ '}' :: t := rfl
        obtain rfl := hcloses.unique (closes_nil_iff.2 rfl) (heq.symm.trans hnil)
        exact ((isPeak_nil_iff (by exact_mod_cast hleast)).1 hbody).symm
    · subst hclose
      have hmax : max least (depth - 1) = least := by omega
      rw [ih (by omega) (by omega)]
      conv_lhs => rw [← hmax]
      exact hcons (by rw [climb_close]; omega) fun _ => hone
    · have hmax : max least depth = least := by omega
      rw [ih h hleast]
      conv_lhs => rw [← hmax]
      exact hcons (by rw [climb_other hopen hclose]; omega) fun h => absurd h hclose

variable {x : Text} {d : Nat}

/-- A body that closes and goes no deeper than two is read. -/
theorem body?_of_closes (h : Closes 1 body) (hwithin : IsWithin 1 2 body) (rest : Text) :
    body? false (body ++ '}' :: rest) = some (body, rest) :=
  body?_of_after? (isBalanced_iff.2 ⟨h, hwithin⟩) rest

/-- A body that goes deeper is not. -/
theorem body?_of_deep (h : Closes 1 body) (hx : x <+: body) (hdeep : 2 < 1 + climb x)
    (rest : Text) : body? false (body ++ '}' :: rest) = none := by
  rw [Option.eq_none_iff_forall_ne_some]
  rintro ⟨body', rest'⟩ hsome
  obtain ⟨heq, hbalanced⟩ := body?_eq_some_iff.1 hsome
  obtain ⟨hcloses, hwithin⟩ := isBalanced_iff.1 hbalanced
  obtain rfl := h.unique hcloses heq
  have := hwithin x hx
  omega

/-- A text in which no body closes has none that is read. -/
theorem body?_of_open (h : ∀ body rest, t = body ++ '}' :: rest → ¬Closes 1 body) :
    body? false t = none := by
  rw [Option.eq_none_iff_forall_ne_some]
  rintro ⟨body, rest⟩ hsome
  obtain ⟨rfl, hbalanced⟩ := body?_eq_some_iff.1 hsome
  exact h body rest rfl (isBalanced_iff.1 hbalanced).1

/-- **The diagnosis of a body that goes too deep** tells how deep it goes. -/
theorem diagnose_of_deep (h : Closes 1 body) (hpeak : IsPeak 1 1 body d) (rest : Text) :
    diagnose (body ++ '}' :: rest) = .tooDeep (d - 1) := by
  unfold diagnose
  rw [(deepest?_eq_some_iff (by decide) (by decide)).2 ⟨body, rest, rfl, h, hpeak⟩]

/-- **The diagnosis of a body that does not close.** -/
theorem diagnose_of_open (h : ∀ body rest, t = body ++ '}' :: rest → ¬Closes 1 body) :
    diagnose t = .unclosed := by
  have hnone : deepest? 1 1 t = none := by
    rw [Option.eq_none_iff_forall_ne_some]
    intro d hsome
    obtain ⟨body, rest, heq, hcloses, _⟩ := (deepest?_eq_some_iff (by decide) (by decide)).1 hsome
    exact h body rest heq hcloses
  unfold diagnose
  rw [hnone]

end Brace

namespace ContainerKind

/-! ## The first header -/

/-- **A header stands in a text**, behind `front` and in front of `behind`, and does
not begin in the middle of a longer name. -/
structure HeaderAt (kind : ContainerKind) (name source front header behind : Text) : Prop where
  source_eq : source = front ++ (header ++ behind)
  free : continuesName front.getLast? = false
  is_header : kind.IsHeader name header

/-- **The first header of a text**: no other one begins before it. -/
structure IsFirstHeader (kind : ContainerKind) (name source front header behind : Text) : Prop
    extends HeaderAt kind name source front header behind where
  first : ∀ front' header' behind', kind.HeaderAt name source front' header' behind' →
    front.length ≤ front'.length

variable {kind : ContainerKind} {name source front header behind rest : Text}

/-- A search for headers passes over what no header begins in. -/
theorem misses_iff_first (h : source = front ++ rest) :
    Text.Misses (kind.headerAt? name) none front rest ↔
      ∀ front' header' behind', kind.HeaderAt name source front' header' behind' →
        front.length ≤ front'.length := by
  rw [Text.misses_iff]
  constructor
  · rintro hmiss front' header' behind' ⟨heq, hfree, hheader⟩
    by_contra hlt
    obtain ⟨z, hz, hrest⟩ | ⟨z, hz, hrest⟩ := List.append_eq_append_iff.1 (h.symm.trans heq)
    · rw [hz, List.length_append] at hlt
      omega
    · cases z with
      | nil =>
        rw [hz, List.length_append, List.length_nil] at hlt
        omega
      | cons c z =>
        have hnone := hmiss front' c z hz
        rw [Text.lastOr_none, ← hrest, headerAt?_eq_some_iff.2 ⟨hfree, hheader, rfl⟩] at hnone
        cases hnone
  · intro hfirst x c y hfront
    rw [Option.eq_none_iff_forall_ne_some]
    rintro ⟨header', behind'⟩ hsome
    obtain ⟨hfree, hheader, heq⟩ := headerAt?_eq_some_iff.1 hsome
    rw [Text.lastOr_none] at hfree
    have hlen := hfirst x header' behind'
      ⟨by rw [h, hfront, List.append_assoc, heq], hfree, hheader⟩
    rw [hfront, List.length_append, List.length_cons] at hlen
    omega

/-- **A search for headers finds the first one.** -/
theorem search?_eq_some_iff_first :
    Text.search? (kind.headerAt? name) none source = some (front, header, behind) ↔
      kind.IsFirstHeader name source front header behind := by
  rw [Text.search?_eq_some_iff]
  constructor
  · rintro ⟨rest, hsource, hm, hmiss⟩
    rw [Text.lastOr_none] at hm
    obtain ⟨hfree, hheader, rfl⟩ := headerAt?_eq_some_iff.1 hm
    exact ⟨⟨hsource, hfree, hheader⟩, (misses_iff_first hsource).1 hmiss⟩
  · rintro ⟨⟨hsource, hfree, hheader⟩, hfirst⟩
    refine ⟨header ++ behind, hsource, ?_, (misses_iff_first hsource).2 hfirst⟩
    rw [Text.lastOr_none]
    exact headerAt?_eq_some_iff.2 ⟨hfree, hheader, rfl⟩

/-- **A search for headers fails** where there is none. -/
theorem search?_eq_none_iff_first :
    Text.search? (kind.headerAt? name) none source = none ↔
      ∀ front header behind, ¬kind.HeaderAt name source front header behind := by
  have hshort : ∀ {front header behind}, kind.HeaderAt name source front header behind →
      front.length < source.length := by
    rintro front header behind ⟨heq, _, hheader⟩
    have hpos := List.length_pos_of_ne_nil hheader.ne_nil
    rw [heq, List.length_append, List.length_append]
    omega
  rw [Text.search?_eq_none_iff, misses_iff_first (List.append_nil source).symm]
  constructor
  · rintro ⟨hfirst, _⟩ front header behind hat
    exact absurd (hfirst front header behind hat) (Nat.not_le.2 (hshort hat))
  · intro hnone
    refine ⟨fun front header behind hat => absurd hat (hnone front header behind), ?_⟩
    rw [Option.eq_none_iff_forall_ne_some]
    rintro ⟨header, behind⟩ hsome
    obtain ⟨_, hheader, heq⟩ := headerAt?_eq_some_iff.1 hsome
    exact hheader.ne_nil (List.append_eq_nil_iff.1 heq.symm).1

end ContainerKind

namespace Container

/-! ## The verdict -/

/-- **What a source comes to**, for a name and a kind, told by the headers in it and by
the depth of the braces behind the first one: that is one at its opening brace. -/
inductive Verdict (kind : ContainerKind) (name source : Text) : Except PatchError Container → Prop
  /-- There is no header. -/
  | missing (none_at : ∀ front header behind, ¬kind.HeaderAt name source front header behind) :
      Verdict kind name source (.error (.containerNotFound name))
  /-- The depth returns to zero and is two at most. The container reaches from the
  first header through the brace that closes it. -/
  | found {c : Container} (kind_eq : c.kind = kind) (name_eq : c.name = name)
      (first : kind.IsFirstHeader name source c.front c.header (c.body ++ '}' :: c.rest))
      (closes : Brace.Closes 1 c.body) (within : Brace.IsWithin 1 2 c.body)
      (written : source = c.front ++ (c.written ++ c.rest))
      (start : c.start = c.front.byteSize)
      (stop : c.stop = (c.front ++ (c.header ++ c.body)).byteSize + 1) :
      Verdict kind name source (.ok c)
  /-- The depth returns to zero from a maximum of three or more. -/
  | deep {front header body rest : Text} {d : Nat}
      (first : kind.IsFirstHeader name source front header (body ++ '}' :: rest))
      (closes : Brace.Closes 1 body) (within : Brace.IsWithin 1 d body)
      (reached : ∃ x, x <+: body ∧ 1 + Brace.climb x = d) (too_deep : 3 ≤ d) :
      Verdict kind name source (.error (.malformedContainer name (.tooDeep (d - 1))))
  /-- The depth never returns to zero. -/
  | unclosed {front header behind : Text}
      (first : kind.IsFirstHeader name source front header behind)
      (never : ∀ body rest, behind = body ++ '}' :: rest → ¬Brace.Closes 1 body) :
      Verdict kind name source (.error (.malformedContainer name .unclosed))

variable {kind : ContainerKind} {name source : Text} {answer : Except PatchError Container}

/-- **Locating answers with a verdict.** -/
theorem verdict_locate (kind : ContainerKind) (name source : Text) :
    Verdict kind name source (locate kind name source) := by
  rw [locate_tireless]
  split
  · rename_i hnone
    exact .missing (ContainerKind.search?_eq_none_iff_first.1 hnone)
  rename_i front header behind hsome
  have hfirst := ContainerKind.search?_eq_some_iff_first.1 hsome
  split
  · rename_i hbody
    unfold Brace.diagnose
    split
    · rename_i d hd
      obtain ⟨body, rest, rfl, hcloses, hpeak⟩ :=
        (Brace.deepest?_eq_some_iff (by decide) (by decide)).1 hd
      have hdeep : 3 ≤ d := by
        by_contra hlt
        have hwithin : Brace.IsWithin 1 2 body := fun x hx => by
          have := hpeak.within x hx
          omega
        rw [Brace.body?_of_closes hcloses hwithin] at hbody
        cases hbody
      exact .deep hfirst hcloses hpeak.within (hpeak.reached.resolve_left (by omega)) hdeep
    · rename_i hnone
      refine .unclosed hfirst fun body rest hbehind hcloses => ?_
      have hone : (1 : Int) ≤ (1 : Nat) := by decide
      obtain ⟨d, hpeak⟩ := Brace.exists_isPeak hone body
      have hsome := (Brace.deepest?_eq_some_iff (by decide) (by decide)).2
        ⟨body, rest, hbehind, hcloses, hpeak⟩
      rw [hnone] at hsome
      cases hsome
  · rename_i body rest hbody
    obtain ⟨rfl, hbalanced⟩ := Brace.body?_eq_some_iff.1 hbody
    obtain ⟨hcloses, hwithin⟩ := Brace.isBalanced_iff.1 hbalanced
    refine .found rfl rfl hfirst hcloses hwithin ?_ rfl ?_
    · simpa [written] using hfirst.source_eq
    · have hbrace : Text.byteSize ['}'] = 1 := by decide
      simp only [stop, start, written, Text.byteSize_append, hbrace]
      omega

/-- A source has one verdict, and the tireless engine answers with it. -/
theorem locate_eq_iff : locate kind name source = answer ↔ Verdict kind name source answer := by
  constructor
  · rintro rfl
    exact verdict_locate kind name source
  · intro h
    rw [locate_tireless]
    cases h with
    | missing hnone => rw [ContainerKind.search?_eq_none_iff_first.2 hnone]
    | found hkind hname hfirst hcloses hwithin =>
      subst hkind hname
      rw [ContainerKind.search?_eq_some_iff_first.2 hfirst]
      dsimp only
      rw [Brace.body?_of_closes hcloses hwithin]
    | deep hfirst hcloses hwithin hreached hdeep =>
      obtain ⟨x, hx, hd⟩ := hreached
      rw [ContainerKind.search?_eq_some_iff_first.2 hfirst]
      dsimp only
      rw [Brace.body?_of_deep hcloses hx (by omega),
        Brace.diagnose_of_deep hcloses ⟨by omega, hwithin, .inr ⟨x, hx, hd⟩⟩]
    | unclosed hfirst hnever =>
      rw [ContainerKind.search?_eq_some_iff_first.2 hfirst]
      dsimp only
      rw [Brace.body?_of_open hnever, Brace.diagnose_of_open hnever]

/-! ## Any engine -/

/-- **No search for the container is given up**: not the one for its header, and not the one
for the whole container from the first header on. -/
structure Searchable [Engine] (kind : ContainerKind) (name source : Text) : Prop where
  header : Engine.givesUp? (.header kind name) source 0 = none
  container : ∀ front header behind, kind.IsFirstHeader name source front header behind →
    Engine.givesUp? (.container kind name) source front.byteSize = none

/-- **Locating completes** where its searches do: a search that is given up is not taken for
one that found nothing. -/
theorem completes_locate_iff [Engine] :
    Completes (locate kind name source) ↔ Searchable kind name source := by
  have hsearchable : Searchable kind name source ↔
      Engine.givesUp? (.header kind name) source 0 = none ∧
        ∀ front header behind, kind.IsFirstHeader name source front header behind →
          Engine.givesUp? (.container kind name) source front.byteSize = none :=
    ⟨fun h => ⟨h.header, h.container⟩, fun h => ⟨h.1, h.2⟩⟩
  unfold locate
  rw [hsearchable, Engine.completes_then_iff]
  refine and_congr_right fun _ => ?_
  cases hs : Text.search? (kind.headerAt? name) none source with
  | none =>
    have hnone := ContainerKind.search?_eq_none_iff_first.1 hs
    exact iff_of_true (completes_error rfl) fun front header behind hfirst =>
      absurd hfirst.toHeaderAt (hnone front header behind)
  | some found =>
    obtain ⟨front, header, behind⟩ := found
    have hfirst := ContainerKind.search?_eq_some_iff_first.1 hs
    dsimp only
    rw [Engine.completes_then_iff, and_iff_left]
    · refine ⟨fun h front' header' behind' hfirst' => ?_, fun h => h front header behind hfirst⟩
      -- there is one first header
      rw [ContainerKind.search?_eq_some_iff_first.2 hfirst'] at hs
      obtain ⟨rfl, _⟩ := Prod.mk.inj (Option.some.inj hs)
      exact h
    · split
      · exact completes_error rfl
      · exact completes_of_eq_ok rfl

/-- **Locating is exact**: where its searches are not given up, a source has one verdict, and
it is the answer. -/
theorem locate_exact [Engine] (h : Searchable kind name source) :
    locate kind name source = answer ↔ Verdict kind name source answer := by
  rw [(isSteady_locate kind name source).eq (completes_locate_iff.2 h)]
  exact locate_eq_iff

/-- The first container is too deep, and the second one is not used instead. -/
theorem locate_exact_deep :
    Searchable .property "x".toList "x: \x7b a: \x7b b: \x7b\x7d \x7d \x7d, x: \x7b\x7d".toList ∧
      Verdict .property "x".toList "x: \x7b a: \x7b b: \x7b\x7d \x7d \x7d, x: \x7b\x7d".toList
        (.error (.malformedContainer "x".toList (.tooDeep 2))) := by
  have hsearch : Searchable .property "x".toList
      "x: \x7b a: \x7b b: \x7b\x7d \x7d \x7d, x: \x7b\x7d".toList :=
    ⟨rfl, fun _ _ _ _ => rfl⟩
  exact ⟨hsearch, (locate_exact hsearch).1 (by decide +kernel)⟩

end Container

end Fabula
