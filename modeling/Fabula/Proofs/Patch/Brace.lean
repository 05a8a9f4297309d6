import Fabula.Patch.Brace
import Fabula.Proofs.Text.Scan

/-!
# Balanced braces, one level deep

A container is found with its body, and the body ends at the brace that closes it. The reading
of a body (`Brace.body?`) allows for braces one level deep in it and stops at the first closing
brace outside of them. Edits put bodies together from old entries and new ones, so the question
is when a text that was put together is read as a body again, and this question has to be
answered from the parts.

Whether a text may stand in a body depends on the text alone. Read from between the entries, it
has to lead back there, without a brace in it that does not fit. `Brace.after?` follows the
reading of a text from either of the two places, between the entries or inside one, and says
where it leads. It composes: where two texts lead, one behind the other, is where the second one
leads from where the first one leads to (`Brace.after?_append`). So balanced texts put together
are balanced, a text without braces is balanced, and so is one in a pair of braces.

What a body is follows at once: a balanced text in front of a closing brace
(`Brace.body?_eq_some_iff`). In one direction the reading of the body is the text's own, and the
brace behind it is the first that does not fit. In the other, what was read leads back between
the entries, because the brace that ended it was met there.

Since every character but the braces leads nowhere else, a text is balanced if and only if its
braces are (`Brace.after?_braces`). Two texts with the same braces in the same order may take
each other's place, be they indented differently or trimmed.
-/

namespace Fabula

namespace Brace

/-- **Where a text leads**, read from between the entries (`false`) or from
inside the braces of one (`true`); nothing when a brace does not fit there. -/
def after? : Bool → Text → Option Bool
  | inner, [] => some inner
  | inner, c :: cs =>
    if c = '{' then if inner then none else after? true cs
    else if c = '}' then if inner then after? false cs else none
    else after? inner cs

/-- **Balanced braces**, at most one level deep. -/
def IsBalanced (t : Text) : Prop :=
  after? false t = some false

instance (t : Text) : Decidable (IsBalanced t) :=
  inferInstanceAs (Decidable (after? false t = some false))

theorem after?_append (inner : Bool) (s t : Text) :
    after? inner (s ++ t) = (after? inner s).bind fun inner => after? inner t := by
  induction s generalizing inner with
  | nil => rfl
  | cons c s ih =>
    rw [List.cons_append, after?, after?, ih, ih, ih]
    split_ifs <;> rfl

/-- A character that is no brace leads nowhere else. -/
theorem after?_cons {c : Char} (ho : c ≠ '{') (hc : c ≠ '}') (inner : Bool) (t : Text) :
    after? inner (c :: t) = after? inner t := by
  rw [after?, if_neg ho, if_neg hc]

/-- A text without braces leads nowhere else. -/
theorem after?_of_not_mem {t : Text} (ho : '{' ∉ t) (hc : '}' ∉ t) (inner : Bool) :
    after? inner t = some inner := by
  induction t with
  | nil => rfl
  | cons c t ih =>
    rw [List.mem_cons, not_or] at ho hc
    rw [after?_cons (Ne.symm ho.1) (Ne.symm hc.1), ih ho.2 hc.2]

theorem IsBalanced.append {s t : Text} (hs : IsBalanced s) (ht : IsBalanced t) :
    IsBalanced (s ++ t) := by
  unfold IsBalanced
  rw [after?_append, hs]
  exact ht

theorem isBalanced_of_not_mem {t : Text} (ho : '{' ∉ t) (hc : '}' ∉ t) : IsBalanced t :=
  after?_of_not_mem ho hc false

theorem isBalanced_of_blank {t : Text} (h : ∀ c ∈ t, isBlank c = true) : IsBalanced t :=
  isBalanced_of_not_mem (Text.not_mem_of_blank h (by decide)) (Text.not_mem_of_blank h (by decide))

/-- A text without braces in a pair of them is balanced. -/
theorem isBalanced_braces {t : Text} (ho : '{' ∉ t) (hc : '}' ∉ t) :
    IsBalanced ('{' :: t ++ ['}']) := by
  show after? true (t ++ ['}']) = some false
  rw [after?_append, after?_of_not_mem ho hc]
  rfl

/-- A text that leads back between the entries is read as a body, up to the
closing brace behind it. -/
theorem body?_of_after? {inner : Bool} {t : Text} (h : after? inner t = some false) (rest : Text) :
    body? inner (t ++ '}' :: rest) = some (t, rest) := by
  induction t generalizing inner with
  | nil =>
    obtain rfl : inner = false := Option.some.inj h
    rfl
  | cons c t ih =>
    rw [after?] at h
    rw [List.cons_append, body?]
    split_ifs at h ⊢ <;> rw [ih h] <;> rfl

theorem after?_of_body? {inner : Bool} {t body rest : Text} (h : body? inner t = some (body, rest)) :
    after? inner body = some false := by
  induction t generalizing inner body with
  | nil => cases h
  | cons c t ih =>
    rw [body?] at h
    split_ifs at h with ho hi hc hi
    · obtain ⟨⟨b, r⟩, hb, heq⟩ := Option.map_eq_some_iff.1 h
      obtain ⟨rfl, rfl⟩ := Prod.mk.inj heq
      rw [after?, if_pos ho, if_neg hi, ih hb]
    · obtain ⟨⟨b, r⟩, hb, heq⟩ := Option.map_eq_some_iff.1 h
      obtain ⟨rfl, rfl⟩ := Prod.mk.inj heq
      rw [after?, if_neg ho, if_pos hc, if_pos hi, ih hb]
    · obtain ⟨rfl, rfl⟩ := Prod.mk.inj (Option.some.inj h)
      rw [after?, Bool.eq_false_iff.2 hi]
    · obtain ⟨⟨b, r⟩, hb, heq⟩ := Option.map_eq_some_iff.1 h
      obtain ⟨rfl, rfl⟩ := Prod.mk.inj heq
      rw [after?, if_neg ho, if_neg hc, ih hb]

/-- **A body is a balanced text in front of a closing brace.** -/
theorem body?_eq_some_iff {t body rest : Text} :
    body? false t = some (body, rest) ↔ t = body ++ '}' :: rest ∧ IsBalanced body := by
  constructor
  · exact fun h => ⟨eq_of_body? h, after?_of_body? h⟩
  · rintro ⟨rfl, h⟩
    exact body?_of_after? h rest

/-! ## The braces alone -/

/-- Whether a character is a brace. -/
def isBrace (c : Char) : Bool :=
  c == '{' || c == '}'

/-- **The braces of a text**, in their order. -/
def braces (t : Text) : Text :=
  t.filter isBrace

theorem braces_append (s t : Text) : braces (s ++ t) = braces s ++ braces t :=
  List.filter_append ..

theorem braces_of_not_mem {t : Text} (ho : '{' ∉ t) (hc : '}' ∉ t) : braces t = [] := by
  refine List.filter_eq_nil_iff.2 fun c hmem hbrace => ?_
  rcases Bool.or_eq_true_iff.1 hbrace with h | h
  · exact ho (beq_iff_eq.1 h ▸ hmem)
  · exact hc (beq_iff_eq.1 h ▸ hmem)

/-- **Where a text leads is told by its braces.** -/
theorem after?_braces (inner : Bool) (t : Text) : after? inner (braces t) = after? inner t := by
  induction t generalizing inner with
  | nil => rfl
  | cons c t ih =>
    unfold braces at ih ⊢
    by_cases hbrace : isBrace c = true
    · rw [List.filter_cons_of_pos hbrace, after?, after?, ih, ih, ih]
    · rw [List.filter_cons_of_neg hbrace, ih]
      simp only [isBrace, Bool.or_eq_true, beq_iff_eq, not_or] at hbrace
      exact (after?_cons hbrace.1 hbrace.2 inner t).symm

theorem isBalanced_congr {s t : Text} (h : braces s = braces t) : IsBalanced s ↔ IsBalanced t := by
  unfold IsBalanced
  rw [← after?_braces false s, h, after?_braces]

end Brace

end Fabula
