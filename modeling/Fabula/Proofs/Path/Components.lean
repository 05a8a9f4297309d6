import Fabula.Path
import Fabula.Proofs.Text.Pieces

/-!
# Paths and their components

What a path means is its components, and what is done to a path is done to its text. This module
says what the one is on the other, so that no later module has to look at slashes.

A text is read in two parts. Its beginning decides on the lead, and there are four things it can
begin with (`Path.lead_cases`): a slash, a lone dot, a dot and a slash, or anything else. Behind
the lead everything is alike: the text is cut at its slashes, the idle segments go, and each of
the others is a component (`Path.behindLead`). The lead itself is cut into idle segments, namely
into empty ones and a dot, so that it does no harm to read these components off the whole text
instead (`Path.components_eq`). This is the form in which the components are used, because the
text, unlike what is left of it behind a lead, goes on when something is written behind it.

## What is written behind a path

A slash sets segments apart and is none. So what stands behind a slash is behind the lead
whatever stands in front of it, unless nothing does, and its components come after those of the
front (`Path.components_append_slash`). The condition is needed: the text `/a` is the empty
text, a slash and `a`, but it has the root as a component, and neither part has it.

Writing a name behind a path writes it behind a slash, be it one that the path ends with or a
new one, or behind nothing at all. A name has no slash and is not idle, so it is one segment,
and not a lead either, since it is no dot. In each case it is one more component, and nothing
else changes (`Path.components_join`). A text that begins with a slash is another matter: it
takes the place of the path.
-/

namespace Fabula

/-- **A name of an entry**: not empty, neither `.` nor `..`, and without a
slash. -/
def IsName (n : Text) : Prop :=
  n ≠ [] ∧ n ≠ ['.'] ∧ n ≠ ['.', '.'] ∧ '/' ∉ n

instance (n : Text) : Decidable (IsName n) :=
  inferInstanceAs (Decidable (n ≠ [] ∧ n ≠ ['.'] ∧ n ≠ ['.', '.'] ∧ '/' ∉ n))

namespace Component

/-- The name a component is. -/
def name? : Component → Option Text
  | root => none
  | here => none
  | up => none
  | name n => some n

@[simp] theorem name?_root : name? .root = none := rfl

@[simp] theorem name?_here : name? .here = none := rfl

@[simp] theorem name?_up : name? .up = none := rfl

@[simp] theorem name?_name (n : Text) : name? (.name n) = some n := rfl

end Component

namespace Path

/-- **The names of a path**, in the order in which they are passed. -/
def names (p : Path) : List Text :=
  p.components.filterMap Component.name?

/-- The components of the segments behind a lead. -/
def behindLead (t : Text) : List Component :=
  ((Text.split '/' t).filter fun s => !isIdle s).map component

theorem isIdle_iff {s : Text} : isIdle s = true ↔ s = [] ∨ s = ['.'] := by
  simp [isIdle]

@[simp] theorem isIdle_nil : isIdle [] = true := rfl

@[simp] theorem isIdle_dot : isIdle ['.'] = true := rfl

theorem isIdle_eq_false_of_isName {n : Text} (h : IsName n) : isIdle n = false := by
  rw [← Bool.not_eq_true, isIdle_iff, not_or]
  exact ⟨h.1, h.2.1⟩

@[simp] theorem component_ne_root (s : Text) : component s ≠ .root := by
  unfold component
  split <;> simp

@[simp] theorem component_ne_here (s : Text) : component s ≠ .here := by
  unfold component
  split <;> simp

theorem component_of_isName {n : Text} (h : IsName n) : component n = .name n := by
  rw [component, if_neg h.2.2.1]

/-! ## The lead decides -/

@[simp] theorem behindLead_nil : behindLead [] = [] := rfl

/-- A slash sets segments apart and is none. -/
theorem behindLead_append_slash (s t : Text) :
    behindLead (s ++ '/' :: t) = behindLead s ++ behindLead t := by
  rw [behindLead, Text.split_append_cons, List.filter_append, List.map_append]
  rfl

@[simp] theorem behindLead_slash (t : Text) : behindLead ('/' :: t) = behindLead t :=
  behindLead_append_slash [] t

theorem behindLead_of_isName {n : Text} (h : IsName n) : behindLead n = [.name n] := by
  rw [behindLead, Text.split_of_not_mem h.2.2.2]
  simp [isIdle_eq_false_of_isName h, component_of_isName h]

/-- Pieces put together are read as the components of those that are not
idle. -/
theorem behindLead_join {pieces : List Text} (h : ∀ s ∈ pieces, '/' ∉ s) :
    behindLead (Text.join ['/'] pieces) = (pieces.filter fun s => !isIdle s).map component := by
  by_cases hne : pieces = []
  · subst hne
    rfl
  · rw [behindLead, Text.split_join hne h]

@[simp] theorem components_root (t : Text) :
    components ⟨'/' :: t⟩ = .root :: behindLead t := rfl

@[simp] theorem components_here : components ⟨['.']⟩ = [.here] := rfl

@[simp] theorem components_here_slash (t : Text) :
    components ⟨'.' :: '/' :: t⟩ = .here :: behindLead t := by
  rw [← behindLead_slash t]
  rfl

@[simp] theorem components_nil : components ⟨[]⟩ = [] := rfl

/-- What a text can begin with: the four cases of `Path.lead`. -/
theorem lead_cases (p : Path) :
    (∃ t, p.text = '/' :: t ∧ p.lead = ['/']) ∨ (p.text = ['.'] ∧ p.lead = ['.']) ∨
      (∃ t, p.text = '.' :: '/' :: t ∧ p.lead = ['.']) ∨
      (p.lead = [] ∧ p.text.head? ≠ some '/' ∧ p.text ≠ ['.'] ∧
        ∀ t, p.text ≠ '.' :: '/' :: t) := by
  unfold lead
  split
  · exact .inl ⟨_, by assumption, rfl⟩
  · exact .inr (.inl ⟨by assumption, rfl⟩)
  · exact .inr (.inr (.inl ⟨_, by assumption, rfl⟩))
  · rename_i h1 h2 h3
    refine .inr (.inr (.inr ⟨rfl, ?_, h2, h3⟩))
    intro hh
    obtain ⟨t, ht⟩ := List.head?_eq_some_iff.1 hh
    exact h1 t ht

theorem components_of_lead_nil {p : Path} (h : p.lead = []) :
    p.components = behindLead p.text := by
  unfold components leadComponents segments
  rw [h]
  rfl

theorem lead_append_drop (p : Path) : p.lead ++ p.text.drop p.lead.length = p.text := by
  rcases lead_cases p with ⟨t, ht, hl⟩ | ⟨ht, hl⟩ | ⟨t, ht, hl⟩ | ⟨hl, _⟩ <;> simp_all

/-- What is written behind a slash does not change how a path begins. -/
theorem lead_append_slash {s : Text} (hs : s ≠ []) (t : Text) :
    lead ⟨s ++ '/' :: t⟩ = lead ⟨s⟩ := by
  obtain ⟨c, cs, rfl⟩ := List.exists_cons_of_ne_nil hs
  rcases lead_cases ⟨c :: cs⟩ with ⟨u, hu, hl⟩ | ⟨hu, hl⟩ | ⟨u, hu, hl⟩ | ⟨hl, h1, h2, h3⟩
  · obtain ⟨rfl, rfl⟩ := List.cons_eq_cons.1 hu
    rfl
  · obtain ⟨rfl, rfl⟩ := List.cons_eq_cons.1 hu
    rfl
  · obtain ⟨rfl, rfl⟩ := List.cons_eq_cons.1 hu
    rfl
  · rw [hl]
    rcases lead_cases ⟨c :: cs ++ '/' :: t⟩ with ⟨v, hv, _⟩ | ⟨hv, _⟩ | ⟨v, hv, _⟩ | ⟨h, _⟩
    · obtain ⟨rfl, _⟩ := List.cons_eq_cons.1 hv
      exact absurd rfl h1
    · simp at hv
    · obtain ⟨rfl, hcs⟩ := List.cons_eq_cons.1 hv
      cases cs with
      | nil => exact absurd rfl h2
      | cons e es =>
        obtain ⟨rfl, _⟩ := List.cons_eq_cons.1 hcs
        exact absurd rfl (h3 es)
    · exact h

theorem segments_append_slash {s : Text} (hs : s ≠ []) (t : Text) :
    segments ⟨s ++ '/' :: t⟩ = segments ⟨s⟩ ++ Text.split '/' t := by
  have hle : (lead ⟨s⟩).length ≤ s.length := by
    have hlen := congrArg List.length (lead_append_drop ⟨s⟩)
    rw [List.length_append] at hlen
    exact Nat.le.intro hlen
  rw [segments, lead_append_slash hs]
  dsimp only
  rw [List.drop_append_of_le_length hle, Text.split_append_cons]
  rfl

/-- **A slash in the middle**: what stands behind it is behind the lead. -/
theorem components_append_slash {s : Text} (hs : s ≠ []) (t : Text) :
    components ⟨s ++ '/' :: t⟩ = components ⟨s⟩ ++ behindLead t := by
  rw [components, leadComponents, lead_append_slash hs, segments_append_slash hs,
    List.filter_append, List.map_append, ← List.append_assoc]
  rfl

/-- Only the empty path has no components. -/
theorem components_eq_nil_iff {p : Path} : p.components = [] ↔ p.text = [] := by
  constructor
  · intro h
    rcases lead_cases p with ⟨t, ht, hl⟩ | ⟨_, hl⟩ | ⟨t, ht, hl⟩ | ⟨hl, h1, h2, h3⟩
    · simp [components, leadComponents, hl] at h
    · simp [components, leadComponents, hl] at h
    · simp [components, leadComponents, hl] at h
    · cases ht : p.text with
      | nil => rfl
      | cons c cs =>
        rw [components_of_lead_nil hl, ht] at h
        have hc : c ≠ '/' := by
          rintro rfl
          exact h1 (by rw [ht]; rfl)
        obtain ⟨piece, pieces, hp⟩ := List.exists_cons_of_ne_nil (Text.split_ne_nil '/' cs)
        have hidle : isIdle (c :: piece) = true := by
          rw [behindLead, Text.split_cons_of_ne hc hp] at h
          by_contra hi
          rw [List.filter_cons_of_pos (by simpa using hi)] at h
          simp at h
        -- so the first segment is a lone dot, and the lead would be that dot
        obtain ⟨rfl, rfl⟩ : c = '.' ∧ piece = [] := by simpa [isIdle] using hidle
        have hjoin := Text.join_split '/' cs
        rw [hp] at hjoin
        cases pieces with
        | nil =>
          rw [Text.join_singleton] at hjoin
          exact absurd (by rw [ht, ← hjoin]) h2
        | cons second rest =>
          rw [Text.join_cons _ _ (List.cons_ne_nil _ _)] at hjoin
          exact absurd (by rw [ht, ← hjoin]; rfl) (h3 _)
  · intro h
    obtain ⟨t⟩ := p
    obtain rfl : t = [] := h
    rfl

/-- **The components are read off the whole text**: its lead, and the segments
that are not idle. -/
theorem components_eq (p : Path) : p.components = p.leadComponents ++ behindLead p.text := by
  rcases lead_cases p with ⟨t, ht, _⟩ | ⟨ht, _⟩ | ⟨t, ht, _⟩ | ⟨hl, _⟩
  · obtain ⟨_⟩ := p
    subst ht
    simp [leadComponents, lead]
  · obtain ⟨_⟩ := p
    subst ht
    rfl
  · obtain ⟨_⟩ := p
    subst ht
    rw [components_here_slash, show '.' :: '/' :: t = ['.'] ++ '/' :: t from rfl,
      behindLead_append_slash]
    rfl
  · rw [components_of_lead_nil hl, leadComponents, hl]
    rfl

theorem components_lead (p : Path) : components ⟨p.lead⟩ = p.leadComponents := by
  rcases lead_cases p with ⟨_, _, hl⟩ | ⟨_, hl⟩ | ⟨_, _, hl⟩ | ⟨hl, _⟩ <;>
    rw [leadComponents, hl] <;> rfl

/-! ## Absolute paths -/

theorem root_notMem_behindLead (t : Text) : Component.root ∉ behindLead t := by
  intro h
  obtain ⟨s, _, hs⟩ := List.mem_map.1 h
  exact component_ne_root s hs

theorem here_notMem_behindLead (t : Text) : Component.here ∉ behindLead t := by
  intro h
  obtain ⟨s, _, hs⟩ := List.mem_map.1 h
  exact component_ne_here s hs

/-- A path is absolute when its first component is the root. -/
theorem isAbsolute_iff {p : Path} : p.isAbsolute = true ↔ .root ∈ p.components := by
  rcases lead_cases p with ⟨t, ht, _⟩ | ⟨ht, _⟩ | ⟨t, ht, _⟩ | ⟨hl, h1, _, _⟩
  · obtain ⟨_⟩ := p
    subst ht
    simp [isAbsolute]
  · obtain ⟨_⟩ := p
    subst ht
    simp [isAbsolute]
  · obtain ⟨_⟩ := p
    subst ht
    simp [isAbsolute, root_notMem_behindLead]
  · rw [components_of_lead_nil hl, isAbsolute]
    simp [root_notMem_behindLead, h1]

/-! ## Writing a name behind a path -/

/-- A relative text written behind a path goes on where the path ends. -/
theorem components_join_of_ne {p : Path} {q : Text} (hp : p.text ≠ [])
    (hq : q.head? ≠ some '/') : (p.join q).components = p.components ++ behindLead q := by
  obtain ⟨t⟩ := p
  rw [join, if_neg hq]
  split
  · rename_i h
    have hlast : t.getLast? = some '/' := by simpa [hp] using h
    obtain ⟨s, rfl⟩ := List.getLast?_eq_some_iff.1 hlast
    by_cases hs : s = []
    · subst hs
      simp
    · simp only [List.append_assoc, List.singleton_append]
      rw [components_append_slash hs, components_append_slash hs, behindLead_nil,
        List.append_nil]
  · exact components_append_slash hp q

theorem head?_ne_slash_of_isName {n : Text} (h : IsName n) : n.head? ≠ some '/' := by
  intro hh
  obtain ⟨t, rfl⟩ := List.head?_eq_some_iff.1 hh
  exact h.2.2.2 List.mem_cons_self

theorem lead_of_isName {n : Text} (h : IsName n) : lead ⟨n⟩ = [] := by
  rcases lead_cases ⟨n⟩ with ⟨t, ht, _⟩ | ⟨ht, _⟩ | ⟨t, ht, _⟩ | ⟨hl, _⟩
  · obtain rfl : n = _ := ht
    exact absurd List.mem_cons_self h.2.2.2
  · exact absurd ht h.2.1
  · obtain rfl : n = _ := ht
    exact absurd (List.mem_cons_of_mem _ List.mem_cons_self) h.2.2.2
  · exact hl

/-- A name alone is the path of one component. -/
theorem components_of_isName {n : Text} (h : IsName n) : components ⟨n⟩ = [.name n] := by
  rw [components_of_lead_nil (lead_of_isName h), behindLead_of_isName h]

/-- **A name written behind a path is one more component.** -/
theorem components_join (p : Path) {n : Text} (hn : IsName n) :
    (p.join n).components = p.components ++ [.name n] := by
  by_cases hp : p.text = []
  · obtain ⟨t⟩ := p
    obtain rfl : t = [] := hp
    rw [join, if_neg (head?_ne_slash_of_isName hn)]
    exact components_of_isName hn
  · rw [components_join_of_ne hp (head?_ne_slash_of_isName hn), behindLead_of_isName hn]

end Path

end Fabula
