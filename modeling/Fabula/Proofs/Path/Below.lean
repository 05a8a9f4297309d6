import Fabula.Proofs.Path.Parent

/-!
# A path seen from one above it

Reports name a file from the project on, and a path that lies below another one is written from
there. What is written is made of the segments of the path, as they are: as many of those that
name something are skipped as the other path has names and `..`s, with the idle ones in front of
them.

That these are the right segments is a matter of counting. A path lies below another one when
its components begin with those of that one. The components are the lead and then one for each
segment that is not idle (`Path.takeWhile_isLead` reads the lead off them again, so that two
paths with a common beginning have the same lead). Skipping segments skips just what they name
(`Path.filter_behind`): of the segments that are not idle, the first `n` go, and the others stay
in their order. So what is left has as its components the rest of the components
(`Path.within?_eq`).

There is one more thing to see, which is that the text of what is left is read as those
segments. A text can begin with a lead, and what was a segment in the middle could become one.
It does not, because what is left begins with a segment that names something
(`Path.isIdle_of_behind`), and such a segment is no lead (`Path.components_join_segments`). The
names of `a/./b` seen from `a` are those of `b`, and not those of `./b`.
-/

namespace Fabula

namespace Path

/-- Skipping segments skips what they name. -/
theorem filter_behind (n : ℕ) (segments : List Text) :
    ((behind n segments).filter fun s => !isIdle s)
      = (segments.filter fun s => !isIdle s).drop n := by
  induction segments generalizing n with
  | nil => simp [behind]
  | cons s segments ih =>
    rw [behind]
    by_cases hs : isIdle s = true
    · rw [if_pos hs, List.filter_cons_of_neg (by simp [hs]), ih]
    · rw [if_neg hs]
      cases n with
      | zero => rfl
      | succ n => rw [if_neg (Nat.succ_ne_zero n), List.filter_cons_of_pos (by simp [hs]), ih]; rfl

/-- What is left begins with a segment that names something. -/
theorem isIdle_of_behind {n : ℕ} {segments rest : List Text} {s : Text}
    (h : behind n segments = s :: rest) : isIdle s = false := by
  induction segments generalizing n with
  | nil => cases h
  | cons x segments ih =>
    rw [behind] at h
    by_cases hx : isIdle x = true
    · rw [if_pos hx] at h
      exact ih h
    · rw [if_neg hx] at h
      by_cases hn : n = 0
      · rw [if_pos hn] at h
        obtain ⟨rfl, _⟩ := List.cons.inj h
        simpa using hx
      · rw [if_neg hn] at h
        exact ih h

theorem behind_subset (n : ℕ) (segments : List Text) : behind n segments ⊆ segments := by
  induction segments generalizing n with
  | nil => exact fun _ h => h
  | cons s segments ih =>
    rw [behind]
    split
    · exact List.subset_cons_of_subset _ (ih n)
    · split
      · exact fun _ h => h
      · exact List.subset_cons_of_subset _ (ih _)

/-- Segments of which the first names something are behind no lead. -/
theorem components_join_segments {segments : List Text} (h : ∀ s ∈ segments, '/' ∉ s)
    (hfirst : ∀ s rest, segments = s :: rest → isIdle s = false) :
    components ⟨Text.join ['/'] segments⟩
      = (segments.filter fun s => !isIdle s).map component := by
  cases segments with
  | nil => rfl
  | cons s rest =>
    have hidle := hfirst s rest rfl
    have hsplit := Text.split_join (List.cons_ne_nil s rest) h
    have hlead : lead ⟨Text.join ['/'] (s :: rest)⟩ = [] := by
      rcases lead_cases ⟨Text.join ['/'] (s :: rest)⟩ with
        ⟨t, ht, _⟩ | ⟨ht, _⟩ | ⟨t, ht, _⟩ | ⟨hl, _⟩
      · -- in each of the other cases the first segment would be idle
        rw [show Text.join ['/'] (s :: rest) = [] ++ '/' :: t from ht, Text.split_append_cons]
          at hsplit
        obtain ⟨rfl, _⟩ := List.cons.inj hsplit
        cases hidle
      · rw [show Text.join ['/'] (s :: rest) = ['.'] from ht] at hsplit
        obtain ⟨rfl, _⟩ := List.cons.inj hsplit
        cases hidle
      · rw [show Text.join ['/'] (s :: rest) = ['.'] ++ '/' :: t from ht, Text.split_append_cons]
          at hsplit
        obtain ⟨rfl, _⟩ := List.cons.inj hsplit
        cases hidle
      · exact hl
    rw [components_of_lead_nil hlead]
    exact behindLead_join h

theorem filter_trimIdle (segments : List Text) :
    ((trimIdle segments).filter fun s => !isIdle s) = segments.filter fun s => !isIdle s := by
  obtain ⟨idle, hsegments, hidle⟩ := exists_idle_of_trimIdle segments
  conv_rhs => rw [hsegments]
  rw [List.filter_append, filter_idle hidle, List.append_nil]

/-- Whether a component is a lead. -/
def isLead (c : Component) : Bool :=
  c = .root || c = .here

/-- The lead is read off the components. -/
theorem takeWhile_isLead (p : Path) : p.components.takeWhile isLead = p.leadComponents := by
  have hbehind : (behindLead p.text).takeWhile isLead = [] := by
    cases h : behindLead p.text with
    | nil => rfl
    | cons c rest =>
      have hmem : c ∈ behindLead p.text := by
        rw [h]
        exact List.mem_cons_self
      refine List.takeWhile_cons_of_neg ?_
      rw [isLead, Bool.not_eq_true, Bool.or_eq_false_iff, decide_eq_false_iff_not,
        decide_eq_false_iff_not]
      constructor
      · rintro rfl
        exact root_notMem_behindLead _ hmem
      · rintro rfl
        exact here_notMem_behindLead _ hmem
  have hall : ∀ c ∈ p.leadComponents, isLead c = true := by
    rcases lead_cases p with ⟨_, _, hl⟩ | ⟨_, hl⟩ | ⟨_, _, hl⟩ | ⟨hl, _⟩ <;>
      rw [leadComponents, hl] <;> decide
  rw [components_eq, List.takeWhile_append_of_pos hall, hbehind, List.append_nil]

/-- **A path below another one, seen from there**, has as components the names that
lead there. -/
theorem within?_eq {p q : Path} {ns : List Text} (hq : q.components ≠ [])
    (h : p.components = q.components ++ ns.map .name) :
    ∃ r, p.within? q = some r ∧ r.components = ns.map .name := by
  have hlead : p.leadComponents = q.leadComponents := by
    have hnames : (ns.map Component.name).takeWhile isLead = [] := by
      cases ns with
      | nil => rfl
      | cons n ns => exact List.takeWhile_cons_of_neg (by simp [isLead])
    rw [← takeWhile_isLead, ← takeWhile_isLead, h]
    rw [List.takeWhile_append, hnames, List.append_nil]
    split
    · rename_i hall
      exact (List.IsPrefix.eq_of_length (List.takeWhile_prefix _) hall).symm
    · rfl
  have hwithin : p.isWithin q = true := List.isPrefixOf_iff_prefix.2 ⟨_, h.symm⟩
  refine ⟨_, by rw [within?, if_pos hwithin, if_neg hq], ?_⟩
  have hsegments : ((p.segments.filter fun s => !isIdle s).map component) =
      ((q.segments.filter fun s => !isIdle s).map component) ++ ns.map .name := by
    rw [components, components, hlead, List.append_assoc] at h
    exact List.append_cancel_left h
  have hnamed : q.components.length - q.leadComponents.length =
      ((q.segments.filter fun s => !isIdle s).map component).length := by
    rw [components, List.length_append, Nat.add_sub_cancel_left]
  rw [components_join_segments, filter_behind, filter_trimIdle, List.map_drop, hsegments, hnamed,
    List.drop_left]
  · intro s hs
    have hmem := behind_subset _ _ hs
    obtain ⟨idle, htrim, _⟩ := exists_idle_of_trimIdle p.segments
    refine Text.not_mem_of_mem_split (t := p.text.drop p.lead.length) ?_
    show s ∈ p.segments
    rw [htrim]
    exact List.mem_append_left _ hmem
  · exact fun s rest hs => isIdle_of_behind hs

end Path

end Fabula
