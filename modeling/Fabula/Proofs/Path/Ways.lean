import Fabula.Proofs.Path.Steps

/-!
# The way a path describes

Where there are links, the names of a path do not tell where it leads: a name may be that of a
link, and a step that stays asks what it leads to. What can still be said is how the ways of two
paths are related, and the modules on links need it of three pairs: of a path and what is
written behind it, of a path and the same path seen from the root, and of a path and the path
above it.

The steps of a path are not fit for this, because they do not go on from each other: the steps
of `a/` are to enter `a` and to stay there, and behind `a/` the name `b` is entered without
staying first. So the way of a path is defined as the steps of the segments that are written,
and the steps are the way and one more when a slash at the end asks for a folder
(`Path.steps_eq_way`). A slash in the middle writes nothing, so ways do go on from each other:
what is written behind a path is gone behind its way (`Path.way_join`), and the way seen from
the root leads through the working folder first (`Path.way_absolute`).

## The path above

The path above a path is written with fewer segments, and the two texts agree up to a name that
has idle segments on either side (`Path.exists_written_of_parent?`). Of these, the empty ones
are not written and the others are dots. Hence a path goes the way of the path above it and
enters its name, with some staying before and after (`Path.exists_way_of_parent?`). It is the
reason why the staying steps may not be dropped: in a folder they do nothing, but at a file they
fail.

So the way of the path above is the beginning of the way of the path, and with it those of all
the paths above (`Path.way_of_mem_ancestors`). Two such beginnings are comparable, and this is
what makes folders one after the other.

No name on the way is longer than the path (`Path.length_le_of_mem_way`), which is how names are
found that no path leads through.
-/

namespace Fabula

namespace Path

/-- **The way of a path**: the steps of the segments that are written. -/
def way (p : Path) : List PathStep :=
  (written p.text).map steps.step

@[simp] theorem way_nil : way ⟨[]⟩ = [] := rfl

/-- A slash at the end of a path asks for a folder, and so does an empty path. -/
theorem steps_eq_way (p : Path) :
    p.steps = p.way ++ if p.lastSegment = [] then [.stay] else [] :=
  steps_eq p

theorem entrySteps_eq_way {p : Path} (hp : p.text ≠ []) : p.entrySteps = p.way :=
  entrySteps_eq hp

theorem written_append_slash (s t : Text) : written (s ++ '/' :: t) = written s ++ written t := by
  rw [written, Text.split_append_cons, List.filter_append]
  rfl

@[simp] theorem written_slash (t : Text) : written ('/' :: t) = written t :=
  written_append_slash [] t

/-- Pieces put together are written as they are, the empty ones left out. -/
theorem written_join {pieces : List Text} (hne : pieces ≠ []) (h : ∀ s ∈ pieces, '/' ∉ s) :
    written (Text.join ['/'] pieces) = pieces.filter fun s => s != [] := by
  rw [written, Text.split_join hne h]

/-- A path is written as its lead, and the segments behind that. -/
theorem written_eq (p : Path) :
    written p.text = written p.lead ++ p.segments.filter fun s => s != [] := by
  rcases lead_cases p with ⟨t, ht, hl⟩ | ⟨ht, hl⟩ | ⟨t, ht, hl⟩ | ⟨hl, _⟩
  · rw [segments, hl, ht, written_slash]
    rfl
  · rw [segments, hl, ht]
    rfl
  · rw [segments, hl, ht, show '.' :: '/' :: t = ['.'] ++ '/' :: t from rfl, written_append_slash]
    exact congrArg _ (written_slash t).symm
  · rw [segments, hl]
    rfl

/-! ## What is written behind a path -/

/-- **A way goes on where another one ends.** -/
theorem way_join (p : Path) {q : Text} (hq : q.head? ≠ some '/') :
    (p.join q).way = p.way ++ way ⟨q⟩ := by
  rw [way, way, way, ← List.map_append]
  congr 1
  rw [join, if_neg hq]
  split
  · rename_i h
    rcases Bool.or_eq_true_iff.1 h with h | h
    · rw [of_decide_eq_true h]
      rfl
    · obtain ⟨s, hs⟩ := List.getLast?_eq_some_iff.1 (beq_iff_eq.1 h)
      rw [hs, List.append_assoc, List.singleton_append, written_append_slash, written_append_slash]
      simp [written]
  · exact written_append_slash _ _

theorem step_of_ne {s : Text} (hi : isIdle s = false) (hs : s ≠ ['.', '.']) :
    steps.step s = .enter s := by
  have hdot := mt isIdle_iff.2 (by simpa using hi)
  rw [steps.step, if_neg (not_or.1 hdot).2, if_neg hs]

theorem step_of_isName {n : Text} (hn : IsName n) : steps.step n = .enter n :=
  step_of_ne (isIdle_eq_false_of_isName hn) hn.2.2.1

theorem way_of_isName {n : Text} (hn : IsName n) : way ⟨n⟩ = [.enter n] := by
  rw [way, written, Text.split_of_not_mem hn.2.2.2, List.filter_cons_of_pos (by simpa using hn.1),
    List.filter_nil, List.map_singleton, step_of_isName hn]

/-- A name written behind a path is entered at the end of its way. -/
theorem way_join_name (p : Path) {n : Text} (hn : IsName n) :
    (p.join n).way = p.way ++ [.enter n] := by
  rw [way_join p (head?_ne_slash_of_isName hn), way_of_isName hn]

theorem way_pathOf {a : Address} (h : ∀ n ∈ a, IsName n) :
    (Disk.pathOf a).way = a.map .enter := by
  have hstep : a.map steps.step = a.map .enter :=
    List.map_congr_left fun n hn => step_of_isName (h n hn)
  rw [way, Disk.pathOf, written_slash]
  by_cases hne : a = []
  · rw [hne]
    rfl
  · rw [written_join hne fun n hn => (h n hn).2.2.2,
      List.filter_eq_self.2 fun n hn => by simpa using (h n hn).1, hstep]

/-- **The way of a path seen from the root** leads through the working folder. -/
theorem way_absolute {d : Disk} (h : ∀ n ∈ d.cwd, IsName n) {p : Path}
    (hp : p.isAbsolute = false) : (d.absolute p).way = d.cwd.map .enter ++ p.way := by
  rw [Disk.absolute, way_join _ (by simpa [isAbsolute] using hp), way_pathOf h]

/-! ## The path above a path -/

/-- What is idle and written is a `.`. -/
theorem steps_of_idle {segments : List Text} (h : ∀ s ∈ segments, isIdle s = true) :
    (segments.filter fun s => s != []).map steps.step
      = List.replicate (segments.filter fun s => s != []).length .stay := by
  refine List.eq_replicate_iff.2 ⟨by rw [List.length_map], fun step hstep => ?_⟩
  obtain ⟨s, hs, rfl⟩ := List.mem_map.1 hstep
  obtain ⟨hmem, hne⟩ := List.mem_filter.1 hs
  rw [(isIdle_iff.1 (h s hmem)).resolve_left (by simpa using hne)]
  rfl

/-- **A path is written as the path above it**, and a name that has idle segments on either
side. -/
theorem exists_written_of_parent? {p q : Path} {n : Text} (hq : p.parent? = some q)
    (hn : p.fileName? = some n) : ∃ gap idle, (∀ s ∈ gap, isIdle s = true) ∧
      (∀ s ∈ idle, isIdle s = true) ∧ isIdle n = false ∧ n ≠ ['.', '.'] ∧
      written p.text = written q.text ++ (gap ++ n :: idle).filter fun s => s != [] := by
  obtain ⟨above, s, rest, hsi, hf, hp, hseg, hrest, hs, _⟩ :=
    exists_of_trimIdle_ne_nil (trimIdle_ne_nil_of_fileName? hn)
  obtain rfl := Option.some.inj (hp.symm.trans hq)
  obtain ⟨hsup, rfl⟩ : s ≠ ['.', '.'] ∧ s = n := by
    rw [hn] at hf
    split at hf
    · cases hf
    · exact ⟨‹_›, (Option.some.inj hf).symm⟩
  obtain ⟨gap, idle, rfl, hgap, _, hidle⟩ := List.filter_eq_cons_iff.1 hs
  refine ⟨gap, idle, fun x hx => by simpa using hgap x hx,
    fun x hx => by simpa using List.filter_eq_nil_iff.1 hidle x hx, hsi, hsup, ?_⟩
  by_cases ha : above = []
  · subst ha
    rw [written_eq p, hseg, Text.join_nil, List.append_nil, List.nil_append]
  · have hnoslash : ∀ x ∈ gap ++ s :: idle, '/' ∉ x := fun x hx =>
      Text.not_mem_of_mem_split (t := p.text.drop p.lead.length)
        (by rw [← segments, hseg]; exact List.mem_append_right _ hx)
    rw [← lead_append_drop p, ← Text.join_split '/' (p.text.drop _), ← segments, hseg,
      Text.join_append _ ha hrest, ← List.append_assoc, written_append_slash,
      written_join hrest hnoslash]

/-- **A path goes the way of the path above it** and enters its name, which may have a `.` on
either side. -/
theorem exists_way_of_parent? {p q : Path} {n : Text} (hq : p.parent? = some q)
    (hn : p.fileName? = some n) : ∃ k l, p.way
      = q.way ++ (List.replicate k .stay ++ .enter n :: List.replicate l .stay) := by
  obtain ⟨gap, idle, hgap, hidle, hni, hup, hw⟩ := exists_written_of_parent? hq hn
  have hne : n ≠ [] := by
    rintro rfl
    simp at hni
  refine ⟨(gap.filter fun s => s != []).length, (idle.filter fun s => s != []).length, ?_⟩
  rw [way, way, hw, List.map_append, List.filter_append,
    List.filter_cons_of_pos (by simpa using hne), List.map_append, List.map_cons,
    steps_of_idle hgap, steps_of_idle hidle, step_of_ne hni hup]

/-- A path that ends in a name enters it last. -/
theorem exists_way_of_endsInName {p : Path} (hup : p.goesUp = false) (hend : p.endsInName = true) :
    ∃ q n k, p.parent? = some q ∧ p.fileName? = some n ∧
      p.way = q.way ++ (List.replicate k .stay ++ [.enter n]) := by
  obtain ⟨q, n, hq, hn, _⟩ :=
    exists_parent? hup (trimIdle_ne_nil_of_names (names_ne_nil_of_endsInName hup hend))
  obtain ⟨k, l, hway⟩ := exists_way_of_parent? hq hn
  obtain ⟨hp, init, m, hlast⟩ := exists_of_endsInName hend
  rw [entrySteps_eq_way hp, hway] at hlast
  refine ⟨q, n, k, hq, hn, ?_⟩
  cases l with
  | zero => exact hway
  | succ l =>
    have := congrArg List.getLast? hlast
    rw [List.replicate_succ', ← List.cons_append, ← List.append_assoc, ← List.append_assoc,
      List.getLast?_concat, List.getLast?_concat] at this
    cases this

/-- The path above a path is on its way. -/
theorem way_above {p q : Path} (hup : p.goesUp = false) (hq : p.parent? = some q) :
    q.way <+: p.way := by
  by_cases ht : trimIdle p.segments = []
  · rw [parent?, ht] at hq
    replace hq : (if p.lead = ['.'] then some ⟨[]⟩ else none) = some q := hq
    split at hq
    · rw [← Option.some.inj hq]
      exact List.nil_prefix
    · cases hq
  · obtain ⟨q', n, hq', hn, _⟩ := exists_parent? hup ht
    obtain ⟨k, l, hway⟩ := exists_way_of_parent? hq hn
    rw [hway]
    exact List.prefix_append _ _

/-- **The paths above a path** are on its way. -/
theorem way_of_mem_ancestors {p s : Path} (hup : p.goesUp = false) (h : s ∈ p.ancestors) :
    s.way <+: p.way ∧ s.components <+: p.components := by
  refine (forall_mem_ancestors
    (P := fun s => s.goesUp = false ∧ s.way <+: p.way ∧ s.components <+: p.components)
    (fun q r hq hr => ?_) ⟨hup, List.prefix_refl _, List.prefix_refl _⟩ s h).2
  exact ⟨goesUp_parent? hr hq.1, (way_above hq.1 hr).trans hq.2.1,
    (components_above hr).trans hq.2.2⟩

/-! ## What is on a way -/

theorem up_notMem_way {p : Path} (hup : p.goesUp = false) : .up ∉ p.way := by
  intro h
  refine up_notMem_steps hup ?_
  rw [steps_eq_way]
  exact List.mem_append_left _ h

/-- No name on its way is longer than the path. -/
theorem length_le_of_mem_way {p : Path} {n : Text} (h : .enter n ∈ p.way) :
    n.length ≤ p.text.length := by
  obtain ⟨s, hs, hstep⟩ := List.mem_map.1 h
  have hlen := Text.length_le_of_mem_split (List.mem_of_mem_filter hs)
  rw [steps.step] at hstep
  split at hstep
  · cases hstep
  · split at hstep
    · cases hstep
    · rwa [← PathStep.enter.inj hstep]

theorem length_le_of_mem_steps {p : Path} {n : Text} (h : .enter n ∈ p.steps) :
    n.length ≤ p.text.length := by
  rw [steps_eq_way, List.mem_append] at h
  rcases h with h | h
  · exact length_le_of_mem_way h
  · split at h
    · cases List.mem_singleton.1 h
    · exact absurd h List.not_mem_nil

end Path

end Fabula
