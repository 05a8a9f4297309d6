import Mathlib.Data.List.TakeWhile
import Fabula.Proofs.Path.Components

/-!
# The path above a path

The path above a path is found by its text: the idle segments at the end are dropped, then the
last segment, then the idle ones at the end of what is left. It should be the path with all the
components but the last, and this module shows that it is (`Path.components_of_parent?`), with
the consequences for the paths above it and for the name a path has there.

## Why the components tell

Two texts have to be compared that are put together differently. The path is its lead and *all*
its segments, the path above it is the lead and *some* of them, and the components of a path are
read off its text anew. `Path.exists_of_trimIdle_ne_nil` takes a path apart once for all of
this: into what is written above, which does not end in an idle segment, and a rest, of which
one segment is not idle. Behind the lead and what is written above stands a slash, so the
components are those of the front and then those of the rest (`Path.components_append_slash`),
and of the rest there is one.

It matters that what is written above does not end in an idle segment. If nothing is left of it,
the path above is a lone lead, and the lead of `./a`, which is a dot, would be lost if it were
written with a slash or with an empty segment behind it.

Where no segment is left at all there is still the lead. A leading dot is a component of its
own, and above it there is the empty path. The root and the empty path have nothing above them.

## The paths above

They are collected with as much fuel as the path has components. Each of them has one component
less than the one before, so the fuel is never used up, and the paths above a path are the path
above it and those above that (`Path.ancestors_eq`). What one step upwards keeps holds therefore
of all of them (`Path.forall_mem_ancestors`).

## The name a path has there

A path that does not go up has a name as its last component, and that is what it is called in
the path above (`Path.exists_parent?`). The path above it ends in a name too, for as long as it
has one. This is what lets one go on upwards without looking at idle segments again.

A file in a folder, written behind a path as one text, has the folder above it just as it is
written there, not only the same components (`Path.parent?_join`). Messages and reports show
that text.
-/

namespace Fabula

namespace Path

/-! ## Idle segments at the end -/

theorem exists_idle_of_trimIdle (l : List Text) :
    ∃ idle, l = trimIdle l ++ idle ∧ ∀ s ∈ idle, isIdle s = true := by
  refine ⟨(l.reverse.takeWhile isIdle).reverse, ?_, fun s hs => ?_⟩
  · rw [trimIdle, ← List.reverse_append, List.takeWhile_append_dropWhile, List.reverse_reverse]
  · exact List.mem_takeWhile_imp (List.mem_reverse.1 hs)

/-- What is left of a list whose idle segments at the end were dropped does not
end in an idle one. -/
theorem isIdle_of_trimIdle_eq_concat {l init : List Text} {s : Text}
    (h : trimIdle l = init ++ [s]) : isIdle s = false := by
  have hd : l.reverse.dropWhile isIdle = s :: init.reverse := by
    rw [← List.reverse_inj, ← trimIdle, h]
    simp
  have := List.head_dropWhile_not isIdle (l := l.reverse) (by rw [hd]; exact List.cons_ne_nil _ _)
  simpa [hd] using this

theorem filter_idle {idle : List Text} (h : ∀ s ∈ idle, isIdle s = true) :
    (idle.filter fun s => !isIdle s) = [] := by
  rw [List.filter_eq_nil_iff]
  intro s hs
  simp [h s hs]


/-- **How a path is taken apart**, when something is left of its segments: what
is written above it, its last segment, and how the text reads around them. -/
theorem exists_of_trimIdle_ne_nil {p : Path} (h : trimIdle p.segments ≠ []) :
    ∃ above s rest, isIdle s = false ∧ p.fileName? = (if s = ['.', '.'] then none else some s) ∧
      p.parent? = some ⟨p.lead ++ Text.join ['/'] above⟩ ∧ p.segments = above ++ rest ∧
      rest ≠ [] ∧ ((rest.filter fun s => !isIdle s) = [s]) ∧
      (∀ init x, above = init ++ [x] → isIdle x = false) := by
  obtain ⟨init, s, hs⟩ := List.eq_nil_or_concat' (trimIdle p.segments) |>.resolve_left h
  obtain ⟨idle, hidle, hidle'⟩ := exists_idle_of_trimIdle p.segments
  obtain ⟨gap, hgap, hgap'⟩ := exists_idle_of_trimIdle init
  have hsi := isIdle_of_trimIdle_eq_concat hs
  refine ⟨trimIdle init, s, gap ++ s :: idle, hsi, ?_, ?_, ?_, by simp, ?_, ?_⟩
  · rw [fileName?, hs, List.getLast?_concat]
  · rw [parent?]
    split
    · rename_i h'
      exact absurd h' h
    · rw [hs, List.dropLast_concat]
  · rw [hidle, hs]
    conv_lhs => rw [hgap]
    simp
  · rw [List.filter_append, List.filter_cons_of_pos (by simp [hsi]), filter_idle hgap',
      filter_idle hidle', List.nil_append]
  · exact fun _ _ hx => isIdle_of_trimIdle_eq_concat hx

/-- What has no segments but idle ones has no components but a lead. -/
theorem components_of_trimIdle_eq_nil {p : Path} (h : trimIdle p.segments = []) :
    p.components = p.leadComponents := by
  obtain ⟨idle, hidle, hidle'⟩ := exists_idle_of_trimIdle p.segments
  rw [h, List.nil_append] at hidle
  rw [components, hidle, filter_idle hidle', List.map_nil, List.append_nil]

/-- **The path above a path has all components but the last.** -/
theorem components_of_parent? {p q : Path} (h : p.parent? = some q) :
    ∃ x, p.components = q.components ++ [x] := by
  by_cases ht : trimIdle p.segments = []
  · rw [parent?, ht] at h
    dsimp only at h
    split at h
    · rename_i hl
      obtain rfl := Option.some.inj h
      refine ⟨.here, ?_⟩
      rw [components_of_trimIdle_eq_nil ht, leadComponents, hl]
      rfl
    · cases h
  · obtain ⟨above, s, rest, _, _, hp, hseg, hrest, hs, hlast⟩ := exists_of_trimIdle_ne_nil ht
    obtain rfl := Option.some.inj (hp.symm.trans h)
    refine ⟨component s, ?_⟩
    by_cases ha : above = []
    · subst ha
      rw [List.nil_append] at hseg
      rw [Text.join_nil, List.append_nil, components_lead, components, hseg, hs, List.map_singleton]
    · have hnoslash : ∀ x ∈ rest, '/' ∉ x := fun x hx =>
        Text.not_mem_of_mem_split (t := p.text.drop p.lead.length)
          (by rw [← segments, hseg]; exact List.mem_append_right _ hx)
      have htext : p.text = (p.lead ++ Text.join ['/'] above) ++ '/' :: Text.join ['/'] rest := by
        conv_lhs => rw [← lead_append_drop p, ← Text.join_split '/' (p.text.drop _), ← segments,
          hseg, Text.join_append _ ha hrest]
        rw [List.append_assoc]
      have hne : p.lead ++ Text.join ['/'] above ≠ [] := by
        intro h0
        obtain ⟨init, x, rfl⟩ := List.eq_nil_or_concat' above |>.resolve_left ha
        have hj := (List.append_eq_nil_iff.1 h0).2
        by_cases hi : init = []
        · subst hi
          obtain rfl : x = [] := by simpa using hj
          exact absurd (hlast [] [] rfl) (by simp)
        · rw [Text.join_append _ hi (by simp)] at hj
          simp at hj
      have hcomp := components_append_slash hne (Text.join ['/'] rest)
      rw [behindLead_join hnoslash, hs, List.map_singleton] at hcomp
      rw [← hcomp, ← htext]

/-! ## Ancestors -/

/-- **The paths above a path** are the path above it, and those above that. -/
theorem ancestors_eq (p : Path) :
    p.ancestors = p :: (p.parent?.map ancestors).getD [] := by
  cases hp : p.parent? with
  | none =>
    rw [ancestors]
    cases p.components.length with
    | zero => rfl
    | succ m => simp [ancestors.go, hp]
  | some q =>
    obtain ⟨x, hx⟩ := components_of_parent? hp
    have hl : p.components.length = q.components.length + 1 := by rw [hx]; simp
    rw [ancestors, hl]
    simp only [ancestors.go, hp]
    rfl

/-- **What goes over to the path above** holds of every path above. -/
theorem forall_mem_ancestors {P : Path → Prop} (habove : ∀ q r, P q → q.parent? = some r → P r)
    {p : Path} (hp : P p) : ∀ s ∈ p.ancestors, P s := by
  induction hk : p.components.length using Nat.strong_induction_on generalizing p with
  | h k ih =>
  intro s hs
  rw [ancestors_eq] at hs
  cases hq : p.parent? with
  | none =>
    rw [hq] at hs
    rwa [List.mem_singleton.1 hs]
  | some q =>
    rw [hq, Option.map_some, Option.getD_some] at hs
    rcases List.mem_cons.1 hs with rfl | hs
    · exact hp
    · obtain ⟨x, hx⟩ := components_of_parent? hq
      have hlen : q.components.length < k := by
        rw [← hk, hx, List.length_append]
        exact Nat.lt_succ_self _
      exact ih _ hlen (habove p q hp hq) rfl s hs

/-- A path above begins with the components of the path. -/
theorem components_above {p q : Path} (h : p.parent? = some q) :
    q.components <+: p.components := by
  obtain ⟨x, hx⟩ := components_of_parent? h
  rw [hx]
  exact List.prefix_append _ _

/-! ## Paths that end in a name -/

/-- The last segment of the text. -/
def lastSegment (p : Path) : Text :=
  (Text.split '/' p.text).getLast (Text.split_ne_nil _ _)

theorem lastSegment_append_slash (s t : Text) :
    lastSegment ⟨s ++ '/' :: t⟩ = lastSegment ⟨t⟩ := by
  unfold lastSegment
  simp only [Text.split_append_cons]
  rw [List.getLast_append_of_ne_nil]

theorem lastSegment_of_not_mem {t : Text} (h : '/' ∉ t) : lastSegment ⟨t⟩ = t := by
  unfold lastSegment
  simp only [Text.split_of_not_mem h]
  rfl

/-- Behind a leading `.` there is a slash or nothing. -/
theorem segments_of_lead_here {p : Path} (h : p.lead = ['.']) : ∃ l, p.segments = [] :: l := by
  rcases lead_cases p with ⟨_, _, hl⟩ | ⟨ht, hl⟩ | ⟨t, ht, hl⟩ | ⟨hl, _⟩
  · simp [hl] at h
  · exact ⟨[], by rw [segments, hl, ht]; rfl⟩
  · exact ⟨Text.split '/' t, by rw [segments, hl, ht]; exact Text.split_cons_self '/' t⟩
  · simp [hl] at h

/-- The text made of a lead and segments ends in the last of them. -/
theorem lastSegment_of_above {p : Path} {init rest : List Text} {x : Text}
    (hseg : p.segments = (init ++ [x]) ++ rest) (hx : isIdle x = false) :
    lastSegment ⟨p.lead ++ Text.join ['/'] (init ++ [x])⟩ = x := by
  have hslash : '/' ∉ x := Text.not_mem_of_mem_split (t := p.text.drop p.lead.length)
    (by rw [← segments, hseg]; simp)
  by_cases hi : init = []
  · subst hi
    rw [List.nil_append, Text.join_singleton]
    rcases lead_cases p with ⟨_, _, hl⟩ | ⟨_, hl⟩ | ⟨_, _, hl⟩ | ⟨hl, _⟩
    · rw [hl, show ['/'] ++ x = [] ++ '/' :: x from rfl, lastSegment_append_slash,
        lastSegment_of_not_mem hslash]
    · obtain ⟨l, hnil⟩ := segments_of_lead_here hl
      rw [hseg] at hnil
      obtain rfl : x = [] := by simpa using (List.cons_eq_cons.1 hnil).1
      simp at hx
    · obtain ⟨l, hnil⟩ := segments_of_lead_here hl
      rw [hseg] at hnil
      obtain rfl : x = [] := by simpa using (List.cons_eq_cons.1 hnil).1
      simp at hx
    · rw [hl, List.nil_append, lastSegment_of_not_mem hslash]
  · rw [Text.join_append _ hi (by simp), Text.join_singleton, ← List.append_assoc,
      lastSegment_append_slash, lastSegment_of_not_mem hslash]

theorem goesUp_eq_false_iff {p : Path} : p.goesUp = false ↔ .up ∉ p.components := by
  simp [goesUp]

theorem names_leadComponents (p : Path) : p.leadComponents.filterMap Component.name? = [] := by
  rcases lead_cases p with ⟨_, _, hl⟩ | ⟨_, hl⟩ | ⟨_, _, hl⟩ | ⟨hl, _⟩ <;>
    rw [leadComponents, hl] <;> rfl

/-- **The last component** and the path above it, when the path has segments that
are not idle. The path above it ends in a name as long as it has one. -/
theorem exists_component {p : Path} (h : trimIdle p.segments ≠ []) :
    ∃ q s, p.parent? = some q ∧ p.components = q.components ++ [component s] ∧
      isIdle s = false ∧ '/' ∉ s ∧ p.fileName? = (if s = ['.', '.'] then none else some s) ∧
      (q.names ≠ [] → isIdle q.lastSegment = false) := by
  obtain ⟨above, s, rest, hsi, hf, hp, hseg, _, hs, hlast⟩ := exists_of_trimIdle_ne_nil h
  obtain ⟨x, hx⟩ := components_of_parent? hp
  have hcomp : p.components = p.leadComponents ++
      ((above.filter fun s => !isIdle s).map component ++ [component s]) := by
    rw [components, hseg, List.filter_append, hs, List.map_append, List.map_singleton]
  have hxs : x = component s := by
    have hlst := congrArg List.getLast? (hx.symm.trans hcomp)
    rw [← List.append_assoc, List.getLast?_concat, List.getLast?_concat] at hlst
    exact Option.some.inj hlst
  have hslash : '/' ∉ s := by
    have hrest : s ∈ rest.filter fun s => !isIdle s := by
      rw [hs]
      exact List.mem_singleton_self s
    have hmem : s ∈ p.segments := by
      rw [hseg]
      exact List.mem_append_right _ (List.mem_of_mem_filter hrest)
    exact Text.not_mem_of_mem_split hmem
  refine ⟨_, s, hp, by rw [hx, hxs], hsi, hslash, hf, ?_⟩
  intro hq
  have ha : above ≠ [] := by
    rintro rfl
    rw [Text.join_nil, List.append_nil, names, components_lead, names_leadComponents] at hq
    exact hq rfl
  obtain ⟨init, y, rfl⟩ := List.eq_nil_or_concat' above |>.resolve_left ha
  rw [lastSegment_of_above hseg (hlast init y rfl)]
  exact hlast init y rfl

theorem trimIdle_ne_nil_of_names {p : Path} (h : p.names ≠ []) : trimIdle p.segments ≠ [] := by
  intro ht
  rw [names, components_of_trimIdle_eq_nil ht, names_leadComponents] at h
  exact h rfl

theorem trimIdle_ne_nil_of_fileName? {p : Path} {n : Text} (h : p.fileName? = some n) :
    trimIdle p.segments ≠ [] := by
  intro ht
  rw [fileName?, ht] at h
  cases h

/-- **A path with a name of its own** lies in the path above it. -/
theorem exists_parent? {p : Path} (hup : p.goesUp = false)
    (ht : trimIdle p.segments ≠ []) :
    ∃ q n, p.parent? = some q ∧ p.fileName? = some n ∧ IsName n ∧
      p.components = q.components ++ [.name n] ∧
      (q.names ≠ [] → isIdle q.lastSegment = false) := by
  obtain ⟨q, s, hp, hx, hsi, hslash, hf, hq⟩ := exists_component ht
  have hsup : s ≠ ['.', '.'] := by
    rintro rfl
    rw [goesUp_eq_false_iff, hx] at hup
    exact hup (by simp [component])
  have hidle := mt isIdle_iff.2 (by simpa using hsi)
  rw [not_or] at hidle
  have hname : IsName s := ⟨hidle.1, hidle.2, hsup, hslash⟩
  exact ⟨q, s, hp, by rw [hf, if_neg hsup], hname, by rw [hx, component_of_isName hname], hq⟩

/-- A component more is a name more, and goes up no more than the rest. -/
theorem goesUp_concat {p q : Path} {n : Text} (h : p.components = q.components ++ [.name n]) :
    p.goesUp = q.goesUp := by
  rw [Bool.eq_iff_iff, goesUp, goesUp, h]
  simp

/-- What a path does not do its parent does not do either. -/
theorem goesUp_parent? {p q : Path} (h : p.parent? = some q) (hup : p.goesUp = false) :
    q.goesUp = false := by
  obtain ⟨x, hx⟩ := components_of_parent? h
  rw [goesUp_eq_false_iff] at hup ⊢
  rw [hx, List.mem_append, not_or] at hup
  exact hup.1

theorem names_concat {p q : Path} {n : Text} (h : p.components = q.components ++ [.name n]) :
    p.names = q.names ++ [n] := by
  rw [names, h, List.filterMap_append]
  rfl

theorem isAbsolute_concat {p q : Path} {n : Text} (h : p.components = q.components ++ [.name n]) :
    p.isAbsolute = q.isAbsolute := by
  rw [Bool.eq_iff_iff, isAbsolute_iff, isAbsolute_iff, h]
  simp

/-- A name written behind a path is the last segment. -/
theorem lastSegment_join (p : Path) {n : Text} (hn : IsName n) : (p.join n).lastSegment = n := by
  rw [join, if_neg (head?_ne_slash_of_isName hn)]
  split
  · rename_i h
    rcases Bool.or_eq_true_iff.1 h with h | h
    · rw [of_decide_eq_true h, List.nil_append, lastSegment_of_not_mem hn.2.2.2]
    · obtain ⟨s, hs⟩ := List.getLast?_eq_some_iff.1 (beq_iff_eq.1 h)
      rw [hs, List.append_assoc, List.singleton_append, lastSegment_append_slash,
        lastSegment_of_not_mem hn.2.2.2]
  · rw [lastSegment_append_slash, lastSegment_of_not_mem hn.2.2.2]

/-! ## The path above a path that is written behind another -/

theorem trimIdle_concat (init : List Text) {s : Text} (hs : isIdle s = false) :
    trimIdle (init ++ [s]) = init ++ [s] := by
  rw [trimIdle, List.reverse_append, List.reverse_singleton, List.singleton_append,
    List.dropWhile_cons_of_neg (by simp [hs]), List.reverse_cons, List.reverse_reverse]

theorem exists_segments_join (p : Path) {n : Text} (hn : IsName n) :
    ∃ init, (p.join n).segments = init ++ [n] := by
  have hsplit : Text.split '/' n = [n] := Text.split_of_not_mem hn.2.2.2
  have hbehind : ∀ s, ∃ init, segments ⟨s ++ '/' :: n⟩ = init ++ [n] := by
    intro s
    by_cases hs : s = []
    · subst hs
      exact ⟨[], hsplit⟩
    · exact ⟨_, by rw [segments_append_slash hs, hsplit]⟩
  rw [join, if_neg (head?_ne_slash_of_isName hn)]
  split
  · rename_i h
    rcases Bool.or_eq_true_iff.1 h with h | h
    · refine ⟨[], ?_⟩
      rw [of_decide_eq_true h, List.nil_append, segments, lead_of_isName hn]
      exact hsplit
    · obtain ⟨s, hs⟩ := List.getLast?_eq_some_iff.1 (beq_iff_eq.1 h)
      rw [hs, List.append_assoc]
      exact hbehind s
  · exact hbehind p.text

/-- Behind a path a name and what follows it are written as one text. -/
theorem join_append_slash (p : Path) {m : Text} (hm : IsName m) (t : Text) :
    p.join (m ++ '/' :: t) = ⟨(p.join m).text ++ '/' :: t⟩ := by
  have hhead : (m ++ '/' :: t).head? ≠ some '/' := by
    rw [List.head?_append_of_ne_nil _ hm.1]
    exact head?_ne_slash_of_isName hm
  rw [join, if_neg hhead, join, if_neg (head?_ne_slash_of_isName hm)]
  split
  · rw [List.append_assoc]
  · rw [List.append_assoc, List.cons_append]

/-- **The path above a file in a folder** is that of the folder, as it is written. -/
theorem parent?_join (p : Path) {m n : Text} (hm : IsName m) (hn : IsName n) :
    (p.join (m ++ '/' :: n)).parent? = some (p.join m) := by
  obtain ⟨init, hinit⟩ := exists_segments_join p hm
  have hne : (p.join m).text ≠ [] := by
    rw [ne_eq, ← components_eq_nil_iff, components_join p hm]
    simp
  have hsegments : segments ⟨(p.join m).text ++ '/' :: n⟩ = (init ++ [m]) ++ [n] := by
    rw [segments_append_slash hne, Text.split_of_not_mem hn.2.2.2, ← hinit]
  have hjoin : Text.join ['/'] (init ++ [m]) = (p.join m).text.drop (p.join m).lead.length := by
    rw [← hinit, segments, Text.join_split]
  rw [join_append_slash p hm, parent?, hsegments, trimIdle_concat _ (isIdle_eq_false_of_isName hn)]
  split
  · rename_i hnil
    simp at hnil
  · rw [List.dropLast_concat, trimIdle_concat _ (isIdle_eq_false_of_isName hm), hjoin,
      lead_append_slash hne, lead_append_drop]

end Path

end Fabula
