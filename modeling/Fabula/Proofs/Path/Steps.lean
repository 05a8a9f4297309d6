import Fabula.Disk.Resolve
import Fabula.Proofs.Path.Parent

/-!
# Paths and their steps

A path means its components, and it *leads* somewhere by its steps. The two are read off the
same segments, but differently. The components forget every `.` but a leading one and a slash at
the end; the steps keep a `.`, which stays in a folder and so asks for one, and turn a slash at
the end into such a step. They keep `..` as a step that goes up, and what is above an entry is
not told by its name when there are links.

So between the two there is agreement only for what enters a name. The steps are those of the
segments that are written, in their order, and one more that stays where the last segment is
empty (`Path.steps_eq`). Without the segments that are a dot these are the segments behind the
lead that become components (`Path.behindLead_eq_written`). A `..` is a component and a step,
and neither is a name. What is left are the names, and the names on the way to an entry are
those of the path (`Path.filterMap_entrySteps`): a path that does not go up enters its names one
after the other, and goes nowhere between them.

## Where a way ends

The disk treats the last step of a path on its own, since an entry that is made, replaced or
removed need not be there. For that the way has to end in a name. It does when the last segment
is neither idle nor `..` (`Path.endsInName_of_lastSegment`), which can be seen from the text
alone, and it is so for what is made by writing a name behind a path. Then there is a way, and
the name in which it ends (`Path.exists_of_endsInName`). With no slash at the end, the way to
the entry and the steps of the path are the same (`Path.steps_eq_entrySteps`).
-/

namespace Fabula

namespace PathStep

/-- The name a step enters. -/
def name? : PathStep → Option Text
  | enter n => some n
  | up => none
  | stay => none

@[simp] theorem name?_enter (n : Text) : name? (.enter n) = some n := rfl

@[simp] theorem name?_up : name? .up = none := rfl

@[simp] theorem name?_stay : name? .stay = none := rfl

end PathStep

namespace Path

/-- The segments that are written, without those between two slashes. -/
def written (t : Text) : List Text :=
  (Text.split '/' t).filter fun s => s != []

theorem steps_go_eq {segments : List Text} (h : segments ≠ []) :
    steps.go segments = (segments.filter fun s => s != []).map steps.step ++
      (if segments.getLast h = [] then [.stay] else []) := by
  induction segments with
  | nil => exact absurd rfl h
  | cons s rest ih =>
    cases rest with
    | nil =>
      rw [steps.go]
      by_cases hs : s = [] <;> simp [hs]
    | cons s' rest =>
      rw [steps.go]
      · rw [List.getLast_cons (List.cons_ne_nil _ _), ih (List.cons_ne_nil _ _)]
        by_cases hs : s = []
        · rw [if_pos hs, List.filter_cons_of_neg (a := s) (by simp [hs])]
        · rw [if_neg hs, List.filter_cons_of_pos (a := s) (by simp [hs])]
          rfl
      · exact fun h0 => List.cons_ne_nil _ _ h0

/-- **The steps of a path** are those of the segments that are written; a last
segment that is empty asks for a folder. -/
theorem steps_eq (p : Path) : p.steps = (written p.text).map steps.step ++
    (if p.lastSegment = [] then [.stay] else []) :=
  steps_go_eq (Text.split_ne_nil _ _)

theorem steps_ne_nil (p : Path) : p.steps ≠ [] := by
  intro h
  have hw := steps_eq p
  rw [h, eq_comm, List.append_eq_nil_iff] at hw
  by_cases hl : p.lastSegment = []
  · simp [hl] at hw
  · have hmem : p.lastSegment ∈ written p.text :=
      List.mem_filter.2 ⟨List.getLast_mem _, by simpa using hl⟩
    rw [List.map_eq_nil_iff.1 hw.1] at hmem
    exact List.not_mem_nil hmem

theorem lastSegment_eq_nil_iff {p : Path} (hp : p.text ≠ []) :
    p.lastSegment = [] ↔ p.text.getLast? = some '/' := by
  obtain ⟨t⟩ := p
  constructor
  · intro h
    obtain ⟨init, x, hx⟩ := List.eq_nil_or_concat' (Text.split '/' t) |>.resolve_left
      (Text.split_ne_nil _ _)
    obtain rfl : x = [] := by
      rw [← h]
      unfold lastSegment
      simp only [hx, List.getLast_concat]
    have ht := Text.join_split '/' t
    rw [hx] at ht
    by_cases hi : init = []
    · subst hi
      exact absurd ht.symm hp
    · rw [Text.join_append _ hi (by simp), Text.join_singleton] at ht
      exact List.getLast?_eq_some_iff.2 ⟨_, ht.symm⟩
  · intro h
    obtain ⟨s, hs⟩ := List.getLast?_eq_some_iff.1 h
    obtain rfl : t = s ++ '/' :: [] := hs
    rw [lastSegment_append_slash]
    rfl

theorem entrySteps_eq {p : Path} (hp : p.text ≠ []) :
    p.entrySteps = (written p.text).map steps.step := by
  rw [entrySteps, steps_eq]
  by_cases h : p.text.getLast? = some '/'
  · rw [if_pos h, if_pos ((lastSegment_eq_nil_iff hp).2 h), List.dropLast_concat]
  · rw [if_neg h, if_neg (mt (lastSegment_eq_nil_iff hp).1 h), List.append_nil]

/-- The names of a path are among the segments behind its lead. -/
theorem names_eq (p : Path) : p.names = (behindLead p.text).filterMap Component.name? := by
  rw [names, components_eq, List.filterMap_append, names_leadComponents, List.nil_append]

/-- No name is longer than the path. -/
theorem length_le_of_mem_names {p : Path} {n : Text} (h : n ∈ p.names) :
    n.length ≤ p.text.length := by
  rw [names_eq] at h
  obtain ⟨c, hc, hn⟩ := List.mem_filterMap.1 h
  obtain ⟨s, hs, rfl⟩ := List.mem_map.1 hc
  unfold component at hn
  split at hn
  · cases hn
  · obtain rfl := Option.some.inj hn
    exact Text.length_le_of_mem_split (List.mem_of_mem_filter hs)

theorem goesUp_iff_mem_behindLead {p : Path} : p.goesUp = false ↔ .up ∉ behindLead p.text := by
  rw [goesUp_eq_false_iff, components_eq, List.mem_append, not_or]
  refine ⟨fun h => h.2, fun h => ⟨?_, h⟩⟩
  rcases lead_cases p with ⟨_, _, hl⟩ | ⟨_, hl⟩ | ⟨_, _, hl⟩ | ⟨hl, _⟩ <;>
    rw [leadComponents, hl] <;> simp

theorem behindLead_eq_written (t : Text) :
    behindLead t = ((written t).filter fun s => s != ['.']).map component := by
  rw [behindLead, written, List.filter_filter]
  congr 2
  funext s
  rw [isIdle, Bool.not_or, Bool.and_comm]
  rfl

theorem dotdot_notMem_written {p : Path} (hup : p.goesUp = false) :
    ['.', '.'] ∉ written p.text := by
  rw [goesUp_iff_mem_behindLead, behindLead_eq_written] at hup
  exact fun h => hup (List.mem_map.2 ⟨_, List.mem_filter.2 ⟨h, rfl⟩, rfl⟩)

/-- A path that does not go up has no step that does. -/
theorem up_notMem_steps {p : Path} (hup : p.goesUp = false) : .up ∉ p.steps := by
  rw [steps_eq, List.mem_append, not_or]
  constructor
  · intro h
    obtain ⟨s, hs, hstep⟩ := List.mem_map.1 h
    rw [steps.step] at hstep
    split at hstep
    · cases hstep
    · split at hstep
      · rename_i hdd
        exact dotdot_notMem_written hup (hdd ▸ hs)
      · cases hstep
  · split <;> simp

theorem up_notMem_entrySteps {p : Path} (hup : p.goesUp = false) : .up ∉ p.entrySteps := by
  rw [entrySteps]
  split
  · exact fun h => up_notMem_steps hup (List.dropLast_subset _ h)
  · exact up_notMem_steps hup

theorem filterMap_written {segments : List Text} (h : ['.', '.'] ∉ segments) :
    (segments.map steps.step).filterMap PathStep.name?
      = ((segments.filter fun s => s != ['.']).map component).filterMap Component.name? := by
  induction segments with
  | nil => rfl
  | cons s rest ih =>
    rw [List.mem_cons, not_or] at h
    rw [List.map_cons]
    by_cases hs : s = ['.']
    · subst hs
      rw [List.filter_cons_of_neg (by simp), ← ih h.2]
      rfl
    · rw [List.filter_cons_of_pos (by simpa using hs), List.map_cons,
        show steps.step s = .enter s by rw [steps.step, if_neg hs, if_neg (Ne.symm h.1)],
        show component s = .name s by rw [component, if_neg (Ne.symm h.1)],
        List.filterMap_cons_some (PathStep.name?_enter s),
        List.filterMap_cons_some (Component.name?_name s), ih h.2]

/-- **The way to an entry enters the names of the path.** -/
theorem filterMap_entrySteps {p : Path} (hup : p.goesUp = false) (hp : p.text ≠ []) :
    p.entrySteps.filterMap PathStep.name? = p.names := by
  rw [entrySteps_eq hp, filterMap_written (dotdot_notMem_written hup), ← behindLead_eq_written,
    names_eq]

theorem filterMap_steps {p : Path} (hup : p.goesUp = false) :
    p.steps.filterMap PathStep.name? = p.names := by
  rw [steps_eq, List.filterMap_append, filterMap_written (dotdot_notMem_written hup),
    ← behindLead_eq_written, ← names_eq]
  split <;> simp

/-! ## Paths that end in a name -/

/-- Where the last segment is not idle and no `..`, the path ends in that name. -/
theorem entrySteps_of_lastSegment {p : Path} (hup : p.goesUp = false)
    (h : isIdle p.lastSegment = false) :
    ∃ init, p.entrySteps = init ++ [.enter p.lastSegment] := by
  have hne := mt isIdle_iff.2 (by simpa using h)
  rw [not_or] at hne
  have hp : p.text ≠ [] := by
    intro h0
    refine hne.1 ?_
    unfold lastSegment
    simp [h0]
  have hw : written p.text ≠ [] ∧ ∀ hw, (written p.text).getLast hw = p.lastSegment := by
    obtain ⟨init, x, hx⟩ := List.eq_nil_or_concat' (Text.split '/' p.text) |>.resolve_left
      (Text.split_ne_nil _ _)
    have hxl : p.lastSegment = x := by
      unfold lastSegment
      simp only [hx, List.getLast_concat]
    have : written p.text = (init.filter fun s => s != []) ++ [x] := by
      rw [written, hx, List.filter_append, List.filter_cons_of_pos (by simpa [← hxl] using hne.1),
        List.filter_nil]
    constructor
    · simp [this]
    · intro hw
      simp only [this, List.getLast_concat, hxl]
  obtain ⟨init, x, hx⟩ := List.eq_nil_or_concat' (written p.text) |>.resolve_left hw.1
  have hxl : x = p.lastSegment := by
    rw [← hw.2 hw.1]
    simp only [hx, List.getLast_concat]
  refine ⟨init.map steps.step, ?_⟩
  have hdd : x ≠ ['.', '.'] := by
    rintro rfl
    exact dotdot_notMem_written hup (by rw [hx]; simp)
  rw [entrySteps_eq hp, hx, List.map_append, List.map_singleton, ← hxl, steps.step,
    if_neg (hxl ▸ hne.2), if_neg hdd]

theorem endsInName_of_lastSegment {p : Path} (hup : p.goesUp = false)
    (h : isIdle p.lastSegment = false) : p.endsInName = true := by
  obtain ⟨init, hi⟩ := entrySteps_of_lastSegment hup h
  rw [endsInName, hi, List.getLast?_concat]

/-- A path that ends in a name is a way and a last name. -/
theorem exists_of_endsInName {p : Path} (h : p.endsInName = true) :
    p.text ≠ [] ∧ ∃ init n, p.entrySteps = init ++ [.enter n] := by
  rw [endsInName] at h
  split at h
  · rename_i n hn
    obtain ⟨init, hi⟩ := List.getLast?_eq_some_iff.1 hn
    refine ⟨?_, init, n, hi⟩
    intro h0
    have : p.entrySteps = [.stay] := by rw [entrySteps, h0, steps, h0]; rfl
    rw [this] at hn
    simp at hn
  · cases h

theorem names_ne_nil_of_endsInName {p : Path} (hup : p.goesUp = false)
    (h : p.endsInName = true) : p.names ≠ [] := by
  obtain ⟨hp, init, n, hi⟩ := exists_of_endsInName h
  rw [← filterMap_entrySteps hup hp, hi]
  simp

/-- A path that is not empty and ends in no slash leads where its entry is. -/
theorem steps_eq_entrySteps {p : Path} (h : p.text.getLast? ≠ some '/') :
    p.steps = p.entrySteps := by
  rw [entrySteps, if_neg h]

end Path

end Fabula
