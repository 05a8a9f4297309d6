import Fabula.Proofs.Disk.Lexical
import Fabula.Proofs.Path.Ways

/-!
# Where a path leads when there are links

On a tree with links the address of a path is not told by its names. A name may be that of a
link, which is replaced by the way of its target, that way may go up and lead through further
links, and forty links are followed and no more. What can be said of every tree is how a walk
goes on from its parts.

`Disk.walk` is a recursion on the number of links, and inside it one on the steps, where
following a link starts over with other steps. An induction on it would have to be set up in the
same way each time. `Disk.Walks` says the same as a relation, with a constructor for each step
that a walk can take, and a walk succeeds if and only if it holds (`Disk.walk_eq_ok_iff`). Every
later proof is an induction on the relation, in which each case has one step to deal with.

## One walk behind another

A walk over two ways is a walk over the one, to something that exists, and a walk from there
over the other (`Disk.Walks.split`). The first walk has to end at something that exists, be the
whole looking for an entry or not, because its end is not the end of the whole: a link there is
followed, and a missing name is an error. The number of links that is left for the second walk
is not the same, but it does not matter for where a walk ends (`Disk.Walks.unique`).

This is what makes it possible to compare a path with the path above it. The way of a path is
the way of the path above and then a name, so the folder that the path above leads to is the
folder of the entry which the path names (`Disk.Walks.of_enter_entry`). Where the name is that
of a link, the entry is the link, and what the path leads to is something else, possibly outside
of that folder (`Disk.Walks.of_enter_existing`).

## What is there

A walk to something that exists ends at an entry of the disk (`Disk.Walks.ne_none`); and where a
path leads to something, there is also an entry which it names
(`Disk.Walks.ne_none_of_existing`). The converse is not true, for a link may lead to nothing.
-/

namespace Fabula

namespace Disk

/-- **A walk that succeeds.** `links` more links may be followed on it. -/
inductive Walks (d : Disk) (ending : Ending) :
    ℕ → Address → List PathStep → Address → Prop
  | done {links : ℕ} {a : Address} : Walks d ending links a [] a
  | stay {links : ℕ} {a b : Address} {s : List PathStep} (ha : d.get? a = some .folder)
      (h : Walks d ending links a s b) : Walks d ending links a (.stay :: s) b
  | up {links : ℕ} {a b : Address} {s : List PathStep} (ha : d.get? a = some .folder)
      (h : Walks d ending links a.dropLast s b) : Walks d ending links a (.up :: s) b
  /-- The last name may be missing, unless something has to exist. -/
  | missing {links : ℕ} {a : Address} {n : Text} (ha : d.get? a = some .folder)
      (hn : d.get? (a ++ [n]) = none) (he : ending ≠ .existing) :
      Walks d ending links a [.enter n] (a ++ [n])
  | enter {links : ℕ} {a b : Address} {n : Text} {e : Entry} {s : List PathStep}
      (ha : d.get? a = some .folder) (hn : d.get? (a ++ [n]) = some e) (he : ∀ t, e ≠ .link t)
      (h : Walks d ending links (a ++ [n]) s b) : Walks d ending links a (.enter n :: s) b
  /-- The last name is the entry itself, when an entry is looked for. -/
  | entry {links : ℕ} {a : Address} {n : Text} {t : Path} (ha : d.get? a = some .folder)
      (hn : d.get? (a ++ [n]) = some (.link t)) (he : ending = .entry) :
      Walks d ending links a [.enter n] (a ++ [n])
  | link {links : ℕ} {a b : Address} {n : Text} {t : Path} {s : List PathStep}
      (ha : d.get? a = some .folder) (hn : d.get? (a ++ [n]) = some (.link t))
      (he : ¬(s = [] ∧ ending = .entry)) (ht : t.text ≠ [])
      (h : Walks d ending links (if t.isAbsolute then [] else a) (t.steps ++ s) b) :
      Walks d ending (links + 1) a (.enter n :: s) b

variable {d : Disk} {ending : Ending} {links links' : ℕ} {a b c : Address} {n : Text}
  {s s' : List PathStep}

/-! ## One step of a walk -/

/-- A link that is the entry looked for is not followed. -/
theorem walk_enter_of_link_last {t : Path} (ha : d.get? a = some .folder)
    (hn : d.get? (a ++ [n]) = some (.link t)) (he : s = [] ∧ ending = .entry) :
    d.walk ending links a (.enter n :: s) = .ok (a ++ [n]) := by
  obtain ⟨link, hw⟩ := exists_walkWith d ending links
  rw [hw, walkWith, isFolderAt_iff.2 ha]
  simp only [hn, if_pos he]
  rfl

theorem walk_enter_of_link_zero {t : Path} (ha : d.get? a = some .folder)
    (hn : d.get? (a ++ [n]) = some (.link t)) (he : ¬(s = [] ∧ ending = .entry)) :
    d.walk ending 0 a (.enter n :: s) = .error .tooManyLinks := by
  rw [walk, walkWith, isFolderAt_iff.2 ha]
  simp only [hn, if_neg he]
  rfl

/-- **A link is followed** from the folder it is in. -/
theorem walk_enter_of_link_succ {t : Path} (ha : d.get? a = some .folder)
    (hn : d.get? (a ++ [n]) = some (.link t)) (he : ¬(s = [] ∧ ending = .entry)) :
    d.walk ending (links + 1) a (.enter n :: s) = if t.text = [] then .error .notFound
      else d.walk ending links (if t.isAbsolute then [] else a) (t.steps ++ s) := by
  rw [walk, walkWith, isFolderAt_iff.2 ha]
  simp only [hn, if_neg he]
  rfl

theorem Walks.walk_eq (h : d.Walks ending links a s b) : d.walk ending links a s = .ok b := by
  induction h with
  | done => exact walk_nil _ _ _ _
  | stay ha _ ih => rw [walk_stay, if_pos ha, ih]
  | up ha _ ih => rw [walk_up, if_pos ha, ih]
  | missing ha hn he => rw [walk_enter_of_none ha hn, if_pos ⟨rfl, he⟩]
  | enter ha hn he _ ih => rw [walk_enter_of_ne_link ha hn he, ih]
  | entry ha hn he => rw [walk_enter_of_link_last ha hn ⟨rfl, he⟩]
  | link ha hn he ht _ ih => rw [walk_enter_of_link_succ ha hn he, if_neg ht, ih]

/-- **A walk succeeds when its steps can be taken.** -/
theorem walk_eq_ok_iff : d.walk ending links a s = .ok b ↔ d.Walks ending links a s b := by
  refine ⟨fun h => ?_, Walks.walk_eq⟩
  -- by induction on the links that may be followed, and for each number of them on the steps
  induction links using Nat.strong_induction_on generalizing a s with
  | h links ihlinks =>
  induction s generalizing a with
  | nil =>
    rw [walk_nil] at h
    obtain rfl := Except.ok.inj h
    exact .done
  | cons step s ih =>
    by_cases ha : d.get? a = some .folder
    · cases step with
      | stay =>
        rw [walk_stay, if_pos ha] at h
        exact .stay ha (ih h)
      | up =>
        rw [walk_up, if_pos ha] at h
        exact .up ha (ih h)
      | enter n =>
        cases hn : d.get? (a ++ [n]) with
        | none =>
          rw [walk_enter_of_none ha hn] at h
          split at h
          · rename_i hs
            obtain ⟨rfl, he⟩ := hs
            obtain rfl := Except.ok.inj h
            exact .missing ha hn he
          · cases h
        | some e =>
          by_cases he : ∀ t, e ≠ .link t
          · rw [walk_enter_of_ne_link ha hn he] at h
            exact .enter ha hn he (ih h)
          · push Not at he
            obtain ⟨t, rfl⟩ := he
            by_cases hlast : s = [] ∧ ending = .entry
            · rw [walk_enter_of_link_last ha hn hlast] at h
              obtain ⟨rfl, he⟩ := hlast
              obtain rfl := Except.ok.inj h
              exact .entry ha hn he
            · cases links with
              | zero =>
                rw [walk_enter_of_link_zero ha hn hlast] at h
                cases h
              | succ links =>
                rw [walk_enter_of_link_succ ha hn hlast] at h
                split at h
                · cases h
                · exact .link ha hn hlast ‹_› (ihlinks links (Nat.lt_succ_self _) h)
    · rw [walk_cons_of_ne ha] at h
      cases h

theorem follow_eq_ok_iff_walks {p : Path} : d.follow p = .ok b ↔
    p.text ≠ [] ∧ d.Walks .existing maxLinks (d.startOf p) p.steps b := by
  rw [follow, ← walk_eq_ok_iff]
  by_cases hp : p.text = [] <;> simp [hp]

theorem entryAddress_eq_ok_iff_walks {p : Path} : d.entryAddress p = .ok b ↔
    p.text ≠ [] ∧ d.Walks .entry maxLinks (d.startOf p) p.way b := by
  rw [entryAddress, ← walk_eq_ok_iff]
  by_cases hp : p.text = []
  · simp [hp]
  · rw [Path.entrySteps_eq_way hp]
    simp [hp]

namespace Walks

/-- **A walk ends in one place**, however many links may be followed. -/
theorem unique (h : d.Walks ending links a s b) (h' : d.Walks ending links' a s c) : b = c := by
  induction h generalizing links' with
  | done =>
    cases h'
    rfl
  | stay _ _ ih =>
    cases h' with
    | stay _ h' => exact ih h'
  | up _ _ ih =>
    cases h' with
    | up _ h' => exact ih h'
  | missing _ hn _ =>
    cases h' with
    | missing => rfl
    | enter _ hn' => rw [hn] at hn'; cases hn'
    | entry => rfl
    | link _ hn' => rw [hn] at hn'; cases hn'
  | enter _ hn he _ ih =>
    cases h' with
    | missing _ hn' => rw [hn] at hn'; cases hn'
    | enter _ _ _ h' => exact ih h'
    | entry _ hn' => exact absurd (Option.some.inj (hn.symm.trans hn')) (he _)
    | link _ hn' => exact absurd (Option.some.inj (hn.symm.trans hn')) (he _)
  | entry _ hn he =>
    cases h' with
    | missing => rfl
    | enter _ hn' he' => exact absurd (Option.some.inj (hn'.symm.trans hn)) (he' _)
    | entry => rfl
    | link _ _ he' => exact absurd ⟨rfl, he⟩ he'
  | link _ hn he _ _ ih =>
    cases h' with
    | missing _ hn' => rw [hn] at hn'; cases hn'
    | enter _ hn' he' => exact absurd (Option.some.inj (hn'.symm.trans hn)) (he' _)
    | entry _ _ he' => exact absurd ⟨rfl, he'⟩ he
    | link _ hn' _ _ h' =>
      obtain rfl := Entry.link.inj (Option.some.inj (hn.symm.trans hn'))
      exact ih h'

/-- **A walk over two ways** is a walk over the one, to something that exists, and a walk from
there over the other. -/
theorem split (h : d.Walks ending links a (s ++ s') c) (hs' : s' ≠ []) :
    ∃ b links', d.Walks .existing links a s b ∧ d.Walks ending links' b s' c := by
  generalize hu : s ++ s' = u at h
  induction h generalizing s with
  | done => exact absurd (List.append_eq_nil_iff.1 hu).2 hs'
  | stay ha h ih =>
    cases s with
    | nil =>
      obtain rfl : s' = _ := hu
      exact ⟨_, _, .done, .stay ha h⟩
    | cons step s =>
      obtain ⟨rfl, rfl⟩ := List.cons_eq_cons.1 hu
      obtain ⟨b, links', h₁, h₂⟩ := ih rfl
      exact ⟨b, links', .stay ha h₁, h₂⟩
  | up ha h ih =>
    cases s with
    | nil =>
      obtain rfl : s' = _ := hu
      exact ⟨_, _, .done, .up ha h⟩
    | cons step s =>
      obtain ⟨rfl, rfl⟩ := List.cons_eq_cons.1 hu
      obtain ⟨b, links', h₁, h₂⟩ := ih rfl
      exact ⟨b, links', .up ha h₁, h₂⟩
  | @missing links _ _ ha hn he =>
    cases s with
    | nil =>
      obtain rfl : s' = _ := hu
      exact ⟨_, links, .done, .missing ha hn he⟩
    | cons step s => exact absurd (List.append_eq_nil_iff.1 (List.cons_eq_cons.1 hu).2).2 hs'
  | enter ha hn he h ih =>
    cases s with
    | nil =>
      obtain rfl : s' = _ := hu
      exact ⟨_, _, .done, .enter ha hn he h⟩
    | cons step s =>
      obtain ⟨rfl, rfl⟩ := List.cons_eq_cons.1 hu
      obtain ⟨b, links', h₁, h₂⟩ := ih rfl
      exact ⟨b, links', .enter ha hn he h₁, h₂⟩
  | @entry links _ _ _ ha hn he =>
    cases s with
    | nil =>
      obtain rfl : s' = _ := hu
      exact ⟨_, links, .done, .entry ha hn he⟩
    | cons step s => exact absurd (List.append_eq_nil_iff.1 (List.cons_eq_cons.1 hu).2).2 hs'
  | @link links a c n t s₁ ha hn he ht h ih =>
    cases s with
    | nil =>
      obtain rfl : s' = _ := hu
      exact ⟨_, _, .done, .link ha hn he ht h⟩
    | cons step s =>
      obtain ⟨rfl, rfl⟩ := List.cons_eq_cons.1 hu
      obtain ⟨b, links', h₁, h₂⟩ := ih (s := t.steps ++ s) (List.append_assoc _ _ _)
      exact ⟨b, links', .link ha hn (fun h0 => by cases h0.2) ht h₁, h₂⟩

/-- The first step is taken from a folder. -/
theorem folder (h : d.Walks ending links a s b) (hs : s ≠ []) : d.get? a = some .folder := by
  cases h with
  | done => exact absurd rfl hs
  | stay ha _ => exact ha
  | up ha _ => exact ha
  | missing ha _ _ => exact ha
  | enter ha _ _ _ => exact ha
  | entry ha _ _ => exact ha
  | link ha _ _ _ _ => exact ha

/-- Going nowhere is left out. -/
theorem of_stays {k : ℕ} (h : d.Walks ending links a (List.replicate k .stay ++ s) b) :
    d.Walks ending links a s b := by
  induction k with
  | zero => exact h
  | succ k ih =>
    cases h with
    | stay _ h => exact ih h

/-- **An entry of a folder** is told by the folder and its name. -/
theorem of_enter_entry (h : d.Walks .entry links a [.enter n] b) :
    b = a ++ [n] ∧ d.get? a = some .folder := by
  cases h with
  | missing ha _ _ => exact ⟨rfl, ha⟩
  | enter ha _ _ h =>
    cases h
    exact ⟨rfl, ha⟩
  | entry ha _ _ => exact ⟨rfl, ha⟩
  | link _ _ he _ _ => exact absurd ⟨rfl, rfl⟩ he

/-- An entry that is missing is told by its folder and its name, too. -/
theorem of_enter_missing {l : ℕ} (h : d.Walks .entry links a (.enter n :: s) b)
    (hs : s = List.replicate l .stay) (hb : d.get? b = none) :
    b = a ++ [n] ∧ d.get? a = some .folder := by
  -- behind the name it would have to be a folder
  have hnil : s = [] := by
    by_contra hne
    rw [← List.singleton_append] at h
    obtain ⟨c, links', _, h₂⟩ := h.split hne
    have hc := h₂.folder hne
    rw [hs, ← List.append_nil (List.replicate l _)] at h₂
    cases h₂.of_stays
    rw [hb] at hc
    cases hc
  rw [hnil] at h
  exact h.of_enter_entry

/-- What exists is at its name, unless that is a link. -/
theorem of_enter_existing {l : ℕ} (h : d.Walks .existing links a (.enter n :: s) b)
    (hs : s = List.replicate l .stay) :
    (∃ t, d.get? (a ++ [n]) = some (.link t)) ∨ b = a ++ [n] := by
  cases h with
  | missing _ _ he => exact absurd rfl he
  | enter _ _ _ h =>
    rw [hs, ← List.append_nil (List.replicate l _)] at h
    cases h.of_stays
    exact .inr rfl
  | entry _ hn _ => exact .inl ⟨_, hn⟩
  | link _ hn _ _ _ => exact .inl ⟨_, hn⟩

/-- A walk to a folder asks for a folder as well. -/
theorem concat_stay (h : d.Walks .existing links a s b) (hb : d.get? b = some .folder) :
    d.Walks .existing links a (s ++ [.stay]) b := by
  induction h with
  | done => exact .stay hb .done
  | stay ha _ ih => exact .stay ha (ih hb)
  | up ha _ ih => exact .up ha (ih hb)
  | missing _ _ he => exact absurd rfl he
  | enter ha hn he _ ih => exact .enter ha hn he (ih hb)
  | entry _ _ he => cases he
  | link ha hn he ht _ ih =>
    have ih := ih hb
    rw [List.append_assoc] at ih
    exact .link ha hn (fun h0 => by cases h0.2) ht ih

/-- Names of folders lead from one to the next. -/
theorem enters_iff (hd : d.IsTree) {ns : List Text} (h : d.get? (a ++ ns) = some .folder) :
    d.Walks ending links a (ns.map .enter ++ s) b ↔ d.Walks ending links (a ++ ns) s b := by
  induction ns generalizing a with
  | nil => rw [List.append_nil, List.map_nil, List.nil_append]
  | cons n ns ih =>
    have ha : d.get? a = some .folder := hd.folder_of_folder (List.prefix_append a _) h
    rw [List.append_cons] at h ⊢
    have hn : d.get? (a ++ [n]) = some .folder := hd.folder_of_folder (List.prefix_append _ ns) h
    rw [← ih h, List.map_cons, List.cons_append]
    constructor
    · intro hw
      rw [← walk_eq_ok_iff, walk_enter_of_ne_link ha hn (by simp), walk_eq_ok_iff] at hw
      exact hw
    · exact .enter ha hn (by simp)

/-- **A walk to something that exists** leads to something. -/
theorem ne_none (hd : d.IsTree) (h : d.Walks .existing links a s b) (ha : d.get? a ≠ none) :
    d.get? b ≠ none := by
  induction h with
  | done => exact ha
  | stay _ _ ih => exact ih ha
  | @up _ a _ _ hf _ ih =>
    refine ih ?_
    rw [hd.folder_of_folder (List.dropLast_prefix a) hf]
    simp
  | missing _ _ he => exact absurd rfl he
  | enter _ hn _ _ ih => exact ih (by simp [hn])
  | entry _ _ he => cases he
  | @link _ a _ _ t _ hf _ _ _ _ ih =>
    refine ih ?_
    split
    · simp
    · exact ha

/-- **Where something exists, an entry is found.** -/
theorem ne_none_of_existing (hd : d.IsTree) (h : d.Walks .entry links a s b)
    (h' : d.Walks .existing links' a s c) (ha : d.get? a ≠ none) : d.get? b ≠ none := by
  induction h generalizing links' with
  | done => exact ha
  | stay _ _ ih =>
    cases h' with
    | stay _ h' => exact ih h' ha
  | @up _ a _ _ hf _ ih =>
    cases h' with
    | up _ h' =>
      refine ih h' ?_
      rw [hd.folder_of_folder (List.dropLast_prefix a) hf]
      simp
  | missing _ hn _ =>
    cases h' with
    | missing _ _ he => exact absurd rfl he
    | enter _ hn' => rw [hn] at hn'; cases hn'
    | entry _ hn' => rw [hn] at hn'; cases hn'
    | link _ hn' => rw [hn] at hn'; cases hn'
  | enter _ hn he _ ih =>
    cases h' with
    | missing _ _ he => exact absurd rfl he
    | enter _ _ _ h' => exact ih h' (by simp [hn])
    | entry _ hn' => exact absurd (Option.some.inj (hn.symm.trans hn')) (he _)
    | link _ hn' => exact absurd (Option.some.inj (hn.symm.trans hn')) (he _)
  | entry _ hn _ => simp [hn]
  | @link _ a _ _ t _ hf hn _ _ _ ih =>
    cases h' with
    | missing _ _ he => exact absurd rfl he
    | enter _ hn' he' => exact absurd (Option.some.inj (hn'.symm.trans hn)) (he' _)
    | entry _ _ he => cases he
    | link _ hn' _ _ h' =>
      obtain rfl := Entry.link.inj (Option.some.inj (hn.symm.trans hn'))
      refine ih h' ?_
      split
      · simp
      · exact ha

end Walks

/-! ## Paths and ways -/

/-- A path is followed on its way. -/
theorem walks_of_follow {p : Path} (h : d.follow p = .ok b) :
    p.text ≠ [] ∧ d.Walks .existing maxLinks (d.startOf p) p.way b := by
  obtain ⟨hp, hw⟩ := follow_eq_ok_iff_walks.1 h
  refine ⟨hp, ?_⟩
  rw [Path.steps_eq_way] at hw
  split at hw
  · obtain ⟨c, _, h₁, h₂⟩ := hw.split (by simp)
    cases h₂ with
    | stay _ h₂ =>
      cases h₂
      exact h₁
  · rwa [List.append_nil] at hw

/-- What a path leads to is there. -/
theorem ne_none_of_follow (hd : d.IsTree) {p : Path} (h : d.follow p = .ok b) :
    d.get? b ≠ none := by
  obtain ⟨_, hw⟩ := follow_eq_ok_iff_walks.1 h
  refine hw.ne_none hd ?_
  rw [hw.folder (Path.steps_ne_nil p)]
  simp

/-- A way to a folder is a path to it, whether or not the path asks for a folder. -/
theorem follow_of_walks {p : Path} (hp : p.text ≠ []) (hb : d.get? b = some .folder)
    (h : d.Walks .existing maxLinks (d.startOf p) p.way b) : d.follow p = .ok b := by
  refine follow_eq_ok_iff_walks.2 ⟨hp, ?_⟩
  rw [Path.steps_eq_way]
  split
  · exact h.concat_stay hb
  · rwa [List.append_nil]

/-- **A path seen from the root** leads where the path leads, when it starts from a folder. -/
theorem walks_absolute_iff (hd : d.IsTree) {p : Path}
    (hstart : d.get? (d.startOf p) = some .folder) :
    d.Walks ending links [] (d.absolute p).way b ↔
      d.Walks ending links (d.startOf p) p.way b := by
  rw [startOf] at hstart ⊢
  cases hp : p.isAbsolute with
  | true =>
    rw [absolute_of_isAbsolute hp]
    rfl
  | false =>
    rw [hp, if_neg (by simp)] at hstart
    rw [Path.way_absolute hd.cwd_names hp, Walks.enters_iff (a := []) hd hstart]
    rfl

end Disk

end Fabula
