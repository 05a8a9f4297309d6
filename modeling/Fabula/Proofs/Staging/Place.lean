import Fabula.Proofs.Staging.Effect

/-!
# What is where after a scaffold

The effect of a transaction is made of layers: what is removed is cut off, the modified files
are written, and the created ones are made with the folders above them. Read at one address it
is one of few things. A staged path holds its new text (`Transaction.Sound.effect_staged`), a
created one a file, with folders above it (`Transaction.effect_created`,
`Transaction.effect_above_created`), nothing is below a removed one
(`Transaction.effect_removed`), and everywhere else is what was there before
(`Transaction.effect_elsewhere`). Each of these says in its hypotheses what must not be at the
same address, since a later layer covers an earlier one.

In a layer the files are written one after the other, and the last one at an address stands. So
it is asked that all files of a layer which are at the address have the same text, or that they
have a property in common, and the induction is over the files (`Transaction.foldl_write_eq`,
`Transaction.foldl_create_file`).

## Committing at once

A commit reads every file it is going to modify once more, before it does anything else. On the
disk on which the transaction was planned that finds nothing new, for a sound transaction has
read these files there (`Transaction.Sound.commit_eq`). A scaffold is planned and committed on
one disk, so it is run as if the commit did not look again (`Layout.run_eq_runAtOnce`). Where a
scaffold has to be run step by step, the shorter form (`Layout.runAtOnce`) is the one that is
evaluated.

Both together say how a scaffold ends. The disk holds the effect of its plan, or it is as it
was, and in both cases it stays a tree without links (`Layout.run_cases`), which is what the
next scaffold needs.
-/

namespace Fabula

namespace Transaction

open Disk (View)

variable {d : Disk} {tx : Transaction} {c : Address} {p : Path}

/-- **Writes of one text** leave it at an address, when one of them is there or the
address holds it already. -/
theorem foldl_write_eq {files : PathMap Staged} {t : Text}
    (hall : ∀ x ∈ files, d.addressOf x.1 = c → x.2.current = t) (v : View)
    (h : (∃ x ∈ files, d.addressOf x.1 = c) ∨ v c = some (.file (.text t))) :
    files.foldl (fun v x => v.write (d.addressOf x.1) x.2.current) v c
      = some (.file (.text t)) := by
  induction files generalizing v with
  | nil =>
    rcases h with ⟨x, hx, _⟩ | h
    · exact absurd hx List.not_mem_nil
    · exact h
  | cons x files ih =>
    refine ih (fun y hy => hall y (List.mem_cons_of_mem _ hy)) _ ?_
    by_cases hx : c = d.addressOf x.1
    · refine .inr ?_
      simp only [View.write, if_pos hx, hall x List.mem_cons_self hx.symm]
    · rcases h with ⟨y, hy, hyc⟩ | h
      · rcases List.mem_cons.1 hy with rfl | hy
        · exact absurd hyc.symm hx
        · exact .inl ⟨y, hy, hyc⟩
      · refine .inr ?_
        simp only [View.write, if_neg hx, h]

/-- **A file is where one is created**, when nothing is created below it. What is true of
the texts created there is true of its text. -/
theorem foldl_create_file {files : PathMap Text} {T : Text → Prop}
    (hbelow : ∀ x ∈ files, c <+: d.addressOf x.1 → d.addressOf x.1 = c)
    (htext : ∀ x ∈ files, d.addressOf x.1 = c → T x.2) (v : View)
    (h : (∃ x ∈ files, d.addressOf x.1 = c) ∨ ∃ t, T t ∧ v c = some (.file (.text t))) :
    ∃ t, T t ∧ files.foldl (fun v x => v.create (d.addressOf x.1) x.2) v c
      = some (.file (.text t)) := by
  induction files generalizing v with
  | nil =>
    rcases h with ⟨x, hx, _⟩ | h
    · exact absurd hx List.not_mem_nil
    · exact h
  | cons x files ih =>
    rw [List.foldl_cons]
    refine ih (fun y hy => hbelow y (List.mem_cons_of_mem _ hy))
      (fun y hy => htext y (List.mem_cons_of_mem _ hy)) _ ?_
    by_cases hx : c = d.addressOf x.1
    · exact .inr ⟨x.2, htext x List.mem_cons_self hx.symm, by simp [View.create, View.write, hx]⟩
    · have hpre : ¬c <+: (d.addressOf x.1).dropLast := by
        intro hpre
        exact hx (hbelow x List.mem_cons_self (hpre.trans (List.dropLast_prefix _))).symm
      have hkeep : v.create (d.addressOf x.1) x.2 c = v c := by
        simp [View.create, View.write, View.makeFolders, hx, hpre]
      rw [hkeep]
      rcases h with ⟨y, hy, hyc⟩ | h
      · rcases List.mem_cons.1 hy with rfl | hy
        · exact absurd hyc.symm hx
        · exact .inl ⟨y, hy, hyc⟩
      · exact .inr h

/-- **A folder is above what is created**, where nothing is created itself. -/
theorem foldl_create_folder {files : PathMap Text} (hne : ∀ x ∈ files, d.addressOf x.1 ≠ c)
    (v : View) (h : (∃ x ∈ files, c <+: d.addressOf x.1) ∨ v c = some .folder) :
    files.foldl (fun v x => v.create (d.addressOf x.1) x.2) v c = some .folder := by
  induction files generalizing v with
  | nil =>
    rcases h with ⟨x, hx, _⟩ | h
    · exact absurd hx List.not_mem_nil
    · exact h
  | cons x files ih =>
    rw [List.foldl_cons]
    refine ih (fun y hy => hne y (List.mem_cons_of_mem _ hy)) _ ?_
    have hx : c ≠ d.addressOf x.1 := Ne.symm (hne x List.mem_cons_self)
    by_cases hpre : c <+: (d.addressOf x.1).dropLast
    · exact .inr (by simp [View.create, View.write, View.makeFolders, hx, hpre])
    · have hkeep : v.create (d.addressOf x.1) x.2 c = v c := by
        simp [View.create, View.write, View.makeFolders, hx, hpre]
      rw [hkeep]
      rcases h with ⟨y, hy, hyc⟩ | h
      · rcases List.mem_cons.1 hy with rfl | hy
        · exact absurd (Disk.prefix_dropLast_of_ne hyc hx) hpre
        · exact .inl ⟨y, hy, hyc⟩
      · exact .inr h

/-- What is not removed is seen as it was. -/
theorem cut_of_not_removed (hremovals : ∀ r ∈ tx.removals, ¬d.addressOf r <+: c) :
    View.cut d.get? (tx.removals.map d.addressOf) c = d.get? c := by
  rw [View.cut, if_neg]
  rintro ⟨a, ha, hpre⟩
  obtain ⟨r, hr, rfl⟩ := List.mem_map.1 ha
  exact hremovals r hr hpre

/-- **A staged path holds its new text**, when nothing else is staged at its address. -/
theorem Sound.effect_staged (h : Sound d tx) (hd : d.IsPlain) {s : Staged}
    (hp : (p, s) ∈ tx.staged)
    (hstaged : ∀ x ∈ tx.staged, d.addressOf x.1 = d.addressOf p → x.2 = s)
    (hcreated : ∀ x ∈ tx.created, ¬d.addressOf p <+: d.addressOf x.1)
    (hremovals : ∀ r ∈ tx.removals, ¬d.addressOf r <+: d.addressOf p) :
    tx.effect d (d.addressOf p) = some (.file (.text s.current)) := by
  have hup := h.goesUp hd (mem_paths_of_staged hp)
  have hread := Disk.get?_of_read hd hup (h.staged p s hp)
  have hwrite : tx.modified.foldl (fun v x => v.write (d.addressOf x.1) x.2.current)
      (View.cut d.get? (tx.removals.map d.addressOf)) (d.addressOf p)
        = some (.file (.text s.current)) := by
    refine foldl_write_eq (fun x hx hxp => ?_) _ ?_
    · rw [hstaged x (List.mem_of_mem_filter hx) hxp]
    · by_cases hm : s.isModified = true
      · exact .inl ⟨(p, s), List.mem_filter.2 ⟨hp, hm⟩, rfl⟩
      · refine .inr ?_
        rw [cut_of_not_removed hremovals, hread]
        simp only [Staged.isModified, bne_iff_ne, ne_eq, not_not] at hm
        rw [hm]
  rcases foldl_create_cases (d := d) tx.created (tx.modified.foldl
      (fun v x => v.write (d.addressOf x.1) x.2.current)
      (View.cut d.get? (tx.removals.map d.addressOf))) (d.addressOf p) with
    h0 | ⟨x, hx, hxp⟩ | ⟨_, x, hx, hpre⟩
  · exact h0.trans hwrite
  · exact absurd (hxp ▸ List.prefix_refl _) (hcreated x hx)
  · exact absurd hpre (hcreated x hx)

/-- **Elsewhere is what was there.** -/
theorem effect_elsewhere (hstaged : ∀ x ∈ tx.staged, d.addressOf x.1 ≠ c)
    (hcreated : ∀ x ∈ tx.created, ¬c <+: d.addressOf x.1)
    (hremovals : ∀ r ∈ tx.removals, ¬d.addressOf r <+: c) : tx.effect d c = d.get? c := by
  rcases writes_cases tx d (View.cut d.get? (tx.removals.map d.addressOf)) c with
    h0 | ⟨x, hx, hxc⟩ | ⟨x, hx, hxc⟩ | ⟨_, x, hx, hpre⟩
  · exact h0.trans (cut_of_not_removed hremovals)
  · exact absurd hxc (hstaged x (List.mem_of_mem_filter hx))
  · exact absurd (hxc ▸ List.prefix_refl _) (hcreated x hx)
  · exact absurd hpre (hcreated x hx)

/-- **A created file is there**, when nothing is created below it. -/
theorem effect_created {x : Path × Text} (hx : x ∈ tx.created)
    (hbelow : ∀ y ∈ tx.created, d.addressOf x.1 <+: d.addressOf y.1 →
      d.addressOf y.1 = d.addressOf x.1) :
    ∃ t, tx.effect d (d.addressOf x.1) = some (.file (.text t)) := by
  obtain ⟨t, _, ht⟩ := foldl_create_file (T := fun _ => True) hbelow (fun _ _ _ => trivial) _
    (.inl ⟨x, hx, rfl⟩)
  exact ⟨t, ht⟩

/-- **A created file holds its text**, when nothing else is created there. -/
theorem effect_created_text {x : Path × Text} (hx : x ∈ tx.created)
    (hbelow : ∀ y ∈ tx.created, d.addressOf x.1 <+: d.addressOf y.1 →
      d.addressOf y.1 = d.addressOf x.1)
    (htext : ∀ y ∈ tx.created, d.addressOf y.1 = d.addressOf x.1 → y.2 = x.2) :
    tx.effect d (d.addressOf x.1) = some (.file (.text x.2)) := by
  obtain ⟨t, rfl, ht⟩ := foldl_create_file (T := (· = x.2)) hbelow htext _ (.inl ⟨x, hx, rfl⟩)
  exact ht

/-- **A folder is above what is created.** -/
theorem effect_above_created (hne : ∀ x ∈ tx.created, d.addressOf x.1 ≠ c) {x : Path × Text}
    (hx : x ∈ tx.created) (hc : c <+: d.addressOf x.1) : tx.effect d c = some .folder :=
  foldl_create_folder hne _ (.inl ⟨x, hx, hc⟩)

/-- **Nothing is below what is removed**, unless it is staged or created there. -/
theorem effect_removed (hstaged : ∀ x ∈ tx.staged, d.addressOf x.1 ≠ c)
    (hcreated : ∀ x ∈ tx.created, ¬c <+: d.addressOf x.1)
    (hp : p ∈ tx.removals) (hc : d.addressOf p <+: c) : tx.effect d c = none := by
  rcases writes_cases tx d (View.cut d.get? (tx.removals.map d.addressOf)) c with
    h0 | ⟨x, hx, hxc⟩ | ⟨x, hx, hxc⟩ | ⟨_, x, hx, hpre⟩
  · refine h0.trans ?_
    rw [View.cut, if_pos ⟨_, List.mem_map_of_mem hp, hc⟩]
  · exact absurd hxc (hstaged x (List.mem_of_mem_filter hx))
  · exact absurd (hxc ▸ List.prefix_refl _) (hcreated x hx)
  · exact absurd hpre (hcreated x hx)

/-! ## Committing at once -/

/-- What was read has not changed. -/
theorem checkUnchanged_eq_ok {files : PathMap Staged} (scaffold : Text)
    (h : ∀ x ∈ files, d.read x.1 = .ok x.2.original) :
    checkUnchanged d scaffold files = .ok () := by
  induction files with
  | nil => rfl
  | cons x files ih =>
    obtain ⟨p, file⟩ := x
    rw [checkUnchanged, h (p, file) List.mem_cons_self]
    show (if fingerprint file.original = fingerprint file.original then _ else _) = _
    rw [if_pos rfl]
    exact ih fun y hy => h y (List.mem_cons_of_mem _ hy)

/-- **Commits without looking again** at the files that are going to be modified. -/
def commitAtOnce (tx : Transaction) (scaffold : Text) (d : Disk) : Outcome Report × Disk :=
  match d.moveAllAside (tx.reserved d) tx.removals with
  | (.error f, d) => (.within (.movingAside scaffold) (.error f), d)
  | (.ok moved, d) =>
    match tx.writeOut d with
    | (.error f, d) => (.within (.applying scaffold) (.error f), d.restore moved)
    | (.ok (), d) => (.ok (tx.report scaffold false), d.purge moved)

/-- **On the disk it was planned on**, a transaction need not look again. -/
theorem Sound.commit_eq (h : Sound d tx) (scaffold : Text) :
    tx.commit scaffold d = tx.commitAtOnce scaffold d := by
  have hunchanged := checkUnchanged_eq_ok scaffold fun x (hx : x ∈ tx.modified) =>
    h.staged x.1 x.2 (List.mem_of_mem_filter hx)
  unfold commit
  rw [hunchanged]
  rfl

end Transaction

namespace Layout

variable {d : Disk}

/-- **Runs a scaffold and commits at once** what it planned. -/
def runAtOnce (l : Layout) (s : Scaffold) (d : Disk) : Outcome Report × Disk :=
  match l.checkTargets d (s.targets l) with
  | .error f => (.error f, d)
  | .ok () =>
    match s.plan d { layout := l, targets := s.targets l } with
    | .error f => (.within (.planning s.name) (.error f), d)
    | .ok tx => tx.commitAtOnce s.name d

/-- **Between planning and committing nothing happens**, so a scaffold is run as if it
committed at once. -/
theorem run_eq_runAtOnce (l : Layout) {s : Scaffold}
    (hplan : ∀ d tx tx', s.plan d tx = .ok tx' → ∃ cs, Calls d tx cs tx') (d : Disk) :
    l.run .apply s d = l.runAtOnce s d := by
  unfold run runPlan runAtOnce
  cases l.checkTargets d (s.targets l) with
  | error f => rfl
  | ok u =>
    cases htx : s.plan d { layout := l, targets := s.targets l } with
    | error f => simp only [htx]
    | ok tx =>
      obtain ⟨cs, hcs⟩ := hplan d _ tx htx
      have hsound := (Transaction.Sound.init d l (s.targets l)).calls hcs
      simp only [htx]
      exact hsound.commit_eq s.name

/-- **Running a scaffold** leaves the effect of its plan, or the disk as it was. -/
theorem run_cases (l : Layout) (hd : d.IsPlain) {s : Scaffold}
    (hplan : ∀ d tx tx', s.plan d tx = .ok tx' → ∃ cs, Calls d tx cs tx') :
    match l.run .apply s d with
    | (.ok _, d') => d'.IsPlain ∧ d'.cwd = d.cwd ∧ ∃ tx, Transaction.Sound d tx ∧
        s.plan d { layout := l, targets := s.targets l } = .ok tx ∧ d'.get? = tx.effect d
    | (.error _, d') => d'.IsPlain ∧ d'.Same d := by
  have hcalls : LivePlan.MakesCalls fun d tx => (s.plan d tx, d) := ⟨fun _ _ => rfl, hplan⟩
  cases hrun : l.run .apply s d with
  | mk r d' =>
    rcases hcalls.runPlan_cases hrun with ⟨⟨f, rfl⟩, rfl⟩ | ⟨cs, tx, _, htx, hcs, hcommit⟩
    · exact ⟨hd, .refl d'⟩
    · have hsound := (Transaction.Sound.init d l (s.targets l)).calls hcs
      cases r with
      | error f => exact hsound.commit_failed_same hd hcommit
      | ok report =>
        obtain ⟨_, hplain, hcwd, hview⟩ := hsound.commit_effect hd hcommit
        exact ⟨hplain, hcwd, tx, hsound, htx, hview⟩

end Layout

end Fabula
