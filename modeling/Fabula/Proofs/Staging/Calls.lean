import Fabula.Proofs.Outcome
import Fabula.Proofs.Staging.PathMap
import Fabula.Staging.Script

/-!
# What calls stage

A plan is any sequence of calls of a transaction, each of which may depend on the answers so
far. A plan in this sense is a function, and nothing can be said of it by induction. But every
plan that succeeds has made some list of calls (`LivePlan.MakesCalls`), and what a list of calls
leaves can be followed call by call. So everything that is said of plans in the following is
said of lists of calls.

## One call

What one call can do to a transaction is said once (`Call.Stages`), with one case for each way
in which a call changes anything: a text is read, an edited text takes the place of a staged one
or of a created one, a file is created, a path is removed, or nothing is changed. Each case
lists what was found on the disk and in the transaction before. A call that succeeds is one of
these (`Call.stages_of_run`), which is proved along the definition and is the only place where
it is opened.

## All calls

A transaction is sound when it fits the disk (`Transaction.Sound`): its paths have passed the
check, what is staged was read at its path, what is created is created where nothing is going to
be, and what is removed is there. Both maps are in order. An empty transaction is sound, and
each case of a call keeps it so (`Transaction.Sound.stages`). Therefore, by induction, every
plan leaves a sound transaction (`Transaction.Sound.calls`). The disk stays the same meanwhile,
since calls only read it. That is part of what making calls means.

A plan either fails, and then nothing was done, or ends with a sound transaction that is
committed (`LivePlan.MakesCalls.runPlan_cases`). What a commit does is then a question about
sound transactions.
-/

namespace Fabula

/-- **Calls made one after the other**, all of which succeed. -/
inductive Calls (d : Disk) : Transaction → List Call → Transaction → Prop
  | nil (tx : Transaction) : Calls d tx [] tx
  | cons {tx tx₁ tx₂ : Transaction} {c : Call} {cs : List Call} {answer : Answer}
      (h : c.run d tx = .ok (answer, tx₁)) (hs : Calls d tx₁ cs tx₂) : Calls d tx (c :: cs) tx₂

/-- **A plan that makes calls** and leaves the disk alone. Which calls it makes may
depend on the disk and on what they answer. -/
structure LivePlan.MakesCalls (plan : LivePlan) : Prop where
  disk_eq : ∀ d tx, (plan d tx).2 = d
  calls : ∀ d tx tx', (plan d tx).1 = .ok tx' → ∃ cs, Calls d tx cs tx'

/-- **Any list of calls is a plan that makes calls.** -/
theorem Move.makesCalls (cs : List Call) : LivePlan.MakesCalls (Move.plan (cs.map Move.call)) := by
  have hrun : ∀ d tx, (∀ tx', (Move.runAll d tx (cs.map Move.call)).2.1 = .ok tx' → Calls d tx cs tx') ∧
      (Move.runAll d tx (cs.map Move.call)).2.2 = d := by
    intro d tx
    induction cs generalizing tx with
    | nil =>
      refine ⟨fun tx' h => ?_, rfl⟩
      obtain rfl := Except.ok.inj h
      exact .nil _
    | cons c cs ih =>
      rw [List.map_cons, Move.runAll, Move.run]
      cases hc : c.run d tx with
      | error f =>
        refine ⟨fun tx' h => ?_, rfl⟩
        cases h
      | ok r =>
        obtain ⟨answer, tx₁⟩ := r
        exact ⟨fun tx' h => .cons hc ((ih tx₁).1 tx' h), (ih tx₁).2⟩
  exact ⟨fun d tx => (hrun d tx).2, fun d tx tx' h => ⟨cs, (hrun d tx).1 tx' h⟩⟩

/-! ## What one call does -/

/-- **What a call stages.** -/
inductive Call.Stages (d : Disk) (tx : Transaction) : Call → Transaction → Prop
  | exists (p : Path) : Stages d tx (.exists p) tx
  /-- A text that is known already is not read again. -/
  | readKnown {p : Path} (hc : tx.check d p = .ok ()) : Stages d tx (.read p) tx
  | readNew {p : Path} {t : Text} (hc : tx.check d p = .ok ()) (hcr : tx.created.find? p = none)
      (hst : tx.staged.find? p = none) (hr : d.read p = .ok t) :
      Stages d tx (.read p) { tx with staged := tx.staged.insert p ⟨t, t⟩ }
  | updateCreated {p : Path} {patch : Text → Outcome Text} {t t' : Text}
      (hc : tx.check d p = .ok ()) (hcr : tx.created.find? p = some t) (hp : patch t = .ok t') :
      Stages d tx (.update p patch) { tx with created := tx.created.insert p t' }
  | updateStaged {p : Path} {patch : Text → Outcome Text} {s : Staged} {t' : Text}
      (hc : tx.check d p = .ok ()) (hcr : tx.created.find? p = none)
      (hst : tx.staged.find? p = some s) (hp : patch s.current = .ok t') :
      Stages d tx (.update p patch)
        { tx with staged := tx.staged.insert p { s with current := t' } }
  | updateNew {p : Path} {patch : Text → Outcome Text} {t t' : Text}
      (hc : tx.check d p = .ok ()) (hcr : tx.created.find? p = none)
      (hst : tx.staged.find? p = none) (hr : d.read p = .ok t) (hp : patch t = .ok t') :
      Stages d tx (.update p patch)
        { tx with staged := (tx.staged.insert p ⟨t, t⟩).insert p ⟨t, t'⟩ }
  | create {p : Path} {t : Text} (hc : tx.check d p = .ok ()) (he : tx.pathExists d p = false) :
      Stages d tx (.create p t) { tx with created := tx.created.insert p t }
  | deleteFile {p : Path} (hc : tx.check d p = .ok ()) (hf : d.isFile p = true) :
      Stages d tx (.deleteFile p) { tx with removals := tx.removals ++ [p] }
  | deleteFolder {p : Path} (hc : tx.check d p = .ok ()) (hf : d.isFolder p = true) :
      Stages d tx (.deleteFolder p) { tx with removals := tx.removals ++ [p] }

namespace Transaction

variable {d : Disk} {tx tx' : Transaction} {p : Path}

/-- What reading a text does. -/
theorem of_read {t : Text} (h : tx.read d p = .ok (t, tx')) : tx.check d p = .ok () ∧
    ((tx' = tx ∧ tx.created.find? p = some t) ∨
     (tx' = tx ∧ tx.created.find? p = none ∧ ∃ s, tx.staged.find? p = some s ∧ t = s.current) ∨
     (tx.created.find? p = none ∧ tx.staged.find? p = none ∧ d.read p = .ok t ∧
        tx' = { tx with staged := tx.staged.insert p ⟨t, t⟩ })) := by
  rw [read, Outcome.bind_eq_ok] at h
  obtain ⟨_, hc, h⟩ := h
  refine ⟨hc, ?_⟩
  cases hcr : tx.created.find? p with
  | some t₁ =>
    rw [hcr] at h
    obtain ⟨rfl, rfl⟩ := Prod.mk.inj (Outcome.pure_eq_ok.1 h)
    exact .inl ⟨rfl, rfl⟩
  | none =>
    cases hst : tx.staged.find? p with
    | some s =>
      rw [hcr, hst] at h
      obtain ⟨rfl, rfl⟩ := Prod.mk.inj (Outcome.pure_eq_ok.1 h)
      exact .inr (.inl ⟨rfl, rfl, s, rfl, rfl⟩)
    | none =>
      rw [hcr, hst] at h
      obtain ⟨t₁, hr, h⟩ := Outcome.bind_eq_ok.1 h
      rw [Outcome.within_eq_ok, Outcome.ofDisk_eq_ok] at hr
      obtain ⟨rfl, rfl⟩ := Prod.mk.inj (Outcome.pure_eq_ok.1 h)
      exact .inr (.inr ⟨rfl, rfl, hr, rfl⟩)

end Transaction

/-- **One call stages what it stages**, or fails. -/
theorem Call.stages_of_run {d : Disk} {tx tx' : Transaction} {c : Call} {answer : Answer}
    (h : c.run d tx = .ok (answer, tx')) : c.Stages d tx tx' := by
  cases c with
  | read p =>
    obtain ⟨⟨t, tx₁⟩, hr, h⟩ := Outcome.bind_eq_ok.1 h
    obtain ⟨_, rfl⟩ := Prod.mk.inj (Outcome.pure_eq_ok.1 h)
    obtain ⟨hc, ⟨rfl, _⟩ | ⟨rfl, _⟩ | ⟨hcr, hst, hd, rfl⟩⟩ := Transaction.of_read hr
    · exact .readKnown hc
    · exact .readKnown hc
    · exact .readNew hc hcr hst hd
  | «exists» p =>
    obtain ⟨_, rfl⟩ := Prod.mk.inj (Outcome.pure_eq_ok.1 h)
    exact .exists p
  | update p patch =>
    obtain ⟨tx₂, hu, h⟩ := Outcome.bind_eq_ok.1 h
    obtain ⟨_, rfl⟩ := Prod.mk.inj (Outcome.pure_eq_ok.1 h)
    obtain ⟨⟨t, tx₁⟩, hr, hpatch⟩ := Outcome.bind_eq_ok.1 hu
    obtain ⟨t', hp, hstage⟩ := Outcome.bind_eq_ok.1 hpatch
    rw [Outcome.within_eq_ok] at hp
    obtain ⟨hc, ⟨rfl, hcr⟩ | ⟨rfl, hcr, s, hst, rfl⟩ | ⟨hcr, hst, hd, rfl⟩⟩ :=
      Transaction.of_read hr
    · simp only [PathMap.holds, hcr] at hstage
      obtain rfl := Outcome.pure_eq_ok.1 hstage
      exact .updateCreated hc hcr hp
    · simp only [PathMap.holds, hcr, hst] at hstage
      obtain rfl := Outcome.pure_eq_ok.1 hstage
      exact .updateStaged hc hcr hst hp
    · simp only [PathMap.holds, hcr, PathMap.find?_insert, Path.same_refl] at hstage
      obtain rfl := Outcome.pure_eq_ok.1 hstage
      exact .updateNew hc hcr hst hd hp
  | create p t =>
    obtain ⟨tx₂, hu, h⟩ := Outcome.bind_eq_ok.1 h
    obtain ⟨_, rfl⟩ := Prod.mk.inj (Outcome.pure_eq_ok.1 h)
    obtain ⟨_, hc, hu⟩ := Outcome.bind_eq_ok.1 hu
    by_cases he : tx.pathExists d p = true
    · rw [if_pos he] at hu
      exact absurd hu Outcome.fail_ne_ok
    · rw [if_neg he] at hu
      obtain rfl := Outcome.pure_eq_ok.1 hu
      exact .create hc (by simpa using he)
  | deleteFile p =>
    obtain ⟨tx₂, hu, h⟩ := Outcome.bind_eq_ok.1 h
    obtain ⟨_, rfl⟩ := Prod.mk.inj (Outcome.pure_eq_ok.1 h)
    obtain ⟨_, hc, hu⟩ := Outcome.bind_eq_ok.1 hu
    by_cases hf : d.isFile p = true
    · rw [if_pos hf] at hu
      obtain rfl := Outcome.pure_eq_ok.1 hu
      exact .deleteFile hc hf
    · rw [if_neg hf] at hu
      exact absurd hu Outcome.fail_ne_ok
  | deleteFolder p =>
    obtain ⟨tx₂, hu, h⟩ := Outcome.bind_eq_ok.1 h
    obtain ⟨_, rfl⟩ := Prod.mk.inj (Outcome.pure_eq_ok.1 h)
    obtain ⟨_, hc, hu⟩ := Outcome.bind_eq_ok.1 hu
    by_cases hf : d.isFolder p = true
    · rw [if_pos hf] at hu
      obtain rfl := Outcome.pure_eq_ok.1 hu
      exact .deleteFolder hc hf
    · rw [if_neg hf] at hu
      exact absurd hu Outcome.fail_ne_ok

/-! ## What is staged is sound -/

namespace Transaction

theorem mem_paths {tx : Transaction} {p : Path} : p ∈ tx.paths ↔
    (∃ s, (p, s) ∈ tx.staged) ∨ (∃ t, (p, t) ∈ tx.created) ∨ p ∈ tx.removals := by
  simp [paths]

/-- **What a transaction holds fits the disk.** -/
structure Sound (d : Disk) (tx : Transaction) : Prop where
  staged_sorted : tx.staged.Sorted
  created_sorted : tx.created.Sorted
  /-- Every path may be touched. -/
  checked : ∀ p ∈ tx.paths, tx.check d p = .ok ()
  /-- What is edited was read. -/
  staged : ∀ p s, (p, s) ∈ tx.staged → d.read p = .ok s.original
  /-- What is created was missing, or is removed. -/
  created : ∀ p t, (p, t) ∈ tx.created → d.pathExists p = false ∨ tx.isRemoved p = true
  /-- What is removed was there. -/
  removals : ∀ p ∈ tx.removals, d.isFile p = true ∨ d.isFolder p = true

namespace Sound

variable {d : Disk} {tx tx' : Transaction} {p : Path}

theorem init (d : Disk) (l : Layout) (targets : List Path) :
    Sound d { layout := l, targets } where
  staged_sorted := PathMap.sorted_nil
  created_sorted := PathMap.sorted_nil
  checked := fun _ hp => absurd hp List.not_mem_nil
  staged := fun _ _ hp => absurd hp List.not_mem_nil
  created := fun _ _ hp => absurd hp List.not_mem_nil
  removals := fun _ hp => absurd hp List.not_mem_nil

/-- An edited text is staged with the text that was read. -/
theorem putStaged (h : Sound d tx) (hc : tx.check d p = .ok ()) {s : Staged}
    (hnone : tx.staged.find? p = none → d.read p = .ok s.original)
    (hsome : ∀ s', tx.staged.find? p = some s' → s.original = s'.original) :
    Sound d { tx with staged := tx.staged.insert p s } where
  staged_sorted := h.staged_sorted.insert p s
  created_sorted := h.created_sorted
  checked := by
    intro q hq
    rcases mem_paths.1 hq with ⟨s', hs⟩ | hq
    · rcases PathMap.mem_insert h.staged_sorted hs with hs | ⟨r, b, hr, _, hb, _⟩ | ⟨hr, _⟩
      · exact h.checked q (mem_paths.2 (.inl ⟨s', hs⟩))
      · obtain ⟨rfl, _⟩ := Prod.mk.inj hr
        exact h.checked q (mem_paths.2 (.inl ⟨b, hb⟩))
      · obtain ⟨rfl, _⟩ := Prod.mk.inj hr
        exact hc
    · exact h.checked q (mem_paths.2 (.inr hq))
  staged := by
    intro q s' hs
    rcases PathMap.mem_insert h.staged_sorted hs with hs | ⟨r, b, hr, _, hb, hf⟩ | ⟨hr, hf⟩
    · exact h.staged q s' hs
    · obtain ⟨rfl, rfl⟩ := Prod.mk.inj hr
      rw [hsome b hf]
      exact h.staged q b hb
    · obtain ⟨rfl, rfl⟩ := Prod.mk.inj hr
      exact hnone hf
  created := h.created
  removals := h.removals

/-- A new file is staged where nothing is going to be. -/
theorem putCreated (h : Sound d tx) (hc : tx.check d p = .ok ()) {t : Text}
    (hnone : tx.created.find? p = none → d.pathExists p = false ∨ tx.isRemoved p = true) :
    Sound d { tx with created := tx.created.insert p t } where
  staged_sorted := h.staged_sorted
  created_sorted := h.created_sorted.insert p t
  checked := by
    intro q hq
    rcases mem_paths.1 hq with hq | ⟨t', ht⟩ | hq
    · exact h.checked q (mem_paths.2 (.inl hq))
    · rcases PathMap.mem_insert h.created_sorted ht with ht | ⟨r, b, hr, _, hb, _⟩ | ⟨hr, _⟩
      · exact h.checked q (mem_paths.2 (.inr (.inl ⟨t', ht⟩)))
      · obtain ⟨rfl, _⟩ := Prod.mk.inj hr
        exact h.checked q (mem_paths.2 (.inr (.inl ⟨b, hb⟩)))
      · obtain ⟨rfl, _⟩ := Prod.mk.inj hr
        exact hc
    · exact h.checked q (mem_paths.2 (.inr (.inr hq)))
  staged := h.staged
  created := by
    intro q t' ht
    rcases PathMap.mem_insert h.created_sorted ht with ht | ⟨r, b, hr, _, hb, _⟩ | ⟨hr, hf⟩
    · exact h.created q t' ht
    · obtain ⟨rfl, _⟩ := Prod.mk.inj hr
      exact h.created q b hb
    · obtain ⟨rfl, _⟩ := Prod.mk.inj hr
      exact hnone hf
  removals := h.removals

/-- A removal is staged for what is there. -/
theorem remove (h : Sound d tx) (hc : tx.check d p = .ok ())
    (hp : d.isFile p = true ∨ d.isFolder p = true) :
    Sound d { tx with removals := tx.removals ++ [p] } where
  staged_sorted := h.staged_sorted
  created_sorted := h.created_sorted
  checked := by
    intro q hq
    rcases mem_paths.1 hq with hq | hq | hq
    · exact h.checked q (mem_paths.2 (.inl hq))
    · exact h.checked q (mem_paths.2 (.inr (.inl hq)))
    · rcases List.mem_append.1 hq with hq | hq
      · exact h.checked q (mem_paths.2 (.inr (.inr hq)))
      · obtain rfl := List.mem_singleton.1 hq
        exact hc
  staged := h.staged
  created := by
    intro q t ht
    refine (h.created q t ht).imp_right fun hr => ?_
    rw [isRemoved, List.any_append, Bool.or_eq_true]
    exact .inl hr
  removals := by
    intro q hq
    rcases List.mem_append.1 hq with hq | hq
    · exact h.removals q hq
    · obtain rfl := List.mem_singleton.1 hq
      exact hp

/-- **A call keeps a transaction sound.** -/
theorem stages {c : Call} (h : Sound d tx) (hc : c.Stages d tx tx') : Sound d tx' := by
  cases hc with
  | «exists» p => exact h
  | readKnown hc => exact h
  | readNew hc hcr hst hr =>
    exact h.putStaged hc (fun _ => hr) fun s' hs => by simp [hst] at hs
  | updateCreated hc hcr hp =>
    exact h.putCreated hc fun hnone => by simp [hcr] at hnone
  | updateStaged hc hcr hst hp =>
    refine h.putStaged hc (fun hnone => by simp [hst] at hnone) fun s' hs => ?_
    rw [hst] at hs
    rw [← Option.some.inj hs]
  | @updateNew p patch t t' hc hcr hst hr hp =>
    have hread : Sound d { tx with staged := tx.staged.insert p ⟨t, t⟩ } :=
      h.putStaged hc (fun _ => hr) fun s' hs => by simp [hst] at hs
    refine hread.putStaged hc (fun _ => hr) fun s' hs => ?_
    rw [PathMap.find?_insert, if_pos (Path.same_refl p)] at hs
    rw [← Option.some.inj hs]
  | create hc he =>
    refine h.putCreated hc fun _ => ?_
    rw [pathExists, Bool.or_eq_false_iff, Bool.and_eq_false_iff, Bool.not_eq_false'] at he
    exact he.2
  | deleteFile hc hf => exact h.remove hc (.inl hf)
  | deleteFolder hc hf => exact h.remove hc (.inr hf)

/-- **Calls keep a transaction sound.** -/
theorem calls {cs : List Call} (h : Sound d tx) (hcs : Calls d tx cs tx') : Sound d tx' := by
  induction hcs with
  | nil => exact h
  | cons hc _ ih => exact ih (h.stages (Call.stages_of_run hc))

end Sound

end Transaction

theorem Call.Stages.layout_eq {d : Disk} {tx tx' : Transaction} {c : Call}
    (h : c.Stages d tx tx') : tx'.layout = tx.layout ∧ tx'.targets = tx.targets := by
  cases h <;> exact ⟨rfl, rfl⟩

/-- No call changes the layout or what may be touched. -/
theorem Calls.layout_eq {d : Disk} {tx tx' : Transaction} {cs : List Call}
    (h : Calls d tx cs tx') : tx'.layout = tx.layout ∧ tx'.targets = tx.targets := by
  induction h with
  | nil => exact ⟨rfl, rfl⟩
  | cons hc _ ih =>
    obtain ⟨hl, ht⟩ := (Call.stages_of_run hc).layout_eq
    exact ⟨ih.1.trans hl, ih.2.trans ht⟩

/-! ## How a plan can end -/

/-- **Applying a plan that makes calls** is given up before anything was done, or commits the
transaction of its calls. -/
theorem LivePlan.MakesCalls.runPlan_cases {plan : LivePlan} (hplan : plan.MakesCalls) {l : Layout}
    {d d' : Disk} {name : Text} {targets : List Path} {r : Outcome Report}
    (h : l.runPlan .apply name targets plan d = (r, d')) :
    ((∃ f, r = .error f) ∧ d' = d) ∨
      ∃ cs tx, l.checkTargets d targets = .ok () ∧ (plan d { layout := l, targets }).1 = .ok tx ∧
        Calls d { layout := l, targets } cs tx ∧ tx.commit name d = (r, d') := by
  rw [Layout.runPlan] at h
  cases ht : l.checkTargets d targets with
  | error f =>
    rw [ht] at h
    obtain ⟨rfl, rfl⟩ := Prod.mk.inj h
    exact .inl ⟨⟨f, rfl⟩, rfl⟩
  | ok u =>
    simp only [ht] at h
    have hdisk := hplan.disk_eq d { layout := l, targets }
    cases hp : plan d { layout := l, targets } with
    | mk planned e =>
      rw [hp] at h hdisk
      obtain rfl : e = d := hdisk
      cases planned with
      | error f =>
        obtain ⟨rfl, rfl⟩ := Prod.mk.inj h
        exact .inl ⟨⟨_, rfl⟩, rfl⟩
      | ok tx =>
        obtain ⟨cs, hcs⟩ := hplan.calls e _ tx (by rw [hp])
        exact .inr ⟨cs, tx, rfl, rfl, hcs, h⟩

end Fabula
