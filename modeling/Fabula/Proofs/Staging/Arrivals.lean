import Fabula.Proofs.Staging.Runs
import Fabula.Proofs.Staging.Spared

/-!
# Files that turn up while a scaffold is planned

A file is created where there is nothing, and whether there is something is asked when the
creation is staged. A file that is there at that moment stops the plan, and nothing is written.
What turns up at the path behind that is not asked for again: the commit replaces it, and when
it fails after that, removes it (`Layout.arrival_lost`).

So a file that a plan neither edits nor removes is safe in all other cases: it is there
afterwards with what it held, whether the plan was applied or failed, unless its path led to
nothing when a creation was staged for it (`Layout.runPlan_spares`).

## The moment of a creation

That is a statement about two moments, the one at which a file is created by a call and the one
at which it is on the disk when the plan is complete. In between the disk may be changed at
will, so the transaction need not fit the disk it is committed on, and nothing that is known of
transactions which do can be used. What remains is what calls keep on any disk: the paths of a
transaction do not go up, and what it creates was created by some call, at whose moment its path
led to nothing, or to something that was going to be removed (`Move.Runs.exists_create`).

Hence, if the path of a file led to something at every moment at which a creation was staged for
it, no such creation can have succeeded, and no path that is created leads to the file. The
modified files and the removed ones are excluded by assumption. So none of the paths of the
transaction leads to the file, and a commit spares what none of its paths leads to, however it
ends (`Transaction.commit_spares`).
-/

namespace Fabula

/-! ## What a run has found at the paths -/

namespace Transaction

variable {d : Disk} {tx : Transaction} {p : Path}

theorem goesUp_of_check (h : tx.check d p = .ok ()) : p.goesUp = false := by
  rw [check] at h
  split at h
  · rw [Disk.ensureWithin] at h
    split at h
    · exact absurd h Outcome.fail_ne_ok
    · rename_i hup
      simpa using hup
  · exact absurd h Outcome.fail_ne_ok

/-- **What is true of the paths of a transaction on any disk**: none goes up, and those to be
removed are not empty. -/
structure HasPaths (tx : Transaction) : Prop where
  sorted : tx.staged.Sorted ∧ tx.created.Sorted
  goesUp : ∀ p ∈ tx.paths, p.goesUp = false
  removals : ∀ p ∈ tx.removals, p.text ≠ []

theorem HasPaths.init (l : Layout) (targets : List Path) :
    HasPaths { layout := l, targets } :=
  ⟨⟨PathMap.sorted_nil, PathMap.sorted_nil⟩, fun _ hp => absurd hp List.not_mem_nil,
    fun _ hp => absurd hp List.not_mem_nil⟩

/-- A call on any disk keeps that. -/
theorem HasPaths.stages {tx' : Transaction} {c : Call} (h : HasPaths tx)
    (hc : c.Stages d tx tx') : HasPaths tx' := by
  refine ⟨hc.sorted h.sorted, fun p hp => ?_, fun p hp => ?_⟩
  · rcases mem_paths.1 hp with ⟨s, hs⟩ | ⟨t, ht⟩ | hr
    · rcases hc.of_mem_staged h.sorted.1 hs with ⟨s', hs'⟩ | ⟨_, hcheck⟩
      · exact h.goesUp p (mem_paths.2 (.inl ⟨s', hs'⟩))
      · exact goesUp_of_check hcheck
    · rcases hc.of_mem_created h.sorted.2 ht with ⟨t', ht'⟩ | ⟨_, hcheck, _⟩
      · exact h.goesUp p (mem_paths.2 (.inr (.inl ⟨t', ht'⟩)))
      · exact goesUp_of_check hcheck
    · rcases hc.of_mem_removals hr with hold | ⟨hcheck, _⟩
      · exact h.goesUp p (mem_paths.2 (.inr (.inr hold)))
      · exact goesUp_of_check hcheck
  · rcases hc.of_mem_removals hp with hold | ⟨_, hthere⟩
    · exact h.removals p hold
    · obtain ⟨e, he⟩ := Disk.exists_entryOf? hthere
      exact Disk.text_ne_nil_of_entryOf? he

end Transaction

namespace Move

/-- **A file is created at a path that leads to nothing**: at some point of the moves, while it
does. -/
def CreatesWhereFree (d : Disk) (ms : List Move) (p : Path) : Prop :=
  ∃ before t after d₁, ms = before ++ .call (.create p t) :: after ∧ disturb d before = .ok d₁ ∧
    d₁.pathExists p = false

namespace Runs

variable {d d' : Disk} {tx tx' : Transaction} {ms : List Move} {p : Path}

/-- What is removed stays removed. -/
theorem removals_subset (h : Runs d tx ms d' tx') : tx.removals ⊆ tx'.removals := by
  intro r hr
  exact h.preserves (P := fun tx => r ∈ tx.removals)
    (fun hc hr => by
      rw [hc.removals_eq]
      exact List.mem_append_left _ hr) hr

/-- **The call that created a file**, and how things stood at that moment. -/
theorem exists_create (h : Runs d tx ms d' tx') (htx : tx.HasPaths) {t : Text}
    (hp : (p, t) ∈ tx'.created) : (∃ t', (p, t') ∈ tx.created) ∨
      ∃ before t' after d₁ tx₁, ms = before ++ .call (.create p t') :: after ∧
        Runs d tx before d₁ tx₁ ∧ tx₁.pathExists d₁ p = false ∧ tx₁.removals ⊆ tx'.removals := by
  induction h with
  | nil => exact .inl ⟨t, hp⟩
  | @cons d d₁ d₂ tx tx₁ tx₂ m ms answer hm hs ih =>
    have hall : Runs d tx (m :: ms) d₂ tx₂ := .cons hm hs
    have htx₁ : tx₁.HasPaths := by
      rcases (of_run hm).2 with ⟨c, _, hc⟩ | ⟨f, _, rfl⟩
      · exact htx.stages hc
      · exact htx
    rcases ih htx₁ hp with ⟨t', ht'⟩ | ⟨before, t', after, d₃, tx₃, rfl, hbefore, hfree, hsub⟩
    · -- it was there after the first move
      rcases (of_run hm).2 with ⟨c, rfl, hc⟩ | ⟨f, _, rfl⟩
      · rcases hc.of_mem_created htx.sorted.2 ht' with hold | ⟨⟨t'', rfl⟩, _, hfree⟩
        · exact .inl hold
        · exact .inr ⟨[], t'', ms, d, tx, rfl, .nil d tx, hfree, hall.removals_subset⟩
      · exact .inl ⟨t', ht'⟩
    · exact .inr ⟨m :: before, t', after, d₃, tx₃, rfl, .cons hm hbefore, hfree, hsub⟩

end Runs

end Move

/-! ## Applying a plan -/

namespace Transaction

variable {d : Disk} {tx : Transaction} {p : Path}

/-- **Where there is something no file is created**, unless it is removed. -/
theorem create_eq_error (hp : d.pathExists p = true) (hr : tx.isRemoved p = false) (t : Text) :
    ∃ f, tx.create d p t = .error f := by
  cases hcreate : tx.create d p t with
  | error f => exact ⟨f, rfl⟩
  | ok tx' =>
    obtain ⟨_, _, hcreate⟩ := Outcome.bind_eq_ok.1 hcreate
    have hthere : tx.pathExists d p = true := by
      simp [pathExists, hp, hr]
    rw [if_pos hthere] at hcreate
    exact absurd hcreate Outcome.fail_ne_ok

end Transaction

namespace Layout

/-- **A plan spares the files it neither edits nor removes.** After the moves made so far,
creating a file where there is something fails, and the disk is what the changes from outside
made of it; and when these moves are the whole plan, every file that is on the disk then, and
that is not edited and not at or below a path to be removed, is there after the plan was applied,
however that ended, with what it held – unless the plan creates a file at a path that leads to it
now and led to nothing at that moment. -/
theorem runPlan_spares (l : Layout) {d d' : Disk} {targets : List Path} {ms : List Move}
    {tx : Transaction} (htargets : l.checkTargets d targets = .ok ())
    (hms : Move.Runs d { layout := l, targets } ms d' tx) (name : Text) :
    (∀ p t after, d'.pathExists p = true → tx.isRemoved p = false →
      ∃ f, l.runPlan .apply name targets (Move.plan (ms ++ .call (.create p t) :: after)) d
        = (.error f, d')) ∧
    (d'.IsPlain → ∀ plan : LivePlan, plan d { layout := l, targets } = (.ok tx, d') →
      ∀ c content, d'.get? c = some (.file content) →
        (∀ r ∈ tx.removals, ¬d'.addressOf r <+: c) → (∀ x ∈ tx.modified, d'.addressOf x.1 ≠ c) →
          (l.runPlan .apply name targets plan d).2.get? c = some (.file content) ∨
            ∃ x ∈ tx.created, d'.addressOf x.1 = c ∧ d'.isFile x.1 = true ∧
              Move.CreatesWhereFree d ms x.1) := by
  have hpaths := hms.preserves (P := Transaction.HasPaths) (fun hc htx => htx.stages hc)
    (.init l targets)
  constructor
  · intro p t after hthere hremoved
    obtain ⟨f, hf⟩ := Transaction.create_eq_error hthere hremoved t
    have hplan : Move.plan (ms ++ .call (.create p t) :: after) d { layout := l, targets }
        = (.error f, d') := by
      rw [hms.plan_append]
      show (Move.runAll d' tx _).2 = _
      rw [Move.runAll, Move.run, Call.run, hf]
      rfl
    have hrun : l.runPlan .apply name targets (Move.plan (ms ++ .call (.create p t) :: after)) d
        = (.within (.planning name) (.error f), d') := by
      rw [runPlan, htargets]
      simp only [hplan]
    exact ⟨_, hrun⟩
  · intro hd plan hplan c content hc hremovals hmodified
    have hrun : l.runPlan .apply name targets plan d = tx.commit name d' := by
      rw [runPlan, htargets]
      simp only [hplan]
    rw [hrun]
    by_cases hcreated : ∀ x ∈ tx.created, x.1.endsInName = true → x.1.text.getLast? ≠ some '/' →
        d'.addressOf x.1 ≠ c
    · exact .inl (tx.commit_spares hd hpaths.goesUp hc hremovals hmodified hcreated name)
    · -- a path that can name the file is created, so it was free when that was staged
      push Not at hcreated
      obtain ⟨x, hx, hend, hslash, rfl⟩ := hcreated
      have hup := hpaths.goesUp x.1 (Transaction.mem_paths.2 (.inr (.inl ⟨x.2, hx⟩)))
      refine .inr ⟨x, hx, rfl, ?_, ?_⟩
      · rw [Disk.isFile, Disk.entryOf?_eq hd hup hend hslash, hc]
      · rcases hms.exists_create (.init l targets) (p := x.1) (t := x.2) hx with ⟨t, ht⟩ |
          ⟨before, t, after, d₁, tx₁, hsplit, hbefore, hfree, hsub⟩
        · exact absurd ht List.not_mem_nil
        · refine ⟨before, t, after, d₁, hsplit, hbefore.disturb_eq, ?_⟩
          rw [Transaction.pathExists, Bool.or_eq_false_iff, Bool.and_eq_false_iff,
            Bool.not_eq_false'] at hfree
          refine hfree.2.resolve_right fun hremoved => ?_
          obtain ⟨r, hr, hwithin⟩ := List.any_eq_true.1 hremoved
          exact hremovals r (hsub hr)
            (Disk.addressOf_within (hpaths.removals r (hsub hr)) hwithin)

/-- Calls that create two files, while a file turns up elsewhere. -/
def movesWhileArriving : List Move :=
  [.call (.create ⟨"w/n/x".toList⟩ []), .outside fun d => d.write ⟨"w/d".toList⟩ "z".toList,
    .call (.create ⟨"w/e".toList⟩ [])]

theorem runPlan_spares_arrival :
    (∃ f, flatLayout.runPlan .apply [] [⟨"w".toList⟩]
        (Move.plan (movesWhileArriving ++ [.call (.create ⟨"w/d".toList⟩ [])])) threeFiles
      = (.error f, threeFiles.put ["w".toList, "d".toList] (.file (.text "z".toList)))) ∧
    (flatLayout.runPlan .apply [] [⟨"w".toList⟩] (Move.plan movesWhileArriving) threeFiles).2.get?
      ["w".toList, "d".toList] = some (.file (.text "z".toList)) := by
  let tx : Transaction :=
    { layout := flatLayout
      targets := [⟨"w".toList⟩]
      created := [(⟨"w/e".toList⟩, []), (⟨"w/n/x".toList⟩, [])] }
  let d' : Disk := threeFiles.put ["w".toList, "d".toList] (.file (.text "z".toList))
  have hplan : Move.plan movesWhileArriving threeFiles
      { layout := flatLayout, targets := [⟨"w".toList⟩] } = (.ok tx, d') := by
    decide +kernel
  have hd : d'.IsPlain := Disk.isPlain_of_entries (by decide) (by decide) (by decide)
  have hspares := runPlan_spares flatLayout (by decide +kernel) (Move.Runs.iff_plan_eq.2 hplan) []
  refine ⟨hspares.1 _ _ [] (by decide +kernel) (by decide +kernel), ?_⟩
  refine (hspares.2 hd _ hplan _ (.text "z".toList) (by decide) (by decide)
    (by decide)).resolve_right ?_
  rintro ⟨x, hx, hat, _⟩
  exact absurd hat ((show ∀ x ∈ tx.created, d'.addressOf x.1 ≠ ["w".toList, "d".toList] by
    decide +kernel) x hx)

/-- A plan that creates a file where another one turns up meanwhile. -/
def planArrival : LivePlan :=
  Move.plan [.call (.create ⟨"w/x".toList⟩ "ours".toList),
    .outside fun d => d.write ⟨"w/x".toList⟩ "theirs".toList]

/-- The same, and a second file for which no folder can be made in the end. -/
def planArrivalBlocked : LivePlan :=
  Move.plan [.call (.create ⟨"w/x".toList⟩ "ours".toList), .call (.create ⟨"w/y/z".toList⟩ []),
    .outside fun d => d.write ⟨"w/x".toList⟩ "theirs".toList,
    .outside fun d => d.write ⟨"w/y".toList⟩ []]

/-- **A file that turns up where one is going to be created is lost**: a commit that succeeds
replaces it, and one that fails behind that removes it. -/
theorem arrival_lost :
    ((planArrival threeFiles { layout := flatLayout, targets := [⟨"w".toList⟩] }).2.read
        ⟨"w/x".toList⟩ = .ok "theirs".toList ∧
      (flatLayout.runPlan .apply [] [⟨"w".toList⟩] planArrival threeFiles).1.isOk = true ∧
      (flatLayout.runPlan .apply [] [⟨"w".toList⟩] planArrival threeFiles).2.read
        ⟨"w/x".toList⟩ = .ok "ours".toList) ∧
    ((planArrivalBlocked threeFiles { layout := flatLayout, targets := [⟨"w".toList⟩] }).2.read
        ⟨"w/x".toList⟩ = .ok "theirs".toList ∧
      (flatLayout.runPlan .apply [] [⟨"w".toList⟩] planArrivalBlocked threeFiles).1.isOk = false ∧
      (flatLayout.runPlan .apply [] [⟨"w".toList⟩] planArrivalBlocked threeFiles).2.pathExists
        ⟨"w/x".toList⟩ = false) := by
  decide +kernel

end Layout

end Fabula
