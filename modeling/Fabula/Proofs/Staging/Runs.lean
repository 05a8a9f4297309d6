import Fabula.Proofs.Staging.Patches

/-!
# Plans while the disk changes

Between two calls of a plan the disk may be changed from outside. Such a run is a list of moves,
each of which is a call or a change (`Move.Runs`). So there are two things that go on at once,
and what is known of a run is what is known of either of them by itself.

What is on the disk in the end is what the changes made of it, whatever was called
(`Move.Runs.disturb_eq`), since no call writes. What the transaction holds was put there by
calls. Each call saw the disk of its own moment, and the next one may see another, so the
transaction need not fit any disk. But a property of transactions that every call keeps on every
disk is kept by a run, however the disk changes meanwhile (`Move.Runs.preserves`). Both are
inductions over the moves.

## What a run keeps

The properties that are kept are those that do not mention the disk. The maps stay in order.
What is staged was staged before, or its path is the one of the call and has passed the check. A
text that was read stays what it was when it was read first, under the spelling with which it
was read: later calls edit what is staged for it and leave the original
(`Call.Stages.original`). These are proved for one call, along the cases of what it may stage.

What is said of the disk has to name the moment: the first text read at a path
(`Move.ReadFirst`), and the moment at which a file was created (`Move.Runs.exists_create`). The
list of moves is split there, the part in front is a run that ends at this moment, and the rest
is one that begins there (`Move.Runs.append_iff`).
-/

namespace Fabula

namespace Move

variable {d d₁ d' : Disk} {tx tx₁ tx' : Transaction} {ms : List Move} {p : Path}

/-! ## Runs -/

/-- What a move does to the disk. -/
def change : Move → Disk → Except DiskError Disk
  | call _, d => .ok d
  | outside change, d => change d

/-- **What the changes from outside make of a disk**, the calls between them aside. -/
def disturb (d : Disk) (ms : List Move) : Except DiskError Disk :=
  ms.foldlM (fun d m => m.change d) d

/-- **Moves made one after the other**, all of which succeed. -/
inductive Runs : Disk → Transaction → List Move → Disk → Transaction → Prop
  | nil (d : Disk) (tx : Transaction) : Runs d tx [] d tx
  | cons {d d₁ d₂ : Disk} {tx tx₁ tx₂ : Transaction} {m : Move} {ms : List Move} {answer : Answer}
      (h : m.run d tx = .ok (answer, tx₁, d₁)) (hs : Runs d₁ tx₁ ms d₂ tx₂) :
      Runs d tx (m :: ms) d₂ tx₂

/-- **One move** is a call, which stages what it stages and leaves the disk alone, or a change
of the disk alone. -/
theorem of_run {m : Move} {answer : Answer} (h : m.run d tx = .ok (answer, tx', d')) :
    m.change d = .ok d' ∧
      ((∃ c, m = .call c ∧ c.Stages d tx tx') ∨ ∃ f, m = .outside f ∧ tx' = tx) := by
  cases m with
  | call c =>
    obtain ⟨⟨answer', tx₁⟩, hc, hrun⟩ := Outcome.bind_eq_ok.1 h
    obtain ⟨_, hrun⟩ := Prod.mk.inj (Outcome.pure_eq_ok.1 hrun)
    obtain ⟨rfl, rfl⟩ := Prod.mk.inj hrun
    exact ⟨rfl, .inl ⟨c, rfl, Call.stages_of_run hc⟩⟩
  | outside f =>
    obtain ⟨d₁, hd, hrun⟩ := Outcome.bind_eq_ok.1 h
    obtain ⟨_, hrun⟩ := Prod.mk.inj (Outcome.pure_eq_ok.1 hrun)
    obtain ⟨rfl, rfl⟩ := Prod.mk.inj hrun
    exact ⟨Outcome.ofDisk_eq_ok.1 hd, .inr ⟨f, rfl, rfl⟩⟩

namespace Runs

/-- **A list of moves is a plan** that leaves what a run of it leaves. -/
theorem iff_plan_eq : Runs d tx ms d' tx' ↔ Move.plan ms d tx = (.ok tx', d') := by
  show _ ↔ (runAll d tx ms).2 = _
  induction ms generalizing d tx with
  | nil =>
    constructor
    · rintro ⟨⟩
      rfl
    · rintro ⟨⟩
      exact .nil _ _
  | cons m ms ih =>
    rw [runAll]
    cases hm : m.run d tx with
    | error f =>
      constructor
      · rintro (_ | ⟨h, _⟩)
        rw [hm] at h
        cases h
      · rintro ⟨⟩
    | ok r =>
      obtain ⟨answer, tx₁, d₁⟩ := r
      constructor
      · rintro (_ | ⟨h, hs⟩)
        rw [hm] at h
        cases h
        exact ih.1 hs
      · exact fun h => .cons hm (ih.2 h)

theorem append_iff {ms' : List Move} : Runs d tx (ms ++ ms') d' tx' ↔
    ∃ d₁ tx₁, Runs d tx ms d₁ tx₁ ∧ Runs d₁ tx₁ ms' d' tx' := by
  induction ms generalizing d tx with
  | nil =>
    constructor
    · exact fun h => ⟨d, tx, .nil d tx, h⟩
    · rintro ⟨d₁, tx₁, ⟨⟩, h⟩
      exact h
  | cons m ms ih =>
    constructor
    · intro h
      cases h with
      | cons h hs =>
        obtain ⟨d₁, tx₁, hs, hs'⟩ := ih.1 hs
        exact ⟨d₁, tx₁, .cons h hs, hs'⟩
    · rintro ⟨d₁, tx₁, hs, hs'⟩
      cases hs with
      | cons h hs => exact .cons h (ih.2 ⟨d₁, tx₁, hs, hs'⟩)

/-- What is planned behind a run is planned on what the run left. -/
theorem plan_append (h : Runs d tx ms d' tx') (ms' : List Move) :
    Move.plan (ms ++ ms') d tx = Move.plan ms' d' tx' := by
  induction h with
  | nil => rfl
  | @cons d d₁ d₂ tx tx₁ tx₂ m ms answer hm _ ih =>
    show (runAll d tx (m :: (ms ++ ms'))).2 = _
    rw [runAll, hm]
    exact ih

/-- **The disk is what the changes made of it**: no call wrote anything. -/
theorem disturb_eq (h : Runs d tx ms d' tx') : disturb d ms = .ok d' := by
  induction h with
  | nil => rfl
  | cons h _ ih =>
    rw [disturb, List.foldlM_cons, (of_run h).1]
    exact ih

/-- **What every call keeps is kept by a run**, however the disk changes. -/
theorem preserves {P : Transaction → Prop}
    (hP : ∀ {d tx tx'} {c : Call}, c.Stages d tx tx' → P tx → P tx')
    (h : Runs d tx ms d' tx') (htx : P tx) : P tx' := by
  induction h with
  | nil => exact htx
  | cons h _ ih =>
    rcases (of_run h).2 with ⟨c, _, hc⟩ | ⟨f, _, rfl⟩
    · exact ih (hP hc htx)
    · exact ih htx

end Runs

end Move

/-! ## What a run keeps -/

namespace Call.Stages

variable {d : Disk} {tx tx' : Transaction} {c : Call} {p : Path}

/-- What is staged and created stays in order. -/
theorem sorted (h : c.Stages d tx tx') (hs : tx.staged.Sorted ∧ tx.created.Sorted) :
    tx'.staged.Sorted ∧ tx'.created.Sorted := by
  obtain ⟨hst, hcr⟩ := hs
  cases h with
  | «exists» p => exact ⟨hst, hcr⟩
  | readKnown hc => exact ⟨hst, hcr⟩
  | readNew _ _ _ _ => exact ⟨hst.insert _ _, hcr⟩
  | updateCreated _ _ _ => exact ⟨hst, hcr.insert _ _⟩
  | updateStaged _ _ _ _ => exact ⟨hst.insert _ _, hcr⟩
  | updateNew _ _ _ _ _ => exact ⟨(hst.insert _ _).insert _ _, hcr⟩
  | create _ _ => exact ⟨hst, hcr.insert _ _⟩
  | deleteFile _ _ => exact ⟨hst, hcr⟩
  | deleteFolder _ _ => exact ⟨hst, hcr⟩

/-- What is staged was staged before the call, or its path is that of the call and was
checked. -/
theorem of_mem_staged (h : c.Stages d tx tx') (hs : tx.staged.Sorted) {s : Staged}
    (hp : (p, s) ∈ tx'.staged) :
    (∃ s', (p, s') ∈ tx.staged) ∨ (p = c.path ∧ tx.check d p = .ok ()) := by
  cases h with
  | readNew hc _ _ _ =>
    rcases PathMap.fst_of_mem_insert hs hp with hold | ⟨rfl, _⟩
    · exact .inl hold
    · exact .inr ⟨rfl, hc⟩
  | updateStaged hc _ _ _ =>
    rcases PathMap.fst_of_mem_insert hs hp with hold | ⟨rfl, _⟩
    · exact .inl hold
    · exact .inr ⟨rfl, hc⟩
  | updateNew hc _ _ _ _ =>
    rcases PathMap.fst_of_mem_insert (hs.insert _ _) hp with ⟨s', hs'⟩ | ⟨rfl, _⟩
    · rcases PathMap.fst_of_mem_insert hs hs' with hold | ⟨rfl, _⟩
      · exact .inl hold
      · exact .inr ⟨rfl, hc⟩
    · exact .inr ⟨rfl, hc⟩
  | _ => exact .inl ⟨s, hp⟩

/-- **What is created** was created before the call, or the call creates it, where nothing is
going to be. -/
theorem of_mem_created (h : c.Stages d tx tx') (hs : tx.created.Sorted) {t : Text}
    (hp : (p, t) ∈ tx'.created) : (∃ t', (p, t') ∈ tx.created) ∨
      ((∃ t', c = .create p t') ∧ tx.check d p = .ok () ∧ tx.pathExists d p = false) := by
  cases h with
  | updateCreated _ hcr _ =>
    rcases PathMap.fst_of_mem_insert hs hp with hold | ⟨_, hnone⟩
    · exact .inl hold
    · rw [hcr] at hnone
      cases hnone
  | @create _ t' hc he =>
    rcases PathMap.fst_of_mem_insert hs hp with hold | ⟨rfl, _⟩
    · exact .inl hold
    · exact .inr ⟨⟨t', rfl⟩, hc, he⟩
  | _ => exact .inl ⟨t, hp⟩

/-- What is removed was removed before the call, or is there. -/
theorem of_mem_removals (h : c.Stages d tx tx') (hp : p ∈ tx'.removals) : p ∈ tx.removals ∨
    (tx.check d p = .ok () ∧ (d.isFile p = true ∨ d.isFolder p = true)) := by
  cases h with
  | deleteFile hc hf =>
    rcases List.mem_append.1 hp with hp | hp
    · exact .inl hp
    · obtain rfl := List.mem_singleton.1 hp
      exact .inr ⟨hc, .inl hf⟩
  | deleteFolder hc hf =>
    rcases List.mem_append.1 hp with hp | hp
    · exact .inl hp
    · obtain rfl := List.mem_singleton.1 hp
      exact .inr ⟨hc, .inr hf⟩
  | _ => exact .inl hp

/-- **A text that was read stays what it was**, under the spelling it was read by: later calls
edit what is staged for it. -/
theorem original (h : c.Stages d tx tx') (hm : tx.staged.Sorted) {s : Staged}
    (hp : (p, s) ∈ tx.staged) : ∃ s', (p, s') ∈ tx'.staged ∧ s'.original = s.original := by
  cases h with
  | «exists» q => exact ⟨s, hp, rfl⟩
  | readKnown hc => exact ⟨s, hp, rfl⟩
  | updateCreated _ _ _ => exact ⟨s, hp, rfl⟩
  | create _ _ => exact ⟨s, hp, rfl⟩
  | deleteFile _ _ => exact ⟨s, hp, rfl⟩
  | deleteFolder _ _ => exact ⟨s, hp, rfl⟩
  | @readNew q t _ _ hst _ =>
    have hq : ¬q.same p = true := fun hq => by
      rw [PathMap.find?_congr _ hq, hm.find?_of_mem hp] at hst
      cases hst
    refine ⟨s, ?_, rfl⟩
    simpa [hq] using hm.mem_insert_of_mem hp q ⟨t, t⟩
  | @updateStaged q patch s₀ t' _ _ hst _ =>
    have hmem := hm.mem_insert_of_mem hp q { s₀ with current := t' }
    by_cases hq : q.same p = true
    · rw [PathMap.find?_congr _ hq, hm.find?_of_mem hp] at hst
      obtain rfl := Option.some.inj hst
      rw [if_pos hq] at hmem
      exact ⟨_, hmem, rfl⟩
    · rw [if_neg hq] at hmem
      exact ⟨s, hmem, rfl⟩
  | @updateNew q patch t t' _ _ hst _ _ =>
    have hq : ¬q.same p = true := fun hq => by
      rw [PathMap.find?_congr _ hq, hm.find?_of_mem hp] at hst
      cases hst
    have hmem := hm.mem_insert_of_mem hp q ⟨t, t⟩
    rw [if_neg hq] at hmem
    refine ⟨s, ?_, rfl⟩
    simpa [hq] using (hm.insert q ⟨t, t⟩).mem_insert_of_mem hmem q ⟨t, t'⟩

end Call.Stages

end Fabula
