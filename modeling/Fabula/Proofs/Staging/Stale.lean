import Fabula.Proofs.Staging.Rollback
import Fabula.Proofs.Staging.Runs

/-!
# Files that changed since they were read

A commit reads every file it is going to modify once more, before it does anything else. So a
file that was changed, removed or made unreadable from outside since it was read stops the
commit while the disk is still what the outside made of it (`Layout.runPlan_stale`). It is not
written, and neither is anything else.

## What is compared

The commit compares what it reads with the text that the transaction has kept as the original.
The question is whether that is the text which was read first. Other calls may have come in
between. They may have read the path again, edited it several times, created and removed other
files, under other spellings of the same path. All of them take the text from the transaction
once it is there, and replace the text that is going to be written and never the original
(`Move.Runs.exists_original`). Which text was read first is told by the moves alone: no call
before has created a file at the path or read one, and the changes so far have left this text
there (`Move.ReadFirst`).

So for a file that is going to be modified the comparison is between what was there at that
moment and what is there now. A text that was changed and changed back is the one that was read,
and stops nothing.

The texts are told apart by their fingerprints. That these differ is asked for in the statement,
since there is no function to numbers of a fixed size by which all texts differ. A file that is
read and not edited is not modified, and is not compared.
-/

namespace Fabula

namespace Transaction

variable {d : Disk} {scaffold : Text}

/-- **What is going to be modified is as it was read**, as far as fingerprints tell. -/
theorem read_of_checkUnchanged {files : PathMap Staged}
    (h : checkUnchanged d scaffold files = .ok ()) {x : Path × Staged} (hx : x ∈ files) :
    ∃ t, d.read x.1 = .ok t ∧ fingerprint t = fingerprint x.2.original := by
  induction files with
  | nil => exact absurd hx List.not_mem_nil
  | cons y files ih =>
    obtain ⟨q, file⟩ := y
    rw [checkUnchanged] at h
    split at h
    · cases h
    · rename_i t hread
      rw [Outcome.within_eq_ok, Outcome.ofDisk_eq_ok] at hread
      split at h
      · rename_i hsame
        rcases List.mem_cons.1 hx with rfl | hx
        · exact ⟨t, hread, hsame⟩
        · exact ih h hx
      · exact absurd h Outcome.fail_ne_ok

end Transaction

/-- **The first call that reads a text** stages it, under the path it is called with. -/
theorem Call.exists_staged_of_run {d : Disk} {tx tx' : Transaction} {c : Call} {answer : Answer}
    {p : Path} (h : c.run d tx = .ok (answer, tx')) (hedits : c.edits = true) (hp : c.path = p)
    (hsorted : tx.staged.Sorted) (hcreated : tx.created.find? p = none)
    (hstaged : tx.staged.find? p = none) :
    ∃ s, (p, s) ∈ tx'.staged ∧ d.read p = .ok s.original := by
  cases c with
  | read q =>
    obtain rfl : q = p := hp
    obtain ⟨⟨t, tx₁⟩, hread, hrun⟩ := Outcome.bind_eq_ok.1 h
    obtain ⟨_, rfl⟩ := Prod.mk.inj (Outcome.pure_eq_ok.1 hrun)
    obtain ⟨_, ⟨_, hknown⟩ | ⟨_, _, s, hknown, _⟩ | ⟨_, _, htext, rfl⟩⟩ := Transaction.of_read hread
    · rw [hcreated] at hknown
      cases hknown
    · rw [hstaged] at hknown
      cases hknown
    · exact ⟨⟨t, t⟩, PathMap.mem_insert_self hstaged _, htext⟩
  | update q patch =>
    obtain rfl : q = p := hp
    cases Call.stages_of_run h with
    | updateCreated _ hknown _ =>
      rw [hcreated] at hknown
      cases hknown
    | updateStaged _ _ hknown _ =>
      rw [hstaged] at hknown
      cases hknown
    | @updateNew _ _ t t' _ _ _ htext _ =>
      refine ⟨⟨t, t'⟩, ?_, htext⟩
      have hmem := (hsorted.insert q ⟨t, t⟩).mem_insert_of_mem
        (PathMap.mem_insert_self hstaged ⟨t, t⟩) q ⟨t, t'⟩
      rwa [if_pos (Path.same_refl q)] at hmem
  | «exists» q => cases hedits
  | create q t => cases hedits
  | deleteFile q => cases hedits
  | deleteFolder q => cases hedits

namespace Move

variable {d d₁ d' : Disk} {tx tx' : Transaction} {ms : List Move} {p : Path} {t : Text}

/-- **The text a list of moves reads first at a path**: no call before has created a file
there or read one, and the changes so far have left this text there. -/
def ReadFirst (d : Disk) (ms : List Move) (p : Path) (t : Text) : Prop :=
  ∃ before c after d₁, ms = before ++ .call c :: after ∧ c.edits = true ∧ c.path = p ∧
    (∀ c', .call c' ∈ before → c'.creates p = false ∧ (c'.edits = true → c'.path.same p = false)) ∧
      disturb d before = .ok d₁ ∧ d₁.read p = .ok t

namespace Runs

/-- What no call creates, reads or edits is neither staged nor created. -/
theorem untouched (h : Runs d tx ms d' tx')
    (hms : ∀ c, .call c ∈ ms → c.creates p = false ∧ (c.edits = true → c.path.same p = false))
    (hstaged : tx.staged.find? p = none) (hcreated : tx.created.find? p = none) :
    tx'.staged.find? p = none ∧ tx'.created.find? p = none := by
  induction h with
  | nil => exact ⟨hstaged, hcreated⟩
  | @cons d d₁ d₂ tx tx₁ tx₂ m ms answer h _ ih =>
    have hrest := fun c hc => hms c (List.mem_cons_of_mem m hc)
    rcases (of_run h).2 with ⟨c, rfl, hc⟩ | ⟨f, _, rfl⟩
    · obtain ⟨hcreates, hedits⟩ := hms c List.mem_cons_self
      refine ih hrest ((hc.staged_eq hedits).trans hstaged) ?_
      rcases hc.at_path p with ⟨hyes, _⟩ | ⟨_, _, _, hsame, _⟩ |
        ⟨_, _, patch, _, ⟨t, _, hknown, _⟩ | ⟨_, hnone, _⟩⟩
      · rw [hcreates] at hyes
        cases hyes
      · rw [hsame, hcreated]
      · rw [hcreated] at hknown
        cases hknown
      · exact hnone
    · exact ih hrest hstaged hcreated

/-- **The text that was read first is kept**, whatever else is called. -/
theorem exists_original {l : Layout} {targets : List Path}
    (h : Runs d { layout := l, targets } ms d' tx') (hread : ReadFirst d ms p t) :
    ∃ s, (p, s) ∈ tx'.staged ∧ tx'.staged.find? p = some s ∧ s.original = t := by
  obtain ⟨before, c, after, d₁, rfl, hedits, hp, hbefore, hdisturb, htext⟩ := hread
  obtain ⟨d₂, tx₁, hrun, hafter⟩ := append_iff.1 h
  obtain rfl : d₂ = d₁ := Except.ok.inj (hrun.disturb_eq.symm.trans hdisturb)
  have hsorted := hrun.preserves (P := fun tx => tx.staged.Sorted ∧ tx.created.Sorted)
    Call.Stages.sorted ⟨PathMap.sorted_nil, PathMap.sorted_nil⟩
  obtain ⟨hstaged, hcreated⟩ := hrun.untouched hbefore rfl rfl
  cases hafter with
  | @cons _ d₃ _ _ tx₂ _ _ _ answer hcall hrest =>
    obtain ⟨⟨answer', tx₃⟩, hc, hpure⟩ := Outcome.bind_eq_ok.1 hcall
    obtain ⟨_, hpure⟩ := Prod.mk.inj (Outcome.pure_eq_ok.1 hpure)
    obtain ⟨rfl, rfl⟩ := Prod.mk.inj hpure
    obtain ⟨s, hs, horiginal⟩ := Call.exists_staged_of_run hc hedits hp hsorted.1 hcreated hstaged
    -- from here on the text that was read stays with the path
    have hkept := hrest.preserves
      (P := fun tx => (tx.staged.Sorted ∧ tx.created.Sorted) ∧
        ∃ s, (p, s) ∈ tx.staged ∧ s.original = t)
      (fun hstep hP => ⟨hstep.sorted hP.1, by
        obtain ⟨s, hs, horiginal⟩ := hP.2
        obtain ⟨s', hs', hsame⟩ := hstep.original hP.1.1 hs
        exact ⟨s', hs', hsame.trans horiginal⟩⟩)
      ⟨(Call.stages_of_run hc).sorted hsorted,
        s, hs, Except.ok.inj (horiginal.symm.trans htext)⟩
    obtain ⟨⟨hsorted', _⟩, s', hs', horiginal'⟩ := hkept
    exact ⟨s', hs', hsorted'.find?_of_mem hs', horiginal'⟩

end Runs

end Move

namespace Layout

/-- **A file that changed since it was read is not written, and nothing else is**: if its text
was going to change, and its path now leads to another text than the one that was read first,
or to none, then applying the plan fails, and the disk is what the changes from outside made
of it. Fingerprints have to tell the two texts apart. -/
theorem runPlan_stale (l : Layout) {d d' : Disk} {plan : LivePlan} {name : Text}
    {targets : List Path} {ms : List Move} {tx : Transaction} {p : Path} {t : Text}
    (htargets : l.checkTargets d targets = .ok ())
    (hplan : plan d { layout := l, targets } = (.ok tx, d'))
    (hms : Move.Runs d { layout := l, targets } ms d' tx) (hread : Move.ReadFirst d ms p t)
    (hedited : ∀ s, tx.staged.find? p = some s → s.current ≠ t) (hstale : d'.read p ≠ .ok t)
    (hcollision : ∀ t', d'.read p = .ok t' → fingerprint t' = fingerprint t → t' = t) :
    Move.disturb d ms = .ok d' ∧
      ∃ f, l.runPlan .apply name targets plan d = (.error f, d') := by
  refine ⟨hms.disturb_eq, ?_⟩
  obtain ⟨s, hmem, hfind, rfl⟩ := hms.exists_original hread
  have hmodified : (p, s) ∈ tx.modified := by
    refine List.mem_filter.2 ⟨hmem, ?_⟩
    simpa [Staged.isModified] using hedited s hfind
  obtain ⟨f, hf⟩ : ∃ f, Transaction.checkUnchanged d' name tx.modified = .error f := by
    cases hcheck : Transaction.checkUnchanged d' name tx.modified with
    | error f => exact ⟨f, rfl⟩
    | ok u =>
      obtain ⟨t', ht', hsame⟩ := Transaction.read_of_checkUnchanged hcheck hmodified
      rw [hcollision t' ht' hsame] at ht'
      exact absurd ht' hstale
  refine ⟨f, ?_⟩
  rw [runPlan, htargets]
  simp only [hplan, Transaction.commit, hf]

/-- Calls that remove a file, edit two and create one, while one of the two is edited from
outside. -/
def movesWhileEdited : List Move :=
  [.call (.deleteFile ⟨"w/b".toList⟩), .call (.update ⟨"w/a".toList⟩ fun t => .ok (t ++ t)),
    .outside fun d => d.write ⟨"w/a".toList⟩ "z".toList,
    .call (.update ⟨"w/a".toList⟩ fun t => .ok (t ++ t)), .call (.create ⟨"w/n/x".toList⟩ []),
    .call (.update ⟨"w/c".toList⟩ fun t => .ok (t ++ t))]

theorem runPlan_stale_while_edited :
    ∃ f, flatLayout.runPlan .apply [] [⟨"w".toList⟩] (Move.plan movesWhileEdited) threeFiles
      = (.error f, threeFiles.put ["w".toList, "a".toList] (.file (.text "z".toList))) := by
  let tx : Transaction :=
    { layout := flatLayout
      targets := [⟨"w".toList⟩]
      staged := [(⟨"w/a".toList⟩, ⟨"a".toList, "aaaa".toList⟩),
        (⟨"w/c".toList⟩, ⟨"c".toList, "cc".toList⟩)]
      created := [(⟨"w/n/x".toList⟩, [])]
      removals := [⟨"w/b".toList⟩] }
  have hplan : Move.plan movesWhileEdited threeFiles
      { layout := flatLayout, targets := [⟨"w".toList⟩] }
      = (.ok tx, threeFiles.put ["w".toList, "a".toList] (.file (.text "z".toList))) := by
    decide +kernel
  have hread : Move.ReadFirst threeFiles movesWhileEdited ⟨"w/a".toList⟩ "a".toList := by
    refine ⟨[.call (.deleteFile ⟨"w/b".toList⟩)], _, _, threeFiles, rfl, rfl, rfl, ?_, rfl, ?_⟩
    · intro c hc
      obtain rfl := Move.call.inj (List.mem_singleton.1 hc)
      exact ⟨rfl, fun h => by cases h⟩
    · decide +kernel
  have hnow : (threeFiles.put ["w".toList, "a".toList] (.file (.text "z".toList))).read
      ⟨"w/a".toList⟩ = .ok "z".toList := by
    decide +kernel
  refine (runPlan_stale flatLayout (by decide +kernel) hplan (Move.Runs.iff_plan_eq.2 hplan) hread
    (fun s hs => ?_) ?_ fun t ht hsame => ?_).2
  · obtain rfl := Option.some.inj hs
    decide
  · rw [hnow]
    decide
  · rw [hnow] at ht
    obtain rfl := Except.ok.inj ht
    exact absurd hsame (by decide +kernel)

end Layout

end Fabula
