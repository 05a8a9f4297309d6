import Fabula.Proofs.Staging.Calls

/-!
# Which patches a text has been through

A path is edited where it was read until a file is created at it, and the created text is edited
from then on. So the calls can be read off in two parts: the patches before the creation made
the edited text out of the one that was read (`Calls.staged_spec`), those behind it the created
text out of the one it was created with (`Calls.created_spec`).

## One path at a time

Calls at other paths do not matter. A map holds one value for a path, and what a call does is
seen from a path in one of four ways: it creates a file there, patches the text that is there,
reads it, or leaves it as it is (`Call.Stages.at_path`). Which of them is told by the call
alone, so the patches of a path can be collected from the list of calls without running them
(`Call.patchesBefore`, `Call.patchesBehind`).

Paths are the same when their components are, and a call may spell a path in its own way. What
was collected for one spelling is what was collected for the other.

## Along the list

The induction goes from the front. While no file is created at the path, every patch of it is
one of what was read. The call that creates a file there, if there is one, is the last at which
this changes: what was read stays in the transaction as it is, and every later patch is one of
the created text. A file cannot be created twice, since there is something at its path by then.
-/

namespace Fabula

/-- **Patches one after the other**, up to the first that fails. -/
def patchAll (patches : List (Text → Outcome Text)) (t : Text) : Outcome Text :=
  patches.foldlM (fun t patch => patch t) t

theorem patchAll_cons {patch : Text → Outcome Text} {t t' : Text} (h : patch t = .ok t')
    (patches : List (Text → Outcome Text)) :
    patchAll (patch :: patches) t = patchAll patches t' := by
  rw [patchAll, List.foldlM_cons, h]
  rfl

namespace Call

/-- Whether a call creates a file at a path. -/
def creates (p : Path) : Call → Bool
  | create q _ => q.same p
  | _ => false

/-- The patch a call makes at a path. -/
def patch? (p : Path) : Call → Option (Text → Outcome Text)
  | update q patch => if q.same p then some patch else none
  | _ => none

/-- The text a call creates a file at a path with. -/
def createdText? (p : Path) : Call → Option Text
  | create q t => if q.same p then some t else none
  | _ => none

/-- The path a call removes. -/
def removed? : Call → Option Path
  | deleteFile p => some p
  | deleteFolder p => some p
  | _ => none

/-- The path of a call. -/
def path : Call → Path
  | read p => p
  | «exists» p => p
  | update p _ => p
  | create p _ => p
  | deleteFile p => p
  | deleteFolder p => p

/-- Whether a call reads a text or edits one. -/
def edits : Call → Bool
  | read _ => true
  | update _ _ => true
  | _ => false

/-- **The patches of what was read at a path**: those before a file is created
there. -/
def patchesBefore (p : Path) (cs : List Call) : List (Text → Outcome Text) :=
  (cs.takeWhile fun c => !c.creates p).filterMap (patch? p)

/-- **The patches of what was created at a path.** -/
def patchesBehind (p : Path) (cs : List Call) : List (Text → Outcome Text) :=
  (cs.dropWhile fun c => !c.creates p).filterMap (patch? p)

theorem patchesBefore_cons_of_not_creates {p : Path} {c : Call} (h : c.creates p = false)
    (cs : List Call) :
    patchesBefore p (c :: cs) = (c.patch? p).toList ++ patchesBefore p cs := by
  rw [patchesBefore, List.takeWhile_cons_of_pos (by simp [h]), List.filterMap_cons]
  cases c.patch? p <;> rfl

theorem patchesBefore_cons_of_creates {p : Path} {c : Call} (h : c.creates p = true)
    (cs : List Call) : patchesBefore p (c :: cs) = [] := by
  rw [patchesBefore, List.takeWhile_cons_of_neg (by simp [h]), List.filterMap_nil]

theorem patchesBehind_cons_of_not_creates {p : Path} {c : Call} (h : c.creates p = false)
    (cs : List Call) : patchesBehind p (c :: cs) = patchesBehind p cs := by
  rw [patchesBehind, List.dropWhile_cons_of_pos (by simp [h])]
  rfl

theorem patchesBehind_cons_of_creates {p : Path} {c : Call} (h : c.creates p = true)
    (cs : List Call) : patchesBehind p (c :: cs) = cs.filterMap (patch? p) := by
  rw [patchesBehind, List.dropWhile_cons_of_neg (by simp [h]), List.filterMap_cons]
  cases c <;> simp_all [creates, patch?]

end Call

theorem PathMap.find?_congr {α : Type} (m : PathMap α) {p q : Path} (h : p.same q = true) :
    m.find? p = m.find? q := by
  induction m with
  | nil => rfl
  | cons x rest ih =>
    obtain ⟨r, a⟩ := x
    have hr : r.same p = r.same q := by
      rw [Bool.eq_iff_iff]
      exact ⟨fun h0 => Path.same_trans h0 h, fun h0 => Path.same_trans h0 (Path.same_comm.1 h)⟩
    rw [find?, find?, hr, ih]

/-! ## One call, seen from one path -/

/-- **What a call does at a path**, as far as it is staged: it creates a file there,
patches the text there, or leaves it as it is, up to reading it. -/
theorem Call.Stages.at_path {d : Disk} {tx tx' : Transaction} {c : Call} (h : c.Stages d tx tx')
    (p : Path) :
    (c.creates p = true ∧ tx.created.find? p = none ∧ tx'.staged.find? p = tx.staged.find? p ∧
      ∃ t, c.createdText? p = some t ∧ tx'.created.find? p = some t) ∨
    (c.creates p = false ∧ c.createdText? p = none ∧ c.patch? p = none ∧
      tx'.created.find? p = tx.created.find? p ∧
      (tx'.staged.find? p = tx.staged.find? p ∨ (tx.created.find? p = none ∧
        tx.staged.find? p = none ∧ ∃ t, tx'.staged.find? p = some ⟨t, t⟩))) ∨
    (c.creates p = false ∧ c.createdText? p = none ∧ ∃ patch, c.patch? p = some patch ∧
      ((∃ t t', tx.created.find? p = some t ∧ patch t = .ok t' ∧
          tx'.created.find? p = some t' ∧ tx'.staged.find? p = tx.staged.find? p) ∨
        (tx.created.find? p = none ∧ tx'.created.find? p = none ∧ ∃ s s' : Staged,
          (tx.staged.find? p = some s ∨ (tx.staged.find? p = none ∧ s.current = s.original)) ∧
          patch s.current = .ok s'.current ∧ s'.original = s.original ∧
          tx'.staged.find? p = some s'))) := by
  cases h with
  | «exists» q => exact .inr (.inl ⟨rfl, rfl, rfl, rfl, .inl rfl⟩)
  | readKnown hc => exact .inr (.inl ⟨rfl, rfl, rfl, rfl, .inl rfl⟩)
  | deleteFile hc hf => exact .inr (.inl ⟨rfl, rfl, rfl, rfl, .inl rfl⟩)
  | deleteFolder hc hf => exact .inr (.inl ⟨rfl, rfl, rfl, rfl, .inl rfl⟩)
  | @readNew q t hc hcr hst hr =>
    refine .inr (.inl ⟨rfl, rfl, rfl, rfl, ?_⟩)
    rw [PathMap.find?_insert]
    by_cases hq : q.same p = true
    · rw [if_pos hq, ← PathMap.find?_congr _ hq, ← PathMap.find?_congr _ hq]
      exact .inr ⟨hcr, hst, t, rfl⟩
    · rw [if_neg hq]
      exact .inl rfl
  | @create q t hc he =>
    by_cases hq : q.same p = true
    · refine .inl ⟨hq, ?_, rfl, t, if_pos hq, ?_⟩
      · rw [Transaction.pathExists, Bool.or_eq_false_iff] at he
        rw [← PathMap.find?_congr _ hq]
        simpa [PathMap.holds] using he.1
      · rw [PathMap.find?_insert, if_pos hq]
    · refine .inr (.inl ⟨Bool.eq_false_iff.2 hq, if_neg hq, rfl, ?_, .inl rfl⟩)
      rw [PathMap.find?_insert, if_neg hq]
  | @updateCreated q patch t t' hc hcr hp =>
    by_cases hq : q.same p = true
    · refine .inr (.inr ⟨rfl, rfl, patch, if_pos hq, .inl ⟨t, t', ?_, hp, ?_, rfl⟩⟩)
      · rw [← PathMap.find?_congr _ hq, hcr]
      · rw [PathMap.find?_insert, if_pos hq]
    · refine .inr (.inl ⟨rfl, rfl, if_neg hq, ?_, .inl rfl⟩)
      rw [PathMap.find?_insert, if_neg hq]
  | @updateStaged q patch s t' hc hcr hst hp =>
    by_cases hq : q.same p = true
    · have hcr' : tx.created.find? p = none := by
        rw [← PathMap.find?_congr _ hq, hcr]
      refine .inr (.inr ⟨rfl, rfl, patch, if_pos hq, .inr ⟨hcr', hcr', s,
        { s with current := t' }, .inl ?_, hp, rfl, ?_⟩⟩)
      · rw [← PathMap.find?_congr _ hq, hst]
      · rw [PathMap.find?_insert, if_pos hq]
    · refine .inr (.inl ⟨rfl, rfl, if_neg hq, rfl, .inl ?_⟩)
      rw [PathMap.find?_insert, if_neg hq]
  | @updateNew q patch t t' hc hcr hst hr hp =>
    by_cases hq : q.same p = true
    · have hcr' : tx.created.find? p = none := by
        rw [← PathMap.find?_congr _ hq, hcr]
      refine .inr (.inr ⟨rfl, rfl, patch, if_pos hq, .inr ⟨hcr', hcr', ⟨t, t⟩, ⟨t, t'⟩,
        .inr ⟨?_, rfl⟩, hp, rfl, ?_⟩⟩)
      · rw [← PathMap.find?_congr _ hq, hst]
      · rw [PathMap.find?_insert, if_pos hq]
    · refine .inr (.inl ⟨rfl, rfl, if_neg hq, rfl, .inl ?_⟩)
      rw [PathMap.find?_insert, if_neg hq, PathMap.find?_insert, if_neg hq]

/-- What a call neither reads nor edits is staged as before. -/
theorem Call.Stages.staged_eq {d : Disk} {tx tx' : Transaction} {c : Call} (h : c.Stages d tx tx')
    {p : Path} (hp : c.edits = true → c.path.same p = false) :
    tx'.staged.find? p = tx.staged.find? p := by
  cases h with
  | «exists» q => rfl
  | readKnown _ => rfl
  | readNew _ _ _ _ =>
    rw [PathMap.find?_insert, if_neg (by simpa [Call.path] using hp rfl)]
  | updateCreated _ _ _ => rfl
  | updateStaged _ _ _ _ =>
    rw [PathMap.find?_insert, if_neg (by simpa [Call.path] using hp rfl)]
  | updateNew _ _ _ _ _ =>
    rw [PathMap.find?_insert, if_neg (by simpa [Call.path] using hp rfl),
      PathMap.find?_insert, if_neg (by simpa [Call.path] using hp rfl)]
  | create _ _ => rfl
  | deleteFile _ _ => rfl
  | deleteFolder _ _ => rfl

theorem Call.Stages.removals_eq {d : Disk} {tx tx' : Transaction} {c : Call}
    (h : c.Stages d tx tx') : tx'.removals = tx.removals ++ c.removed?.toList := by
  cases h with
  | deleteFile hc hf => rfl
  | deleteFolder hc hf => rfl
  | _ => exact (List.append_nil _).symm

/-! ## All calls, seen from one path -/

namespace Calls

variable {d : Disk} {tx tx' : Transaction} {cs : List Call} {p : Path} {t : Text}

/-- **A created text is patched by all later calls**, and what was read stays. -/
theorem created_of_some (h : Calls d tx cs tx') (hp : tx.created.find? p = some t) :
    (∃ t', tx'.created.find? p = some t' ∧ patchAll (cs.filterMap (Call.patch? p)) t = .ok t') ∧
      tx'.staged.find? p = tx.staged.find? p := by
  induction h generalizing t with
  | nil => exact ⟨⟨t, hp, rfl⟩, rfl⟩
  | @cons tx tx₁ tx₂ c cs answer hc hs ih =>
    rcases (Call.stages_of_run hc).at_path p with ⟨_, hnone, _⟩ | ⟨_, _, hpatch, hcr, hst⟩ |
      ⟨_, _, patch, hpatch, ⟨t₀, t', ht, hrun, ht', hst⟩ | ⟨hnone, _⟩⟩
    · rw [hp] at hnone
      cases hnone
    · rw [List.filterMap_cons_none hpatch]
      obtain ⟨hall, hst'⟩ := ih (hcr.trans hp)
      rcases hst with hst | ⟨hnone, _⟩
      · exact ⟨hall, hst'.trans hst⟩
      · rw [hp] at hnone
        cases hnone
    · obtain rfl := Option.some.inj (hp.symm.trans ht)
      rw [List.filterMap_cons_some hpatch, patchAll_cons hrun]
      obtain ⟨hall, hst'⟩ := ih ht'
      exact ⟨hall, hst'.trans hst⟩
    · rw [hp] at hnone
      cases hnone

/-- **What is created in the end**: the text of the call that created it, through the
patches behind that call. -/
theorem created_spec (h : Calls d tx cs tx') (hp : tx.created.find? p = none) :
    match cs.findSome? (Call.createdText? p) with
    | none => tx'.created.find? p = none
    | some t => ∃ t', tx'.created.find? p = some t' ∧
        patchAll (Call.patchesBehind p cs) t = .ok t' := by
  induction h with
  | nil => exact hp
  | @cons tx tx₁ tx₂ c cs answer hc hs ih =>
    rcases (Call.stages_of_run hc).at_path p with ⟨hcreates, _, _, t, htext, ht⟩ |
      ⟨hcreates, htext, _, hcr, _⟩ | ⟨hcreates, htext, patch, _, ⟨t₀, _, ht, _⟩ | ⟨_, hcr, _⟩⟩
    · rw [List.findSome?_cons_of_isSome (by rw [htext]; rfl), htext,
        Call.patchesBehind_cons_of_creates hcreates]
      exact (hs.created_of_some ht).1
    · rw [List.findSome?_cons, htext, Call.patchesBehind_cons_of_not_creates hcreates]
      exact ih (hcr.trans hp)
    · rw [hp] at ht
      cases ht
    · rw [List.findSome?_cons, htext, Call.patchesBehind_cons_of_not_creates hcreates]
      exact ih hcr

/-- **What is edited in the end**: the text that was read, through the patches before a
file is created at the path. -/
theorem staged_spec (h : Calls d tx cs tx') (hp : tx.created.find? p = none) :
    match tx'.staged.find? p with
    | none => tx.staged.find? p = none ∧ Call.patchesBefore p cs = []
    | some s' => match tx.staged.find? p with
      | none => patchAll (Call.patchesBefore p cs) s'.original = .ok s'.current
      | some s => s'.original = s.original ∧
          patchAll (Call.patchesBefore p cs) s.current = .ok s'.current := by
  induction h with
  | nil tx =>
    cases hst : tx.staged.find? p with
    | none => exact ⟨rfl, rfl⟩
    | some s => exact ⟨rfl, rfl⟩
  | @cons tx tx₁ tx₂ c cs answer hc hs ih =>
    rcases (Call.stages_of_run hc).at_path p with ⟨hcreates, _, hst, t, _, ht⟩ |
      ⟨hcreates, _, hpatch, hcr, hst⟩ |
      ⟨hcreates, _, patch, hpatch, ⟨t₀, _, ht, _⟩ | ⟨_, hcr, s, s', hs₀, hrun, hor, hs'⟩⟩
    · rw [(hs.created_of_some ht).2, hst, Call.patchesBefore_cons_of_creates hcreates]
      cases hst' : tx.staged.find? p with
      | none => exact ⟨rfl, rfl⟩
      | some s => exact ⟨rfl, rfl⟩
    · rw [Call.patchesBefore_cons_of_not_creates hcreates, hpatch]
      have hrec := ih (hcr.trans hp)
      rcases hst with hst | ⟨_, hnone, t, hst⟩
      · rwa [hst] at hrec
      · rw [hst] at hrec
        rw [hnone]
        cases hfin : tx₂.staged.find? p with
        | none =>
          rw [hfin] at hrec
          cases hrec.1
        | some s' =>
          rw [hfin] at hrec
          obtain ⟨hor, hall⟩ := hrec
          show patchAll (Call.patchesBefore p cs) s'.original = .ok s'.current
          rw [hor]
          exact hall
    · rw [hp] at ht
      cases ht
    · have hrec := ih hcr
      rw [hs'] at hrec
      rw [Call.patchesBefore_cons_of_not_creates hcreates, hpatch, Option.toList_some,
        List.singleton_append]
      cases hfin : tx₂.staged.find? p with
      | none =>
        rw [hfin] at hrec
        cases hrec.1
      | some s'' =>
        rw [hfin] at hrec
        obtain ⟨hor', hall⟩ := hrec
        rcases hs₀ with hs₀ | ⟨hs₀, hcur⟩
        · rw [hs₀]
          exact ⟨hor'.trans hor, by rw [patchAll_cons hrun, hall]⟩
        · rw [hs₀]
          show patchAll (patch :: Call.patchesBefore p cs) s''.original = .ok s''.current
          rw [hor', hor, ← hcur, patchAll_cons hrun, hall]

/-- **What no call reads or edits** is not staged. -/
theorem staged_eq (h : Calls d tx cs tx') (hp : ∀ c ∈ cs, c.edits = true → c.path.same p = false) :
    tx'.staged.find? p = tx.staged.find? p := by
  induction h with
  | nil => rfl
  | @cons tx tx₁ tx₂ c cs answer hc hs ih =>
    rw [ih fun c' hc' => hp c' (List.mem_cons_of_mem _ hc'),
      (Call.stages_of_run hc).staged_eq (hp c List.mem_cons_self)]

/-- **What one call patches** is staged with what the patch made of it, when no call
creates it. -/
theorem exists_staged {l : Layout} {targets : List Path} {patch : Text → Outcome Text}
    (h : Calls d { layout := l, targets } cs tx') (hcreates : ∀ c ∈ cs, c.creates p = false)
    (hpatch : cs.filterMap (Call.patch? p) = [patch]) :
    ∃ s, tx'.staged.find? p = some s ∧ patch s.original = .ok s.current := by
  have hbefore : Call.patchesBefore p cs = [patch] := by
    rw [Call.patchesBefore, List.takeWhile_eq_self_iff.2 fun c hc => by rw [hcreates c hc]; rfl,
      hpatch]
  have hspec := h.staged_spec (p := p) rfl
  rw [hbefore] at hspec
  cases hst : tx'.staged.find? p with
  | none =>
    rw [hst] at hspec
    cases hspec.2
  | some s =>
    rw [hst] at hspec
    obtain ⟨t, ht, hnil⟩ := Outcome.bind_eq_ok.1 (show patch s.original >>= patchAll [] = _ from hspec)
    exact ⟨s, rfl, ht.trans hnil⟩

/-- What is removed is what the calls remove, in their order. -/
theorem removals_eq (h : Calls d tx cs tx') :
    tx'.removals = tx.removals ++ cs.filterMap Call.removed? := by
  induction h with
  | nil => exact (List.append_nil _).symm
  | @cons tx tx₁ tx₂ c cs answer hc hs ih =>
    have hone := (Call.stages_of_run hc).removals_eq
    rw [ih, hone, List.filterMap_cons]
    cases c.removed? <;> simp

end Calls

end Fabula
