import Fabula.Proofs.Staging.Patches
import Fabula.Proofs.Staging.Rollback

/-!
# A scaffold that succeeds does what it staged

What a transaction is to leave behind is said by its view of the disk (`Transaction.effect`):
what is removed is cut off, then the modified files hold their new texts, then the created ones
are there with the folders they need. A path stands at its own place in this order, so where two
paths spell one address the later one stands. A commit that succeeds leaves exactly that, and
reports it (`Transaction.Sound.commit_effect`).

## Address by address

A view says what there is at each address, and each step of a commit acts on every address by
itself: what is there afterwards depends on what was there before at the same address, and on
the path of the step (`Transaction.writes_congr`). So the steps may be followed at one address,
and the order in which the paths are taken matters only where two of them spell it.

The commit has something on the disk that the effect does not have. What is removed lies in
hidden folders while the files are written. Their names are longer than any other, so at all
addresses that are short the disk is the effect, and at all others there is what lies in the
hidden folders (`Disk.Moves.exists_holder`). Dropping these takes the latter away and meets
nothing else, since a hidden folder is at no short address (`Transaction.get?_purge`).

## What a scaffold does

A transaction is what calls made of it (`Transaction.IsMadeBy`): each text is the one that was
read or created, with the patches of the calls, and nothing that was called is left out.
Together with the effect this says what a scaffold does in terms of its calls. And since the
addresses of the effect are those of checked paths, or above created ones, everything that
differs afterwards lies in the data folder (`Transaction.Sound.effect_confined`).
-/

namespace Fabula

namespace Disk

variable {d D : Disk}

/-! ## Dropping the hidden folders -/

/-- **Dropping a hidden folder** cuts it off, if it is still there. -/
theorem dropHolder_spec (hD : D.IsPlain) {m : Moved} (hup : m.holder.goesUp = false)
    (hend : m.holder.endsInName = true) :
    (D.dropHolder m).IsPlain ∧ (D.dropHolder m).cwd = D.cwd ∧ ∀ c, (D.dropHolder m).get? c
      = if D.addressOf m.holder <+: c then none else D.get? c := by
  have hne := addressOf_ne_nil (d := D) hup hend
  by_cases h : D.get? (D.addressOf m.holder) = none
  · obtain ⟨e, he⟩ := removeTree_eq_error hD hup hend h
    have hdrop : D.dropHolder m = D := by
      rw [dropHolder, he]
    rw [hdrop]
    refine ⟨hD, rfl, fun c => ?_⟩
    split
    · rename_i hpre
      exact hD.get?_none_below hpre h
    · rfl
  · rw [dropHolder_eq hD hup hend h]
    exact ⟨hD.cutTree hne, rfl, fun c => get?_cutTree_of_ne_nil D hne c⟩

/-- **Dropping all hidden folders** cuts each of them off. -/
theorem purge_spec (hD : D.IsPlain) (hcwd : D.cwd = d.cwd) {ms : List Moved}
    (h : ∀ m ∈ ms, m.holder.goesUp = false ∧ m.holder.endsInName = true) :
    (D.purge ms).IsPlain ∧ (D.purge ms).cwd = d.cwd ∧
      (D.purge ms).get? = View.cut D.get? (ms.map fun m => d.addressOf m.holder) := by
  induction ms generalizing D with
  | nil =>
    refine ⟨hD, hcwd, ?_⟩
    funext c
    rw [View.cut, if_neg (by simp)]
    rfl
  | cons m ms ih =>
    obtain ⟨hup, hend⟩ := h m List.mem_cons_self
    obtain ⟨hplain, hcwd', hview⟩ := dropHolder_spec hD hup hend
    rw [addressOf_of_cwd_eq hcwd] at hview
    obtain ⟨hplain', hcwd'', hview'⟩ := ih hplain (hcwd'.trans hcwd)
      fun m' hm' => h m' (List.mem_cons_of_mem _ hm')
    refine ⟨hplain', hcwd'', ?_⟩
    show ((D.dropHolder m).purge ms).get? = _
    rw [hview']
    funext c
    rw [View.cut, View.cut, hview]
    by_cases hm : d.addressOf m.holder <+: c
    · rw [if_pos hm, ite_self, if_pos ⟨_, List.mem_map_of_mem List.mem_cons_self, hm⟩]
    · rw [if_neg hm]
      refine if_congr ?_ rfl rfl
      rw [List.map_cons]
      constructor
      · rintro ⟨a, ha, hpre⟩
        exact ⟨a, List.mem_cons_of_mem _ ha, hpre⟩
      · rintro ⟨a, ha, hpre⟩
        rcases List.mem_cons.1 ha with rfl | ha
        · exact absurd hpre hm
        · exact ⟨a, ha, hpre⟩

namespace Moves

variable {reserved : ℕ} {d' : Disk} {ms : List Moved}

/-- The hidden folders can be dropped, and are at no short address. -/
theorem holders (h : Moves reserved d ms d') : ∀ m ∈ ms, (m.holder.goesUp = false ∧
    m.holder.endsInName = true) ∧ ∀ c, IsShort reserved c → ¬d.addressOf m.holder <+: c := by
  induction h with
  | nil => exact fun m hm => absurd hm List.not_mem_nil
  | @snoc ms m d₁ d₂ hs hm ih =>
    intro m' hm'
    rcases List.mem_append.1 hm' with hm' | hm'
    · exact ih m' hm'
    · obtain rfl := List.mem_singleton.1 hm'
      refine ⟨⟨hm.holder_up, hm.holder_ends⟩, fun c hc => ?_⟩
      rw [← hs.addressOf_eq]
      exact hm.not_below_holder_of_short hc

/-- **What is at an address that is not short** is in a hidden folder. -/
theorem exists_holder (h : Moves reserved d ms d') (hr : d.longestName ≤ reserved) {c : Address}
    (hc : ¬IsShort reserved c) (hne : d'.get? c ≠ none) :
    ∃ m ∈ ms, d.addressOf m.holder <+: c := by
  induction h with
  | nil => exact absurd (isShort_of_get? hr hne) hc
  | @snoc ms m d₁ d₂ hs hm ih =>
    by_cases hh : d₁.addressOf m.holder <+: c
    · exact ⟨m, by simp, hs.addressOf_eq m.holder ▸ hh⟩
    · by_cases ho : d₁.addressOf m.original <+: c
      · obtain ⟨r, rfl⟩ := ho
        exact absurd (hm.gone r) hne
      · rw [hm.kept c ho hh] at hne
        obtain ⟨m', hm', hpre⟩ := ih hne
        exact ⟨m', List.mem_append_left _ hm', hpre⟩

end Moves

end Disk

namespace Transaction

open Disk (View)

/-! ## What is staged, as a view of the disk -/

/-- The files that are written and created, one after the other. -/
def writes (tx : Transaction) (d : Disk) (v : View) : View :=
  tx.created.foldl (fun v x => v.create (d.addressOf x.1) x.2)
    (tx.modified.foldl (fun v x => v.write (d.addressOf x.1) x.2.current) v)

/-- **What a transaction leaves behind**: the disk without what is removed, then with
the modified files, then with the created ones and their folders. -/
def effect (tx : Transaction) (d : Disk) : View :=
  tx.writes d (View.cut d.get? (tx.removals.map d.addressOf))

variable {d b d' : Disk} {tx : Transaction}

/-- Writing modified files acts on every address by itself. -/
theorem foldl_write_congr (files : PathMap Staged) {v w : View} {c : Address} (h : v c = w c) :
    files.foldl (fun v x => v.write (d.addressOf x.1) x.2.current) v c
      = files.foldl (fun v x => v.write (d.addressOf x.1) x.2.current) w c := by
  induction files generalizing v w with
  | nil => exact h
  | cons x files ih =>
    refine ih ?_
    simp only [View.write, h]

/-- **Writing acts on every address by itself.** -/
theorem writes_congr (tx : Transaction) (d : Disk) {v w : View} {c : Address} (h : v c = w c) :
    tx.writes d v c = tx.writes d w c := by
  have hcreated : ∀ (files : PathMap Text) (v w : View), v c = w c →
      files.foldl (fun v x => v.create (d.addressOf x.1) x.2) v c
        = files.foldl (fun v x => v.create (d.addressOf x.1) x.2) w c := by
    intro files
    induction files with
    | nil => exact fun _ _ h => h
    | cons x files ih =>
      intro v w h
      refine ih _ _ ?_
      simp only [View.create, View.write, View.makeFolders, h]
  exact hcreated _ _ _ (foldl_write_congr _ h)

theorem foldl_write_cases (files : PathMap Staged) (v : View) (c : Address) :
    files.foldl (fun v x => v.write (d.addressOf x.1) x.2.current) v c = v c ∨
      ∃ x ∈ files, d.addressOf x.1 = c := by
  induction files generalizing v with
  | nil => exact .inl rfl
  | cons x files ih =>
    rcases ih (v.write (d.addressOf x.1) x.2.current) with h | ⟨y, hy, hyc⟩
    · by_cases hc : c = d.addressOf x.1
      · exact .inr ⟨x, List.mem_cons_self, hc.symm⟩
      · refine .inl (h.trans ?_)
        rw [View.write, if_neg hc]
    · exact .inr ⟨y, List.mem_cons_of_mem _ hy, hyc⟩

theorem foldl_create_cases (files : PathMap Text) (v : View) (c : Address) :
    files.foldl (fun v x => v.create (d.addressOf x.1) x.2) v c = v c ∨
      (∃ x ∈ files, d.addressOf x.1 = c) ∨
      (files.foldl (fun v x => v.create (d.addressOf x.1) x.2) v c = some .folder ∧
        ∃ x ∈ files, c <+: d.addressOf x.1) := by
  induction files generalizing v with
  | nil => exact .inl rfl
  | cons x files ih =>
    rw [List.foldl_cons]
    rcases ih (v.create (d.addressOf x.1) x.2) with h | ⟨y, hy, hyc⟩ | ⟨h, y, hy, hyc⟩
    · by_cases hc : c = d.addressOf x.1
      · exact .inr (.inl ⟨x, List.mem_cons_self, hc.symm⟩)
      · rw [View.create, View.write, if_neg hc, View.makeFolders] at h
        by_cases hpre : c <+: (d.addressOf x.1).dropLast
        · rw [if_pos hpre] at h
          exact .inr (.inr ⟨h, x, List.mem_cons_self, hpre.trans (List.dropLast_prefix _)⟩)
        · rw [if_neg hpre] at h
          exact .inl h
    · exact .inr (.inl ⟨y, List.mem_cons_of_mem _ hy, hyc⟩)
    · exact .inr (.inr ⟨h, y, List.mem_cons_of_mem _ hy, hyc⟩)

/-- **What writing may change**: the modified files, the created ones, and folders
above those. -/
theorem writes_cases (tx : Transaction) (d : Disk) (v : View) (c : Address) :
    tx.writes d v c = v c ∨ (∃ x ∈ tx.modified, d.addressOf x.1 = c) ∨
      (∃ x ∈ tx.created, d.addressOf x.1 = c) ∨
      (tx.writes d v c = some .folder ∧ ∃ x ∈ tx.created, c <+: d.addressOf x.1) := by
  rcases foldl_create_cases (d := d) tx.created (tx.modified.foldl
    (fun v x => v.write (d.addressOf x.1) x.2.current) v) c with h | h | h
  · rcases foldl_write_cases (d := d) tx.modified v c with h' | h'
    · exact .inl (h.trans h')
    · exact .inr (.inl h')
  · exact .inr (.inr (.inl h))
  · exact .inr (.inr (.inr h))

/-- Writing changes nothing at an address that is not short. -/
theorem writes_of_not_isShort {c : Address} (hc : ¬Disk.IsShort (tx.reserved d) c) (v : View) :
    tx.writes d v c = v c := by
  rcases writes_cases tx d v c with h | ⟨x, hx, rfl⟩ | ⟨x, hx, rfl⟩ | ⟨_, x, hx, hpre⟩
  · exact h
  · exact absurd (Sound.isShort (Sound.mem_paths_of_staged (List.mem_of_mem_filter hx))) hc
  · exact absurd (Sound.isShort (Sound.mem_paths_of_created hx)) hc
  · have hs := Sound.isShort (d := d) (Sound.mem_paths_of_created hx)
    exact absurd (fun n hn => hs n (hpre.subset hn)) hc

/-! ## Committing -/

/-- **Dropping the hidden folders leaves the effect.** -/
theorem get?_purge {ms : List Moved} {D : Disk}
    (hms : Disk.Moves (tx.reserved d) d ms b)
    (hb : ∀ c, Disk.IsShort (tx.reserved d) c →
      b.get? c = View.cut d.get? (tx.removals.map d.addressOf) c)
    (hD : D.IsPlain) (hcwd : D.cwd = d.cwd) (hview : D.get? = tx.writes d b.get?) :
    (D.purge ms).IsPlain ∧ (D.purge ms).cwd = d.cwd ∧ (D.purge ms).get? = tx.effect d := by
  obtain ⟨hplain, hcwd', hpurge⟩ := Disk.purge_spec hD hcwd fun m hm => (hms.holders m hm).1
  refine ⟨hplain, hcwd', ?_⟩
  have hr := longestName_le_reserved tx d
  funext c
  rw [hpurge, View.cut, effect, hview]
  by_cases hc : Disk.IsShort (tx.reserved d) c
  · -- no hidden folder is met
    rw [if_neg, writes_congr tx d (hb c hc)]
    rintro ⟨a, ha, hpre⟩
    obtain ⟨m, hm, rfl⟩ := List.mem_map.1 ha
    exact (hms.holders m hm).2 c hc hpre
  · -- what is there is in a hidden folder
    have hnone : d.get? c = none := by
      by_contra hne
      exact hc (Disk.isShort_of_get? hr hne)
    rw [writes_of_not_isShort hc, writes_of_not_isShort hc, View.cut, hnone, ite_self]
    split
    · rfl
    · rename_i hholder
      by_contra hne
      obtain ⟨m, hm, hpre⟩ := hms.exists_holder hr hc hne
      exact hholder ⟨_, List.mem_map_of_mem hm, hpre⟩

/-- **A commit that succeeds leaves the effect** of the transaction, and reports it. -/
theorem Sound.commit_effect (h : Sound d tx) (hd : d.IsPlain) {scaffold : Text} {r : Report}
    (hc : tx.commit scaffold d = (.ok r, d')) : r = tx.report scaffold false ∧ d'.IsPlain ∧
      d'.cwd = d.cwd ∧ d'.get? = tx.effect d := by
  rw [commit] at hc
  cases hun : checkUnchanged d scaffold tx.modified with
  | error f =>
    rw [hun] at hc
    obtain ⟨h0, _⟩ := Prod.mk.inj hc
    cases h0
  | ok u =>
    simp only [hun] at hc
    have hmove := h.moveAllAside_spec hd
    cases hm : d.moveAllAside (tx.reserved d) tx.removals with
    | mk r' b =>
      rw [hm] at hc hmove
      cases r' with
      | error f =>
        obtain ⟨h0, _⟩ := Prod.mk.inj hc
        cases h0
      | ok ms =>
        obtain ⟨hms, hb⟩ := hmove
        have hwrite := h.writeOut_spec hd hms hb
        simp only at hc
        cases hw : tx.writeOut b with
        | mk r'' D =>
          rw [hw] at hc hwrite
          cases r'' with
          | error f =>
            obtain ⟨h0, _⟩ := Prod.mk.inj hc
            cases h0
          | ok u' =>
            obtain ⟨hr, rfl⟩ := Prod.mk.inj hc
            obtain ⟨hD, hcwd, hview⟩ := hwrite
            exact ⟨(Except.ok.inj hr).symm, get?_purge hms hb hD hcwd hview⟩

/-! ## Where the effect is -/

/-- **A transaction is what calls made of it**: each text was read or created and is
what its patches made of it, and nothing is left out. -/
structure IsMadeBy (d : Disk) (tx : Transaction) (cs : List Call) : Prop where
  removals : tx.removals = cs.filterMap Call.removed?
  /-- An edited text is the one that was read, after its patches. -/
  staged : ∀ p s, (p, s) ∈ tx.staged → d.read p = .ok s.original ∧
    patchAll (Call.patchesBefore p cs) s.original = .ok s.current
  /-- What is not edited was not patched. -/
  unstaged : ∀ p, tx.staged.find? p = none → Call.patchesBefore p cs = []
  /-- A created text is the one it was created with, after its patches. -/
  created : ∀ p t, (p, t) ∈ tx.created → ∃ first, cs.findSome? (Call.createdText? p) = some first ∧
    patchAll (Call.patchesBehind p cs) first = .ok t
  /-- What is not listed was not created. -/
  uncreated : ∀ p, tx.created.find? p = none → cs.findSome? (Call.createdText? p) = none
  /-- No path is listed twice. -/
  staged_sorted : tx.staged.Sorted
  created_sorted : tx.created.Sorted

/-- **Calls make a transaction** from an empty one. -/
theorem isMadeBy_of_calls {l : Layout} {targets : List Path} {cs : List Call}
    (h : Calls d { layout := l, targets } cs tx) : tx.IsMadeBy d cs := by
  have hsound := (Sound.init d l targets).calls h
  refine ⟨h.removals_eq, fun p s hp => ⟨hsound.staged p s hp, ?_⟩, fun p hp => ?_, fun p t hp => ?_,
    fun p hp => ?_, hsound.staged_sorted, hsound.created_sorted⟩
  · have hspec := h.staged_spec (p := p) rfl
    rw [hsound.staged_sorted.find?_of_mem hp] at hspec
    exact hspec
  · have hspec := h.staged_spec (p := p) rfl
    rw [hp] at hspec
    exact hspec.2
  · have hspec := h.created_spec (p := p) rfl
    rw [hsound.created_sorted.find?_of_mem hp] at hspec
    split at hspec
    · cases hspec
    · rename_i first hfirst
      obtain ⟨t', ht', hall⟩ := hspec
      obtain rfl := Option.some.inj ht'
      exact ⟨first, hfirst, hall⟩
  · have hspec := h.created_spec (p := p) rfl
    split at hspec
    · rename_i hnone
      exact hnone
    · obtain ⟨t', ht', _⟩ := hspec
      rw [hp] at ht'
      cases ht'

/-- An address of a path of the transaction lies in the data folder and at or below
a target. -/
theorem Sound.prefixes (h : Sound d tx) (hd : d.IsPlain)
    (ht : ∀ target ∈ tx.targets, target.text ≠ []) {p : Path}
    (hp : p ∈ tx.paths) :
    (∃ folder, d.follow tx.layout.dataDir = .ok folder ∧ folder <+: d.addressOf p) ∧
      ∃ target ∈ tx.targets, d.addressOf target <+: d.addressOf p := by
  obtain ⟨_, ⟨target, htarget, hwithin⟩, hfolder⟩ := h.within hd hp
  exact ⟨hfolder, target, htarget, Disk.addressOf_within (ht target htarget) hwithin⟩

/-- **The effect stays inside the data folder**, and at or below the targets but for
the folders of new files. -/
theorem Sound.effect_confined (h : Sound d tx) (hd : d.IsPlain)
    (ht : ∀ target ∈ tx.targets, target.text ≠ []) {c : Address}
    (hc : tx.effect d c ≠ d.get? c) :
    (∃ folder, d.follow tx.layout.dataDir = .ok folder ∧ folder <+: c) ∧
      ((∃ target ∈ tx.targets, d.addressOf target <+: c) ∨
        (tx.effect d c = some .folder ∧ ∃ x ∈ tx.created, c <+: d.addressOf x.1)) := by
  -- at or below a path of the transaction both hold
  have hbelow : ∀ p ∈ tx.paths, d.addressOf p <+: c →
      (∃ folder, d.follow tx.layout.dataDir = .ok folder ∧ folder <+: c) ∧
        ∃ target ∈ tx.targets, d.addressOf target <+: c := by
    intro p hp hpre
    obtain ⟨⟨folder, hf, hfp⟩, target, htarget, htp⟩ := h.prefixes hd ht hp
    exact ⟨⟨folder, hf, hfp.trans hpre⟩, target, htarget, htp.trans hpre⟩
  rcases writes_cases tx d (View.cut d.get? (tx.removals.map d.addressOf)) c with
    hw | ⟨x, hx, rfl⟩ | ⟨x, hx, rfl⟩ | ⟨hw, x, hx, hpre⟩
  · rw [effect, hw, View.cut] at hc
    split at hc
    · rename_i hcut
      obtain ⟨a, ha, hpre⟩ := hcut
      obtain ⟨r, hr, rfl⟩ := List.mem_map.1 ha
      obtain ⟨hfolder, htarget⟩ := hbelow r (Sound.mem_paths_of_removals hr) hpre
      exact ⟨hfolder, .inl htarget⟩
    · exact absurd rfl hc
  · obtain ⟨hfolder, htarget⟩ :=
      hbelow x.1 (Sound.mem_paths_of_staged (List.mem_of_mem_filter hx)) (List.prefix_refl _)
    exact ⟨hfolder, .inl htarget⟩
  · obtain ⟨hfolder, htarget⟩ := hbelow x.1 (Sound.mem_paths_of_created hx) (List.prefix_refl _)
    exact ⟨hfolder, .inl htarget⟩
  · refine ⟨?_, .inr ⟨hw, x, hx, hpre⟩⟩
    obtain ⟨⟨folder, hf, hfx⟩, _⟩ := h.prefixes hd ht (Sound.mem_paths_of_created hx)
    refine ⟨folder, hf, ?_⟩
    rcases List.prefix_or_prefix_of_prefix hfx hpre with hfc | hcf
    · exact hfc
    · -- the data folder is there, and so is every folder above it
      by_cases heq : c = folder
      · exact ⟨[], by rw [List.append_nil, heq]⟩
      · obtain ⟨e, he⟩ := Option.ne_none_iff_exists'.1 (Disk.get?_of_follow hd hf)
        refine absurd ?_ hc
        rw [hd.folder_above hcf heq he]
        exact hw

end Transaction

namespace Layout

theorem forM_eq_ok {α : Type} {f : α → Outcome Unit} {xs : List α} (h : xs.forM f = .ok ()) :
    ∀ x ∈ xs, f x = .ok () := by
  induction xs with
  | nil => exact fun x hx => absurd hx List.not_mem_nil
  | cons y ys ih =>
    obtain ⟨u, hy, hys⟩ := Outcome.bind_eq_ok.1 h
    intro x hx
    rcases List.mem_cons.1 hx with rfl | hx
    · exact hy
    · exact ih hys x hx

/-- A target that was resolved is not empty. -/
theorem text_ne_nil_of_checkTargets {l : Layout} {d : Disk} {targets : List Path}
    (h : l.checkTargets d targets = .ok ()) : ∀ target ∈ targets, target.text ≠ [] := by
  obtain ⟨_, _, h⟩ := Outcome.bind_eq_ok.1 h
  intro target htarget ht
  obtain ⟨a, ha, _⟩ := Outcome.bind_eq_ok.1 (forM_eq_ok h target htarget)
  obtain ⟨t⟩ := target
  obtain rfl : t = [] := ht
  cases ha

/-- **A scaffold that succeeds does what it staged and nothing else.** The calls of
its plan make a transaction. The disk holds the effect of that transaction, which
writes the paths in their order, and the report lists it; every address that differs
lies in the data folder, and at or below a target or above a file that was created. -/
theorem runPlan_applied (l : Layout) {d d' : Disk} (hd : d.IsPlain) {plan : LivePlan}
    (hplan : plan.MakesCalls) {name : Text} {targets : List Path} {report : Report}
    (h : l.runPlan .apply name targets plan d = (.ok report, d')) :
    ∃ cs tx, (plan d { layout := l, targets }).1 = .ok tx ∧
      Calls d { layout := l, targets } cs tx ∧ tx.IsMadeBy d cs ∧
      d'.cwd = d.cwd ∧ d'.get? = tx.effect d ∧
      report = ⟨name, false, tx.modified.map (fun x => .modified x.1 x.2.original x.2.current) ++
        tx.created.map (fun x => .created x.1 x.2) ++ tx.removals.map .deleted⟩ ∧
      ∀ c, d'.get? c ≠ d.get? c →
        (∃ folder, d.follow l.dataDir = .ok folder ∧ folder <+: c) ∧
          ((∃ target ∈ targets, d.addressOf target <+: c) ∨
            (d'.get? c = some .folder ∧ ∃ x ∈ tx.created, c <+: d.addressOf x.1)) := by
  rcases hplan.runPlan_cases h with ⟨⟨f, hf⟩, _⟩ | ⟨cs, tx, ht, htx, hcs, hcommit⟩
  · cases hf
  · have hsound := (Transaction.Sound.init d l targets).calls hcs
    obtain ⟨hl, htargets⟩ := hcs.layout_eq
    obtain ⟨hreport, _, hcwd, hview⟩ := hsound.commit_effect hd hcommit
    refine ⟨cs, tx, htx, hcs, Transaction.isMadeBy_of_calls hcs, hcwd, hview, hreport, ?_⟩
    intro c hc
    have hne : ∀ target ∈ tx.targets, target.text ≠ [] := by
      rw [htargets]
      exact text_ne_nil_of_checkTargets ht
    rw [hview] at hc ⊢
    have hconf := hsound.effect_confined hd hne hc
    rwa [hl, htargets] at hconf

/-- A plan that edits a file, removes another one and creates a file in a new folder. -/
def planThree : LivePlan :=
  Move.plan ([.update ⟨"w/a".toList⟩ fun t => .ok (t ++ t), .deleteFile ⟨"w/b".toList⟩,
    .create ⟨"w/n/x".toList⟩ []].map Move.call)

theorem runPlan_applied_three : ∃ report d',
    flatLayout.runPlan .apply [] [⟨"w".toList⟩] planThree threeFiles = (.ok report, d') ∧
      ∃ cs tx, (planThree threeFiles { layout := flatLayout, targets := [⟨"w".toList⟩] }).1
          = .ok tx ∧ tx.IsMadeBy threeFiles cs ∧ d'.get? = tx.effect threeFiles := by
  have happlied : (flatLayout.runPlan .apply [] [⟨"w".toList⟩] planThree threeFiles).1.isOk
      = true := by
    decide +kernel
  have hplain : threeFiles.IsPlain :=
    Disk.isPlain_of_entries (by decide) (by decide) (by decide)
  obtain ⟨report, hreport⟩ : ∃ report,
      (flatLayout.runPlan .apply [] [⟨"w".toList⟩] planThree threeFiles).1 = .ok report := by
    cases h : (flatLayout.runPlan .apply [] [⟨"w".toList⟩] planThree threeFiles).1 with
    | error f =>
      rw [h] at happlied
      cases happlied
    | ok report => exact ⟨report, rfl⟩
  obtain ⟨cs, tx, hplan, _, hmade, _, hview, _⟩ := runPlan_applied flatLayout hplain
    (Move.makesCalls _) (Prod.ext hreport rfl)
  exact ⟨report, _, Prod.ext hreport rfl, cs, tx, hplan, hmade, hview⟩

/-- A plan that edits a file twice, under two spellings of its path. -/
def planSpellings : LivePlan :=
  Move.plan ([.update ⟨"w/a".toList⟩ fun t => .ok (t ++ ['1']),
    .update ⟨"./w/a".toList⟩ fun t => .ok (t ++ ['2'])].map Move.call)

/-- **Two spellings are two paths**: each is staged by itself, and the file holds what
was staged for the one that comes later in the order of paths. -/
theorem spellings_staged_apart :
    (planSpellings threeFiles
        { layout := flatLayout, targets := [⟨"w".toList⟩, ⟨"./w".toList⟩] }).1.toOption.map
          (fun tx => (tx.modified, tx.created))
      = some ([(⟨"./w/a".toList⟩, ⟨"a".toList, "a2".toList⟩),
          (⟨"w/a".toList⟩, ⟨"a".toList, "a1".toList⟩)], []) ∧
    (flatLayout.runPlan .apply [] [⟨"w".toList⟩, ⟨"./w".toList⟩] planSpellings
        threeFiles).1.isOk = true ∧
    (flatLayout.runPlan .apply [] [⟨"w".toList⟩, ⟨"./w".toList⟩] planSpellings
        threeFiles).2.get? (threeFiles.addressOf ⟨"./w/a".toList⟩)
      = some (.file (.text "a1".toList)) := by
  decide +kernel

end Layout

end Fabula
