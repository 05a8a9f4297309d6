import Fabula.Proofs.Staging.Calls
import Fabula.Proofs.Staging.Progress

/-!
# A scaffold that fails leaves no trace

Whatever a plan stages, and wherever the run of it stops: the disk is then as it was before
(`Layout.runPlan_failed_same`). The disk is any tree without links, the plan any sequence of
calls, and the failure any that can occur, be it found while planning, while things are moved
aside, while files are written, or when folders are made. What is the same is everything, files
and folders and what they hold.

## The stages

* While it is planned nothing is changed, because calls only read.
* A commit first reads the modified files once more, which changes nothing, either.
* Then it moves the removals aside. If one cannot be moved, those that were are moved back in
  the opposite order, which leaves the disk as it was (`Transaction.Sound.moveAllAside_spec`).
* Then it writes and creates. If that fails it is undone, and what was undone covers the disk
  before it. Then the removals are moved back, and that leaves the disk as it was, also over
  files that were written in their places (`Transaction.Sound.writeOut_spec`).
* After that nothing fails. The hidden folders are dropped, and whether that succeeds is not
  asked.

So there is one lemma for each stage, which says what a failure in it leaves, and putting them
together is a case distinction along the commit (`Transaction.Sound.commit_failed_same`).

## Names that are made up

What is moved aside must be in nobody's way. It lies in folders with names that are longer than
any path of the transaction and any name on the disk (`Transaction.longestName_le_reserved`). So
none of the paths that are written leads there, and the lemmas about moves apply, which speak of
short addresses.

A removal below another one is not moved by itself. It lies below one that is not covered by any
other (`Disk.exists_uncovered`), and goes with it.
-/

namespace Fabula

namespace Transaction

variable {d : Disk} {tx : Transaction}

theorem longestName_le_reserved (tx : Transaction) (d : Disk) :
    d.longestName ≤ tx.reserved d :=
  Disk.base_le_foldr_max _ _

theorem length_le_reserved {p : Path} (h : p ∈ tx.paths) : p.text.length ≤ tx.reserved d :=
  Disk.le_foldr_max (List.mem_map_of_mem h)

namespace Sound

/-- **Every path of a transaction** spells an address in the data folder. -/
theorem within (h : Sound d tx) (hd : d.IsPlain) {p : Path} (hp : p ∈ tx.paths) :
    p.goesUp = false ∧ (∃ target ∈ tx.targets, p.isWithin target = true) ∧
      ∃ folder, d.follow tx.layout.dataDir = .ok folder ∧ folder <+: d.addressOf p := by
  have hc := h.checked p hp
  rw [check] at hc
  split at hc
  · rename_i htarget
    obtain ⟨hup, hfolder⟩ := Disk.of_ensureWithin hd hc
    exact ⟨hup, List.any_eq_true.1 htarget, hfolder⟩
  · exact absurd hc Outcome.fail_ne_ok

theorem goesUp (h : Sound d tx) (hd : d.IsPlain) {p : Path} (hp : p ∈ tx.paths) :
    p.goesUp = false :=
  (h.within hd hp).1

theorem mem_paths_of_staged {p : Path} {s : Staged} (hp : (p, s) ∈ tx.staged) : p ∈ tx.paths :=
  mem_paths.2 (.inl ⟨s, hp⟩)

theorem mem_paths_of_created {p : Path} {t : Text} (hp : (p, t) ∈ tx.created) : p ∈ tx.paths :=
  mem_paths.2 (.inr (.inl ⟨t, hp⟩))

theorem mem_paths_of_removals {p : Path} (hp : p ∈ tx.removals) : p ∈ tx.paths :=
  mem_paths.2 (.inr (.inr hp))

end Sound

end Transaction

namespace Disk

variable {d : Disk}

/-- **A text that is read** is that of the file at the path's address. -/
theorem get?_of_read (hd : d.IsPlain) {p : Path} (hup : p.goesUp = false) {t : Text}
    (h : d.read p = .ok t) : d.get? (d.addressOf p) = some (.file (.text t)) := by
  rw [read] at h
  cases hf : d.follow p with
  | error e =>
    rw [hf] at h
    cases h
  | ok a =>
    obtain rfl : a = d.addressOf p := ((follow_eq_ok_iff hd hup).1 hf).2.1
    rw [hf] at h
    dsimp only [bind, Except.bind] at h
    split at h
    · rename_i hfile
      rw [hfile, Except.ok.inj h]
    · cases h
    · cases h

theorem text_ne_nil_of_entryOf? {p : Path} {e : Entry} (h : d.entryOf? p = some e) :
    p.text ≠ [] := by
  intro ht
  rw [entryOf?, follow, if_pos ht] at h
  cases h

/-- What is a file or a folder is something. -/
theorem exists_entryOf? {p : Path} (h : d.isFile p = true ∨ d.isFolder p = true) :
    ∃ e, d.entryOf? p = some e := by
  rcases h with h | h
  · rw [isFile] at h
    split at h
    · rename_i hf
      exact ⟨_, hf⟩
    · cases h
  · exact ⟨_, isFolder_iff.1 h⟩

/-- **A covered path lies below one that is not covered.** -/
theorem exists_uncovered {removals : List Path} (hne : ∀ r ∈ removals, r.text ≠ []) {r : Path}
    (hr : r ∈ removals) : ∃ q ∈ removals.filter fun p => !isCovered removals p,
      d.addressOf q <+: d.addressOf r := by
  induction hk : r.components.length using Nat.strong_induction_on generalizing r with
  | h k ih =>
  by_cases hc : isCovered removals r = true
  · obtain ⟨o, ho, hor⟩ := List.any_eq_true.1 hc
    rw [Bool.and_eq_true, Bool.not_eq_true'] at hor
    have hpre : o.components <+: r.components := List.isPrefixOf_iff_prefix.1 hor.2
    have hlen : o.components.length < k := by
      refine lt_of_le_of_ne (hk ▸ hpre.length_le) fun h0 => ?_
      rw [Path.same_iff.2 (hpre.eq_of_length (h0.trans hk.symm))] at hor
      exact absurd hor.1 (by simp)
    obtain ⟨q, hq, hqo⟩ := ih _ hlen ho rfl
    exact ⟨q, hq, hqo.trans (addressOf_within (hne o ho) hor.2)⟩
  · exact ⟨r, List.mem_filter.2 ⟨hr, by simpa using hc⟩, List.prefix_refl _⟩

end Disk

namespace Transaction

namespace Sound

variable {d b : Disk} {tx : Transaction}

/-- **Moving the removals aside** leaves the disk without them, or as it was. -/
theorem moveAllAside_spec (h : Sound d tx) (hd : d.IsPlain) :
    match d.moveAllAside (tx.reserved d) tx.removals with
    | (.ok ms, b) => Disk.Moves (tx.reserved d) d ms b ∧
        ∀ c, Disk.IsShort (tx.reserved d) c →
          b.get? c = Disk.View.cut d.get? (tx.removals.map d.addressOf) c
    | (.error _, d') => d'.IsPlain ∧ d'.Same d := by
  have hpaths : ∀ p ∈ tx.removals.filter fun p => !Disk.isCovered tx.removals p,
      p.goesUp = false ∧ p.text.length ≤ tx.reserved d := by
    intro p hp
    have hmem := mem_paths_of_removals (List.mem_of_mem_filter hp)
    exact ⟨h.goesUp hd hmem, length_le_reserved hmem⟩
  have hspec := Disk.moveAllAside_go_spec hd (longestName_le_reserved tx d) hpaths .nil
  rw [Disk.moveAllAside]
  generalize Disk.moveAllAside.go (tx.reserved d) d []
    (tx.removals.filter fun p => !Disk.isCovered tx.removals p) = result at hspec ⊢
  obtain ⟨r, b⟩ := result
  cases r with
  | error f => exact hspec
  | ok ms =>
    refine ⟨hspec.1, fun c hc => ?_⟩
    rw [hspec.1.get?_eq hc, Disk.View.cut]
    refine if_congr ?_ rfl rfl
    have hms : ms.map Moved.original = tx.removals.filter fun p =>
        !Disk.isCovered tx.removals p := by
      simpa using hspec.2
    have hne : ∀ r ∈ tx.removals, r.text ≠ [] := by
      intro r hr
      obtain ⟨e, he⟩ := Disk.exists_entryOf? (h.removals r hr)
      exact Disk.text_ne_nil_of_entryOf? he
    constructor
    · rintro ⟨m, hm, hpre⟩
      have hmem : m.original ∈ tx.removals.filter fun p => !Disk.isCovered tx.removals p := by
        rw [← hms]
        exact List.mem_map_of_mem hm
      exact ⟨_, List.mem_map_of_mem (List.mem_of_mem_filter hmem), hpre⟩
    · rintro ⟨a, ha, hpre⟩
      obtain ⟨r, hr, rfl⟩ := List.mem_map.1 ha
      obtain ⟨q, hq, hqr⟩ := Disk.exists_uncovered (d := d) hne hr
      rw [← hms] at hq
      obtain ⟨m, hm, rfl⟩ := List.mem_map.1 hq
      exact ⟨m, hm, hqr.trans hpre⟩

/-- The address of a path of the transaction is short. -/
theorem isShort {p : Path} (hp : p ∈ tx.paths) :
    Disk.IsShort (tx.reserved d) (d.addressOf p) :=
  Disk.isShort_addressOf (longestName_le_reserved tx d) (length_le_reserved hp)

/-- What is modified was read. -/
theorem modified_spec (h : Sound d tx) (hd : d.IsPlain) {x : Path × Staged}
    (hx : x ∈ tx.modified) : x.1.goesUp = false ∧
      d.get? (d.addressOf x.1) = some (.file (.text x.2.original)) := by
  have hmem := mem_paths_of_staged (List.mem_of_mem_filter hx)
  have hup := h.goesUp hd hmem
  exact ⟨hup, Disk.get?_of_read hd hup (h.staged _ _ (List.mem_of_mem_filter hx))⟩

/-- Where something is created nothing is left. -/
theorem created_spec (h : Sound d tx) (hd : d.IsPlain)
    (hb : ∀ c, Disk.IsShort (tx.reserved d) c →
      b.get? c = Disk.View.cut d.get? (tx.removals.map d.addressOf) c)
    {x : Path × Text} (hx : x ∈ tx.created) : x.1.goesUp = false ∧ (x.1.endsInName = true →
      x.1.text.getLast? ≠ some '/' → b.get? (d.addressOf x.1) = none) := by
  have hmem := mem_paths_of_created hx
  have hup := h.goesUp hd hmem
  refine ⟨hup, fun hend hslash => ?_⟩
  rw [hb _ (isShort hmem), Disk.View.cut]
  split
  · rfl
  · rename_i hcut
    rcases h.created _ _ hx with hex | hrem
    · rw [← Disk.entryOf?_eq hd hup hend hslash]
      simpa [Disk.pathExists] using hex
    · obtain ⟨r, hr, hpr⟩ := List.any_eq_true.1 hrem
      obtain ⟨e, he⟩ := Disk.exists_entryOf? (h.removals r hr)
      exact absurd ⟨_, List.mem_map_of_mem hr,
        Disk.addressOf_within (Disk.text_ne_nil_of_entryOf? he) hpr⟩ hcut

/-- **Writing out** writes and creates what is staged, or is undone. -/
theorem writeOut_spec (h : Sound d tx) (hd : d.IsPlain) {ms : List Moved}
    (hms : Disk.Moves (tx.reserved d) d ms b)
    (hb : ∀ c, Disk.IsShort (tx.reserved d) c →
      b.get? c = Disk.View.cut d.get? (tx.removals.map d.addressOf) c) :
    match tx.writeOut b with
    | (.error _, d') => d'.Covers b d.filesOf
    | (.ok (), d') => d'.IsPlain ∧ d'.cwd = d.cwd ∧ d'.get? = tx.created.foldl
        (fun v x => Disk.View.create v (d.addressOf x.1) x.2) (tx.modified.foldl
          (fun v x => Disk.View.write v (d.addressOf x.1) x.2.current) b.get?) := by
  have hbp := hms.plain hd
  have hundo : ∀ s : Progress, s.Holds d b → s.undo.Covers b d.filesOf := by
    refine fun s hs => hs.undo_covers hbp hms.cwd_eq fun c hc => hms.get?_eq_or ?_
    obtain ⟨content, hfile⟩ := hc
    exact Disk.isShort_of_get? (longestName_le_reserved tx d) (by simp [hfile])
  obtain ⟨hw, hview⟩ := Progress.writeAll_spec (Progress.Holds.init hbp hms.cwd_eq)
    (fun x hx => h.modified_spec hd hx)
  rw [writeOut]
  cases hall : Progress.writeAll { disk := b } tx.modified with
  | mk r s =>
    rw [hall] at hw hview
    cases r with
    | error f => exact hundo s hw
    | ok u =>
      obtain ⟨hc, hview'⟩ := Progress.createAll_spec hw hbp
        (fun x hx => h.created_spec hd hb hx)
      simp only
      cases hcr : s.createAll tx.created with
      | mk r' s' =>
        rw [hcr] at hc hview'
        cases r' with
        | error f => exact hundo s' hc
        | ok u' => exact ⟨hc.plain, hc.cwd_eq, by rw [hview' rfl, hview rfl]⟩

/-- **A commit that fails leaves the disk as it was.** -/
theorem commit_failed_same (h : Sound d tx) (hd : d.IsPlain) {scaffold : Text} {f : Failure}
    {d' : Disk} (hc : tx.commit scaffold d = (.error f, d')) : d'.IsPlain ∧ d'.Same d := by
  rw [commit] at hc
  cases hun : checkUnchanged d scaffold tx.modified with
  | error f =>
    rw [hun] at hc
    obtain ⟨_, rfl⟩ := Prod.mk.inj hc
    exact ⟨hd, .refl d⟩
  | ok u =>
    simp only [hun] at hc
    have hmove := h.moveAllAside_spec hd
    cases hm : d.moveAllAside (tx.reserved d) tx.removals with
    | mk r b =>
      rw [hm] at hc hmove
      cases r with
      | error f =>
        obtain ⟨_, rfl⟩ := Prod.mk.inj hc
        exact hmove
      | ok ms =>
        obtain ⟨hms, hb⟩ := hmove
        have hwrite := h.writeOut_spec hd hms hb
        simp only at hc
        cases hw : tx.writeOut b with
        | mk r' e =>
          rw [hw] at hc hwrite
          cases r' with
          | error f =>
            obtain ⟨_, rfl⟩ := Prod.mk.inj hc
            exact hms.same_of_covers hd (longestName_le_reserved tx d) hwrite
          | ok u' =>
            obtain ⟨h0, _⟩ := Prod.mk.inj hc
            cases h0

end Sound

end Transaction

namespace Layout

/-- **A scaffold that fails leaves no trace**: if applying a plan that makes calls of
the transaction fails at any stage, the disk is as it was, on every tree without
links, for every layout and for any targets. -/
theorem runPlan_failed_same (l : Layout) {d d' : Disk} (hd : d.IsPlain) {plan : LivePlan}
    (hplan : plan.MakesCalls) {name : Text} {targets : List Path} {f : Failure}
    (h : l.runPlan .apply name targets plan d = (.error f, d')) : d'.Same d := by
  rcases hplan.runPlan_cases h with ⟨_, rfl⟩ | ⟨cs, tx, _, _, hcs, hcommit⟩
  · exact .refl d'
  · exact (((Transaction.Sound.init d l targets).calls hcs).commit_failed_same hd hcommit).2

/-- A folder with three files. -/
def threeFiles : Disk :=
  ⟨[], [(["w".toList], .folder), (["w".toList, "a".toList], .file (.text "a".toList)),
    (["w".toList, "b".toList], .file (.text "b".toList)),
    (["w".toList, "c".toList], .file (.text "c".toList))]⟩

/-- A project whose data folder is the project's folder. -/
def flatLayout : Layout :=
  ⟨⟨"w".toList⟩, { dataDir := "/w".toList }⟩

/-- A plan that edits a file, removes another one and creates a file in a new folder,
and then one below a file. -/
def planBelowFile : LivePlan :=
  Move.plan ([.update ⟨"w/a".toList⟩ fun t => .ok (t ++ t), .deleteFile ⟨"w/b".toList⟩,
    .create ⟨"w/n/x".toList⟩ [], .create ⟨"w/p/x".toList⟩ [], .create ⟨"w/c/x".toList⟩ []].map
      Move.call)

theorem runPlan_failed_same_below_file :
    ∃ f, (flatLayout.runPlan .apply [] [⟨"w".toList⟩] planBelowFile threeFiles).1 = .error f ∧
      (flatLayout.runPlan .apply [] [⟨"w".toList⟩] planBelowFile threeFiles).2.Same
        threeFiles := by
  have hfails : (flatLayout.runPlan .apply [] [⟨"w".toList⟩] planBelowFile threeFiles).1
      = .error ⟨[.applying [], .creating ⟨"w/c".toList⟩], .disk .exists⟩ := by
    decide +kernel
  have hplain : threeFiles.IsPlain :=
    Disk.isPlain_of_entries (by decide) (by decide) (by decide)
  exact ⟨_, hfails, runPlan_failed_same flatLayout hplain (Move.makesCalls _)
    (Prod.ext hfails rfl)⟩

end Layout

end Fabula
