import Fabula.Proofs.Staging.Effect

/-!
# What a commit leaves alone

A commit that succeeds leaves the effect of its transaction, and one that fails leaves the disk
as it was – when the transaction fits the disk. It need not: between the last call and the
commit something may have turned up where a file is going to be created. Then the commit
replaces it, or, when it fails behind that, removes it.

What is said here holds of every transaction whose paths do not go up, whether it fits or not:
an entry that none of its paths leads to is there afterwards, however the commit ended
(`Transaction.commit_spares`). It says less than the statements about sound transactions, and
nothing about the rest of the disk, and that is why it can do without their assumptions.

## One entry

The entry is followed through the commit. Moving a removal aside changes what is at and below
its path and what is in its hidden folder, and the entry is in neither. Writing and creating
change what is at their paths, and making folders changes no entry at all, since only missing
ones are made. What may go wrong is undoing: it writes and removes what is listed, and the lists
come from a disk on which things were other than the transaction supposed. So the invariant is
about the lists (`Progress.Spares`). The entry is there, nothing that is listed as written is at
its address, and nothing that is listed as created is there or above.

The last part is the one that has to be seen. What is listed for a new file is the topmost
folder that was missing, and above an entry that is there no folder is missing
(`Progress.Spares.makeParent`).

Moving back is the same in the other direction, be it that something is in the way or not
(`Disk.Moves.restore_spares`): each step changes what is at one path and in one hidden folder,
and when it fails it changes nothing.
-/

namespace Fabula

namespace Disk

variable {d d' D : Disk}

/-! ## Moving back, whatever is in the way -/

theorem movedView_elsewhere {a b c : Address} (ha : ¬a <+: c) (hb : ¬b <+: c) :
    d.movedView a b c = d.get? c := by
  rw [movedView, if_neg hb, if_neg ha]

/-- **Renaming changes what is at the two paths**, and nothing else. -/
theorem rename_spares (hd : d.IsPlain) {p q : Path} (hp : p.goesUp = false)
    (hq : q.goesUp = false) (hpq : ¬d.addressOf p <+: d.addressOf q) (h : d.rename p q = .ok d') :
    d'.IsPlain ∧ d'.cwd = d.cwd ∧
      ∀ c, ¬d.addressOf p <+: c → ¬d.addressOf q <+: c → d'.get? c = d.get? c := by
  obtain ⟨a, b, ha, hb, hpe, hqe⟩ := of_rename_eq_ok h
  obtain ⟨rfl, _⟩ := (entryAddress_eq_ok_iff hd hp hpe).1 ha
  obtain ⟨rfl, hparent⟩ := (entryAddress_eq_ok_iff hd hq hqe).1 hb
  have hne : d.addressOf p ≠ d.addressOf q := fun heq => hpq (heq ▸ List.prefix_refl _)
  have hpne := addressOf_ne_nil (d := d) hp hpe
  have hqne := addressOf_ne_nil (d := d) hq hqe
  cases he : d.get? (d.addressOf p) with
  | none =>
    rw [rename_eq ha hb hpe hqe, he] at h
    cases h
  | some e =>
    cases e with
    | link t => exact absurd he (hd.no_link _ t)
    | file content =>
      rw [rename_file ha hb hpe hqe he, if_neg hne] at h
      split at h
      · cases h
      · split at h
        · cases h
        · rename_i hfolder
          obtain rfl := Except.ok.inj h
          obtain ⟨hplain, hview⟩ := movedView_replace hd he hparent hfolder hne
          exact ⟨hplain, rfl, fun c hc hc' => (hview c).trans (movedView_elsewhere hc hc')⟩
    | folder =>
      rw [rename_eq ha hb hpe hqe, he] at h
      simp only [if_neg hne] at h
      split at h
      · rename_i hnone
        obtain rfl := Except.ok.inj h
        obtain ⟨hplain, hview⟩ := movedView_moveTree hd hpne hparent hnone hpq
        exact ⟨hplain, rfl, fun c hc hc' => (hview c).trans (movedView_elsewhere hc hc')⟩
      · split at h
        · -- an empty folder is in the way, and goes
          obtain rfl := Except.ok.inj h
          have hcut := get?_cutTree_of_ne_nil d hqne
          obtain ⟨hplain, hview⟩ := movedView_moveTree (hd.cutTree hqne) (b := d.addressOf q) hpne
            (by rw [hcut, if_neg (not_prefix_dropLast hqne), hparent])
            (by rw [hcut, if_pos (List.prefix_refl _)]) hpq
          refine ⟨hplain, rfl, fun c hc hc' => ?_⟩
          rw [hview, movedView_elsewhere hc hc', hcut, if_neg hc']
        · cases h
      · cases h

/-- **Moving something back** changes what is where it was and in its hidden folder. -/
theorem MovedAside.putBack_spares {reserved : ℕ} {m : Moved} (hm : d.MovedAside reserved m d')
    (hD : D.IsPlain) (hcwd : D.cwd = d.cwd) : (D.putBack m).IsPlain ∧ (D.putBack m).cwd = d.cwd ∧
      ∀ c, ¬d.addressOf m.original <+: c → ¬d.addressOf m.holder <+: c →
        (D.putBack m).get? c = D.get? c := by
  have hat : ∀ p, D.addressOf p = d.addressOf p := addressOf_of_cwd_eq hcwd
  obtain ⟨D₁, hput, hplain, hcwd₁, hview⟩ : ∃ D₁ : Disk, D.putBack m = D₁.dropHolder m ∧
      D₁.IsPlain ∧ D₁.cwd = D.cwd ∧ ∀ c, ¬d.addressOf m.original <+: c →
        ¬d.addressOf m.aside <+: c → D₁.get? c = D.get? c := by
    rw [putBack]
    cases hr : D.rename m.aside m.original with
    | error e => exact ⟨D, rfl, hD, rfl, fun _ _ _ => rfl⟩
    | ok D₁ =>
      have hapart : ¬D.addressOf m.aside <+: D.addressOf m.original := by
        rw [hat, hat]
        exact fun hpre => hm.not_below_holder (hm.holder_prefix_aside.trans hpre)
      obtain ⟨hplain, hcwd₁, hview⟩ := rename_spares hD hm.aside_up hm.original_up hapart hr
      rw [hat, hat] at hview
      exact ⟨D₁, rfl, hplain, hcwd₁, fun c ho ha => hview c ha ho⟩
  obtain ⟨hplain', hcwd', hview'⟩ := dropHolder_spec hplain hm.holder_up hm.holder_ends
  rw [hput]
  refine ⟨hplain', hcwd'.trans (hcwd₁.trans hcwd), fun c ho hh => ?_⟩
  rw [hview', addressOf_of_cwd_eq (hcwd₁.trans hcwd), if_neg hh,
    hview c ho fun ha => hh (hm.holder_prefix_aside.trans ha)]

/-- **Moving everything back** changes nothing away from where it was. -/
theorem Moves.restore_spares {reserved : ℕ} {ms : List Moved} (h : Moves reserved d ms d')
    (hD : D.IsPlain) (hcwd : D.cwd = d.cwd) {c : Address} (hc : IsShort reserved c)
    (hms : ∀ m ∈ ms, ¬d.addressOf m.original <+: c) :
    (D.restore ms).IsPlain ∧ (D.restore ms).cwd = d.cwd ∧ (D.restore ms).get? c = D.get? c := by
  induction h generalizing D with
  | nil => exact ⟨hD, hcwd, rfl⟩
  | @snoc ms m d₁ d₂ hs hm ih =>
    obtain ⟨hplain, hcwd₁, hview⟩ := hm.putBack_spares hD (hcwd.trans hs.cwd_eq.symm)
    obtain ⟨hplain', hcwd', hview'⟩ := ih hplain (hcwd₁.trans hs.cwd_eq)
      fun m' hm' => hms m' (List.mem_append_left _ hm')
    rw [restore_concat]
    refine ⟨hplain', hcwd', hview'.trans (hview c ?_ (hm.not_below_holder_of_short hc))⟩
    rw [hs.addressOf_eq]
    exact hms m (List.mem_append_right _ (List.mem_singleton_self _))

end Disk

/-! ## Writing, creating and undoing -/

namespace Progress

/-- **A commit spares an entry**: the entry is there, and nothing that was written is at its
address, and nothing that was created is there or above. `d` is the disk the addresses are told
by. -/
structure Spares (d : Disk) (c : Address) (e : Entry) (s : Progress) : Prop where
  plain : s.disk.IsPlain
  cwd_eq : s.disk.cwd = d.cwd
  kept : s.disk.get? c = some e
  written : ∀ x ∈ s.written, x.1.goesUp = false ∧ d.addressOf x.1 ≠ c
  created : ∀ p ∈ s.created, p.goesUp = false ∧ p.endsInName = true ∧
    p.text.getLast? ≠ some '/' ∧ ¬d.addressOf p <+: c

variable {d : Disk} {c : Address} {e : Entry} {s : Progress} {p : Path}

theorem Spares.addressOf_eq (h : s.Spares d c e) (p : Path) :
    s.disk.addressOf p = d.addressOf p :=
  Disk.addressOf_of_cwd_eq h.cwd_eq p

/-- A file written elsewhere leaves the entry. -/
theorem Spares.of_wrote (h : s.Spares d c e) {disk : Disk} {t : Text} (hp : d.addressOf p ≠ c)
    (hw : s.disk.Wrote disk (d.addressOf p) t) :
    disk.IsPlain ∧ disk.cwd = d.cwd ∧ disk.get? c = some e :=
  ⟨hw.plain, hw.cwd_eq.trans h.cwd_eq, by rw [hw.get?_eq, if_neg hp.symm, h.kept]⟩

/-- **Writing files elsewhere** leaves the entry. -/
theorem Spares.writeAll {files : PathMap Staged} (h : s.Spares d c e)
    (hfiles : ∀ x ∈ files, x.1.goesUp = false ∧ d.addressOf x.1 ≠ c) :
    (Progress.writeAll s files).2.Spares d c e := by
  induction files generalizing s with
  | nil => exact h
  | cons x files ih =>
    obtain ⟨p, file⟩ := x
    obtain ⟨hup, hp⟩ := hfiles (p, file) List.mem_cons_self
    rw [Progress.writeAll]
    cases hw : s.disk.writeAtomic p file.current with
    | error f => exact h
    | ok disk =>
      have hwrote := Disk.wrote_of_writeAtomic h.plain hup hw
      rw [h.addressOf_eq] at hwrote
      obtain ⟨hplain, hcwd, hkept⟩ := h.of_wrote hp hwrote
      refine ih ⟨hplain, hcwd, hkept, fun y hy => ?_, h.created⟩ fun y hy =>
        hfiles y (List.mem_cons_of_mem _ hy)
      rcases List.mem_append.1 hy with hy | hy
      · exact h.written y hy
      · obtain rfl := List.mem_singleton.1 hy
        exact ⟨hup, hp⟩

/-- **Making the folder of a new file** leaves every entry: what is missing is not above one. -/
theorem Spares.makeParent (h : s.Spares d c e) (hup : p.goesUp = false) :
    (s.makeParent p).2.Spares d c e := by
  rw [Progress.makeParent]
  cases hq : p.parent? with
  | none => exact h
  | some q =>
    have hqt := Path.isTrimmed_of_parent? hup hq
    simp only
    rcases Disk.makeFolders_go_spec h.plain hqt with ⟨_, hgo⟩ | ⟨disk, hgo, hmade⟩
    · rw [Disk.makeFolders, hgo]
      exact h
    · rw [Disk.makeFolders, hgo]
      by_cases ht : q.text = []
      · rw [if_pos ht] at hmade
        subst hmade
        rw [firstMissing?_eq_none (.inl ht)]
        refine ⟨h.plain, h.cwd_eq, h.kept, h.written, fun r hr => h.created r ?_⟩
        simpa using hr
      · rw [if_neg ht] at hmade
        have hspec := firstMissing?_spec h.plain hqt ht hmade.start
        refine ⟨hmade.plain, hmade.cwd_eq.trans h.cwd_eq, ?_, h.written, fun r hr => ?_⟩
        · show disk.get? c = some e
          rw [hmade.get?_eq]
          split
          · rename_i hpre
            rcases hmade.before c hpre with h0 | h0 <;> rw [h.kept] at h0
            · cases h0
            · exact h0.symm
          · exact h.kept
        · rcases List.mem_append.1 hr with hr | hr
          · exact h.created r hr
          · rw [Option.mem_toList] at hr
            rw [Option.mem_def.1 hr] at hspec
            obtain ⟨hrt, hrn, hmiss, _⟩ := hspec
            refine ⟨hrt.goesUp, hrt.endsInName hrn, hrt.no_slash hrn, fun hpre => ?_⟩
            rw [← h.addressOf_eq] at hpre
            have hnone := h.plain.get?_none_below hpre hmiss
            rw [h.kept] at hnone
            cases hnone

/-- **Creating files elsewhere** leaves the entry. -/
theorem Spares.createAll {files : PathMap Text} (h : s.Spares d c e)
    (hfiles : ∀ x ∈ files, x.1.goesUp = false ∧ (x.1.endsInName = true →
      x.1.text.getLast? ≠ some '/' → d.addressOf x.1 ≠ c)) :
    (Progress.createAll s files).2.Spares d c e := by
  induction files generalizing s with
  | nil => exact h
  | cons x files ih =>
    obtain ⟨p, t⟩ := x
    obtain ⟨hup, hp⟩ := hfiles (p, t) List.mem_cons_self
    have hmade := h.makeParent hup
    rw [Progress.createAll]
    cases hm : s.makeParent p with
    | mk r s₁ =>
      rw [hm] at hmade
      cases r with
      | error f => exact hmade
      | ok u =>
        simp only
        cases hw : s₁.disk.writeAtomic p t with
        | error f => exact hmade
        | ok disk =>
          have hcan := Disk.canWrite_of_writeAtomic hmade.plain hup hw
          have hwrote := Disk.wrote_of_writeAtomic hmade.plain hup hw
          have hne := hp hcan.endsInName hcan.no_slash
          -- above the entry is a folder, and a file takes the place of none
          have habove : ¬d.addressOf p <+: c := fun hpre => hcan.not_folder <| by
            rw [hmade.addressOf_eq]
            exact hmade.plain.folder_above hpre hne hmade.kept
          rw [hmade.addressOf_eq] at hwrote
          obtain ⟨hplain, hcwd, hkept⟩ := hmade.of_wrote hne hwrote
          refine ih ⟨hplain, hcwd, hkept, hmade.written, fun q hq => ?_⟩ fun y hy =>
            hfiles y (List.mem_cons_of_mem _ hy)
          rcases List.mem_append.1 hq with hq | hq
          · exact hmade.created q hq
          · obtain rfl := List.mem_singleton.1 hq
            exact ⟨hup, hcan.endsInName, hcan.no_slash, habove⟩

/-- Giving files elsewhere their old texts back leaves the entry. -/
theorem rewrite_spares {D : Disk} (hD : D.IsPlain) (hcwd : D.cwd = d.cwd)
    {files : List (Path × Text)} (hc : D.get? c = some e)
    (hfiles : ∀ x ∈ files, x.1.goesUp = false ∧ d.addressOf x.1 ≠ c) :
    (files.foldl rewrite D).IsPlain ∧ (files.foldl rewrite D).cwd = d.cwd ∧
      (files.foldl rewrite D).get? c = some e := by
  induction files generalizing D with
  | nil => exact ⟨hD, hcwd, hc⟩
  | cons x files ih =>
    obtain ⟨hup, hx⟩ := hfiles x List.mem_cons_self
    have hrest := fun y hy => hfiles y (List.mem_cons_of_mem _ hy)
    rw [List.foldl_cons, rewrite]
    cases hw : D.writeAtomic x.1 x.2 with
    | error f => exact ih hD hcwd hc hrest
    | ok D₁ =>
      have hwrote := Disk.wrote_of_writeAtomic hD hup hw
      refine ih hwrote.plain (hwrote.cwd_eq.trans hcwd) ?_ hrest
      rw [hwrote.get?_eq, Disk.addressOf_of_cwd_eq hcwd, if_neg hx.symm, hc]

/-- **Undoing** leaves what was spared. -/
theorem Spares.undo (h : s.Spares d c e) :
    s.undo.IsPlain ∧ s.undo.cwd = d.cwd ∧ s.undo.get? c = some e := by
  obtain ⟨hplain, hcwd, hkept⟩ := rewrite_spares h.plain h.cwd_eq h.kept h.written
  obtain ⟨hplain', hcwd', hview⟩ := @uncreate_all d _ hplain hcwd s.created.reverse
    fun p hp => by
      obtain ⟨hup, hend, hslash, _⟩ := h.created p (List.mem_reverse.1 hp)
      exact ⟨hup, hend, hslash⟩
  refine ⟨hplain', hcwd', ?_⟩
  show (s.created.reverse.foldl uncreate (s.written.foldl rewrite s.disk)).get? c = some e
  rw [hview, if_neg, hkept]
  rintro ⟨p, hp, hpre⟩
  exact (h.created p (List.mem_reverse.1 hp)).2.2.2 hpre

end Progress

/-! ## A whole commit -/

namespace Transaction

variable {d : Disk} {tx : Transaction} {c : Address} {e : Entry}

/-- Writing out leaves an entry that no path written or created leads to. -/
theorem writeOut_spares (tx : Transaction) {b : Disk} (hb : b.IsPlain) (hcwd : b.cwd = d.cwd)
    (hc : b.get? c = some e)
    (hmodified : ∀ x ∈ tx.modified, x.1.goesUp = false ∧ d.addressOf x.1 ≠ c)
    (hcreated : ∀ x ∈ tx.created, x.1.goesUp = false ∧ (x.1.endsInName = true →
      x.1.text.getLast? ≠ some '/' → d.addressOf x.1 ≠ c)) :
    (tx.writeOut b).2.IsPlain ∧ (tx.writeOut b).2.cwd = d.cwd ∧
      (tx.writeOut b).2.get? c = some e := by
  have hinit : Progress.Spares d c e { disk := b } :=
    ⟨hb, hcwd, hc, fun _ hx => absurd hx List.not_mem_nil, fun _ hp => absurd hp List.not_mem_nil⟩
  have hwrite := hinit.writeAll hmodified
  rw [writeOut]
  cases hw : Progress.writeAll { disk := b } tx.modified with
  | mk r s =>
    rw [hw] at hwrite
    cases r with
    | error f => exact hwrite.undo
    | ok u =>
      have hcreate := hwrite.createAll hcreated
      simp only
      cases hcr : s.createAll tx.created with
      | mk r' s' =>
        rw [hcr] at hcreate
        cases r' with
        | error f => exact hcreate.undo
        | ok u' => exact ⟨hcreate.plain, hcreate.cwd_eq, hcreate.kept⟩

/-- **A commit leaves an entry that no path of the transaction leads to**, whether it succeeds
or fails at any stage, and whatever else is on the disk. -/
theorem commit_spares (hd : d.IsPlain) (hup : ∀ p ∈ tx.paths, p.goesUp = false)
    (hc : d.get? c = some e) (hremovals : ∀ r ∈ tx.removals, ¬d.addressOf r <+: c)
    (hmodified : ∀ x ∈ tx.modified, d.addressOf x.1 ≠ c)
    (hcreated : ∀ x ∈ tx.created, x.1.endsInName = true → x.1.text.getLast? ≠ some '/' →
      d.addressOf x.1 ≠ c) (scaffold : Text) : (tx.commit scaffold d).2.get? c = some e := by
  have hr := longestName_le_reserved tx d
  have hshort : Disk.IsShort (tx.reserved d) c := Disk.isShort_of_get? hr (by simp [hc])
  rw [commit]
  cases checkUnchanged d scaffold tx.modified with
  | error f => exact hc
  | ok u =>
    simp only
    have hpaths : ∀ p ∈ tx.removals.filter fun p => !Disk.isCovered tx.removals p,
        p.goesUp = false ∧ p.text.length ≤ tx.reserved d := by
      intro p hp
      have hmem := Sound.mem_paths_of_removals (List.mem_of_mem_filter hp)
      exact ⟨hup p hmem, length_le_reserved hmem⟩
    have hspec := Disk.moveAllAside_go_spec hd hr hpaths .nil
    rw [Disk.moveAllAside]
    cases hgo : Disk.moveAllAside.go (tx.reserved d) d [] (tx.removals.filter fun p =>
        !Disk.isCovered tx.removals p) with
    | mk r b =>
      rw [hgo] at hspec
      cases r with
      | error f => exact (hspec.2.get?_eq c).trans hc
      | ok ms =>
        obtain ⟨hms, horiginals⟩ := hspec
        -- what was moved aside was to be removed, so the entry is not below it
        have hapart : ∀ m ∈ ms, ¬d.addressOf m.original <+: c := by
          intro m hm
          have hmem : m.original ∈ tx.removals.filter fun p => !Disk.isCovered tx.removals p := by
            have := List.mem_map_of_mem (f := Moved.original) hm
            rwa [horiginals] at this
          exact hremovals _ (List.mem_of_mem_filter hmem)
        have hcb : b.get? c = some e := by
          rw [hms.get?_eq hshort, if_neg, hc]
          rintro ⟨m, hm, hpre⟩
          exact hapart m hm hpre
        have hwrite := tx.writeOut_spares (hms.plain hd) hms.cwd_eq hcb
          (fun x hx => ⟨hup _ (Sound.mem_paths_of_staged (List.mem_of_mem_filter hx)),
            hmodified x hx⟩)
          (fun x hx => ⟨hup _ (Sound.mem_paths_of_created hx), hcreated x hx⟩)
        simp only
        cases hw : tx.writeOut b with
        | mk r' D =>
          rw [hw] at hwrite
          obtain ⟨hD, hcwd, hkept⟩ := hwrite
          cases r' with
          | error f => exact (hms.restore_spares hD hcwd hshort hapart).2.2.trans hkept
          | ok u' =>
            show (D.purge ms).get? c = some e
            rw [(Disk.purge_spec hD hcwd fun m hm => (hms.holders m hm).1).2.2, Disk.View.cut,
              if_neg]
            · exact hkept
            · rintro ⟨a, ha, hpre⟩
              obtain ⟨m, hm, rfl⟩ := List.mem_map.1 ha
              exact (hms.holders m hm).2 c hshort hpre

end Transaction

end Fabula
