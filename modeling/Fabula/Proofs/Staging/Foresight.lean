import Fabula.Proofs.Staging.Place
import Fabula.Proofs.Staging.Success

/-!
# What a transaction foresees of its commit

A transaction answers whether there is something at a path, and what a file holds, as if its
changes were made. How far that comes true is told here at the paths that the transaction would
recognise (`Transaction.Recognises`): another spelling of a path is another path to it.

Two things are not foreseen. Whether there is something at a path is told by what is created and
removed, so the folders that are made for new files are left out, and so is a file that is both
edited and removed, which is written after it was moved aside. And a text that was read is
answered also when its file is removed. Nothing else differs, as
`Transaction.foreseen_of_commit` says, and all of these do occur (`Transaction.not_foreseen`).

## From the effect to the answers

The effect of a transaction tells what is at an address after the commit. The answers of the
transaction are found by path. The two are compared in three steps.

* Where there is something in the effect is read off its layers: something was left by the
  removals, a file was modified there, or a file was created there or below
  (`Transaction.effect_ne_none_iff`).
* Which text is there is read off in the same way. A created text stands if no other file is
  created below it. That is so whenever the commit succeeds, because a file cannot be created
  below a file, and creating files never takes one away (`Transaction.Sound.not_above_created`).
* At a path that is recognised, what holds at its address holds for the path itself. A value
  kept at the address is kept for the path, since both maps are looked up by components, and a
  removal at or above the address is one at or above the path
  (`Transaction.Recognises.isRemoved_iff`).

So both sides are equivalent to conditions on the two maps and the removals, and what is not
foreseen is the difference of these conditions.
-/

namespace Fabula

namespace Path

/-- **A path written straight to an entry**: it does not go up, and ends in a name with no
slash behind. -/
structure IsStraight (p : Path) : Prop where
  goesUp : p.goesUp = false
  endsInName : p.endsInName = true
  no_slash : p.text.getLast? ≠ some '/'

/-- **Below a path is no other path of the same names.** -/
theorem same_of_within {p q : Path} (hup : p.goesUp = false) (hq : q.text ≠ [])
    (h : p.isWithin q = true) (hnames : p.names = q.names) : q.same p = true := by
  obtain ⟨cs, hcs⟩ := List.isPrefixOf_iff_prefix.1 h
  -- behind a first component there are names only
  have hnames' : ∀ x ∈ cs, ∃ n, x = .name n := by
    intro x hx
    have hbehind : x ∈ behindLead p.text := by
      obtain ⟨y, ys, hy⟩ := List.exists_cons_of_ne_nil (mt components_eq_nil_iff.1 hq)
      rw [hy, List.cons_append, p.components_eq] at hcs
      have hlead : p.leadComponents = [] ∨ ∃ z, p.leadComponents = [z] := by
        unfold leadComponents
        split
        · exact .inr ⟨_, rfl⟩
        · exact .inr ⟨_, rfl⟩
        · exact .inl rfl
      rcases hlead with hl | ⟨z, hl⟩ <;> rw [hl] at hcs
      · rw [List.nil_append] at hcs
        rw [← hcs]
        simp [hx]
      · rw [List.singleton_append] at hcs
        rw [← (List.cons.inj hcs).2]
        simp [hx]
    cases x with
    | root => exact absurd hbehind (root_notMem_behindLead _)
    | here => exact absurd hbehind (here_notMem_behindLead _)
    | up => exact absurd hbehind (goesUp_iff_mem_behindLead.1 hup)
    | name n => exact ⟨n, rfl⟩
  rw [names, names, ← hcs, List.filterMap_append] at hnames
  have hempty : cs = [] := by
    by_contra hne
    obtain ⟨x, xs, rfl⟩ := List.exists_cons_of_ne_nil hne
    obtain ⟨n, rfl⟩ := hnames' x List.mem_cons_self
    simp at hnames
  rw [same_iff, ← hcs, hempty, List.append_nil]

end Path

/-! ## Files stand where files were created -/

namespace Progress

variable {d b : Disk} {s : Progress}

/-- **Creating files takes the place of no file**, and leaves one at each address. -/
theorem filesOf_of_createAll {files : PathMap Text} (h : s.Holds d b) (hb : b.IsPlain)
    (hfiles : ∀ x ∈ files, x.1.goesUp = false ∧ (x.1.endsInName = true →
      x.1.text.getLast? ≠ some '/' → b.get? (d.addressOf x.1) = none))
    (hok : (createAll s files).1 = .ok ()) {c : Address}
    (hc : s.disk.filesOf c ∨ ∃ x ∈ files, d.addressOf x.1 = c) :
    (createAll s files).2.disk.filesOf c := by
  induction files generalizing s with
  | nil => exact hc.resolve_right fun ⟨x, hx, _⟩ => absurd hx List.not_mem_nil
  | cons x files ih =>
    obtain ⟨p, t⟩ := x
    obtain ⟨hup, hfree⟩ := hfiles (p, t) List.mem_cons_self
    obtain ⟨hholds, hmade⟩ := makeParent_spec h hb hup
    rw [createAll] at hok ⊢
    cases hm : s.makeParent p with
    | mk r s₁ =>
      rw [hm] at hholds hmade hok
      cases r with
      | error f => cases hok
      | ok u =>
        simp only at hok ⊢
        cases hw : s₁.disk.writeAtomic p t with
        | error f =>
          rw [hw] at hok
          cases hok
        | ok disk =>
          rw [hw] at hok
          have hwrote := Disk.wrote_of_writeAtomic hholds.plain hup hw
          rw [Disk.addressOf_of_cwd_eq hholds.cwd_eq] at hwrote
          -- a folder is made where there is none, so in place of no file
          have hkept : s.disk.filesOf c → s₁.disk.filesOf c := by
            rintro ⟨content, hfile⟩
            cases hq : p.parent? with
            | none =>
              obtain rfl : s = s₁ := by simpa [makeParent, hq] using hm
              exact ⟨content, hfile⟩
            | some q =>
              have hmade' := hmade rfl q hq
              by_cases ht : q.text = []
              · rw [if_pos ht] at hmade'
                rw [hmade']
                exact ⟨content, hfile⟩
              · rw [if_neg ht] at hmade'
                refine ⟨content, ?_⟩
                rw [hmade'.get?_eq, if_neg, hfile]
                intro hpre
                rcases hmade'.before c hpre with h0 | h0 <;> rw [hfile] at h0 <;> cases h0
          refine ih (hholds.create hup hfree hw) (fun y hy => hfiles y (List.mem_cons_of_mem _ hy))
            hok ?_
          rcases hc with hc | ⟨y, hy, rfl⟩
          · exact .inl (filesOf_of_wrote hwrote (hkept hc))
          · rcases List.mem_cons.1 hy with rfl | hy
            · exact .inl ⟨.text t, by rw [hwrote.get?_eq, if_pos rfl]⟩
            · exact .inr ⟨y, hy, rfl⟩

end Progress

namespace Transaction

open Disk (View)

variable {d d' b D : Disk} {tx : Transaction} {p q : Path}

/-- **What is left of the disk when the files are created**: what is removed is gone, and the
modified files have their new texts. -/
def modifiedView (tx : Transaction) (d : Disk) : View :=
  tx.modified.foldl (fun v x => v.write (d.addressOf x.1) x.2.current)
    (View.cut d.get? (tx.removals.map d.addressOf))

/-- **No file that is created is below a file.** A commit for which that is not so fails. -/
theorem Sound.not_above_created (h : Sound d tx) (hd : d.IsPlain) {scaffold : Text} {r : Report}
    (hc : tx.commit scaffold d = (.ok r, d')) {c : Address}
    (hfile : (∃ content, tx.modifiedView d c = some (.file content)) ∨
      ∃ x ∈ tx.created, d.addressOf x.1 = c) :
    ∀ y ∈ tx.created, c <+: d.addressOf y.1 → d.addressOf y.1 = c := by
  obtain ⟨ms, b, D, hm, hw, rfl⟩ := of_commit_eq_ok hc
  obtain ⟨s, s', hall, hcreate, rfl⟩ := of_writeOut_eq_ok hw
  have hmove := h.moveAllAside_spec hd
  rw [hm] at hmove
  obtain ⟨hms, hb⟩ := hmove
  have hbp := hms.plain hd
  obtain ⟨hholds, hview⟩ := Progress.writeAll_spec (Progress.Holds.init hbp hms.cwd_eq)
    (fun x hx => h.modified_spec hd hx)
  rw [hall] at hholds hview
  have hfiles := fun x hx => h.created_spec hd hb (x := x) hx
  have hall' := fun {c} =>
    Progress.filesOf_of_createAll hholds hbp hfiles (by rw [hcreate]) (c := c)
  have hplain := (Progress.createAll_spec hholds hbp hfiles).1.plain
  rw [hcreate] at hall' hplain
  intro y hy hpre
  obtain ⟨content, hcontent⟩ : s'.disk.filesOf c := by
    refine hall' (hfile.imp_left fun ⟨content, hcontent⟩ => ⟨content, ?_⟩)
    have hshort : Disk.IsShort (tx.reserved d) c := fun n hn =>
      Sound.isShort (Sound.mem_paths_of_created hy) n (hpre.subset hn)
    rw [hview rfl, ← hcontent]
    exact foldl_write_congr _ (hb c hshort)
  obtain ⟨content', hcontent'⟩ : s'.disk.filesOf (d.addressOf y.1) := hall' (.inr ⟨y, hy, rfl⟩)
  by_contra hne
  rw [hplain.folder_above hpre (Ne.symm hne) hcontent'] at hcontent
  cases hcontent

/-! ## The paths a transaction recognises -/

/-- A path that may be touched is not empty. -/
theorem text_ne_nil_of_check (h : tx.check d p = .ok ()) : p.text ≠ [] := by
  intro ht
  obtain ⟨t⟩ := p
  obtain rfl : t = [] := ht
  rw [check] at h
  split at h
  · rw [Disk.ensureWithin] at h
    split at h
    · cases h
    · split at h
      · cases h
      · obtain ⟨a, ha, _⟩ := Outcome.bind_eq_ok.1 h
        cases ha
  · exact absurd h Outcome.fail_ne_ok

/-- **A path the transaction recognises**: where one of its own paths spells an address at
the path's or above, the path is written at or below that one. -/
def Recognises (tx : Transaction) (d : Disk) (p : Path) : Prop :=
  ∀ q ∈ tx.paths, d.addressOf q <+: d.addressOf p → p.isWithin q = true

variable (h : Sound d tx) (hp : p.IsStraight) (hrec : tx.Recognises d p)
include h hp hrec

/-- A path of the same address is the same path. -/
theorem Recognises.same (hq : q ∈ tx.paths) (heq : d.addressOf q = d.addressOf p) :
    q.same p = true := by
  have hne := text_ne_nil_of_check (h.checked q hq)
  have hwithin := hrec q hq (heq ▸ List.prefix_refl _)
  refine Path.same_of_within hp.goesUp hne hwithin ?_
  rw [Disk.addressOf, Disk.addressOf, Disk.startOf, Disk.startOf,
    Disk.isAbsolute_of_within hne hwithin] at heq
  exact (List.append_cancel_left heq).symm

/-- What is staged at the address is staged for the path. -/
theorem Recognises.staged_find? {x : Path × Staged} (hx : x ∈ tx.staged)
    (heq : d.addressOf x.1 = d.addressOf p) : tx.staged.find? p = some x.2 := by
  rw [← PathMap.find?_congr _ (hrec.same h hp (Sound.mem_paths_of_staged hx) heq),
    h.staged_sorted.find?_of_mem hx]

/-- What is created at the address is created for the path. -/
theorem Recognises.created_find? {x : Path × Text} (hx : x ∈ tx.created)
    (heq : d.addressOf x.1 = d.addressOf p) : tx.created.find? p = some x.2 := by
  rw [← PathMap.find?_congr _ (hrec.same h hp (Sound.mem_paths_of_created hx) heq),
    h.created_sorted.find?_of_mem hx]

omit hp in
/-- The path is removed when something at or above its address is. -/
theorem Recognises.isRemoved_iff :
    tx.isRemoved p = true ↔ ∃ a ∈ tx.removals.map d.addressOf, a <+: d.addressOf p := by
  rw [isRemoved, List.any_eq_true]
  constructor
  · rintro ⟨r, hr, hwithin⟩
    have hne := text_ne_nil_of_check (h.checked r (Sound.mem_paths_of_removals hr))
    exact ⟨_, List.mem_map_of_mem hr, Disk.addressOf_within hne hwithin⟩
  · rintro ⟨_, ha, hpre⟩
    obtain ⟨r, hr, rfl⟩ := List.mem_map.1 ha
    exact ⟨r, hr, hrec r (Sound.mem_paths_of_removals hr) hpre⟩

omit hp in
/-- What is left at the path after the removals. -/
theorem Recognises.cut_eq : View.cut d.get? (tx.removals.map d.addressOf) (d.addressOf p)
    = if tx.isRemoved p = true then none else d.get? (d.addressOf p) :=
  if_congr (hrec.isRemoved_iff h).symm rfl rfl

omit h hp hrec

/-- A value that is kept for a path is kept for one of the same address. -/
theorem exists_mem_of_find? {α : Type} {m : PathMap α} {a : α} (h : m.find? p = some a) :
    ∃ x ∈ m, x.2 = a ∧ d.addressOf x.1 = d.addressOf p := by
  obtain ⟨q, hq, hmem⟩ := PathMap.exists_mem_of_find? h
  exact ⟨(q, a), hmem, rfl, Disk.addressOf_congr (Path.same_iff.1 hq)⟩

/-- **What reading a text answers**, when the path may be touched. -/
theorem read_eq_ok_iff (hc : tx.check d p = .ok ()) {t : Text} :
    (∃ tx', tx.read d p = .ok (t, tx')) ↔ match tx.created.find? p with
      | some t' => t' = t
      | none => match tx.staged.find? p with
        | some s => s.current = t
        | none => d.read p = .ok t := by
  have hread : tx.read d p = (match tx.created.find? p with
      | some t => pure (t, tx)
      | none => match tx.staged.find? p with
        | some s => pure (s.current, tx)
        | none => do
          let t ← .within (.reading p) (.ofDisk (d.read p))
          pure (t, { tx with staged := tx.staged.insert p ⟨t, t⟩ }) :
        Outcome (Text × Transaction)) := by
    rw [read, hc]
    rfl
  rw [hread]
  cases tx.created.find? p with
  | some t' => simp
  | none =>
    cases tx.staged.find? p with
    | some s => simp
    | none =>
      constructor
      · rintro ⟨tx', hbind⟩
        obtain ⟨t', ht', hpure⟩ := Outcome.bind_eq_ok.1 hbind
        obtain ⟨rfl, _⟩ := Prod.mk.inj (Outcome.pure_eq_ok.1 hpure)
        rwa [Outcome.within_eq_ok, Outcome.ofDisk_eq_ok] at ht'
      · intro ht
        refine ⟨_, Outcome.bind_eq_ok.2 ⟨t, ?_, rfl⟩⟩
        rwa [Outcome.within_eq_ok, Outcome.ofDisk_eq_ok]

/-! ## What is there after the commit -/

theorem foldl_write_ne_none_iff {files : PathMap Staged} {v : View} {c : Address} :
    files.foldl (fun v x => v.write (d.addressOf x.1) x.2.current) v c ≠ none ↔
      v c ≠ none ∨ ∃ x ∈ files, d.addressOf x.1 = c := by
  induction files generalizing v with
  | nil => simp
  | cons x files ih =>
    rw [List.foldl_cons, ih, List.exists_mem_cons_iff, ← or_assoc]
    refine or_congr_left ?_
    by_cases hx : c = d.addressOf x.1
    · simp [View.write, hx]
    · simp [View.write, hx, Ne.symm hx]

theorem foldl_create_ne_none_iff {files : PathMap Text} {v : View} {c : Address} :
    files.foldl (fun v x => v.create (d.addressOf x.1) x.2) v c ≠ none ↔
      v c ≠ none ∨ ∃ x ∈ files, c <+: d.addressOf x.1 := by
  induction files generalizing v with
  | nil => simp
  | cons x files ih =>
    rw [List.foldl_cons, ih, List.exists_mem_cons_iff, ← or_assoc]
    refine or_congr_left ?_
    by_cases hx : c <+: d.addressOf x.1
    · refine iff_of_true ?_ (.inr hx)
      by_cases heq : c = d.addressOf x.1
      · simp [View.create, View.write, heq]
      · simp [View.create, View.write, View.makeFolders, heq, Disk.prefix_dropLast_of_ne hx heq]
    · rw [View.create_of_not_prefix hx, or_iff_left hx]

/-- **Where there is something after a commit**: where something is left, where a file was
modified, and at and above every file that was created. -/
theorem effect_ne_none_iff {c : Address} : tx.effect d c ≠ none ↔
    View.cut d.get? (tx.removals.map d.addressOf) c ≠ none ∨
      (∃ x ∈ tx.modified, d.addressOf x.1 = c) ∨ ∃ x ∈ tx.created, c <+: d.addressOf x.1 := by
  rw [effect, writes, foldl_create_ne_none_iff, foldl_write_ne_none_iff, or_assoc]

/-- **Which file is at an address after a commit**, where none is created: the one that was
there before the creations. -/
theorem effect_eq_file_iff {c : Address} {content : Content}
    (hbelow : (∃ content, tx.modifiedView d c = some (.file content)) →
      ∀ y ∈ tx.created, c <+: d.addressOf y.1 → d.addressOf y.1 = c)
    (hcreated : ∀ x ∈ tx.created, d.addressOf x.1 ≠ c) :
    tx.effect d c = some (.file content) ↔ tx.modifiedView d c = some (.file content) := by
  rcases foldl_create_cases (d := d) tx.created (tx.modifiedView d) c with
    hsame | ⟨x, hx, heq⟩ | ⟨hfolder, x, hx, hpre⟩
  · exact iff_of_eq (congrArg (· = some (Entry.file content)) hsame)
  · exact absurd heq (hcreated x hx)
  · constructor
    · intro heffect
      have hboth : some Entry.folder = some (Entry.file content) := hfolder.symm.trans heffect
      cases hboth
    · exact fun hfile => absurd (hbelow ⟨content, hfile⟩ x hx hpre) (hcreated x hx)

/-- A path is modified when something at its address is. -/
theorem Recognises.modified_holds_iff (h : Sound d tx) (hp : p.IsStraight)
    (hrec : tx.Recognises d p) :
    tx.modified.holds p = true ↔ ∃ x ∈ tx.modified, d.addressOf x.1 = d.addressOf p := by
  rw [PathMap.holds, Option.isSome_iff_exists]
  constructor
  · rintro ⟨s, hs⟩
    obtain ⟨x, hx, _, heq⟩ := exists_mem_of_find? hs
    exact ⟨x, hx, heq⟩
  · rintro ⟨x, hx, heq⟩
    have hsame := hrec.same h hp (Sound.mem_paths_of_staged (List.mem_of_mem_filter hx)) heq
    have hsorted : PathMap.Sorted tx.modified := h.staged_sorted.filter _
    exact ⟨x.2, by rw [← PathMap.find?_congr _ hsame, hsorted.find?_of_mem hx]⟩

/-- **What is left at a path when the files are created.** -/
theorem Recognises.modifiedView_eq (h : Sound d tx) (hp : p.IsStraight)
    (hrec : tx.Recognises d p) : tx.modifiedView d (d.addressOf p) =
      match tx.modified.find? p with
      | some s => some (.file (.text s.current))
      | none => if tx.isRemoved p = true then none else d.get? (d.addressOf p) := by
  cases hm : tx.modified.find? p with
  | some s =>
    obtain ⟨x, hx, rfl, heq⟩ := exists_mem_of_find? hm
    refine foldl_write_eq (fun y hy hyp => ?_) _ (.inl ⟨x, hx, heq⟩)
    have hstaged := hrec.staged_find? h hp (List.mem_of_mem_filter hx) heq
    rw [hrec.staged_find? h hp (List.mem_of_mem_filter hy) hyp] at hstaged
    rw [Option.some.inj hstaged]
  | none =>
    rcases foldl_write_cases (d := d) tx.modified
      (View.cut d.get? (tx.removals.map d.addressOf)) (d.addressOf p) with hsame | hmodified
    · exact hsame.trans (hrec.cut_eq h)
    · have hholds := (hrec.modified_holds_iff h hp).2 hmodified
      rw [PathMap.holds, hm] at hholds
      cases hholds

/-- **Whether the transaction makes something be at a path it recognises.** -/
theorem Recognises.effect_exists_iff (h : Sound d tx) (hd : d.IsPlain) (hp : p.IsStraight)
    (hrec : tx.Recognises d p) : tx.effect d (d.addressOf p) ≠ none ↔
      tx.pathExists d p = true ∨ (∃ x ∈ tx.created, d.addressOf p <+: d.addressOf x.1) ∨
        tx.modified.holds p = true := by
  have hstays : tx.pathExists d p = true ↔ tx.created.holds p = true ∨
      View.cut d.get? (tx.removals.map d.addressOf) (d.addressOf p) ≠ none := by
    rw [pathExists, Bool.or_eq_true, hrec.cut_eq h, Disk.pathExists,
      Disk.entryOf?_eq hd hp.goesUp hp.endsInName hp.no_slash]
    cases tx.isRemoved p <;> simp [Option.isSome_iff_ne_none]
  have hcreated : tx.created.holds p = true →
      ∃ x ∈ tx.created, d.addressOf p <+: d.addressOf x.1 := by
    intro hholds
    obtain ⟨t, ht⟩ := Option.isSome_iff_exists.1 hholds
    obtain ⟨x, hx, _, heq⟩ := exists_mem_of_find? ht
    exact ⟨x, hx, heq ▸ List.prefix_refl _⟩
  rw [effect_ne_none_iff, hstays, hrec.modified_holds_iff h hp]
  constructor
  · rintro (hcut | hmodified | hbelow)
    · exact .inl (.inr hcut)
    · exact .inr (.inr hmodified)
    · exact .inr (.inl hbelow)
  · rintro ((hholds | hcut) | hbelow | hmodified)
    · exact .inr (.inr (hcreated hholds))
    · exact .inl hcut
    · exact .inr (.inr hbelow)
    · exact .inr (.inl hmodified)

/-- **What is staged and not modified is as it was read.** -/
theorem Recognises.get?_of_unmodified (h : Sound d tx) (hd : d.IsPlain) (hp : p.IsStraight)
    (hrec : tx.Recognises d p) {s : Staged} (hs : tx.staged.find? p = some s)
    (hm : ¬tx.modified.holds p = true) :
    d.get? (d.addressOf p) = some (.file (.text s.current)) := by
  obtain ⟨x, hx, rfl, heq⟩ := exists_mem_of_find? hs
  have hsame : x.2.current = x.2.original := by
    by_contra hne
    refine hm ((hrec.modified_holds_iff h hp).2 ⟨x, List.mem_filter.2 ⟨hx, ?_⟩, heq⟩)
    simpa [Staged.isModified] using hne
  rw [← heq, hsame]
  exact Disk.get?_of_read hd (h.goesUp hd (Sound.mem_paths_of_staged hx)) (h.staged x.1 x.2 hx)

/-- **Which text the transaction makes be at a path it recognises**, when no file is created
below a file. -/
theorem Recognises.effect_eq_text_iff (h : Sound d tx) (hd : d.IsPlain) (hp : p.IsStraight)
    (hrec : tx.Recognises d p) (hcheck : tx.check d p = .ok ())
    (hbelow : ∀ c, ((∃ content, tx.modifiedView d c = some (.file content)) ∨
      ∃ x ∈ tx.created, d.addressOf x.1 = c) →
        ∀ y ∈ tx.created, c <+: d.addressOf y.1 → d.addressOf y.1 = c) (t : Text) :
    tx.effect d (d.addressOf p) = some (.file (.text t)) ↔
      (∃ tx', tx.read d p = .ok (t, tx')) ∧
        (tx.isRemoved p = true → tx.created.holds p = true ∨ tx.modified.holds p = true) := by
  rw [read_eq_ok_iff hcheck]
  cases hcr : tx.created.find? p with
  | some t' =>
    obtain ⟨x, hx, rfl, heq⟩ := exists_mem_of_find? hcr
    have hfile := effect_created_text hx (hbelow _ (.inr ⟨x, hx, rfl⟩)) fun y hy hyx => by
      have hfind := hrec.created_find? h hp hy (hyx.trans heq)
      rw [hcr] at hfind
      exact (Option.some.inj hfind).symm
    rw [← heq, hfile]
    simp [PathMap.holds, hcr]
  | none =>
    have hnone : ∀ x ∈ tx.created, d.addressOf x.1 ≠ d.addressOf p := by
      intro x hx heq
      rw [hrec.created_find? h hp hx heq] at hcr
      cases hcr
    rw [effect_eq_file_iff (fun hfile => hbelow _ (.inl hfile)) hnone, hrec.modifiedView_eq h hp]
    cases hm : tx.modified.find? p with
    | some s =>
      obtain ⟨x, hx, rfl, heq⟩ := exists_mem_of_find? hm
      rw [hrec.staged_find? h hp (List.mem_of_mem_filter hx) heq]
      simp [PathMap.holds, hm]
    | none =>
      have hneither : ¬(tx.created.holds p = true ∨ tx.modified.holds p = true) := by
        simp [PathMap.holds, hcr, hm]
      cases tx.isRemoved p with
      | true => simp [hneither]
      | false =>
        simp only [Bool.false_eq_true, if_false, false_implies, and_true]
        cases hst : tx.staged.find? p with
        | none =>
          rw [Disk.read_eq_ok_iff, Disk.entryOf?_eq hd hp.goesUp hp.endsInName hp.no_slash]
        | some s =>
          rw [hrec.get?_of_unmodified h hd hp hst (not_or.1 hneither).2]
          simp

/-- **What a transaction foresees of a commit that succeeds.** At a path it recognises, there is
something afterwards if it says so, or if a file is created at or below the path, or if the
file there is modified. And for a path that may be touched, the file there holds the text that
reading it answers, unless the path is removed and neither created nor modified: then there
is no file. -/
theorem foreseen_of_commit {l : Layout} {targets : List Path} {cs : List Call} {name : Text}
    {r : Report} (hd : d.IsPlain) (hcs : Calls d { layout := l, targets } cs tx)
    (hc : tx.commit name d = (.ok r, d')) (hp : p.IsStraight) (hrec : tx.Recognises d p) :
    (d'.pathExists p = true ↔ tx.pathExists d p = true ∨
      (∃ x ∈ tx.created, d.addressOf p <+: d.addressOf x.1) ∨ tx.modified.holds p = true) ∧
    (tx.check d p = .ok () → ∀ t, d'.read p = .ok t ↔ (∃ tx', tx.read d p = .ok (t, tx')) ∧
      (tx.isRemoved p = true → tx.created.holds p = true ∨ tx.modified.holds p = true)) := by
  have h := (Sound.init d l targets).calls hcs
  obtain ⟨_, hplain, hcwd, hview⟩ := h.commit_effect hd hc
  have hentry : d'.entryOf? p = tx.effect d (d.addressOf p) := by
    rw [Disk.entryOf?_eq hplain hp.goesUp hp.endsInName hp.no_slash, hview,
      Disk.addressOf_of_cwd_eq hcwd]
  constructor
  · rw [Disk.pathExists, hentry, Option.isSome_iff_ne_none]
    exact hrec.effect_exists_iff h hd hp
  · intro hcheck t
    rw [Disk.read_eq_ok_iff, hentry]
    exact hrec.effect_eq_text_iff h hd hp hcheck (fun _ => h.not_above_created hd hc) t

/-- What the calls of a plan make of a folder with three files. -/
def stagedOnThree (cs : List Call) : Outcome Transaction :=
  (Move.plan (cs.map Move.call) Layout.threeFiles
    { layout := Layout.flatLayout, targets := [⟨"w".toList⟩] }).1

theorem foreseen_of_commit_three : ∃ tx r d',
    stagedOnThree [.update ⟨"w/a".toList⟩ fun t => .ok (t ++ t), .deleteFile ⟨"w/b".toList⟩,
      .create ⟨"w/n/x".toList⟩ []] = .ok tx ∧
    tx.commit [] Layout.threeFiles = (.ok r, d') ∧ d'.pathExists ⟨"w/n".toList⟩ = true ∧
      d'.read ⟨"w/a".toList⟩ = .ok "aa".toList ∧ ∀ t, d'.read ⟨"w/b".toList⟩ ≠ .ok t := by
  let tx : Transaction :=
    { layout := Layout.flatLayout
      targets := [⟨"w".toList⟩]
      staged := [(⟨"w/a".toList⟩, ⟨"a".toList, "aa".toList⟩)]
      created := [(⟨"w/n/x".toList⟩, [])]
      removals := [⟨"w/b".toList⟩] }
  have hplan : stagedOnThree [.update ⟨"w/a".toList⟩ fun t => .ok (t ++ t),
      .deleteFile ⟨"w/b".toList⟩, .create ⟨"w/n/x".toList⟩ []] = .ok tx := by
    decide +kernel
  obtain ⟨cs, hcs⟩ := (Move.makesCalls _).calls _ _ _ hplan
  obtain ⟨r, hr⟩ := Outcome.exists_of_isOk
    (show (tx.commit [] Layout.threeFiles).1.isOk = true by decide +kernel)
  have hd : Layout.threeFiles.IsPlain :=
    Disk.isPlain_of_entries (by decide) (by decide) (by decide)
  have hforeseen := fun p hp hrec => foreseen_of_commit (p := p) hd hcs (Prod.ext hr rfl) hp hrec
  refine ⟨tx, r, _, hplan, Prod.ext hr rfl, ?_, ?_, ?_⟩
  · refine (hforeseen ⟨"w/n".toList⟩ ⟨by decide, by decide, by decide⟩
      (show ∀ q ∈ tx.paths, _ by decide +kernel)).1.2 ?_
    exact .inr (.inl ⟨_, List.mem_singleton_self _, by decide +kernel⟩)
  · refine ((hforeseen ⟨"w/a".toList⟩ ⟨by decide, by decide, by decide⟩
      (show ∀ q ∈ tx.paths, _ by decide +kernel)).2 (by decide +kernel) _).2 ?_
    exact ⟨⟨tx, by decide +kernel⟩, fun _ => .inr (by decide +kernel)⟩
  · intro t ht
    have hnone := (((hforeseen ⟨"w/b".toList⟩ ⟨by decide, by decide, by decide⟩
      (show ∀ q ∈ tx.paths, _ by decide +kernel)).2 (by decide +kernel) t).1 ht).2
    exact absurd (hnone (by decide +kernel)) (by decide +kernel)

/-- **What is not foreseen**: the folder that is made for a new file, the file that is edited
and removed and comes back with its edited text, and the removed file whose text is answered
still. -/
theorem not_foreseen :
    ((stagedOnThree [.create ⟨"w/n/x".toList⟩ []]).toOption.map fun tx =>
        (tx.pathExists Layout.threeFiles ⟨"w/n".toList⟩,
          (tx.commit [] Layout.threeFiles).1.isOk,
          (tx.commit [] Layout.threeFiles).2.pathExists ⟨"w/n".toList⟩))
      = some (false, true, true) ∧
    ((stagedOnThree [.update ⟨"w/a".toList⟩ fun t => .ok (t ++ t),
        .deleteFile ⟨"w/a".toList⟩]).toOption.map fun tx =>
        (tx.pathExists Layout.threeFiles ⟨"w/a".toList⟩,
          (tx.commit [] Layout.threeFiles).1.isOk,
          (tx.commit [] Layout.threeFiles).2.pathExists ⟨"w/a".toList⟩))
      = some (false, true, true) ∧
    ((stagedOnThree [.deleteFile ⟨"w/a".toList⟩]).toOption.map fun tx =>
        ((tx.read Layout.threeFiles ⟨"w/a".toList⟩).toOption.map Prod.fst,
          (tx.commit [] Layout.threeFiles).1.isOk,
          (tx.commit [] Layout.threeFiles).2.pathExists ⟨"w/a".toList⟩))
      = some (some "a".toList, true, false) := by
  decide +kernel

end Transaction

end Fabula
