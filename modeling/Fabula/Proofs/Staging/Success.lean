import Fabula.Proofs.Staging.Place

/-!
# When a commit succeeds

A commit that only writes and creates fails for one reason: something that is no folder stands
where a folder has to be. So whether it succeeds can be told from the disk before it
(`Transaction.Sound.commit_eq_ok_iff`): the way to every new file has to be clear, which is to
say that all that is above it is missing or a folder (`Disk.View.IsClear`).

## One file

The folder of a new file is made step by step, from the topmost missing one down. If the way is
clear, each step finds a folder or nothing, and a folder can be made where nothing is in a
folder. If it is not clear, then going down one meets something that is no folder, and it cannot
be passed. So the folder is made if and only if the way is clear
(`Progress.makeParent_eq_ok_iff`). The file itself is then written into an existing folder under
a name at which there is no folder, and that does not fail. What is asked of the path is that it
can name a file at all (`Disk.CanName`).

## All files

The ways are asked for on the disk as it was, though the later files are created on what the
earlier ones left. Creating a file makes folders above it and nothing else. So it clears no way
that was not clear, and it blocks none that does not lead through it
(`Disk.View.isClear_create_iff`). No new file is above another one, and therefore the question
has one answer throughout (`Progress.createAll_eq_ok_iff`).

The modified files are written before. They are where files are, so writing them succeeds, and
it leaves the outline of the disk, its empty places and its folders, by which the ways are
judged (`Disk.View.SameOutline`).
-/

namespace Fabula

namespace Disk

namespace View

variable {v : View} {a b : Address} {t : Text}

/-- **The way to an address is clear**: what is there and above it is missing or a
folder. -/
def IsClear (v : View) (a : Address) : Prop :=
  ∀ c, c <+: a → v c = none ∨ v c = some .folder

/-- **A new file** changes nothing but what is at its address or above it. -/
theorem create_of_not_prefix (h : ¬b <+: a) : v.create a t b = v b := by
  have hne : b ≠ a := fun heq => h (heq ▸ List.prefix_refl b)
  unfold create write makeFolders
  rw [if_neg hne, if_neg fun hpre => h (hpre.trans (List.dropLast_prefix a))]

/-- A new file takes the place of no folder. -/
theorem folder_create (hfree : v a ≠ some .folder) (hb : v b = some .folder) :
    v.create a t b = some .folder := by
  have hne : b ≠ a := fun heq => hfree (heq ▸ hb)
  unfold create write makeFolders
  rw [if_neg hne]
  split
  · rfl
  · exact hb

/-- **A new file blocks no way that does not lead through it**, and clears none. -/
theorem isClear_create_iff (hclear : v.IsClear a.dropLast) (hab : ¬a <+: b) :
    (v.create a t).IsClear b ↔ v.IsClear b := by
  refine forall_congr' fun c => imp_congr_right fun hcb => ?_
  have hca : c ≠ a := fun heq => hab (heq ▸ hcb)
  unfold create write makeFolders
  rw [if_neg hca]
  by_cases habove : c <+: a.dropLast
  · rw [if_pos habove]
    exact iff_of_true (.inr rfl) (hclear c habove)
  · rw [if_neg habove]

/-- **Two views of one outline**: the same places are empty, and the same hold folders. -/
def SameOutline (v w : View) : Prop :=
  ∀ c, (w c = none ↔ v c = none) ∧ (w c = some .folder ↔ v c = some .folder)

/-- A file that is written where one is leaves the outline as it is. -/
theorem sameOutline_write {content : Content} (h : v a = some (.file content)) :
    v.SameOutline (v.write a t) := by
  intro c
  unfold write
  by_cases hc : c = a
  · rw [if_pos hc, hc, h]
    simp
  · rw [if_neg hc]
    simp

theorem SameOutline.trans {u w : View} (h : u.SameOutline v) (h' : v.SameOutline w) :
    u.SameOutline w :=
  fun c => ⟨(h' c).1.trans (h c).1, (h' c).2.trans (h c).2⟩

/-- The ways that are clear are told by the outline. -/
theorem SameOutline.isClear_iff {w : View} (h : v.SameOutline w) (a : Address) :
    w.IsClear a ↔ v.IsClear a :=
  forall₂_congr fun c _ => or_congr (h c).1 (h c).2

end View

variable {d d' : Disk}

/-! ## Making folders -/

/-- **Where a folder on the way is missing**, the entry is not found. -/
theorem walk_entry_of_missing (hd : d.IsPlain) (links : ℕ) {a : Address} {steps : List PathStep}
    {n : Text} (hup : .up ∉ steps) (ha : d.get? a = some .folder)
    (hclear : ∀ c, a <+: c → c <+: a ++ steps.filterMap PathStep.name? →
      d.get? c = none ∨ d.get? c = some .folder)
    (hnone : d.get? (a ++ steps.filterMap PathStep.name?) = none) :
    d.walk .entry links a (steps ++ [.enter n]) = .error .notFound := by
  induction steps generalizing a with
  | nil =>
    rw [List.filterMap_nil, List.append_nil, ha] at hnone
    cases hnone
  | cons step steps ih =>
    rw [List.mem_cons, not_or] at hup
    cases step with
    | up => exact absurd rfl hup.1
    | stay =>
      rw [List.cons_append, walk_stay, if_pos ha]
      exact ih hup.2 ha hclear hnone
    | enter m =>
      have hsplit : a ++ (PathStep.enter m :: steps).filterMap PathStep.name? =
          a ++ [m] ++ steps.filterMap PathStep.name? := by
        simp
      rw [hsplit] at hclear hnone
      rw [List.cons_append, walk_enter hd, if_pos ha]
      rcases hclear (a ++ [m]) (List.prefix_append _ _) (List.prefix_append _ _) with hm | hm
      · rw [if_pos hm, if_neg (by simp)]
      · rw [if_neg (by simp [hm])]
        exact ih hup.2 hm (fun c hc => hclear c ((List.prefix_append _ _).trans hc)) hnone

/-- The way to a path that names something goes through the entry's folder. -/
theorem entryAddress_of_missing (hd : d.IsPlain) {p : Path} (hup : p.goesUp = false)
    (hend : p.endsInName = true) (hstart : d.get? (d.startOf p) = some .folder)
    (hclear : View.IsClear d.get? (d.addressOf p).dropLast)
    (hnone : d.get? (d.addressOf p).dropLast = none) : d.entryAddress p = .error .notFound := by
  obtain ⟨ht, init, n, hi⟩ := Path.exists_of_endsInName hend
  have hup' := Path.up_notMem_entrySteps hup
  rw [hi, List.mem_append, not_or] at hup'
  have haddress : (d.addressOf p).dropLast = d.startOf p ++ init.filterMap PathStep.name? := by
    rw [addressOf, ← Path.filterMap_entrySteps hup ht, hi, List.filterMap_append,
      List.filterMap_cons_some (PathStep.name?_enter n), List.filterMap_nil, ← List.append_assoc,
      List.dropLast_concat]
  rw [haddress] at hclear hnone
  rw [entryAddress, if_neg ht, hi]
  exact walk_entry_of_missing hd _ hup'.1 hstart (fun c _ hc => hclear c hc) hnone

/-- A folder that is there is found. -/
theorem isFolder_of_get? (hd : d.IsPlain) {p : Path} (hup : p.goesUp = false) (ht : p.text ≠ [])
    (hstart : d.get? (d.startOf p) = some .folder)
    (hfolder : d.get? (d.addressOf p) = some .folder) : d.isFolder p = true := by
  have hfollow : d.follow p = .ok (d.addressOf p) :=
    (follow_eq_ok_iff hd hup).2 ⟨ht, rfl, by simp [hfolder], hstart, fun _ => hfolder⟩
  rw [isFolder_iff, entryOf?, hfollow]
  exact hfolder

/-- A folder that is there is passed over. -/
theorem makeFolders_go_of_get? (hd : d.IsPlain) {p : Path} (hp : p.IsTrimmed) (ht : p.text ≠ [])
    (hstart : d.get? (d.startOf p) = some .folder)
    (hthere : d.get? (d.addressOf p) = some .folder) :
    ∃ d', makeFolders.go d p.ancestors = (.ok (), d') := by
  have hfolder := isFolder_of_get? hd hp.goesUp ht hstart hthere
  cases hm : d.makeFolder p with
  | ok d₁ => exact ⟨d₁, makeFolders_go_of_ok ht hm⟩
  | error e =>
    have he : e ≠ .notFound := by
      rintro rfl
      rw [(of_makeFolder_eq_notFound hd hp ht hm).2] at hthere
      cases hthere
    rw [makeFolders_go_of_error ht hm he, if_pos hfolder]
    exact ⟨d, rfl⟩

/-- **Folders are made** where the way is clear. -/
theorem exists_makeFolders_go (hd : d.IsPlain) {p : Path} (hp : p.IsTrimmed)
    (hstart : d.get? (d.startOf p) = some .folder) (hclear : View.IsClear d.get? (d.addressOf p)) :
    ∃ d', makeFolders.go d p.ancestors = (.ok (), d') := by
  induction hk : p.components.length using Nat.strong_induction_on generalizing p with
  | h k ih =>
  by_cases ht : p.text = []
  · exact ⟨d, makeFolders_go_of_empty ht⟩
  by_cases hthere : d.get? (d.addressOf p) = some .folder
  · exact makeFolders_go_of_get? hd hp ht hstart hthere
  have hnone := (hclear _ (List.prefix_refl _)).resolve_right hthere
  have hn : p.names ≠ [] := by
    intro hn
    rw [addressOf, hn, List.append_nil] at hthere
    exact hthere hstart
  obtain ⟨q, n, hq, hqt, hcomp⟩ := exists_trimmed_parent hp hn
  have hdrop : (d.addressOf p).dropLast = d.addressOf q := by
    rw [addressOf_concat hcomp, List.dropLast_concat]
  by_cases hparent : d.get? (d.addressOf q) = some .folder
  · exact ⟨_, makeFolders_go_of_ok ht (makeFolder_of_free hd hp hn (hdrop ▸ hparent) hnone)⟩
  -- the folder above is missing, and is made first
  have hclear' : View.IsClear d.get? (d.addressOf q) := fun c hc =>
    hclear c (hc.trans (hdrop ▸ List.dropLast_prefix _))
  have hmissing := (hclear' _ (List.prefix_refl _)).resolve_right hparent
  have hm : d.makeFolder p = .error .notFound := by
    rw [makeFolder, entryAddress_of_missing hd hp.goesUp (hp.endsInName hn) hstart
      (hdrop ▸ hclear') (hdrop ▸ hmissing)]
    rfl
  have hstart' : d.get? (d.startOf q) = some .folder := by
    rw [startOf, ← Path.isAbsolute_concat hcomp]
    exact hstart
  have hqt' : q.text ≠ [] := by
    intro hqt'
    have haddress : d.addressOf q = d.startOf q := by
      rw [addressOf, Path.names, Path.components_eq_nil_iff.2 hqt']
      exact List.append_nil _
    rw [haddress] at hparent
    exact hparent hstart'
  have hlen : q.components.length < k := by
    rw [← hk, hcomp, List.length_append]
    exact Nat.lt_succ_self _
  obtain ⟨d₁, hgo⟩ := ih _ hlen hqt hstart' hclear' rfl
  have hmade : d.MadeFolder q d₁ := by
    rcases makeFolders_go_spec hd hqt with ⟨e, hfailed⟩ | ⟨d₂, hgo', hmade⟩
    · rw [hgo] at hfailed
      cases hfailed
    · rw [hgo, Prod.mk.injEq] at hgo'
      rw [hgo'.2]
      rwa [if_neg hqt'] at hmade
  rw [makeFolders_go_of_notFound ht hm hq, hgo]
  show ∃ d', makeFolders.make d₁ p = (.ok (), d')
  rw [makeFolders.make, hmade.makeFolder_eq hp hn hcomp hnone]
  exact ⟨_, rfl⟩

/-! ## Creating a file -/

/-- **A path that can name a file**: it does not go up, ends in a name, and starts in a
folder. -/
structure CanName (d : Disk) (p : Path) : Prop where
  goesUp : p.goesUp = false
  endsInName : p.endsInName = true
  no_slash : p.text.getLast? ≠ some '/'
  start : d.get? (d.startOf p) = some .folder

/-- A path can name a file as long as the folders stay. -/
theorem CanName.of_folders {p : Path} (h : d.CanName p) (hcwd : d'.cwd = d.cwd)
    (hfolder : ∀ c, d.get? c = some .folder → d'.get? c = some .folder) : d'.CanName p := by
  refine ⟨h.goesUp, h.endsInName, h.no_slash, ?_⟩
  rw [startOf, hcwd]
  exact hfolder _ h.start

/-- **What a path that can name a file leads to** is what is at its address. -/
theorem CanName.entryOf?_eq {p : Path} (h : d.CanName p) (hd : d.IsPlain) :
    d.entryOf? p = d.get? (d.addressOf p) :=
  Disk.entryOf?_eq hd h.goesUp h.endsInName h.no_slash

/-- A path that can name a file lies in the folder above it, which starts where it
starts. -/
theorem CanName.exists_parent {p : Path} (h : d.CanName p) : ∃ q, p.parent? = some q ∧
    q.IsTrimmed ∧ d.get? (d.startOf q) = some .folder ∧
      (d.addressOf p).dropLast = d.addressOf q ∧ (q.text = [] → d.addressOf q = d.startOf q) := by
  obtain ⟨q, n, hq, _, _, _, hcomp⟩ := exists_parent_of_endsInName h.goesUp h.endsInName
  refine ⟨q, hq, Path.isTrimmed_of_parent? h.goesUp hq, ?_, ?_, fun ht => ?_⟩
  · rw [startOf, ← Path.isAbsolute_concat hcomp]
    exact h.start
  · rw [addressOf_concat hcomp, List.dropLast_concat]
  · rw [addressOf, Path.names, Path.components_eq_nil_iff.2 ht]
    exact List.append_nil _

end Disk

namespace Progress

open Disk (View)

variable {d b : Disk} {s : Progress} {p : Path}

/-- **The folder of a new file can be made** when the way to it is clear. -/
theorem makeParent_eq_ok_iff (h : s.Holds d b) (hb : b.IsPlain) (hp : s.disk.CanName p) (t : Text) :
    ((s.makeParent p).1 = .ok () ∧ ∃ disk, (s.makeParent p).2.disk.writeAtomic p t = .ok disk) ↔
      View.IsClear s.disk.get? (s.disk.addressOf p).dropLast ∧
        s.disk.get? (s.disk.addressOf p) ≠ some .folder := by
  obtain ⟨q, hq, hqt, hstart, hdrop, hempty⟩ := hp.exists_parent
  obtain ⟨hholds, hmade⟩ := makeParent_spec h hb hp.goesUp
  have hat : (s.makeParent p).2.disk.addressOf p = s.disk.addressOf p :=
    Disk.addressOf_of_cwd_eq (hholds.cwd_eq.trans h.cwd_eq.symm) p
  -- what is at the path is what was there: the folders that are made are above it
  have hkept : (s.makeParent p).1 = .ok () → ((s.makeParent p).2.disk.get? (s.disk.addressOf p) =
      s.disk.get? (s.disk.addressOf p) ∧ View.IsClear s.disk.get? (s.disk.addressOf p).dropLast ∧
        (s.makeParent p).2.disk.get? (s.disk.addressOf p).dropLast = some .folder) := by
    intro hok
    have hm := hmade hok q hq
    rw [hdrop]
    by_cases ht : q.text = []
    · rw [if_pos ht] at hm
      rw [hm, hempty ht]
      refine ⟨rfl, fun c hc => .inr (h.plain.folder_of_folder hc hstart), hstart⟩
    · rw [if_neg ht] at hm
      refine ⟨?_, hm.before, ?_⟩
      · rw [hm.get?_eq, ← hdrop, if_neg]
        exact Disk.not_prefix_dropLast (Disk.addressOf_ne_nil hp.goesUp hp.endsInName)
      · rw [hm.get?_eq, if_pos (List.prefix_refl _)]
  constructor
  · rintro ⟨hok, disk, hw⟩
    have hcan := Disk.canWrite_of_writeAtomic hholds.plain hp.goesUp hw
    refine ⟨(hkept hok).2.1, ?_⟩
    rw [← (hkept hok).1, ← hat]
    exact hcan.not_folder
  · rintro ⟨hclear, hfree⟩
    obtain ⟨disk, hgo⟩ := Disk.exists_makeFolders_go h.plain hqt hstart (hdrop ▸ hclear)
    have hok : (s.makeParent p).1 = .ok () := by
      rw [makeParent, hq]
      simp only [Disk.makeFolders, hgo]
    obtain ⟨hget, -, hparent⟩ := hkept hok
    have hcan : (s.makeParent p).2.disk.CanWrite p :=
      ⟨hp.endsInName, hp.no_slash, hat.symm ▸ hparent, by rw [hat, hget]; exact hfree⟩
    obtain ⟨disk', hw, -⟩ := Disk.exists_writeAtomic hholds.plain hp.goesUp hcan t
    exact ⟨hok, disk', hw⟩

/-- **New files are created** when the way to each of them is clear, and none of them is
above another one. -/
theorem createAll_eq_ok_iff {files : PathMap Text} (h : s.Holds d b) (hb : b.IsPlain)
    (hfiles : ∀ x ∈ files, s.disk.CanName x.1 ∧ s.disk.get? (d.addressOf x.1) ≠ some .folder ∧
      b.get? (d.addressOf x.1) = none)
    (hapart : files.Pairwise fun x y => ¬d.addressOf x.1 <+: d.addressOf y.1 ∧
      ¬d.addressOf y.1 <+: d.addressOf x.1) :
    (createAll s files).1 = .ok () ↔
      ∀ x ∈ files, View.IsClear s.disk.get? (d.addressOf x.1).dropLast := by
  induction files generalizing s with
  | nil => exact ⟨fun _ x hx => absurd hx List.not_mem_nil, fun _ => rfl⟩
  | cons x files ih =>
    obtain ⟨p, t⟩ := x
    obtain ⟨hname, hnofolder, hfree⟩ := hfiles (p, t) List.mem_cons_self
    obtain ⟨hbelow, hapart⟩ := List.pairwise_cons.1 hapart
    have hat : s.disk.addressOf p = d.addressOf p := Disk.addressOf_of_cwd_eq h.cwd_eq p
    have hiff := makeParent_eq_ok_iff h hb hname t
    rw [hat] at hiff
    obtain ⟨hholds, hmade⟩ := makeParent_spec h hb hname.goesUp
    rw [List.forall_mem_cons]
    by_cases hclear : View.IsClear s.disk.get? (d.addressOf p).dropLast
    · obtain ⟨hok, disk, hw⟩ := hiff.2 ⟨hclear, hnofolder⟩
      have hview := view_of_create h.cwd_eq hname.goesUp hholds.plain hholds.cwd_eq (hmade hok) hw
      have hnext := hholds.create hname.goesUp (fun _ _ => hfree) hw
      have hstep : createAll s ((p, t) :: files) = createAll
          { (s.makeParent p).2 with disk, created := (s.makeParent p).2.created ++ [p] } files := by
        rw [createAll]
        cases hm : s.makeParent p with
        | mk r s₁ =>
          rw [hm] at hok hw
          simp only at hok hw
          simp only [hok, hw]
      rw [hstep, ih hnext (fun y hy => ?_) hapart]
      · -- the new file clears no other way, and blocks none
        show (∀ y ∈ files, View.IsClear disk.get? (d.addressOf y.1).dropLast) ↔ _
        rw [and_iff_right hclear, hview]
        refine forall₂_congr fun y hy => View.isClear_create_iff hclear fun hpre => ?_
        exact (hbelow y hy).1 (hpre.trans (List.dropLast_prefix _))
      · obtain ⟨hname', hnofolder', hfree'⟩ := hfiles y (List.mem_cons_of_mem _ hy)
        refine ⟨hname'.of_folders (hnext.cwd_eq.trans h.cwd_eq.symm) fun c hc => ?_, ?_, hfree'⟩
        · show disk.get? c = some .folder
          rw [hview]
          exact View.folder_create hnofolder hc
        · show disk.get? (d.addressOf y.1) ≠ some .folder
          rw [hview, View.create_of_not_prefix (hbelow y hy).2]
          exact hnofolder'
    · refine iff_of_false (fun hall => hclear ?_) fun hall => hclear hall.1
      rw [createAll] at hall
      cases hm : s.makeParent p with
      | mk r s₁ =>
        rw [hm] at hall hiff
        cases r with
        | error f => cases hall
        | ok u =>
          simp only at hall
          cases hw : s₁.disk.writeAtomic p t with
          | error f =>
            rw [hw] at hall
            cases hall
          | ok disk => exact (hiff.1 ⟨rfl, disk, hw⟩).1

/-- **Files that are there are written.** -/
theorem writeAll_eq_ok {files : PathMap Staged} (hs : s.disk.IsPlain)
    (hfiles : ∀ x ∈ files, s.disk.CanName x.1 ∧ s.disk.filesOf (s.disk.addressOf x.1)) :
    (writeAll s files).1 = .ok () := by
  induction files generalizing s with
  | nil => rfl
  | cons x files ih =>
    obtain ⟨p, file⟩ := x
    obtain ⟨hname, hfile⟩ := hfiles (p, file) List.mem_cons_self
    obtain ⟨disk, hw, hwrote⟩ := Disk.exists_writeAtomic hs hname.goesUp
      (Disk.canWrite_of_file hs hname.goesUp hname.endsInName hname.no_slash hfile) file.current
    rw [writeAll, hw]
    refine ih hwrote.plain fun y hy => ?_
    obtain ⟨hname', hfile'⟩ := hfiles y (List.mem_cons_of_mem _ hy)
    refine ⟨hname'.of_folders hwrote.cwd_eq fun c hc => ?_, ?_⟩
    · show disk.get? c = some .folder
      rw [hwrote.get?_eq, if_neg, hc]
      rintro rfl
      obtain ⟨content, hcontent⟩ := hfile
      rw [hc] at hcontent
      cases hcontent
    · show disk.filesOf (disk.addressOf y.1)
      rw [Disk.addressOf_of_cwd_eq hwrote.cwd_eq]
      exact filesOf_of_wrote hwrote hfile'

end Progress

namespace Transaction

open Disk (View)

variable {d d' : Disk} {tx : Transaction}

/-- Writing files that are there leaves the outline as it is. -/
theorem sameOutline_foldl_write {files : PathMap Staged} {v : View}
    (h : ∀ x ∈ files, ∃ content, v (d.addressOf x.1) = some (.file content)) :
    v.SameOutline (files.foldl (fun v x => v.write (d.addressOf x.1) x.2.current) v) := by
  induction files generalizing v with
  | nil => exact fun c => ⟨Iff.rfl, Iff.rfl⟩
  | cons x files ih =>
    obtain ⟨content, hx⟩ := h x List.mem_cons_self
    refine (View.sameOutline_write hx).trans (ih fun y hy => ?_)
    obtain ⟨content', hy'⟩ := h y (List.mem_cons_of_mem _ hy)
    by_cases hyx : d.addressOf y.1 = d.addressOf x.1
    · exact ⟨.text x.2.current, by rw [View.write, if_pos hyx]⟩
    · exact ⟨content', by rw [View.write, if_neg hyx, hy']⟩

/-- **A commit without removals succeeds** when the way to every new file is clear, none of
the new files being above another one. -/
theorem Sound.commit_eq_ok_iff (h : Sound d tx) (hd : d.IsPlain) (hremovals : tx.removals = [])
    (hname : ∀ p ∈ tx.paths, d.CanName p)
    (hapart : tx.created.Pairwise fun x y => ¬d.addressOf x.1 <+: d.addressOf y.1 ∧
      ¬d.addressOf y.1 <+: d.addressOf x.1) (scaffold : Text) :
    (∃ r d', tx.commit scaffold d = (.ok r, d')) ↔
      ∀ x ∈ tx.created, View.IsClear d.get? (d.addressOf x.1).dropLast := by
  have hfile : ∀ x ∈ tx.modified, d.get? (d.addressOf x.1) = some (.file (.text x.2.original)) :=
    fun x hx => (h.modified_spec hd hx).2
  have hstaged : ∀ x ∈ tx.modified, d.CanName x.1 := fun x hx =>
    hname x.1 (mem_paths_of_staged (List.mem_of_mem_filter hx))
  have hnone : ∀ x ∈ tx.created, d.get? (d.addressOf x.1) = none := by
    intro x hx
    have hmissing := (h.created x.1 x.2 hx).resolve_right (by simp [isRemoved, hremovals])
    rwa [Disk.pathExists, (hname x.1 (mem_paths_of_created hx)).entryOf?_eq hd,
      Option.isSome_eq_false_iff, Option.isNone_iff_eq_none] at hmissing
  -- all that can fail is the creation of a file
  obtain ⟨hholds, hview⟩ := Progress.writeAll_spec (Progress.Holds.init hd rfl)
    fun x hx => h.modified_spec hd hx
  have hwritten : (Progress.writeAll { disk := d } tx.modified).1 = .ok () :=
    Progress.writeAll_eq_ok hd fun x hx => ⟨hstaged x hx, .text x.2.original, hfile x hx⟩
  have houtline : View.SameOutline d.get? (Progress.writeAll { disk := d } tx.modified).2.disk.get? := by
    rw [hview hwritten]
    exact sameOutline_foldl_write fun x hx => ⟨.text x.2.original, hfile x hx⟩
  have hfiles : ∀ x ∈ tx.created, (Progress.writeAll { disk := d } tx.modified).2.disk.CanName x.1 ∧
      (Progress.writeAll { disk := d } tx.modified).2.disk.get? (d.addressOf x.1) ≠ some .folder ∧
        d.get? (d.addressOf x.1) = none := by
    intro x hx
    refine ⟨(hname x.1 (mem_paths_of_created hx)).of_folders hholds.cwd_eq
      fun c hc => (houtline c).2.2 hc, ?_, hnone x hx⟩
    rw [(houtline _).1.2 (hnone x hx)]
    simp
  have hcreate := Progress.createAll_eq_ok_iff hholds hd hfiles hapart
  rw [← forall₂_congr fun x _ => houtline.isClear_iff _, ← hcreate]
  have haside : d.moveAllAside (tx.reserved d) [] = (.ok [], d) := rfl
  rw [h.commit_eq scaffold]
  unfold commitAtOnce writeOut
  rw [hremovals, haside]
  dsimp only
  cases hw : Progress.writeAll { disk := d } tx.modified with
  | mk r s =>
    rw [hw] at hwritten
    simp only at hwritten
    subst hwritten
    cases hc : s.createAll tx.created with
    | mk r' s' =>
      cases r' with
      | error f => simp [hc, Outcome.within]
      | ok u => simp [hc]

end Transaction

end Fabula
