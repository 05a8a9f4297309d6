import Fabula.Proofs.Disk.Folders
import Fabula.Proofs.Staging.Moves

/-!
# How far a commit has come, and back

A commit writes files and then creates files, and keeps a list of what it wrote and one of what
it created. This module says that these two lists are all there is to know. Whatever else the
commit did is nothing: every address is as it was, or was written, or lies at or below something
that was created where nothing was (`Progress.Holds`).

## One step

This is the invariant of the commit, and every step of it keeps it, be it successful or not. A
step that writes a modified file does so where a file is, and lists its old text. A step that
creates a file makes the folders above it first. Only the topmost folder that was missing is
listed, which is enough, for everything that is made below it is at or below a listed address
(`Progress.Holds.makeFolder`). If a folder cannot be made, none was.

By induction over the files, either all of them are written and created, and the view of the
disk is known, or the first failure leaves a list that still holds (`Progress.writeAll_spec`,
`Progress.createAll_spec`).

## Undoing

Giving the files their old texts back and removing what was created leaves what was there. The
written files still are files, so they can be written. What was created was put where nothing
was, so removing it with everything below takes away nothing else, and the order does not
matter.

One thing is different from the disk before. A file that had been moved aside may have been
written anew, since an edited file is written where it was. Then the old text is put at an empty
place where a file was before anything was moved. So what is left covers the disk and need not
be equal to it (`Progress.Holds.undo_covers`), and moving back what was moved aside makes up for
that.
-/

namespace Fabula

namespace Disk

/-- **What is seen of a disk**: what there is at each address. -/
abbrev View := Address → Option Entry

namespace View

/-- What is seen after some addresses were cut off with everything below them. -/
def cut (v : View) (removed : List Address) : View :=
  fun c => if ∃ a ∈ removed, a <+: c then none else v c

/-- What is seen after a file was put at an address. -/
def write (v : View) (a : Address) (t : Text) : View :=
  fun c => if c = a then some (.file (.text t)) else v c

/-- What is seen after a folder was made with the folders above it. -/
def makeFolders (v : View) (a : Address) : View :=
  fun c => if c <+: a then some .folder else v c

/-- What is seen after a file was created with the folders it needs. -/
def create (v : View) (a : Address) (t : Text) : View :=
  (v.makeFolders a.dropLast).write a t

end View

variable {d : Disk}

/-- **What was created is gone** after it is removed, and nothing else. -/
theorem uncreate_spec (hd : d.IsPlain) {p : Path} (hup : p.goesUp = false)
    (hend : p.endsInName = true) (hslash : p.text.getLast? ≠ some '/') :
    (Progress.uncreate d p).IsPlain ∧ (Progress.uncreate d p).cwd = d.cwd ∧
      ∀ c, (Progress.uncreate d p).get? c
        = if d.addressOf p <+: c then none else d.get? c := by
  have hne := addressOf_ne_nil (d := d) hup hend
  have hremove : (if d.isFolder p = true then d.removeTree p else d.removeFile p)
      = d.removeTree p := by
    split
    · rfl
    · rename_i hf
      rw [isFolder_iff, entryOf?_eq hd hup hend hslash] at hf
      exact removeFile_eq_removeTree hd hup hend hf
  rw [Progress.uncreate, hremove]
  by_cases h : d.get? (d.addressOf p) = none
  · obtain ⟨e, he⟩ := removeTree_eq_error hd hup hend h
    rw [he]
    refine ⟨hd, rfl, fun c => ?_⟩
    show d.get? c = if d.addressOf p <+: c then none else d.get? c
    split
    · rename_i hpre
      exact hd.get?_none_below hpre h
    · rfl
  · rw [removeTree_of_get? hd hup hend h]
    exact ⟨hd.cutTree hne, rfl, fun c => get?_cutTree_of_ne_nil d hne c⟩

/-- There is a place for a file where a file is. -/
theorem canWrite_of_file (hd : d.IsPlain) {p : Path} (hup : p.goesUp = false)
    (hend : p.endsInName = true) (hslash : p.text.getLast? ≠ some '/')
    (h : d.filesOf (d.addressOf p)) : d.CanWrite p := by
  obtain ⟨content, hfile⟩ := h
  refine ⟨hend, hslash, hd.parent _ _ (addressOf_ne_nil hup hend) hfile, ?_⟩
  rw [hfile]
  simp

end Disk

namespace Progress

/-- **What a commit did is what it lists.** `d` is the disk before anything was
moved aside, `b` the disk after that. -/
structure Holds (d b : Disk) (s : Progress) : Prop where
  plain : s.disk.IsPlain
  cwd_eq : s.disk.cwd = d.cwd
  /-- Where a file was written there is one, and there was one with that text. -/
  written : ∀ x ∈ s.written, x.1.goesUp = false ∧ x.1.endsInName = true ∧
    x.1.text.getLast? ≠ some '/' ∧ d.get? (d.addressOf x.1) = some (.file (.text x.2)) ∧
    s.disk.filesOf (d.addressOf x.1)
  /-- Where something was created there was nothing. -/
  created : ∀ p ∈ s.created, p.goesUp = false ∧ p.endsInName = true ∧
    p.text.getLast? ≠ some '/' ∧ b.get? (d.addressOf p) = none
  kept : ∀ c, s.disk.get? c = b.get? c ∨ (∃ x ∈ s.written, d.addressOf x.1 = c) ∨
    ∃ p ∈ s.created, d.addressOf p <+: c

variable {d b : Disk} {s : Progress}

/-! ## Undoing -/

/-- **The written files get their old texts back.** -/
theorem rewrite_all (d : Disk) {e : Disk} (he : e.IsPlain) (hcwd : e.cwd = d.cwd)
    {files : List (Path × Text)}
    (h : ∀ x ∈ files, x.1.goesUp = false ∧ x.1.endsInName = true ∧
      x.1.text.getLast? ≠ some '/' ∧ d.get? (d.addressOf x.1) = some (.file (.text x.2)) ∧
      e.filesOf (d.addressOf x.1)) :
    (files.foldl rewrite e).IsPlain ∧ (files.foldl rewrite e).cwd = d.cwd ∧
      ∀ c, (files.foldl rewrite e).get? c
        = if ∃ x ∈ files, d.addressOf x.1 = c then d.get? c else e.get? c := by
  induction files generalizing e with
  | nil =>
    refine ⟨he, hcwd, fun c => ?_⟩
    rw [if_neg (by simp)]
    rfl
  | cons x files ih =>
    obtain ⟨hup, hend, hslash, hold, hfile⟩ := h x List.mem_cons_self
    have hat : e.addressOf x.1 = d.addressOf x.1 := Disk.addressOf_of_cwd_eq hcwd x.1
    obtain ⟨e', he', hw⟩ := Disk.exists_writeAtomic he hup
      (Disk.canWrite_of_file he hup hend hslash (hat ▸ hfile)) x.2
    have hview := hw.get?_eq
    rw [hat] at hview
    have hrewrite : rewrite e x = e' := by
      rw [rewrite, he']
    rw [List.foldl_cons, hrewrite]
    obtain ⟨hplain, hcwd', hget⟩ := ih hw.plain (hw.cwd_eq.trans hcwd) fun y hy => by
      obtain ⟨hup', hend', hslash', hold', content, hfile'⟩ := h y (List.mem_cons_of_mem _ hy)
      refine ⟨hup', hend', hslash', hold', ?_⟩
      by_cases hyx : d.addressOf y.1 = d.addressOf x.1
      · exact ⟨.text x.2, by rw [hview, if_pos hyx]⟩
      · exact ⟨content, by rw [hview, if_neg hyx, hfile']⟩
    refine ⟨hplain, hcwd', fun c => ?_⟩
    rw [hget, hview]
    by_cases hc : ∃ y ∈ files, d.addressOf y.1 = c
    · obtain ⟨y, hy, hyc⟩ := hc
      rw [if_pos ⟨y, hy, hyc⟩, if_pos ⟨y, List.mem_cons_of_mem _ hy, hyc⟩]
    · rw [if_neg hc]
      by_cases hcx : c = d.addressOf x.1
      · rw [if_pos hcx, if_pos ⟨x, List.mem_cons_self, hcx.symm⟩, hcx, hold]
      · rw [if_neg hcx, if_neg]
        rintro ⟨y, hy, hyc⟩
        rcases List.mem_cons.1 hy with rfl | hy
        · exact hcx hyc.symm
        · exact hc ⟨y, hy, hyc⟩

/-- **What was created goes**, in any order. -/
theorem uncreate_all {e : Disk} (he : e.IsPlain) (hcwd : e.cwd = d.cwd) {paths : List Path}
    (h : ∀ p ∈ paths, p.goesUp = false ∧ p.endsInName = true ∧ p.text.getLast? ≠ some '/') :
    (paths.foldl uncreate e).IsPlain ∧ (paths.foldl uncreate e).cwd = d.cwd ∧
      ∀ c, (paths.foldl uncreate e).get? c
        = if ∃ p ∈ paths, d.addressOf p <+: c then none else e.get? c := by
  induction paths generalizing e with
  | nil =>
    refine ⟨he, hcwd, fun c => ?_⟩
    rw [if_neg (by simp)]
    rfl
  | cons p paths ih =>
    obtain ⟨hup, hend, hslash⟩ := h p List.mem_cons_self
    obtain ⟨hplain, hcwd', hview⟩ := Disk.uncreate_spec he hup hend hslash
    have hat : e.addressOf p = d.addressOf p := Disk.addressOf_of_cwd_eq hcwd p
    rw [hat] at hview
    rw [List.foldl_cons]
    obtain ⟨hplain', hcwd'', hget⟩ := ih hplain (hcwd'.trans hcwd)
      fun q hq => h q (List.mem_cons_of_mem _ hq)
    refine ⟨hplain', hcwd'', fun c => ?_⟩
    rw [hget, hview]
    by_cases hc : ∃ q ∈ paths, d.addressOf q <+: c
    · obtain ⟨q, hq, hqc⟩ := hc
      rw [if_pos ⟨q, hq, hqc⟩, if_pos ⟨q, List.mem_cons_of_mem _ hq, hqc⟩]
    · rw [if_neg hc]
      by_cases hcp : d.addressOf p <+: c
      · rw [if_pos hcp, if_pos ⟨p, List.mem_cons_self, hcp⟩]
      · rw [if_neg hcp, if_neg]
        rintro ⟨q, hq, hqc⟩
        rcases List.mem_cons.1 hq with rfl | hq
        · exact hcp hqc
        · exact hc ⟨q, hq, hqc⟩

/-- **Undoing a commit** leaves what was there before it wrote, and the old texts of
files that were moved aside and written anew. -/
theorem Holds.undo_covers (h : s.Holds d b) (hb : b.IsPlain) (hcwd : b.cwd = d.cwd)
    (hbd : ∀ c, d.filesOf c → b.get? c = none ∨ b.get? c = d.get? c) :
    s.undo.Covers b d.filesOf := by
  obtain ⟨hplain, hcwd', hview⟩ := rewrite_all d h.plain h.cwd_eq h.written
  obtain ⟨hplain', hcwd'', hview'⟩ := @uncreate_all d _ hplain hcwd' s.created.reverse
    fun p hp => by
      obtain ⟨hup, hend, hslash, _⟩ := h.created p (List.mem_reverse.1 hp)
      exact ⟨hup, hend, hslash⟩
  refine ⟨hplain', hcwd''.trans hcwd.symm, fun c => ?_⟩
  show (s.created.reverse.foldl uncreate (s.written.foldl rewrite s.disk)).get? c = _ ∨ _ ∧ _ ∧
    ∃ content, (s.created.reverse.foldl uncreate (s.written.foldl rewrite s.disk)).get? c = _
  rw [hview']
  by_cases hc : ∃ p ∈ s.created.reverse, d.addressOf p <+: c
  · rw [if_pos hc]
    obtain ⟨p, hp, hpre⟩ := hc
    obtain ⟨_, _, _, hnone⟩ := h.created p (List.mem_reverse.1 hp)
    exact .inl (hb.get?_none_below hpre hnone).symm
  · rw [if_neg hc, hview]
    by_cases hw : ∃ x ∈ s.written, d.addressOf x.1 = c
    · rw [if_pos hw]
      obtain ⟨x, hx, rfl⟩ := hw
      obtain ⟨_, _, _, hold, _⟩ := h.written x hx
      have hfile : d.filesOf (d.addressOf x.1) := ⟨_, hold⟩
      rcases hbd _ hfile with h0 | h0
      · exact .inr ⟨hfile, h0, hfile⟩
      · exact .inl h0.symm
    · rw [if_neg hw]
      rcases h.kept c with h0 | h0 | ⟨p, hp, hpre⟩
      · exact .inl h0
      · exact absurd h0 hw
      · exact absurd ⟨p, List.mem_reverse.2 hp, hpre⟩ hc

/-! ## Writing and creating -/

theorem Holds.init (hb : b.IsPlain) (hcwd : b.cwd = d.cwd) : Holds d b { disk := b } where
  plain := hb
  cwd_eq := hcwd
  written := fun _ hx => absurd hx List.not_mem_nil
  created := fun _ hp => absurd hp List.not_mem_nil
  kept := fun _ => .inl rfl

/-- Where a file was written, files are where they were. -/
theorem filesOf_of_wrote {e e' : Disk} {a c : Address} {t : Text} (h : e.Wrote e' a t)
    (hc : e.filesOf c) : e'.filesOf c := by
  obtain ⟨content, hfile⟩ := hc
  by_cases hca : c = a
  · exact ⟨.text t, by rw [h.get?_eq, if_pos hca]⟩
  · exact ⟨content, by rw [h.get?_eq, if_neg hca, hfile]⟩

/-- **A modified file was written.** -/
theorem Holds.write (h : s.Holds d b) {p : Path} {old new : Text} (hup : p.goesUp = false)
    (hold : d.get? (d.addressOf p) = some (.file (.text old))) {disk : Disk}
    (hw : s.disk.writeAtomic p new = .ok disk) :
    Holds d b { s with disk, written := s.written ++ [(p, old)] } := by
  have hat : s.disk.addressOf p = d.addressOf p := Disk.addressOf_of_cwd_eq h.cwd_eq p
  have hcan := Disk.canWrite_of_writeAtomic h.plain hup hw
  have hwrote := Disk.wrote_of_writeAtomic h.plain hup hw
  rw [hat] at hwrote
  refine ⟨hwrote.plain, hwrote.cwd_eq.trans h.cwd_eq, fun x hx => ?_, h.created, fun c => ?_⟩
  · rcases List.mem_append.1 hx with hx | hx
    · obtain ⟨hup', hend, hslash, hold', hfile⟩ := h.written x hx
      exact ⟨hup', hend, hslash, hold', filesOf_of_wrote hwrote hfile⟩
    · obtain rfl := List.mem_singleton.1 hx
      exact ⟨hup, hcan.endsInName, hcan.no_slash, hold, .text new,
        by rw [hwrote.get?_eq, if_pos rfl]⟩
  · by_cases hc : c = d.addressOf p
    · exact .inr (.inl ⟨(p, old), by simp, hc.symm⟩)
    · have hkeep : disk.get? c = s.disk.get? c := by
        rw [hwrote.get?_eq, if_neg hc]
      rcases h.kept c with h0 | ⟨x, hx, hxc⟩ | h0
      · exact .inl (hkeep.trans h0)
      · exact .inr (.inl ⟨x, List.mem_append_left _ hx, hxc⟩)
      · exact .inr (.inr h0)

/-- **A new file was written.** -/
theorem Holds.create (h : s.Holds d b) {p : Path} {t : Text} (hup : p.goesUp = false)
    (hfree : p.endsInName = true → p.text.getLast? ≠ some '/' → b.get? (d.addressOf p) = none)
    {disk : Disk}
    (hw : s.disk.writeAtomic p t = .ok disk) :
    Holds d b { s with disk, created := s.created ++ [p] } := by
  have hat : s.disk.addressOf p = d.addressOf p := Disk.addressOf_of_cwd_eq h.cwd_eq p
  have hcan := Disk.canWrite_of_writeAtomic h.plain hup hw
  have hwrote := Disk.wrote_of_writeAtomic h.plain hup hw
  rw [hat] at hwrote
  refine ⟨hwrote.plain, hwrote.cwd_eq.trans h.cwd_eq, fun x hx => ?_, fun q hq => ?_, fun c => ?_⟩
  · obtain ⟨hup', hend, hslash, hold, hfile⟩ := h.written x hx
    exact ⟨hup', hend, hslash, hold, filesOf_of_wrote hwrote hfile⟩
  · rcases List.mem_append.1 hq with hq | hq
    · exact h.created q hq
    · obtain rfl := List.mem_singleton.1 hq
      exact ⟨hup, hcan.endsInName, hcan.no_slash, hfree hcan.endsInName hcan.no_slash⟩
  · by_cases hc : c = d.addressOf p
    · exact .inr (.inr ⟨p, by simp, hc ▸ List.prefix_refl _⟩)
    · have hkeep : disk.get? c = s.disk.get? c := by
        rw [hwrote.get?_eq, if_neg hc]
      rcases h.kept c with h0 | h0 | ⟨q, hq, hpre⟩
      · exact .inl (hkeep.trans h0)
      · exact .inr (.inl h0)
      · exact .inr (.inr ⟨q, List.mem_append_left _ hq, hpre⟩)

/-- Where nothing is now there was nothing before. -/
theorem Holds.get?_eq_none (h : s.Holds d b) (hb : b.IsPlain) {c : Address}
    (hc : s.disk.get? c = none) : b.get? c = none := by
  rcases h.kept c with h0 | ⟨x, hx, rfl⟩ | ⟨p, hp, hpre⟩
  · rw [← h0, hc]
  · obtain ⟨_, _, _, _, content, hfile⟩ := h.written x hx
    rw [hfile] at hc
    cases hc
  · obtain ⟨_, _, _, hnone⟩ := h.created p hp
    exact hb.get?_none_below hpre hnone

/-- **A folder was made**, and the topmost one that was missing is listed. -/
theorem Holds.makeFolder (h : s.Holds d b) (hb : b.IsPlain) {p : Path} (hp : p.IsTrimmed)
    (ht : p.text ≠ []) {disk : Disk} (hm : s.disk.MadeFolder p disk) :
    Holds d b { s with disk, created := s.created ++ (firstMissing? s.disk p).toList } := by
  have hat : ∀ q, s.disk.addressOf q = d.addressOf q := Disk.addressOf_of_cwd_eq h.cwd_eq
  have hspec := firstMissing?_spec h.plain hp ht hm.start
  refine ⟨hm.plain, hm.cwd_eq.trans h.cwd_eq, fun x hx => ?_, fun q hq => ?_, fun c => ?_⟩
  · obtain ⟨hup, hend, hslash, hold, content, hfile⟩ := h.written x hx
    refine ⟨hup, hend, hslash, hold, content, ?_⟩
    show disk.get? (d.addressOf x.1) = _
    rw [hm.get?_eq, if_neg, hfile]
    -- no file stands where a folder has to be
    intro hpre
    rcases hm.before _ hpre with h0 | h0 <;> rw [hfile] at h0 <;> cases h0
  · rcases List.mem_append.1 hq with hq | hq
    · exact h.created q hq
    · rw [Option.mem_toList] at hq
      rw [Option.mem_def.1 hq] at hspec
      obtain ⟨hqt, hqn, hmiss, _⟩ := hspec
      rw [hat] at hmiss
      exact ⟨hqt.goesUp, hqt.endsInName hqn, hqt.no_slash hqn, h.get?_eq_none hb hmiss⟩
  · have hmade := hm.get?_eq c
    by_cases hnew : c <+: s.disk.addressOf p ∧ s.disk.get? c = none
    · obtain ⟨hpre, hnone⟩ := hnew
      cases hf : firstMissing? s.disk p with
      | none =>
        rw [hf] at hspec
        exact absurd (h.plain.get?_none_below hpre hnone) hspec
      | some top =>
        rw [hf] at hspec
        obtain ⟨_, _, _, _, habove⟩ := hspec
        refine .inr (.inr ⟨top, by simp, ?_⟩)
        rw [← hat]
        exact habove c hpre hnone
    · have hkeep : disk.get? c = s.disk.get? c := by
        rw [hmade]
        split
        · rename_i hpre
          rcases hm.before c hpre with h0 | h0
          · exact absurd ⟨hpre, h0⟩ hnew
          · exact h0.symm
        · rfl
      rcases h.kept c with h0 | h0 | ⟨q, hq, hpre⟩
      · exact .inl (hkeep.trans h0)
      · exact .inr (.inl h0)
      · exact .inr (.inr ⟨q, List.mem_append_left _ hq, hpre⟩)

/-! ## A whole commit -/

/-- **Writing all modified files**, or those before the first that cannot be written. -/
theorem writeAll_spec {files : PathMap Staged} (h : s.Holds d b)
    (hfiles : ∀ x ∈ files, x.1.goesUp = false ∧
      d.get? (d.addressOf x.1) = some (.file (.text x.2.original))) :
    (writeAll s files).2.Holds d b ∧ ((writeAll s files).1 = .ok () →
      (writeAll s files).2.disk.get? = files.foldl
        (fun v x => Disk.View.write v (d.addressOf x.1) x.2.current) s.disk.get?) := by
  induction files generalizing s with
  | nil => exact ⟨h, fun _ => rfl⟩
  | cons x files ih =>
    obtain ⟨p, file⟩ := x
    obtain ⟨hup, hold⟩ := hfiles (p, file) List.mem_cons_self
    rw [writeAll]
    cases hw : s.disk.writeAtomic p file.current with
    | error f => exact ⟨h, fun h0 => by cases h0⟩
    | ok disk =>
      have hwrote := Disk.wrote_of_writeAtomic h.plain hup hw
      rw [Disk.addressOf_of_cwd_eq h.cwd_eq] at hwrote
      obtain ⟨hholds, hview⟩ := ih (h.write hup hold hw) fun y hy =>
        hfiles y (List.mem_cons_of_mem _ hy)
      refine ⟨hholds, fun hok => ?_⟩
      rw [hview hok, List.foldl_cons]
      congr 1
      funext c
      exact hwrote.get?_eq c

/-- **Making the folder of a new file.** Nothing was made when that fails. -/
theorem makeParent_spec (h : s.Holds d b) (hb : b.IsPlain) {p : Path} (hup : p.goesUp = false) :
    (s.makeParent p).2.Holds d b ∧ ((s.makeParent p).1 = .ok () →
      ∀ q, p.parent? = some q → if q.text = [] then (s.makeParent p).2.disk = s.disk
        else s.disk.MadeFolder q (s.makeParent p).2.disk) := by
  rw [makeParent]
  cases hq : p.parent? with
  | none => exact ⟨h, fun _ q h0 => by cases h0⟩
  | some q =>
    have hqt := Path.isTrimmed_of_parent? hup hq
    simp only
    rcases Disk.makeFolders_go_spec h.plain hqt with ⟨e, hgo⟩ | ⟨disk, hgo, hmade⟩
    · rw [Disk.makeFolders, hgo]
      exact ⟨h, fun h0 => by cases h0⟩
    · rw [Disk.makeFolders, hgo]
      by_cases ht : q.text = []
      · rw [if_pos ht] at hmade
        subst hmade
        rw [firstMissing?_eq_none (.inl ht)]
        refine ⟨?_, fun _ q' hq' => ?_⟩
        · show Holds d b { s with created := s.created ++ [] }
          rwa [List.append_nil]
        · obtain rfl := Option.some.inj hq'
          rw [if_pos ht]
      · rw [if_neg ht] at hmade
        refine ⟨h.makeFolder hb hqt ht hmade, fun _ q' hq' => ?_⟩
        obtain rfl := Option.some.inj hq'
        rwa [if_neg ht]

/-- What is seen after a file was created in the folder that was made for it. -/
theorem view_of_create (hcwd : s.disk.cwd = d.cwd) {e e' : Disk} {p : Path}
    {t : Text} (hup : p.goesUp = false) (he : e.IsPlain) (hecwd : e.cwd = d.cwd)
    (hmade : ∀ q, p.parent? = some q →
      if q.text = [] then e = s.disk else s.disk.MadeFolder q e)
    (hw : e.writeAtomic p t = .ok e') :
    e'.get? = Disk.View.create s.disk.get? (d.addressOf p) t := by
  have hcan := Disk.canWrite_of_writeAtomic he hup hw
  have hwrote := Disk.wrote_of_writeAtomic he hup hw
  have hat : ∀ q, s.disk.addressOf q = d.addressOf q := Disk.addressOf_of_cwd_eq hcwd
  obtain ⟨q, n, hq, _, _, _, hcomp⟩ := Disk.exists_parent_of_endsInName hup hcan.endsInName
  have ha : d.addressOf p = d.addressOf q ++ [n] := Disk.addressOf_concat hcomp
  have hparent := hcan.parent
  rw [Disk.addressOf_of_cwd_eq hecwd] at hwrote hparent
  have hfolders : e.get? = Disk.View.makeFolders s.disk.get? (d.addressOf p).dropLast := by
    funext c
    rw [Disk.View.makeFolders, ha, List.dropLast_concat]
    by_cases ht : q.text = []
    · have hmade' := hmade q hq
      rw [if_pos ht] at hmade'
      split
      · rename_i hpre
        rw [ha, List.dropLast_concat] at hparent
        exact he.folder_of_folder hpre hparent
      · rw [hmade']
    · have hmade' := hmade q hq
      rw [if_neg ht] at hmade'
      rw [hmade'.get?_eq, hat]
  funext c
  rw [hwrote.get?_eq, hfolders]
  rfl

/-- **Creating all new files**, or those before the first that cannot be created. -/
theorem createAll_spec {files : PathMap Text} (h : s.Holds d b) (hb : b.IsPlain)
    (hfiles : ∀ x ∈ files, x.1.goesUp = false ∧ (x.1.endsInName = true →
      x.1.text.getLast? ≠ some '/' → b.get? (d.addressOf x.1) = none)) :
    (createAll s files).2.Holds d b ∧ ((createAll s files).1 = .ok () →
      (createAll s files).2.disk.get? = files.foldl
        (fun v x => Disk.View.create v (d.addressOf x.1) x.2) s.disk.get?) := by
  induction files generalizing s with
  | nil => exact ⟨h, fun _ => rfl⟩
  | cons x files ih =>
    obtain ⟨p, t⟩ := x
    obtain ⟨hup, hfree⟩ := hfiles (p, t) List.mem_cons_self
    obtain ⟨hholds, hmade⟩ := makeParent_spec h hb hup
    rw [createAll]
    cases hm : s.makeParent p with
    | mk r s₁ =>
      rw [hm] at hholds hmade
      cases r with
      | error f => exact ⟨hholds, fun h0 => by cases h0⟩
      | ok u =>
        simp only
        cases hw : s₁.disk.writeAtomic p t with
        | error f => exact ⟨hholds, fun h0 => by cases h0⟩
        | ok disk =>
          obtain ⟨hholds', hview⟩ := ih (hholds.create hup hfree hw) fun y hy =>
            hfiles y (List.mem_cons_of_mem _ hy)
          refine ⟨hholds', fun hok => ?_⟩
          rw [hview hok, List.foldl_cons]
          congr 1
          exact view_of_create h.cwd_eq hup hholds.plain hholds.cwd_eq (hmade rfl) hw

end Progress

namespace Transaction

variable {d d' b D : Disk} {tx : Transaction}

/-- **The stages of a commit that succeeds.** -/
theorem of_commit_eq_ok {scaffold : Text} {r : Report} (hc : tx.commit scaffold d = (.ok r, d')) :
    ∃ ms b D, d.moveAllAside (tx.reserved d) tx.removals = (.ok ms, b) ∧
      tx.writeOut b = (.ok (), D) ∧ d' = D.purge ms := by
  rw [commit] at hc
  split at hc
  · cases hc
  · split at hc
    · cases hc
    · rename_i ms b hm
      split at hc
      · cases hc
      · rename_i D hw
        exact ⟨ms, b, D, hm, hw, (Prod.mk.inj hc).2.symm⟩

theorem of_writeOut_eq_ok (h : tx.writeOut b = (.ok (), D)) :
    ∃ s s', Progress.writeAll { disk := b } tx.modified = (.ok (), s) ∧
      s.createAll tx.created = (.ok (), s') ∧ D = s'.disk := by
  rw [writeOut] at h
  split at h
  · cases h
  · rename_i s hw
    split at h
    · cases h
    · rename_i s' hcr
      exact ⟨s, s', hw, hcr, (Prod.mk.inj h).2.symm⟩

end Transaction

end Fabula
