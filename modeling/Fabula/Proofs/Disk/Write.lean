import Fabula.Proofs.Disk.Lexical
import Fabula.Staging.Trash

/-!
# Writing a file at once

A file is written to a temporary file beside it, which is then renamed to its place, so that
whoever reads it finds the old text or the new one. What has to be shown is that nothing else
comes of this detour: when the writing succeeds, the file is there, and the disk is otherwise
what it was (`Disk.wrote_of_writeAtomic`).

## The temporary name

The temporary name must be one that no entry of the folder has, and none of the path that is
written either, which could be the path of a folder that is made later. The name that is used is
longer than all names on the disk and longer than the path. So it occurs in no address at which
there is anything (`Disk.get?_of_freshName_mem`), and it is not the name of the file
(`Disk.ne_freshName`). This is stronger than to be new in one folder, and it is what the later
modules use: an address of short names can never be that of a temporary file.

## The renaming

Renaming has many cases, and most of them are errors. They are sorted out once, from the entry
that is found at either path (`Disk.rename_eq`), and what a renaming does when it succeeds is
move a subtree and hide what was in its place (`Disk.movedView`). For a file over a file the
disk is cut first and then moved; since neither is a folder neither lies below the other, and
the cut takes away nothing but the file that is replaced (`Disk.movedView_replace`). On the disk
with the temporary file the move shows that file at its place and takes away the temporary one,
which was not there before. What remains is the old disk and the new text.

## When it succeeds

Writing succeeds if and only if there is a place for a file (`Disk.CanWrite`): the path ends in
a name with no slash behind it, the folder is there, and no folder is where the file should be.
The two directions are used apart. That it succeeds is needed where a commit is claimed to
(`Disk.exists_writeAtomic`), and that it fails otherwise where something is to be learned from a
commit that did (`Disk.canWrite_of_writeAtomic`).
-/

namespace Fabula

namespace Disk

variable {d d' : Disk}

/-! ## Fresh names -/

theorem le_foldr_max {l : List ℕ} {n b : ℕ} (h : n ∈ l) : n ≤ l.foldr max b := by
  induction l with
  | nil => exact absurd h List.not_mem_nil
  | cons m l ih =>
    rcases List.mem_cons.1 h with rfl | h
    · exact Nat.le_max_left _ _
    · exact (ih h).trans (Nat.le_max_right _ _)

theorem base_le_foldr_max (l : List ℕ) (b : ℕ) : b ≤ l.foldr max b := by
  induction l with
  | nil => exact le_rfl
  | cons m l ih => exact ih.trans (Nat.le_max_right _ _)

/-- No name on the disk is longer than the longest one. -/
theorem length_le_longestName {a : Address} {n : Text} (ha : d.get? a ≠ none) (hn : n ∈ a) :
    n.length ≤ d.longestName := by
  have hne : a ≠ [] := List.ne_nil_of_mem hn
  rw [ne_eq, get?_eq_none_iff hne, not_forall] at ha
  obtain ⟨x, hx⟩ := ha
  rw [Classical.not_imp, not_not] at hx
  obtain ⟨hx, rfl⟩ := hx
  refine le_foldr_max (List.mem_append_left _ (List.mem_map_of_mem (List.mem_append_right _ ?_)))
  exact List.mem_flatten.2 ⟨x.1, List.mem_map_of_mem hx, hn⟩

theorem longestName_lt_freshName (d : Disk) (reserved : ℕ) (stem : Text) :
    d.longestName < (d.freshName reserved stem).length := by
  rw [freshName, List.length_append, List.length_replicate]
  omega

theorem reserved_lt_freshName (d : Disk) (reserved : ℕ) (stem : Text) :
    reserved < (d.freshName reserved stem).length := by
  rw [freshName, List.length_append, List.length_replicate]
  omega

/-- **A fresh name occurs nowhere on the disk.** -/
theorem get?_of_freshName_mem {reserved : ℕ} {stem : Text} {a : Address}
    (h : d.freshName reserved stem ∈ a) : d.get? a = none := by
  by_contra ha
  have := length_le_longestName ha h
  have := longestName_lt_freshName d reserved stem
  omega

theorem isName_freshName (d : Disk) (reserved : ℕ) {stem : Text} (h : '/' ∉ stem) :
    IsName (d.freshName reserved stem) := by
  have hx : d.freshName reserved stem
      = (stem ++ List.replicate (max d.longestName reserved) 'x') ++ ['x'] := by
    rw [freshName, List.replicate_succ', List.append_assoc]
  have hlast : (d.freshName reserved stem).getLast? = some 'x' := by
    rw [hx, List.getLast?_concat]
  refine ⟨?_, ?_, ?_, ?_⟩
  · intro h0
    rw [h0] at hlast
    cases hlast
  · intro h0
    rw [h0] at hlast
    cases hlast
  · intro h0
    rw [h0] at hlast
    cases hlast
  · rw [freshName, List.mem_append, not_or]
    exact ⟨h, fun hm => absurd (List.eq_of_mem_replicate hm) (by decide)⟩

/-! ## The folder a path lies in -/

theorem text_absolute_ne_nil (d : Disk) (p : Path) : (d.absolute p).text ≠ [] := by
  rw [absolute, Path.join]
  split
  · rename_i h
    intro h0
    rw [show p.text = [] from h0] at h
    cases h
  · split <;> exact List.cons_ne_nil _ _

theorem startOf_absolute (h : ∀ n ∈ d.cwd, IsName n) (p : Path) :
    d.startOf (d.absolute p) = [] :=
  if_pos (isAbsolute_absolute h p)

/-- A path that ends in a name lies in the folder its parent spells. -/
theorem exists_parent_of_endsInName {p : Path} (hup : p.goesUp = false)
    (hend : p.endsInName = true) : ∃ q n, p.parent? = some q ∧ p.fileName? = some n ∧ IsName n ∧
      q.goesUp = false ∧ p.components = q.components ++ [.name n] := by
  obtain ⟨q, n, hq, hf, hn, hcomp, _⟩ := Path.exists_parent? hup
    (Path.trimIdle_ne_nil_of_names (Path.names_ne_nil_of_endsInName hup hend))
  exact ⟨q, n, hq, hf, hn, (Path.goesUp_concat hcomp).symm.trans hup, hcomp⟩

theorem addressOf_ne_nil {p : Path} (hup : p.goesUp = false) (hend : p.endsInName = true) :
    d.addressOf p ≠ [] := by
  obtain ⟨q, n, _, _, _, _, hcomp⟩ := exists_parent_of_endsInName hup hend
  rw [addressOf_concat hcomp]
  exact List.concat_ne_nil _ _

/-- **A folder to work in** is the folder that the path leads to, seen from the root. -/
theorem workFolder_eq_ok_iff_follow {q w : Path} {b : Address} : d.workFolder q = .ok (w, b) ↔
    w = d.absolute q ∧ d.follow (d.absolute q) = .ok b ∧ d.get? b = some .folder := by
  rw [workFolder]
  cases hf : d.follow (d.absolute q) with
  | error e =>
    constructor
    · intro h
      cases h
    · rintro ⟨_, h, _⟩
      cases h
  | ok a =>
    show (if d.isFolderAt a then pure (d.absolute q, a) else throw .notFolder : Except DiskError _)
      = _ ↔ _
    by_cases ha : d.get? a = some .folder
    · rw [if_pos (isFolderAt_iff.2 ha)]
      constructor
      · intro h
        cases h
        exact ⟨rfl, rfl, ha⟩
      · rintro ⟨rfl, h, _⟩
        rw [← Except.ok.inj h]
        rfl
    · rw [if_neg (mt isFolderAt_iff.1 ha)]
      constructor
      · intro h
        cases h
      · rintro ⟨_, h, hb⟩
        rw [← Except.ok.inj h] at hb
        exact absurd hb ha

/-- **A folder to work in** is one that is there. -/
theorem workFolder_eq_ok_iff (hd : d.IsPlain) {q : Path} (hup : q.goesUp = false) {w : Path}
    {a : Address} : d.workFolder q = .ok (w, a) ↔
      w = d.absolute q ∧ a = d.addressOf q ∧ d.get? (d.addressOf q) = some .folder := by
  have hadd := addressOf_absolute hd.cwd_names q
  rw [workFolder_eq_ok_iff_follow, follow_eq_ok_iff hd (goesUp_absolute hd.cwd_names hup), hadd]
  constructor
  · rintro ⟨rfl, ⟨_, rfl, _⟩, hq⟩
    exact ⟨rfl, rfl, hq⟩
  · rintro ⟨rfl, rfl, hq⟩
    refine ⟨rfl, ⟨text_absolute_ne_nil d q, rfl, by simp [hq], ?_, fun _ => hq⟩, hq⟩
    rw [startOf_absolute hd.cwd_names]
    rfl

/-! ## Renaming -/

/-- What renaming does once both entries are found. -/
theorem rename_eq {p q : Path} {a b : Address} (ha : d.entryAddress p = .ok a)
    (hb : d.entryAddress q = .ok b) (hp : p.endsInName = true) (hq : q.endsInName = true) :
    d.rename p q = match d.get? a with
      | none => throw .notFound
      | some .folder =>
        if a = b then pure d
        else
          match d.get? b with
          | none => pure (d.moveTree a b)
          | some .folder =>
            if d.list b = [] then pure ((d.cutTree b).moveTree a b) else throw .notEmpty
          | some _ => throw .notFolder
      | some _ =>
        if p.text.getLast? = some '/' || q.text.getLast? = some '/' then throw .notFolder
        else if d.get? b = some .folder then throw .isFolder
        else if a = b then pure d
        else pure ((d.cutTree b).moveTree a b) := by
  rw [rename, ha, hb]
  show (if !(p.endsInName && q.endsInName) then throw DiskError.busy else _ : Except DiskError _) = _
  rw [hp, hq]
  exact if_neg (by simp)

/-- A file is renamed between paths that do not end in a slash, and not to a
folder. -/
theorem rename_file {p q : Path} {a b : Address} {content : Content}
    (ha : d.entryAddress p = .ok a) (hb : d.entryAddress q = .ok b) (hp : p.endsInName = true)
    (hq : q.endsInName = true) (hfile : d.get? a = some (.file content)) :
    d.rename p q =
      if p.text.getLast? = some '/' || q.text.getLast? = some '/' then .error .notFolder
      else if d.get? b = some .folder then .error .isFolder
      else if a = b then .ok d
      else .ok ((d.cutTree b).moveTree a b) := by
  rw [rename_eq ha hb hp hq, hfile]
  rfl

/-- Both paths of a renaming name entries that can be found. -/
theorem of_rename_eq_ok {p q : Path} (h : d.rename p q = .ok d') :
    ∃ a b, d.entryAddress p = .ok a ∧ d.entryAddress q = .ok b ∧ p.endsInName = true ∧
      q.endsInName = true := by
  rw [rename] at h
  cases ha : d.entryAddress p with
  | error e =>
    rw [ha] at h
    cases h
  | ok a =>
    cases hb : d.entryAddress q with
    | error e =>
      rw [ha, hb] at h
      cases h
    | ok b =>
      rw [ha, hb] at h
      replace h : (if !(p.endsInName && q.endsInName) then throw DiskError.busy else _)
        = Except.ok d' := h
      split at h
      · cases h
      · rename_i hends
        rw [Bool.not_eq_true', Bool.not_eq_false, Bool.and_eq_true] at hends
        exact ⟨a, b, rfl, rfl, hends.1, hends.2⟩

/-- The view after what is at `a` was moved to `b`. -/
def movedView (d : Disk) (a b c : Address) : Option Entry :=
  if b <+: c then d.get? (a ++ c.drop b.length) else if a <+: c then none else d.get? c

theorem movedView_moveTree (hd : d.IsPlain) {a b : Address} (hne : a ≠ [])
    (hp : d.get? b.dropLast = some .folder) (hb : d.get? b = none) (hab : ¬a <+: b) :
    (d.moveTree a b).IsPlain ∧ ∀ c, (d.moveTree a b).get? c = d.movedView a b c := by
  have hbne : b ≠ [] := by
    rintro rfl
    cases hb
  exact ⟨hd.moveTree hne hbne hp hb hab,
    get?_moveTree d hne hbne fun c hc => hd.get?_none_below hc hb⟩

/-- **Moving a file over a file**: cutting what it replaces shows nowhere else. -/
theorem movedView_replace (hd : d.IsPlain) {a b : Address} {content : Content}
    (ha : d.get? a = some (.file content)) (hp : d.get? b.dropLast = some .folder)
    (hb : d.get? b ≠ some .folder) (hab : a ≠ b) :
    ((d.cutTree b).moveTree a b).IsPlain ∧
      ∀ c, ((d.cutTree b).moveTree a b).get? c = d.movedView a b c := by
  have hne : a ≠ [] := by
    rintro rfl
    cases ha
  have hbne : b ≠ [] := by
    rintro rfl
    exact hb rfl
  -- neither lies below the other, since neither is a folder
  have hba : ¬b <+: a := fun h => by
    rw [hd.get?_below h hab.symm hb] at ha
    cases ha
  have hab' : ¬a <+: b := by
    intro h
    obtain ⟨r, rfl⟩ := h
    have hr : r ≠ [] := fun h0 => hab (by rw [h0, List.append_nil])
    rw [List.dropLast_append_of_ne_nil hr] at hp
    have := hd.get?_below (List.prefix_append a r.dropLast)
    by_cases hr' : r.dropLast = []
    · rw [hr', List.append_nil, ha] at hp
      cases hp
    · rw [this (by simpa using hr') (by simp [ha])] at hp
      cases hp
  have hcut := get?_cutTree_of_ne_nil d hbne
  obtain ⟨hplain, hview⟩ := movedView_moveTree (hd.cutTree hbne) (b := b) hne
    (by
      rw [hcut, if_neg (not_prefix_dropLast hbne), hp])
    (by rw [hcut, if_pos (List.prefix_refl b)]) hab'
  refine ⟨hplain, fun c => ?_⟩
  rw [hview, movedView, movedView]
  by_cases hc : b <+: c
  · rw [if_pos hc, if_pos hc, hcut, if_neg]
    intro h
    rcases List.prefix_or_prefix_of_prefix h (List.prefix_append a _) with h | h
    · exact hba h
    · exact hab' h
  · rw [if_neg hc, if_neg hc, hcut, if_neg hc]

/-- Moving a file takes it from its address to the other one. -/
theorem movedView_file (hd : d.IsPlain) {a b : Address} {content : Content}
    (ha : d.get? a = some (.file content)) (hb : d.get? b ≠ some .folder) (c : Address) :
    d.movedView a b c
      = if c = b then some (.file content) else if c = a then none else d.get? c := by
  have hbelow : ∀ c, a <+: c → c ≠ a → d.get? c = none :=
    fun c hc hne => hd.get?_below hc hne.symm (by simp [ha])
  rw [movedView]
  by_cases hbc : b <+: c
  · rw [if_pos hbc]
    obtain ⟨r, rfl⟩ := hbc
    rw [List.drop_left]
    by_cases hr : r = []
    · subst hr
      rw [List.append_nil, List.append_nil, if_pos rfl, ha]
    · rw [hbelow _ (List.prefix_append a r) (by simpa using hr), if_neg (by simpa using hr),
        hd.get?_below (List.prefix_append b r) (by simpa using hr) hb, ite_self]
  · have hcb : c ≠ b := by
      rintro rfl
      exact hbc (List.prefix_refl _)
    rw [if_neg hbc, if_neg hcb]
    by_cases hac : a <+: c
    · rw [if_pos hac]
      by_cases hca : c = a
      · rw [if_pos hca]
      · rw [if_neg hca, hbelow c hac hca]
    · have hca : c ≠ a := by
        rintro rfl
        exact hac (List.prefix_refl _)
      rw [if_neg hac, if_neg hca]

/-- **Renaming moves a subtree**, a folder to where nothing is, a file to where no
folder is. -/
theorem exists_rename (hd : d.IsPlain) {p q : Path} (hp : p.goesUp = false)
    (hq : q.goesUp = false) (hpe : p.endsInName = true) (hqe : q.endsInName = true)
    (ha : d.get? (d.addressOf p) ≠ none) (hb : d.get? (d.addressOf q).dropLast = some .folder)
    (hab : ¬d.addressOf p <+: d.addressOf q)
    (hfolder : d.get? (d.addressOf p) = some .folder → d.get? (d.addressOf q) = none)
    (hfile : d.get? (d.addressOf p) ≠ some .folder → d.get? (d.addressOf q) ≠ some .folder ∧
      p.text.getLast? ≠ some '/' ∧ q.text.getLast? ≠ some '/') :
    ∃ d', d.rename p q = .ok d' ∧ d'.IsPlain ∧ d'.cwd = d.cwd ∧
      ∀ c, d'.get? c = d.movedView (d.addressOf p) (d.addressOf q) c := by
  obtain ⟨e, he⟩ := Option.ne_none_iff_exists'.1 ha
  have hne := addressOf_ne_nil (d := d) hp hpe
  have hentry : d.entryAddress p = .ok (d.addressOf p) :=
    (entryAddress_eq_ok_iff hd hp hpe).2 ⟨rfl, hd.parent _ e hne he⟩
  have hentry' : d.entryAddress q = .ok (d.addressOf q) :=
    (entryAddress_eq_ok_iff hd hq hqe).2 ⟨rfl, hb⟩
  have hne' : d.addressOf p ≠ d.addressOf q := fun h => hab (h ▸ List.prefix_refl _)
  cases e with
  | link t => exact absurd he (hd.no_link _ t)
  | folder =>
    obtain ⟨hplain, hview⟩ := movedView_moveTree hd hne hb (hfolder he) hab
    refine ⟨_, ?_, hplain, rfl, hview⟩
    rw [rename_eq hentry hentry' hpe hqe, he, hfolder he]
    exact if_neg hne'
  | file content =>
    obtain ⟨hto, hslash, hslash'⟩ := hfile (by simp [he])
    obtain ⟨hplain, hview⟩ := movedView_replace hd he hb hto hne'
    refine ⟨_, ?_, hplain, rfl, hview⟩
    rw [rename_file hentry hentry' hpe hqe he, if_neg (by simp [hslash, hslash']), if_neg hto,
      if_neg hne']

/-- **What renaming found**: an entry at the one path and a folder to hold it at
the other. -/
theorem of_rename (hd : d.IsPlain) {p q : Path} (hp : p.goesUp = false) (hq : q.goesUp = false)
    (h : d.rename p q = .ok d') : p.endsInName = true ∧ q.endsInName = true ∧
      d.get? (d.addressOf p) ≠ none ∧ d.get? (d.addressOf q).dropLast = some .folder ∧
      (d.get? (d.addressOf p) ≠ some .folder → d.get? (d.addressOf q) ≠ some .folder ∧
        p.text.getLast? ≠ some '/' ∧ q.text.getLast? ≠ some '/') := by
  obtain ⟨a, b, ha, hb, hpe, hqe⟩ := of_rename_eq_ok h
  obtain ⟨rfl, _⟩ := (entryAddress_eq_ok_iff hd hp hpe).1 ha
  obtain ⟨rfl, hparent⟩ := (entryAddress_eq_ok_iff hd hq hqe).1 hb
  refine ⟨hpe, hqe, ?_, hparent, ?_⟩
  · intro hnone
    rw [rename_eq ha hb hpe hqe, hnone] at h
    cases h
  · intro hfile
    cases he : d.get? (d.addressOf p) with
    | none =>
      rw [rename_eq ha hb hpe hqe, he] at h
      cases h
    | some e =>
      cases e with
      | link t => exact absurd he (hd.no_link _ t)
      | folder => exact absurd he hfile
      | file content =>
        rw [rename_file ha hb hpe hqe he] at h
        split at h
        · cases h
        · rename_i hslash
          rw [Bool.or_eq_true, decide_eq_true_iff, decide_eq_true_iff, not_or] at hslash
          split at h
          · cases h
          · exact ⟨‹_›, hslash⟩

/-! ## Writing at once -/

/-- **A place for a file**: the path ends in a name, its folder is there, and it is
no folder itself. -/
structure CanWrite (d : Disk) (p : Path) : Prop where
  endsInName : p.endsInName = true
  no_slash : p.text.getLast? ≠ some '/'
  parent : d.get? (d.addressOf p).dropLast = some .folder
  not_folder : d.get? (d.addressOf p) ≠ some .folder

/-- **A file was put at an address**, and nothing else changed. -/
structure Wrote (d d' : Disk) (a : Address) (t : Text) : Prop where
  plain : d'.IsPlain
  cwd_eq : d'.cwd = d.cwd
  get?_eq : ∀ c, d'.get? c = if c = a then some (.file (.text t)) else d.get? c

/-- A new entry of a fresh name in a folder leaves a plain tree. -/
theorem IsPlain.put_freshName (hd : d.IsPlain) {a : Address} {e : Entry} {reserved : ℕ}
    {stem : Text} (ha : d.get? a = some .folder) (hlink : ∀ t, e ≠ .link t) :
    (d.put (a ++ [d.freshName reserved stem]) e).IsPlain := by
  have hnone : d.get? (a ++ [d.freshName reserved stem]) = none :=
    get?_of_freshName_mem (List.mem_append_right _ List.mem_cons_self)
  refine hd.put (List.concat_ne_nil _ _) (by rwa [List.dropLast_concat]) (.inr ?_) hlink
  rw [hnone]
  simp

theorem goesUp_join {p : Path} (hup : p.goesUp = false) {n : Text} (hn : IsName n) :
    (p.join n).goesUp = false :=
  (Path.goesUp_concat (Path.components_join p hn)).trans hup

theorem endsInName_join {p : Path} (hup : p.goesUp = false) {n : Text} (hn : IsName n) :
    (p.join n).endsInName = true := by
  refine Path.endsInName_of_lastSegment (goesUp_join hup hn) ?_
  rw [Path.lastSegment_join p hn]
  exact Path.isIdle_eq_false_of_isName hn

/-- An entry of a folder seen from the root. -/
theorem addressOf_absolute_join (h : ∀ n ∈ d.cwd, IsName n) (q : Path) {n : Text}
    (hn : IsName n) : d.addressOf ((d.absolute q).join n) = d.addressOf q ++ [n] := by
  rw [addressOf_join _ hn, addressOf_absolute h]

/-- The name of an entry made up for a path is none the path is written with. -/
theorem ne_freshName {p q : Path} {n : Text} (h : p.components = q.components ++ [.name n])
    {reserved : ℕ} (hr : p.text.length ≤ reserved) (stem : Text) :
    n ≠ d.freshName reserved stem := by
  intro h0
  have hlen : n.length ≤ p.text.length := by
    refine Path.length_le_of_mem_names ?_
    rw [Path.names_concat h]
    simp
  have := reserved_lt_freshName d reserved stem
  rw [← h0] at this
  omega

theorem getLast?_join (p : Path) {n : Text} (hn : IsName n) :
    (p.join n).text.getLast? ≠ some '/' := by
  have hlast := Path.lastSegment_join p hn
  have hne : (p.join n).text ≠ [] := by
    intro h0
    have hcomp := Path.components_join p hn
    rw [Path.components_eq_nil_iff.2 h0] at hcomp
    exact List.concat_ne_nil _ _ hcomp.symm
  rw [ne_eq, ← Path.lastSegment_eq_nil_iff hne, hlast]
  exact hn.1

/-- **Writing at once succeeds** where there is a place for a file, and puts it
there. -/
theorem exists_writeAtomic (hd : d.IsPlain) {p : Path} (hup : p.goesUp = false)
    (h : d.CanWrite p) (t : Text) :
    ∃ d', d.writeAtomic p t = .ok d' ∧ d.Wrote d' (d.addressOf p) t := by
  obtain ⟨q, n, hq, hf, hn, hqup, hcomp⟩ := exists_parent_of_endsInName hup h.endsInName
  have ha : d.addressOf p = d.addressOf q ++ [n] := addressOf_concat hcomp
  have hfolder : d.get? (d.addressOf q) = some .folder := by
    have := h.parent
    rwa [ha, List.dropLast_concat] at this
  have hwork := (workFolder_eq_ok_iff hd hqup).2 ⟨rfl, rfl, hfolder⟩
  set name := d.freshName p.text.length ".tmp".toList with hname
  have hisName : IsName name := isName_freshName d _ (by decide)
  have hne : n ≠ name := ne_freshName hcomp le_rfl _
  set e := d.put (d.addressOf q ++ [name]) (.file (.text t)) with he
  have heplain : e.IsPlain := hd.put_freshName hfolder (by simp)
  have hview := get?_put_of_ne_nil d (List.concat_ne_nil name (d.addressOf q)) (.file (.text t))
  rw [← he] at hview
  set tmp := (d.absolute q).join name with htmp
  have htmpUp := goesUp_absolute hd.cwd_names hqup
  have htmpAt : e.addressOf tmp = d.addressOf q ++ [name] :=
    (addressOf_of_cwd_eq rfl tmp).trans (addressOf_absolute_join hd.cwd_names q hisName)
  have hpAt : e.addressOf p = d.addressOf p := addressOf_of_cwd_eq rfl p
  have hsrc : e.get? (d.addressOf q ++ [name]) = some (.file (.text t)) := by
    rw [hview, if_pos rfl]
  have hdst : d.addressOf p ≠ d.addressOf q ++ [name] := by
    rw [ha]
    simpa using hne
  have hslash := getLast?_join (d.absolute q) hisName
  have hrename := exists_rename heplain (goesUp_join htmpUp hisName) hup
    (endsInName_join htmpUp hisName) h.endsInName
  rw [← htmp, htmpAt, hpAt, hsrc] at hrename
  obtain ⟨d', hd', hplain, hcwd, hget⟩ := hrename (by simp)
    (by
      rw [hview, if_neg, h.parent]
      intro h0
      have := congrArg List.length h0
      rw [ha] at this
      simp at this)
    (by
      intro hpre
      rw [ha] at hpre
      have := hpre.eq_of_length (by simp)
      simp only [List.append_cancel_left_eq, List.cons.injEq, and_true] at this
      exact hne this.symm)
    (fun h0 => by simp at h0)
    (fun _ => ⟨by rw [hview, if_neg hdst]; exact h.not_folder, hslash, h.no_slash⟩)
  refine ⟨d', ?_, hplain, hcwd, fun c => ?_⟩
  · rw [writeAtomic]
    simp only [hq, hwork]
    rw [← hname, ← he, ← htmp, hd']
  · have hname' : d.get? (d.addressOf q ++ [name]) = none :=
      get?_of_freshName_mem (List.mem_append_right _ List.mem_cons_self)
    rw [hget, movedView_file heplain hsrc (by rw [hview, if_neg hdst]; exact h.not_folder), hview]
    split
    · rfl
    · split
      · rename_i hc
        rw [hc, hname']
      · rfl

/-- **Writing at once finds a place for a file**, or fails. -/
theorem canWrite_of_writeAtomic (hd : d.IsPlain) {p : Path} (hup : p.goesUp = false) {t : Text}
    (h : d.writeAtomic p t = .ok d') : d.CanWrite p := by
  rw [writeAtomic] at h
  cases hq : p.parent? with
  | none =>
    rw [hq] at h
    cases h
  | some q =>
    have hqup : q.goesUp = false := Path.goesUp_parent? hq hup
    simp only [hq] at h
    cases hwork : d.workFolder q with
    | error e =>
      rw [hwork] at h
      cases h
    | ok wa =>
      obtain ⟨w, a⟩ := wa
      obtain ⟨rfl, rfl, hfolder⟩ := (workFolder_eq_ok_iff hd hqup).1 hwork
      simp only [hwork] at h
      set name := d.freshName p.text.length ".tmp".toList with hname
      have hisName : IsName name := isName_freshName d _ (by decide)
      set e := d.put (d.addressOf q ++ [name]) (.file (.text t)) with he
      have heplain : e.IsPlain := hd.put_freshName hfolder (by simp)
      have hview :=
        get?_put_of_ne_nil d (List.concat_ne_nil name (d.addressOf q)) (.file (.text t))
      rw [← he] at hview
      cases hr : e.rename ((d.absolute q).join name) p with
      | error f =>
        rw [hr] at h
        cases h
      | ok d₁ =>
        have htmpUp := goesUp_join (goesUp_absolute hd.cwd_names hqup) hisName
        obtain ⟨_, hend, _, _, hfile⟩ := of_rename heplain htmpUp hup hr
        have hpAt : e.addressOf p = d.addressOf p := addressOf_of_cwd_eq rfl p
        have htmpAt : e.addressOf ((d.absolute q).join name) = d.addressOf q ++ [name] :=
          (addressOf_of_cwd_eq rfl _).trans (addressOf_absolute_join hd.cwd_names q hisName)
        obtain ⟨q', n, hq', _, _, _, hcomp⟩ := exists_parent_of_endsInName hup hend
        obtain rfl := Option.some.inj (hq'.symm.trans hq)
        have hpq : d.addressOf p = d.addressOf q' ++ [n] := addressOf_concat hcomp
        have hne : d.addressOf p ≠ d.addressOf q' ++ [name] := by
          rw [hpq]
          simpa using ne_freshName hcomp le_rfl _
        obtain ⟨hto, _, hslash⟩ := hfile (by rw [htmpAt, hview, if_pos rfl]; simp)
        refine ⟨hend, hslash, ?_, ?_⟩
        · rw [hpq, List.dropLast_concat]
          exact hfolder
        · rwa [hpAt, hview, if_neg hne] at hto

/-- **What writing at once leaves behind**: the file, and all else as it was. -/
theorem wrote_of_writeAtomic (hd : d.IsPlain) {p : Path} (hup : p.goesUp = false) {t : Text}
    (h : d.writeAtomic p t = .ok d') : d.Wrote d' (d.addressOf p) t := by
  obtain ⟨d₁, h₁, hw⟩ := exists_writeAtomic hd hup (canWrite_of_writeAtomic hd hup h) t
  obtain rfl := Except.ok.inj (h.symm.trans h₁)
  exact hw

end Disk

end Fabula
