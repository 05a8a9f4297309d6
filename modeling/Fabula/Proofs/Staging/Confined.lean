import Fabula.Proofs.Disk.Folders
import Fabula.Proofs.Disk.Outside
import Fabula.Proofs.Project.Guarded
import Fabula.Proofs.Staging.Rollback

/-!
# What a commit changes when there are links

A path that passed the check is followed again when it is committed, on a disk that has changed
since. Where there are links this is not the same as following it at first. A link may be moved
aside, a file may have taken its place, and `..` behind a link depends on where the link leads.
This module says when a commit still changes nothing outside of the data folder
(`Transaction.commit_confined`).

Two things are asked of the links. No link leads up: the folder above the target of a link is
not the folder the link is in, so what `..` is behind a link changes with what is moved. And no
staged path names a link that is outside, since the check looks at what the link leads to, and
the commit at the link. Without either of them something outside is changed
(`Layout.link_outside_changed`).

## Where a checked path leads

On the disk the check was made on, the path resolves at or below the data folder, and so does
the entry that is changed at it (`Disk.ChangesInside`). Let now anything be changed below the
data folder, as long as the disk outside of it stays the same (`Disk.SameOutside`). Following
the path goes through the same entries as before until it comes to one that was changed, and
that one is below the data folder. What stands there now is a file or a folder that was made,
and behind it the path only goes down. So it leads to a place at or below the data folder still,
if it leads anywhere.

That argument is about all later disks at once, and it is closed: a step of a commit which
changes something at such a path leaves a disk of which the same is true. Moving aside, writing
at once and making a folder are such steps, and for each of them it is shown only that what it
changes lies at a checked path or beside it. A commit is a sequence of these, and so is undoing
it.

## Names that are made up

Hidden folders and temporary files lie beside checked paths, under names that are longer than
anything on the disk or in the transaction. Such a name is met by no link, since the texts of
links are not so long, and by no path. That is why the length of the longest name is carried
through the whole argument.
-/

namespace Fabula

namespace Disk

variable {d D D' : Disk} {R a b c : Address} {reserved : ℕ} {p q s : Path} {n : Text}

/-- **A path at which only what is below a folder is changed**: it resolves at or below the folder,
and so does the entry that is changed at it, if the path above it is there. -/
structure ChangesInside (d : Disk) (R : Address) (reserved : ℕ) (p : Path) : Prop where
  goesUp : p.goesUp = false
  length_le : p.text.length ≤ reserved
  resolves : ∃ c, d.Resolves p [] c ∧ R <+: c
  affected : ∀ a, d.affected p = .ok a → Inside R a

/-- **What a commit needs to know of the disk it starts with.** -/
structure IsConfined (d : Disk) (R : Address) (reserved : ℕ) : Prop where
  tree : d.IsTree
  links : d.LinksGoDown
  reserved : d.longestName ≤ reserved
  /-- The data folder is there. -/
  root : d.get? R ≠ none

theorem areShort_way (hup : p.goesUp = false) (hp : p.text.length ≤ reserved) :
    AreShort reserved p.way :=
  ⟨fun _ hn => (Path.length_le_of_mem_way hn).trans hp, Path.up_notMem_way hup⟩

/-- The way of a path seen from the root is as short as that of the path. -/
theorem areShort_absolute (hd : d.IsTree) (hr : d.longestName ≤ reserved)
    (hq : AreShort reserved q.way) : AreShort reserved (d.absolute q).way := by
  cases habs : q.isAbsolute with
  | true => rwa [absolute_of_isAbsolute habs]
  | false =>
    rw [Path.way_absolute hd.cwd_names habs]
    refine AreShort.append ⟨fun n hn => ?_, fun hup => ?_⟩ hq
    · obtain ⟨m, hm, hmn⟩ := List.mem_map.1 hn
      rw [← PathStep.enter.inj hmn]
      exact isShort_cwd hr m hm
    · obtain ⟨m, _, hmup⟩ := List.mem_map.1 hup
      cases hmup

theorem absolute_of_cwd_eq (h : D.cwd = d.cwd) (p : Path) : D.absolute p = d.absolute p := by
  rw [absolute, absolute, h]

theorem startOf_of_cwd_eq (h : D.cwd = d.cwd) (p : Path) : D.startOf p = d.startOf p := by
  rw [startOf, startOf, h]

/-- What is written behind a path seen from the root starts from the root. -/
theorem startOf_absolute_join (hd : d.IsTree) {m : Text} (hm : IsName m) :
    D.startOf ((d.absolute q).join m) = [] := by
  rw [startOf, Path.isAbsolute_concat (Path.components_join _ hm),
    isAbsolute_absolute hd.cwd_names, if_pos rfl]

/-- What has a fresh name is what was put there. -/
theorem of_get?_put_freshName {r : ℕ} {stem : Text} {e e' : Entry}
    (hmem : D.freshName r stem ∈ c)
    (hc : (D.put (b ++ [D.freshName r stem]) e).get? c = some e') :
    c = b ++ [D.freshName r stem] ∧ e' = e := by
  rw [get?_put_of_ne_nil D (List.concat_ne_nil _ _)] at hc
  split at hc
  · exact ⟨‹_›, (Option.some.inj hc).symm⟩
  · rw [get?_of_freshName_mem hmem] at hc
    cases hc

/-- **In a folder of a name that only it has** an entry is found without asking where the folder
is. -/
theorem eq_of_held {k : Text} (hk : IsName k) (hn : IsName n)
    (hfolder : D.get? c = some .folder) (honly : ∀ b, D.get? (b ++ [k]) ≠ none → b ++ [k] = c)
    (ha : D.entryAddress (((d.absolute q).join k).join n) = .ok a) : a = c ++ [n] := by
  obtain ⟨_, hw⟩ := entryAddress_eq_ok_iff_walks.1 ha
  rw [Path.way_join_name _ hn, Path.way_join_name _ hk] at hw
  obtain ⟨b', _, hbw, hnw⟩ := hw.split (by simp)
  obtain ⟨rfl, hb'⟩ := hnw.of_enter_entry
  obtain ⟨b, _, _, hkw⟩ := hbw.split (by simp)
  rcases hkw.of_enter_existing (l := 0) rfl with ⟨t, ht⟩ | rfl
  · rw [honly b (by simp [ht]), hfolder] at ht
    cases ht
  · rw [honly b (by simp [hb'])]

/-! ## Where a checked path leads while the disk changes -/

namespace SameOutside

variable (h : d.SameOutside R reserved D) (hd : d.IsConfined R reserved)
  (hp : d.ChangesInside R reserved p)
include h hd hp

/-- **The folder of a checked path** is at or below the data folder. -/
theorem above_of_walks (hq : p.parent? = some q) (hn : p.fileName? = some n)
    (hw : D.Walks .existing maxLinks [] (d.absolute q).way b) (hb : D.get? b = some .folder) :
    R <+: b := by
  have hshort : AreShort reserved q.way :=
    (areShort_way hp.goesUp hp.length_le).of_sublist (Path.way_above hp.goesUp hq).subset
  by_cases hfolder : d.get? b = some .folder
  · rcases h.walks hd.tree hd.links hd.reserved (fun m hm => absurd hm List.not_mem_nil)
      (areShort_absolute hd.tree hd.reserved hshort) hw with hw | hin
    · rw [← startOf_absolute hd.tree.cwd_names q] at hw
      have hf := follow_of_walks (text_absolute_ne_nil d q) hfolder hw
      exact inside_concat.1 (hp.affected _ (affected_eq hq hn hf hfolder))
    · exact hin.1
  · refine (h.inside_of_ne (c := b) ?_).1
    rw [hb]
    exact Ne.symm hfolder

theorem above_of_workFolder {w : Path} (hq : p.parent? = some q) (hn : p.fileName? = some n)
    (hw : D.workFolder q = .ok (w, b)) : w = d.absolute q ∧ R <+: b := by
  obtain ⟨rfl, hf, hb⟩ := workFolder_eq_ok_iff_follow.1 hw
  have habs := absolute_of_cwd_eq h.cwd_eq q
  refine ⟨habs, h.above_of_walks hd hp hq hn ?_ hb⟩
  have hw := (walks_of_follow hf).2
  rwa [habs, startOf_of_cwd_eq h.cwd_eq, startOf_absolute hd.tree.cwd_names] at hw

/-- **The entry a checked path names** is below the data folder. -/
theorem inside_of_entryAddress (hend : p.endsInName = true) (ha : D.entryAddress p = .ok a) :
    Inside R a := by
  obtain ⟨ht, hw⟩ := entryAddress_eq_ok_iff_walks.1 ha
  rw [startOf_of_cwd_eq h.cwd_eq] at hw
  rcases h.walks hd.tree hd.links hd.reserved (isShort_startOf hd.reserved p)
    (areShort_way hp.goesUp hp.length_le) hw with hw | hin
  · have ha' := entryAddress_eq_ok_iff_walks.2 ⟨ht, hw⟩
    exact hp.affected a (affected_of_entryAddress hd.tree hp.goesUp hend ha')
  · exact hin

/-- An entry made up beside a checked path is below the data folder. -/
theorem inside_of_beside {m : Text} (hq : p.parent? = some q) (hn : p.fileName? = some n)
    (hm : IsName m) (ha : D.entryAddress ((d.absolute q).join m) = .ok a) :
    ∃ b, a = b ++ [m] ∧ Inside R a := by
  obtain ⟨_, hw⟩ := entryAddress_eq_ok_iff_walks.1 ha
  rw [startOf_absolute_join hd.tree hm, Path.way_join_name _ hm] at hw
  obtain ⟨b, links, hqw, hmw⟩ := hw.split (by simp)
  obtain ⟨rfl, hb⟩ := hmw.of_enter_entry
  exact ⟨b, rfl, inside_concat.2 (h.above_of_walks hd hp hq hn hqw hb)⟩

/-! ## One step of a commit -/

/-- **Moving aside** changes nothing outside, and the hidden folder is made beside the path. -/
theorem moveAside {m : Moved} (hm : D.moveAside reserved p = .ok (m, D')) :
    d.SameOutside R reserved D' ∧ ∃ q n k, p.parent? = some q ∧ p.fileName? = some n ∧
      IsName k ∧ m.holder = (d.absolute q).join k := by
  rw [Disk.moveAside] at hm
  split at hm
  · rename_i q n hq hn
    rw [Outcome.within_eq_ok] at hm
    split at hm
    · cases hm
    · rename_i w b hw
      dsimp only at hm
      obtain ⟨rfl, hRb⟩ := h.above_of_workFolder hd hp hq hn hw
      set k := D.freshName reserved ".worldsmith-removed-".toList with hk
      have hkname : IsName k := isName_freshName D _ (by decide)
      split at hm
      · rename_i D₁ hr
        obtain ⟨rfl, rfl⟩ := Prod.mk.inj (Except.ok.inj hm)
        refine ⟨?_, q, n, k, hq, hn, hkname, rfl⟩
        have hink : Inside R (b ++ [k]) := inside_concat.2 hRb
        have h₀ : d.SameOutside R reserved (D.put (b ++ [k]) .folder) := h.put hink (by simp)
        obtain ⟨a₁, a₂, ha₁, ha₂, hpe, _⟩ := of_rename_eq_ok hr
        have hnname : IsName n := by
          obtain ⟨_, n', _, hn', hn'name, _⟩ := exists_parent_of_endsInName hp.goesUp hpe
          rwa [← Option.some.inj (hn'.symm.trans hn)]
        obtain rfl := eq_of_held hkname hnname (c := b ++ [k])
          (by rw [get?_put_of_ne_nil D hink.ne_nil, if_pos rfl])
          (fun b' hb' => by
            obtain ⟨e, he⟩ := Option.ne_none_iff_exists'.1 hb'
            exact (of_get?_put_freshName (List.mem_append_right _ List.mem_cons_self) he).1) ha₂
        refine h₀.rename hr ha₁ ha₂ (h₀.inside_of_entryAddress hd hp hpe ha₁)
          (hink.of_above (List.prefix_append _ _)) (fun _ c hc => ?_) fun c t hc _ => ?_
        · -- the hidden folder is all there is of its name
          by_contra hne
          obtain ⟨e, he⟩ := Option.ne_none_iff_exists'.1 hne
          obtain ⟨rfl, _⟩ := of_get?_put_freshName (hc.subset (by simp [hk])) he
          have := hc.length_le
          simp at this
        · have hlen := hc k (by simp)
          have hlong : reserved < k.length := reserved_lt_freshName D reserved _
          omega
      · cases hm
  · cases hm

/-- **Writing at once** changes nothing outside. -/
theorem writeAtomic {t : Text} (hw : D.writeAtomic p t = .ok D') :
    d.SameOutside R reserved D' := by
  rw [Disk.writeAtomic] at hw
  split at hw
  · cases hw
  · rename_i q hq
    split at hw
    · cases hw
    · rename_i w b hwork
      dsimp only at hw
      split at hw
      · rename_i D₁ hr
        obtain rfl := Except.ok.inj hw
        set k := D.freshName p.text.length ".tmp".toList with hk
        have hkname : IsName k := isName_freshName D _ (by decide)
        obtain ⟨a₁, a₂, ha₁, ha₂, _, hpe⟩ := of_rename_eq_ok hr
        obtain ⟨q', n, hq', hn, _⟩ := exists_parent_of_endsInName hp.goesUp hpe
        obtain rfl := Option.some.inj (hq'.symm.trans hq)
        obtain ⟨rfl, hRb⟩ := h.above_of_workFolder hd hp hq hn hwork
        have hink : Inside R (b ++ [k]) := inside_concat.2 hRb
        have h₀ : d.SameOutside R reserved (D.put (b ++ [k]) (.file (.text t))) :=
          h.put hink (by simp)
        obtain ⟨b₁, rfl, hin₁⟩ := h₀.inside_of_beside hd hp hq hn hkname ha₁
        have honly : ∀ c e, (D.put (b ++ [k]) (.file (.text t))).get? (b₁ ++ [k] ++ c) = some e →
            e = .file (.text t) := fun c e he =>
          (of_get?_put_freshName (List.mem_append_left _ (List.mem_append_right _
            List.mem_cons_self)) he).2
        refine h₀.rename hr ha₁ ha₂ hin₁ (h₀.inside_of_entryAddress hd hp hpe ha₂)
          (fun hfolder => ?_) fun c t' _ ht => ?_
        · cases honly [] _ (by rwa [List.append_nil])
        · cases honly c _ ht
      · cases hw

/-- **A folder above a checked path** is made below the data folder. -/
theorem makeFolder (hs : s ∈ p.ancestors) (hne : s.text ≠ []) (hm : D.makeFolder s = .ok D') :
    d.SameOutside R reserved D' := by
  cases ha : D.entryAddress s with
  | error e =>
    rw [Disk.makeFolder, ha] at hm
    cases hm
  | ok a =>
    rw [makeFolder_eq ha] at hm
    split at hm
    · rename_i hfree
      rw [← Except.ok.inj hm]
      refine h.put ?_ (by simp)
      by_contra hin
      -- then the folder was missing before, where the path resolved
      obtain ⟨_, hw⟩ := entryAddress_eq_ok_iff_walks.1 ha
      obtain ⟨hway, _⟩ := Path.way_of_mem_ancestors hp.goesUp hs
      rw [startOf_of_cwd_eq h.cwd_eq] at hw
      have hshort := (areShort_way hp.goesUp hp.length_le).of_sublist hway.subset
      have hw' := (h.walks hd.tree hd.links hd.reserved (isShort_startOf hd.reserved s) hshort
        hw).resolve_right hin
      rw [h.get?_eq a hin] at hfree
      obtain ⟨c, hc, hRc⟩ := hp.resolves
      have hac := hc.above_missing hd.tree hp.goesUp hs hne
        (entryAddress_eq_ok_iff_walks.2 ⟨hne, hw'⟩) hfree
      rcases List.prefix_or_prefix_of_prefix hac hRc with haR | hRa
      · exact hd.root (hd.tree.get?_none_below haR hfree)
      · refine hin ⟨hRa, ?_⟩
        rintro rfl
        exact hd.root hfree
    · cases hm

/-- **Making the folders of a checked path** changes nothing outside, however it ends. -/
theorem makeFolders_go {above : List Path} (hsub : above ⊆ p.ancestors) :
    d.SameOutside R reserved (makeFolders.go D above).2 := by
  induction above with
  | nil => exact h
  | cons s above ih =>
    rw [List.cons_subset] at hsub
    have hmake : ∀ {D₁ : Disk}, d.SameOutside R reserved D₁ → s.text ≠ [] →
        d.SameOutside R reserved (makeFolders.make D₁ s).2 := by
      intro D₁ h₁ hne
      rw [makeFolders.make]
      split
      · rename_i D₂ hm
        exact h₁.makeFolder hd hp hsub.1 hne hm
      · split <;> exact h₁
    rw [makeFolders.go]
    split
    · exact h
    · rename_i hne
      split
      · rename_i D₁ hm
        exact h.makeFolder hd hp hsub.1 hne hm
      · have habove := ih hsub.2
        split
        · rename_i D₁ hgo
          rw [hgo] at habove
          exact hmake habove hne
        · exact habove
      · split <;> exact h

end SameOutside

/-! ## What is moved aside and dropped -/

/-- **A hidden folder beside a checked path.** -/
def IsBeside (d : Disk) (R : Address) (reserved : ℕ) (m : Moved) : Prop :=
  ∃ p q n k, d.ChangesInside R reserved p ∧ p.parent? = some q ∧ p.fileName? = some n ∧
    IsName k ∧ m.holder = (d.absolute q).join k

theorem SameOutside.moveAllAside_go (h : d.SameOutside R reserved D)
    (hd : d.IsConfined R reserved) {ps : List Path} (hps : ∀ p ∈ ps, d.ChangesInside R reserved p)
    {moved ms : List Moved} (hmoved : ∀ m ∈ moved, d.IsBeside R reserved m)
    (hgo : moveAllAside.go reserved D moved ps = (.ok ms, D')) :
    d.SameOutside R reserved D' ∧ ∀ m ∈ ms, d.IsBeside R reserved m := by
  induction ps generalizing D moved with
  | nil =>
    obtain ⟨hms, rfl⟩ := Prod.mk.inj hgo
    rw [← Except.ok.inj hms]
    exact ⟨h, hmoved⟩
  | cons p ps ih =>
    rw [moveAllAside.go] at hgo
    have hp := hps p List.mem_cons_self
    split at hgo
    · rename_i m D₁ hm
      obtain ⟨h₁, q, n, k, hq, hn, hk, hholder⟩ := h.moveAside hd hp hm
      refine ih h₁ (fun p' hp' => hps p' (List.mem_cons_of_mem _ hp')) ?_ hgo
      intro m' hm'
      rcases List.mem_append.1 hm' with hm' | hm'
      · exact hmoved m' hm'
      · obtain rfl := List.mem_singleton.1 hm'
        exact ⟨p, q, n, k, hp, hq, hn, hk, hholder⟩
    · cases (Prod.mk.inj hgo).1

/-- **Dropping the hidden folders** changes nothing outside, also where one is not found again. -/
theorem SameOutside.purge (h : d.SameOutside R reserved D) (hd : d.IsConfined R reserved)
    {ms : List Moved} (hms : ∀ m ∈ ms, d.IsBeside R reserved m) :
    d.SameOutside R reserved (D.purge ms) := by
  induction ms generalizing D with
  | nil => exact h
  | cons m ms ih =>
    refine ih ?_ fun m' hm' => hms m' (List.mem_cons_of_mem _ hm')
    obtain ⟨p, q, n, k, hp, hq, hn, hk, hholder⟩ := hms m List.mem_cons_self
    rw [dropHolder, removeTree, hholder]
    cases ha : D.entryAddress ((d.absolute q).join k) with
    | error e => exact h
    | ok a =>
      obtain ⟨_, _, hin⟩ := h.inside_of_beside hd hp hq hn hk ha
      dsimp only [bind, Except.bind]
      split
      · rename_i D₁ hcut
        split at hcut
        · cases hcut
        · rw [← Except.ok.inj hcut]
          exact h.cutTree hin
      · exact h

end Disk

namespace Progress

open Disk (SameOutside IsConfined)

variable {d : Disk} {R : Address} {reserved : ℕ} {s s' : Progress}

theorem sameOutside_writeAll (hd : d.IsConfined R reserved) {files : PathMap Staged}
    (hfiles : ∀ x ∈ files, d.ChangesInside R reserved x.1) (h : d.SameOutside R reserved s.disk)
    (hw : s.writeAll files = (.ok (), s')) : d.SameOutside R reserved s'.disk := by
  induction files generalizing s with
  | nil =>
    obtain ⟨_, rfl⟩ := Prod.mk.inj hw
    exact h
  | cons x files ih =>
    obtain ⟨p, file⟩ := x
    rw [writeAll] at hw
    split at hw
    · rename_i D hwrite
      exact ih (fun y hy => hfiles y (List.mem_cons_of_mem _ hy))
        (h.writeAtomic hd (hfiles (p, file) List.mem_cons_self) hwrite) hw
    · cases (Prod.mk.inj hw).1

theorem sameOutside_makeParent (hd : d.IsConfined R reserved) {p : Path}
    (hp : d.ChangesInside R reserved p) (h : d.SameOutside R reserved s.disk) :
    d.SameOutside R reserved (s.makeParent p).2.disk := by
  rw [makeParent]
  split
  · exact h
  · rename_i q hq
    have hsub : q.ancestors ⊆ p.ancestors := by
      rw [Path.ancestors_eq p, hq]
      exact List.subset_cons_self _ _
    have hgo := h.makeFolders_go hd hp hsub
    rw [← Disk.makeFolders] at hgo
    split <;> simpa [*] using hgo

theorem sameOutside_createAll (hd : d.IsConfined R reserved) {files : PathMap Text}
    (hfiles : ∀ x ∈ files, d.ChangesInside R reserved x.1) (h : d.SameOutside R reserved s.disk)
    (hw : s.createAll files = (.ok (), s')) : d.SameOutside R reserved s'.disk := by
  induction files generalizing s with
  | nil =>
    obtain ⟨_, rfl⟩ := Prod.mk.inj hw
    exact h
  | cons x files ih =>
    obtain ⟨p, t⟩ := x
    have hp := hfiles (p, t) List.mem_cons_self
    have hparent := sameOutside_makeParent hd hp h
    rw [createAll] at hw
    split at hw
    · cases (Prod.mk.inj hw).1
    · rename_i s₁ hmake
      rw [hmake] at hparent
      split at hw
      · rename_i D hwrite
        exact ih (fun y hy => hfiles y (List.mem_cons_of_mem _ hy))
          (hparent.writeAtomic hd hp hwrite) hw
      · cases (Prod.mk.inj hw).1

end Progress

namespace Transaction

variable {d d' : Disk} {tx : Transaction} {R : Address}

/-- **A commit of checked paths** changes nothing outside the data folder. -/
theorem commit_confined (hd : d.IsConfined R (tx.reserved d))
    (hpaths : ∀ p ∈ tx.paths, d.ChangesInside R (tx.reserved d) p) {name : Text} {r : Report}
    (hc : tx.commit name d = (.ok r, d')) : d.SameOutside R (tx.reserved d) d' := by
  obtain ⟨ms, b, D, hm, hw, rfl⟩ := of_commit_eq_ok hc
  obtain ⟨s, s', hall, hcreate, rfl⟩ := of_writeOut_eq_ok hw
  have hremovals : ∀ p ∈ tx.removals.filter fun p => !Disk.isCovered tx.removals p,
      d.ChangesInside R (tx.reserved d) p := fun p hp =>
    hpaths p (Sound.mem_paths_of_removals (List.mem_of_mem_filter hp))
  obtain ⟨hb, hms⟩ := (Disk.SameOutside.refl R _ d).moveAllAside_go hd hremovals
    (fun m hm => absurd hm List.not_mem_nil) hm
  have hs := Progress.sameOutside_writeAll hd (fun x hx =>
    hpaths x.1 (Sound.mem_paths_of_staged (List.mem_of_mem_filter hx))) hb hall
  have hs' := Progress.sameOutside_createAll hd (fun x hx =>
    hpaths x.1 (Sound.mem_paths_of_created hx)) hs hcreate
  exact hs'.purge hd hms

/-- **A checked path changes something inside only**, unless the entry that is changed at it is the
data folder or a link outside. -/
theorem changesInside_of_check (hd : d.IsTree) (hR : d.follow tx.layout.dataDir = .ok R) {p : Path}
    (hmem : p ∈ tx.paths) (hcheck : tx.check d p = .ok ())
    (hentry : ∀ a, d.affected p = .ok a → a ≠ R ∧ ∀ t, d.get? a = some (.link t) → R <+: a) :
    d.ChangesInside R (tx.reserved d) p := by
  have hwithin : d.ensureWithin p tx.layout.dataDir = .ok () := by
    rw [check] at hcheck
    split at hcheck
    · exact hcheck
    · exact absurd hcheck Outcome.fail_ne_ok
  obtain ⟨hup, R', c, hR', hc, hpre⟩ := Disk.exists_resolve_of_ensureWithin hwithin
  obtain rfl := Except.ok.inj (hR.symm.trans hR')
  refine ⟨hup, length_le_reserved hmem, ⟨c, Disk.resolves_of_resolve hc, hpre⟩, fun a ha => ?_⟩
  obtain ⟨hne, hlink⟩ := hentry a ha
  obtain ⟨R', hR', hin⟩ := Disk.affected_of_ensureWithin hd hwithin ha
  obtain rfl := Except.ok.inj (hR.symm.trans hR')
  rcases hin with hin | ⟨t, _, ht, _, _⟩
  · exact ⟨hin, hne⟩
  · exact ⟨hlink t ht, hne⟩

end Transaction

namespace Layout

open Disk (Inside)

/-- **The check is sound but for a link that is the last name of a path.** On any tree, whatever
links it has: an entry that is changed at a path which passes the check lies in the folder, or is a
link that leads into it. And applying a plan changes nothing but what is below the data folder,
if no link leads up and the entry that is changed at a staged path is neither the data folder nor
a link outside. -/
theorem runPlan_confined (l : Layout) {d : Disk} (hd : d.IsTree) :
    (∀ p root a, d.ensureWithin p root = .ok () → d.affected p = .ok a →
      ∃ R, d.follow root = .ok R ∧
        (R <+: a ∨ ∃ t c, d.get? a = some (.link t) ∧ d.follow p = .ok c ∧ R <+: c)) ∧
    ∀ (plan : LivePlan) (name : Text) (targets : List Path) (report : Report) (d' : Disk)
      (tx : Transaction) (R : Address), plan.MakesCalls →
      l.runPlan .apply name targets plan d = (.ok report, d') →
      (plan d { layout := l, targets }).1 = .ok tx → d.follow l.dataDir = .ok R →
      d.LinksGoDown →
      (∀ p ∈ tx.paths, ∀ a, d.affected p = .ok a →
        a ≠ R ∧ ∀ t, d.get? a = some (.link t) → R <+: a) →
      ∀ c, ¬Inside R c → d'.get? c = d.get? c := by
  refine ⟨fun p root a h ha => Disk.affected_of_ensureWithin hd h ha, ?_⟩
  intro plan name targets report d' tx R hplan h htx hR hlinks hentries
  rcases hplan.runPlan_cases h with ⟨⟨f, hf⟩, _⟩ | ⟨cs, tx', _, htx', hcs, hcommit⟩
  · cases hf
  · obtain rfl := Except.ok.inj (htx'.symm.trans htx)
    have hsound := (Transaction.Sound.init d l targets).calls hcs
    have hR' : d.follow tx'.layout.dataDir = .ok R := by rwa [hcs.layout_eq.1]
    exact (Transaction.commit_confined
      ⟨hd, hlinks, Transaction.longestName_le_reserved tx' d, Disk.ne_none_of_follow hd hR⟩
      (fun p hp => Transaction.changesInside_of_check hd hR' hp (hsound.checked p hp)
        (hentries p hp)) hcommit).get?_eq

/-- A tree whose data folder has a link that leads out of it, from where one leads back in, and
one outside that leads there by way of that one. -/
def linkedTree : Disk :=
  ⟨[], [(["w".toList], .folder), (["w".toList, "a".toList], .file (.text "a".toList)),
    (["w".toList, "o".toList], .link ⟨"/o".toList⟩), (["w".toList, "s".toList], .folder),
    (["w".toList, "s".toList, "b".toList], .file (.text "b".toList)), (["o".toList], .folder),
    (["o".toList, "c".toList], .file (.text "c".toList)),
    (["o".toList, "i".toList], .link ⟨"/w/s".toList⟩), (["l".toList], .link ⟨"o/i".toList⟩)]⟩

/-- A plan that creates two files, one of them in a new folder, and removes a third, all by way
of the links. -/
def planLinked : LivePlan :=
  Move.plan ([.create ⟨"w/o/i/y".toList⟩ [], .create ⟨"l/n/x".toList⟩ [],
    .deleteFile ⟨"w/o/i/b".toList⟩].map Move.call)

theorem runPlan_confined_linked :
    (∃ R, linkedTree.follow ⟨"/w".toList⟩ = .ok R ∧
      R <+: ["w".toList, "s".toList, "b".toList]) ∧
    ∃ report d', flatLayout.runPlan .apply [] [⟨"w".toList⟩, ⟨"l".toList⟩] planLinked linkedTree
        = (.ok report, d') ∧ d'.read ⟨"w/s/y".toList⟩ = .ok [] ∧
      d'.read ⟨"w/s/n/x".toList⟩ = .ok [] ∧
      ∀ c, ¬Inside ["w".toList] c → d'.get? c = linkedTree.get? c := by
  have hd : linkedTree.IsTree := Disk.isTree_of_entries (by decide) (by decide) (by decide)
  have hconfined := runPlan_confined flatLayout hd
  constructor
  · obtain ⟨R, hR, h | ⟨t, c, ht, _⟩⟩ := hconfined.1 ⟨"w/o/i/b".toList⟩ ⟨"/w".toList⟩
      ["w".toList, "s".toList, "b".toList] (by decide +kernel) (by decide +kernel)
    · exact ⟨R, hR, h⟩
    · rw [show linkedTree.get? ["w".toList, "s".toList, "b".toList]
        = some (.file (.text "b".toList)) by decide] at ht
      cases ht
  · let tx : Transaction :=
      { layout := flatLayout
        targets := [⟨"w".toList⟩, ⟨"l".toList⟩]
        created := [(⟨"l/n/x".toList⟩, []), (⟨"w/o/i/y".toList⟩, [])]
        removals := [⟨"w/o/i/b".toList⟩] }
    obtain ⟨⟨r, d'⟩, hrun, hok, hy, hx⟩ : ∃ ran : Outcome Report × Disk,
        flatLayout.runPlan .apply [] [⟨"w".toList⟩, ⟨"l".toList⟩] planLinked linkedTree = ran ∧
          ran.1.isOk = true ∧ ran.2.read ⟨"w/s/y".toList⟩ = .ok [] ∧
          ran.2.read ⟨"w/s/n/x".toList⟩ = .ok [] :=
      ⟨_, rfl, by decide +kernel⟩
    obtain ⟨report, rfl⟩ := Outcome.exists_of_isOk hok
    refine ⟨report, d', hrun, hy, hx, ?_⟩
    refine hconfined.2 _ _ _ _ _ tx _ (Move.makesCalls _) hrun (by decide +kernel)
      (by decide +kernel) (Disk.linksGoDown_of_entries (by decide)) ?_
    have hentries : ∀ p ∈ tx.paths, (linkedTree.affected p).toOption.all
        (fun a => ["w".toList].isPrefixOf a && a != ["w".toList]) = true := by
      decide +kernel
    intro p hp a ha
    have h := hentries p hp
    rw [ha] at h
    obtain ⟨hpre, hne⟩ := Bool.and_eq_true_iff.1 h
    exact ⟨bne_iff_ne.1 hne, fun _ _ => List.isPrefixOf_iff_prefix.1 hpre⟩

/-- A file in the data folder, and a link outside that leads to it. -/
def linkedFile : Disk :=
  ⟨[], [(["w".toList], .folder), (["w".toList, "a".toList], .file (.text [])),
    (["l".toList], .link ⟨"w/a".toList⟩)]⟩

/-- A link that leads up from behind another link, to a folder beside that one's target. -/
def linkedUp : Disk :=
  ⟨[], [(["w".toList], .folder), (["w".toList, "s".toList], .folder),
    (["w".toList, "s".toList, "t".toList], .folder), (["w".toList, "x".toList], .folder),
    (["w".toList, "a".toList], .link ⟨"s/t".toList⟩),
    (["w".toList, "l".toList], .link ⟨"a/../../x".toList⟩), (["x".toList], .folder)]⟩

/-- A plan that puts a folder in the place of the one link and creates a file by way of the
other. -/
def planUp : LivePlan :=
  Move.plan ([.deleteFolder ⟨"w/a".toList⟩, .create ⟨"w/a/f".toList⟩ [],
    .create ⟨"w/l/g".toList⟩ []].map Move.call)

/-- What is left of a scaffold that succeeds, seen at one address. -/
theorem exists_of_ran {ran : Outcome Report × Disk} {c : Address} {e : Option Entry}
    (h : ran.1.isOk = true ∧ ran.2.get? c = e) :
    ∃ report d', ran = (.ok report, d') ∧ d'.get? c = e := by
  obtain ⟨report, hreport⟩ := Outcome.exists_of_isOk h.1
  exact ⟨report, ran.2, Prod.ext hreport rfl, h.2⟩

/-- **What is changed outside.** A link outside that leads into the data folder passes the check by
what it leads to, and what is written at it, or removed, is the link. And behind a link that leads
up by way of another one, a file is created outside once a folder has the other one's place. -/
theorem link_outside_changed :
    (linkedFile.ensureWithin ⟨"l".toList⟩ ⟨"w".toList⟩ = .ok () ∧
      linkedFile.follow ⟨"w".toList⟩ = .ok ["w".toList] ∧
      linkedFile.affected ⟨"l".toList⟩ = .ok ["l".toList]) ∧
    (∃ report d', flatLayout.runPlan .apply [] [⟨"l".toList⟩]
        (Move.plan [.call (.update ⟨"l".toList⟩ fun _ => .ok "x".toList)]) linkedFile
      = (.ok report, d') ∧ d'.get? ["l".toList] = some (.file (.text "x".toList))) ∧
    (∃ report d', flatLayout.runPlan .apply [] [⟨"l".toList⟩]
        (Move.plan [.call (.deleteFile ⟨"l".toList⟩)]) linkedFile
      = (.ok report, d') ∧ d'.get? ["l".toList] = none) ∧
    ∃ report d', flatLayout.runPlan .apply [] [⟨"w".toList⟩] planUp linkedUp
      = (.ok report, d') ∧ d'.get? ["x".toList, "g".toList] = some (.file (.text [])) :=
  ⟨by decide +kernel, exists_of_ran (by decide +kernel), exists_of_ran (by decide +kernel),
    exists_of_ran (by decide +kernel)⟩

end Layout

end Fabula
