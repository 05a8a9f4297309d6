import Fabula.Proofs.Disk.Folders
import Fabula.Proofs.Disk.Links

/-!
# What is made where there are links

Making folders and writing a file are said here for every tree, links among its entries. The
statements are weaker than those for plain trees. Where a path leads is not known from its text,
so it is not said where a folder is made, but only that it is made in a folder, where nothing
was, and that the path leads to it afterwards. For the settings of the program, which lie
wherever the user's folders are, that is all that is needed.

## What a walk survives

The crucial question is whether a path leads to what was made for it. The walk that looked for
the entry ended where nothing is, or at a file, and the walk that comes back later is made on
another disk. But it takes the same steps. On its way it passes folders and links, what was put
was put where neither a folder nor a link was, and so every step of the old walk can be taken on
the new disk (`Disk.Walks.put`). Only the last one is different: a name that was missing is
there, and the walk may now ask that it exists. For the same reason all other paths lead where
they did (`Disk.follow_put`).

## Folders

Folders that are made one after the other are described by a relation with one constructor for
each of them (`Disk.Grown`). It says that the folder was made in a folder, where nothing was,
and for which path. From this it follows by induction that nothing that was there has changed,
and that what is new is a folder to which one of the paths leads (`Disk.Grown.get?_eq`). It
holds of a run that fails as well (`Disk.grown_makeFolders_go`): with links, folders may have
been made before it turns out that the last one cannot be, and they stay.

## Files

A file is written where its path leads, unless that is a folder, and links are followed to where
they lead, also if nothing is there. Afterwards the path leads to the file
(`Disk.of_write_eq_ok`), by the same argument as for folders, and so what is written is what is
read (`Disk.read_of_write`). A file that can be read can be written, since reading has found the
place (`Disk.exists_write_of_read`).
-/

namespace Fabula

namespace Disk

variable {d d' : Disk} {ending : Ending} {links : ℕ} {a b c : Address} {s : List PathStep}
  {p : Path}

/-- The view where something is put in the place of no folder, so not of the root. -/
theorem get?_put_of_ne_folder (hb : d.get? b ≠ some .folder) (e : Entry) (c : Address) :
    (d.put b e).get? c = if c = b then some e else d.get? c := by
  refine get?_put_of_ne_nil d ?_ e c
  rintro rfl
  exact hb rfl

namespace Walks

/-! ## Walks to what is missing, and to a file -/

/-- **A walk still ends where it did** when something that is no link is put where neither a folder
nor a link is: also when it is put at the end of the walk, where nothing had to be. -/
theorem put {e : Entry} (he : ∀ t, e ≠ .link t) (hb : d.get? b ≠ some .folder)
    (hlink : ∀ t, d.get? b ≠ some (.link t)) (h : d.Walks ending links a s c)
    (hc : ending = .existing ∨ c = b) : (d.put b e).Walks .existing links a s c := by
  have hput : (d.put b e).get? b = some e := by
    rw [get?_put_of_ne_folder hb, if_pos rfl]
  -- the folders and the links on the way are elsewhere
  have hkeep : ∀ x, d.get? x ≠ d.get? b → (d.put b e).get? x = d.get? x := by
    intro x hx
    rw [get?_put_of_ne_folder hb, if_neg]
    rintro rfl
    exact hx rfl
  have hfolder : ∀ x, d.get? x = some .folder → (d.put b e).get? x = some .folder := by
    intro x hx
    rw [hkeep x (by rw [hx]; exact hb.symm), hx]
  induction h with
  | done => exact .done
  | stay ha _ ih => exact .stay (hfolder _ ha) (ih hc)
  | up ha _ ih => exact .up (hfolder _ ha) (ih hc)
  | missing ha _ hending =>
    obtain rfl := hc.resolve_left hending
    exact .enter (hfolder _ ha) hput he .done
  | @enter links a c n x s ha hn hx _ ih =>
    by_cases hend : a ++ [n] = b
    · exact .enter (hfolder _ ha) (hend ▸ hput) he (ih hc)
    · refine .enter (hfolder _ ha) ?_ hx (ih hc)
      rw [get?_put_of_ne_folder hb, if_neg hend, hn]
  | entry ha _ hending =>
    obtain rfl := hc.resolve_left (by rw [hending]; decide)
    exact .enter (hfolder _ ha) hput he .done
  | @link _ _ _ _ t _ ha hn _ ht _ ih =>
    have hn' : (d.put b e).get? _ = some (.link t) :=
      (hkeep _ (by rw [hn]; exact (hlink t).symm)).trans hn
    exact .link (hfolder _ ha) hn' (fun h0 => by cases h0.2) ht (ih hc)

/-- **What is at the end of a walk**: nothing, in a folder, or something, which is a link only when
the entry itself was looked for. -/
theorem end_cases (hd : d.IsTree) (h : d.Walks ending links a s b)
    (ha : ∃ e, d.get? a = some e ∧ ∀ t, e ≠ .link t) :
    (d.get? b = none ∧ d.get? b.dropLast = some .folder) ∨
      ∃ e, d.get? b = some e ∧ (ending = .entry ∨ ∀ t, e ≠ .link t) := by
  have hfolder : ∀ c, d.get? c = some .folder → ∃ e, d.get? c = some e ∧ ∀ t, e ≠ .link t :=
    fun c hc => ⟨_, hc, fun t h0 => by cases h0⟩
  induction h with
  | done =>
    obtain ⟨e, he, hlink⟩ := ha
    exact .inr ⟨e, he, .inr hlink⟩
  | stay _ _ ih => exact ih ha
  | up hf _ ih => exact ih (hfolder _ (hd.folder_of_folder (List.dropLast_prefix _) hf))
  | missing hf hn _ =>
    refine .inl ⟨hn, ?_⟩
    rwa [List.dropLast_concat]
  | enter _ hn he _ ih => exact ih ⟨_, hn, he⟩
  | entry _ hn he => exact .inr ⟨_, hn, .inl he⟩
  | link hf _ _ _ _ ih =>
    refine ih (hfolder _ ?_)
    split
    · exact get?_root d
    · exact hf

/-- A walk to something that exists is a walk to the place of a file, too. -/
theorem toPlace (h : d.Walks .existing links a s b) : d.Walks .place links a s b := by
  induction h with
  | done => exact .done
  | stay ha _ ih => exact .stay ha ih
  | up ha _ ih => exact .up ha ih
  | missing _ _ he => exact absurd rfl he
  | enter ha hn he _ ih => exact .enter ha hn he ih
  | entry _ _ he => cases he
  | link ha hn _ ht _ ih => exact .link ha hn (fun h0 => by cases h0.2) ht ih

/-- **Where something exists, the walk to the entry succeeds.** -/
theorem exists_entry (h : d.Walks .existing links a s b) : ∃ c, d.Walks .entry links a s c := by
  induction h with
  | done => exact ⟨_, .done⟩
  | stay ha _ ih =>
    obtain ⟨c, hc⟩ := ih
    exact ⟨c, .stay ha hc⟩
  | up ha _ ih =>
    obtain ⟨c, hc⟩ := ih
    exact ⟨c, .up ha hc⟩
  | missing _ _ he => exact absurd rfl he
  | enter ha hn he _ ih =>
    obtain ⟨c, hc⟩ := ih
    exact ⟨c, .enter ha hn he hc⟩
  | entry _ _ he => cases he
  | @link _ _ _ _ _ s ha hn _ ht _ ih =>
    by_cases hs : s = []
    · subst hs
      exact ⟨_, .entry ha hn rfl⟩
    · obtain ⟨c, hc⟩ := ih
      exact ⟨c, .link ha hn (fun h0 => hs h0.1) ht hc⟩

end Walks

/-- A path that leads to an entry starts from a folder. -/
theorem startOf_folder (hp : p.text ≠ []) (h : d.Walks ending links (d.startOf p) p.way b) :
    d.get? (d.startOf p) = some .folder := by
  by_cases hway : p.way = []
  · rw [startOf, if_pos, get?_root]
    exact Path.isAbsolute_of_entrySteps_eq_nil hp (by rw [Path.entrySteps_eq_way hp, hway])
  · exact h.folder hway

/-- What was put where neither a folder nor a link was is on no other path. -/
theorem follow_put {e : Entry} (he : ∀ t, e ≠ .link t) (hb : d.get? b ≠ some .folder)
    (hlink : ∀ t, d.get? b ≠ some (.link t)) (h : d.follow p = .ok c) :
    (d.put b e).follow p = .ok c := by
  obtain ⟨hp, hw⟩ := follow_eq_ok_iff_walks.1 h
  exact follow_eq_ok_iff_walks.2 ⟨hp, hw.put he hb hlink (.inl rfl)⟩

/-! ## Folders -/

/-- **A folder is made** in a folder, where nothing is, and is where its path leads. -/
theorem exists_put_of_makeFolder (hd : d.IsTree) (h : d.makeFolder p = .ok d') :
    ∃ a, d.get? a = none ∧ d.get? a.dropLast = some .folder ∧ d' = d.put a .folder ∧
      d'.follow p = .ok a := by
  cases ha : d.entryAddress p with
  | error e =>
    rw [makeFolder, ha] at h
    cases h
  | ok a =>
    rw [makeFolder_eq ha] at h
    split at h
    · rename_i hfree
      obtain rfl := Except.ok.inj h
      obtain ⟨hp, hw⟩ := entryAddress_eq_ok_iff_walks.1 ha
      have hnew : (d.put a .folder).get? a = some .folder := by
        rw [get?_put_of_ne_folder (by simp [hfree]), if_pos rfl]
      refine ⟨a, hfree, ?_, rfl, follow_of_walks hp hnew ?_⟩
      · rcases hw.end_cases hd ⟨_, startOf_folder hp hw, by simp⟩ with ⟨_, hparent⟩ | ⟨e, he, _⟩
        · exact hparent
        · rw [hfree] at he
          cases he
      · exact hw.put (by simp) (by simp [hfree]) (by simp [hfree]) (.inr rfl)
    · cases h

/-- **Folders were made**, one after the other, each in a folder and where nothing was, for one of
some paths. -/
inductive Grown (ps : List Path) (d : Disk) : Disk → Prop
  | refl : Grown ps d d
  | put {d' : Disk} {a : Address} {p : Path} (h : Grown ps d d') (ha : d'.get? a = none)
      (hparent : d'.get? a.dropLast = some .folder) (hp : p ∈ ps)
      (hfollow : (d'.put a .folder).follow p = .ok a) : Grown ps d (d'.put a .folder)

namespace Grown

variable {ps qs : List Path}

theorem trans {d₁ d₂ : Disk} (h : Grown ps d d₁) (h' : Grown ps d₁ d₂) : Grown ps d d₂ := by
  induction h' with
  | refl => exact h
  | put _ ha hparent hp hfollow ih => exact ih.put ha hparent hp hfollow

theorem mono (h : Grown ps d d') (hsub : ps ⊆ qs) : Grown qs d d' := by
  induction h with
  | refl => exact .refl
  | put _ ha hparent hp hfollow ih => exact ih.put ha hparent (hsub hp) hfollow

theorem isTree (hd : d.IsTree) (h : Grown ps d d') : d'.IsTree := by
  induction h with
  | refl => exact hd
  | put _ ha hparent _ _ ih => exact ih.put (by rintro rfl; cases ha) hparent (.inl rfl)

/-- **Nothing that was there has changed**, and what is new is a folder to which one of the paths
leads. -/
theorem get?_eq (h : Grown ps d d') (c : Address) : d'.get? c = d.get? c ∨
    d.get? c = none ∧ d'.get? c = some .folder ∧ ∃ p ∈ ps, d'.follow p = .ok c := by
  induction h with
  | refl => exact .inl rfl
  | @put d₁ a p _ ha _ hp hfollow ih =>
    rw [get?_put_of_ne_folder (by simp [ha])]
    by_cases hc : c = a
    · subst hc
      rw [if_pos rfl]
      refine .inr ⟨?_, rfl, p, hp, hfollow⟩
      rcases ih with ih | ⟨hnone, _⟩
      · rw [← ih, ha]
      · exact hnone
    · rw [if_neg hc]
      refine ih.imp_right fun ⟨hnone, hfolder, q, hq, hqfollow⟩ => ⟨hnone, hfolder, q, hq, ?_⟩
      exact follow_put (by simp) (by simp [ha]) (by simp [ha]) hqfollow

/-- Where folders were made, one can be found. -/
theorem eq_or_exists (h : Grown ps d d') :
    d' = d ∨ ∃ c, d.get? c = none ∧ d'.get? c = some .folder := by
  cases h with
  | refl => exact .inl rfl
  | @put d₁ a p h ha =>
    refine .inr ⟨a, ?_, ?_⟩
    · rcases h.get?_eq a with heq | ⟨hnone, _⟩
      · rw [← heq, ha]
      · exact hnone
    · rw [get?_put_of_ne_folder (by simp [ha]), if_pos rfl]

end Grown

theorem makeFolder_spec (hd : d.IsTree) (h : d.makeFolder p = .ok d') :
    Grown [p] d d' ∧ d'.isFolder p = true := by
  obtain ⟨a, ha, hparent, rfl, hfollow⟩ := exists_put_of_makeFolder hd h
  refine ⟨Grown.refl.put ha hparent List.mem_cons_self hfollow, ?_⟩
  rw [isFolder_iff, entryOf?, hfollow]
  dsimp only
  rw [get?_put_of_ne_folder (by simp [ha]), if_pos rfl]

/-- The last folder, when those above it are there. -/
theorem makeFolders_make_spec (hd : d.IsTree) (p : Path) : Grown [p] d (makeFolders.make d p).2 ∧
    ((makeFolders.make d p).1 = .ok () → (makeFolders.make d p).2.isFolder p = true) := by
  rw [makeFolders.make]
  cases hm : d.makeFolder p with
  | ok d' =>
    obtain ⟨hgrown, hfolder⟩ := makeFolder_spec hd hm
    exact ⟨hgrown, fun _ => hfolder⟩
  | error e =>
    dsimp only
    split
    · rename_i hfolder
      exact ⟨.refl, fun _ => hfolder⟩
    · exact ⟨.refl, fun h => by cases h⟩

/-- **Making folders only adds folders**, whether it succeeds or fails. -/
theorem grown_makeFolders_go (hd : d.IsTree) (ps : List Path) :
    Grown ps d (makeFolders.go d ps).2 := by
  induction ps with
  | nil => exact .refl
  | cons p above ih =>
    have hp : [p] ⊆ p :: above := List.cons_subset_cons p (List.nil_subset above)
    rw [makeFolders.go]
    split
    · exact .refl
    · split
      · rename_i d₁ hm
        exact (makeFolder_spec hd hm).1.mono hp
      · have habove := ih.mono (List.subset_cons_self p above)
        split
        · rename_i d₁ hgo
          rw [hgo] at habove
          exact habove.trans ((makeFolders_make_spec (habove.isTree hd) p).1.mono hp)
        · exact habove
      · split <;> exact .refl

theorem grown_makeFolders (hd : d.IsTree) (p : Path) :
    Grown p.ancestors d (d.makeFolders p).2 :=
  grown_makeFolders_go hd p.ancestors

/-- **What was made is there.** -/
theorem isFolder_of_makeFolders (hd : d.IsTree) (hp : p.text ≠ [])
    (h : d.makeFolders p = (.ok (), d')) : d'.isFolder p = true := by
  rw [makeFolders, Path.ancestors_eq, makeFolders.go, if_neg hp] at h
  split at h
  · rename_i d₁ hm
    obtain ⟨_, rfl⟩ := Prod.mk.inj h
    exact (makeFolder_spec hd hm).2
  · split at h
    · rename_i d₁ hgo
      have hgrown := grown_makeFolders_go hd ((p.parent?.map Path.ancestors).getD [])
      rw [hgo] at hgrown
      have hspec := (makeFolders_make_spec (hgrown.isTree hd) p).2
      rw [h] at hspec
      exact hspec rfl
    · rename_i hfailed
      exact absurd h (hfailed d')
  · split at h
    · rename_i hfolder
      obtain ⟨_, rfl⟩ := Prod.mk.inj h
      exact hfolder
    · cases h

/-- **A folder that is there** is not made again. -/
theorem makeFolders_of_isFolder (hd : d.IsTree) (h : d.isFolder p = true) :
    d.makeFolders p = (.ok (), d) := by
  have hentry := isFolder_iff.1 h
  rw [entryOf?] at hentry
  cases hf : d.follow p with
  | error e =>
    rw [hf] at hentry
    cases hentry
  | ok b =>
    obtain ⟨hp, hw⟩ := walks_of_follow hf
    obtain ⟨c, hc⟩ := hw.exists_entry
    have hexists : d.get? c ≠ none :=
      hc.ne_none_of_existing hd hw (by rw [startOf_folder hp hw]; simp)
    have hm := makeFolder_eq (entryAddress_eq_ok_iff_walks.2 ⟨hp, hc⟩)
    rw [if_neg hexists] at hm
    rw [makeFolders, Path.ancestors_eq, makeFolders.go, if_neg hp, hm]
    exact if_pos h

/-! ## Files -/

theorem placeOf_eq_ok_iff_walks : d.placeOf p = .ok b ↔
    p.text ≠ [] ∧ d.Walks .place maxLinks (d.startOf p) p.steps b := by
  rw [placeOf, ← walk_eq_ok_iff]
  by_cases hp : p.text = [] <;> simp [hp]

/-- A file can be written where its path leads, unless that is a folder. -/
theorem write_of_placeOf (hslash : p.text.getLast? ≠ some '/') (hb : d.placeOf p = .ok b)
    (hfolder : d.get? b ≠ some .folder) (t : Text) :
    d.write p t = .ok (d.put b (.file (.text t))) := by
  rw [write, if_neg hslash, writeContent, hb]
  dsimp only [bind, Except.bind]
  split
  · exact absurd ‹_› hfolder
  · rfl
  · rfl

/-- **A file is written** where its path then leads, and nothing else is: other paths lead where
they did. -/
theorem of_write_eq_ok (hd : d.IsTree) {t : Text} (h : d.write p t = .ok d') :
    ∃ b, d.get? b ≠ some .folder ∧ d'.follow p = .ok b ∧
      (∀ c, d'.get? c = if c = b then some (.file (.text t)) else d.get? c) ∧
      ∀ q c, d.follow q = .ok c → d'.follow q = .ok c := by
  have hslash : p.text.getLast? ≠ some '/' := by
    intro hslash
    rw [write, if_pos hslash] at h
    split at h <;> cases h
  cases hb : d.placeOf p with
  | error e =>
    rw [write, if_neg hslash, writeContent, hb] at h
    cases h
  | ok b =>
    obtain ⟨hp, hw⟩ := placeOf_eq_ok_iff_walks.1 hb
    have hfolder : d.get? b ≠ some .folder := by
      intro hfolder
      rw [write, if_neg hslash, writeContent, hb] at h
      simp only [bind, Except.bind, hfolder] at h
      cases h
    rw [write_of_placeOf hslash hb hfolder] at h
    obtain rfl := Except.ok.inj h
    have hlink : ∀ t, d.get? b ≠ some (.link t) := by
      intro t ht
      rcases hw.end_cases hd ⟨_, hw.folder (Path.steps_ne_nil p), by simp⟩ with
        ⟨hnone, _⟩ | ⟨e, he, hentry | hlink⟩
      · rw [hnone] at ht
        cases ht
      · cases hentry
      · exact hlink t (Option.some.inj (he.symm.trans ht))
    exact ⟨b, hfolder,
      follow_eq_ok_iff_walks.2 ⟨hp, hw.put (by simp) hfolder hlink (.inr rfl)⟩,
      get?_put_of_ne_folder hfolder _, fun q c => follow_put (by simp) hfolder hlink⟩

/-- A path that ends with a slash leads to nothing but a folder. -/
theorem folder_of_follow_slash (hslash : p.text.getLast? = some '/') (h : d.follow p = .ok b) :
    d.get? b = some .folder := by
  obtain ⟨hp, hw⟩ := follow_eq_ok_iff_walks.1 h
  rw [Path.steps_eq_way, if_pos ((Path.lastSegment_eq_nil_iff hp).2 hslash)] at hw
  obtain ⟨c, _, _, hlast⟩ := hw.split (by simp)
  cases hlast with
  | stay hc hdone =>
    cases hdone
    exact hc

/-- **A file that can be read can be written**, where it is. -/
theorem exists_write_of_read {t : Text} (h : d.read p = .ok t) (t' : Text) :
    ∃ b, d.get? b = some (.file (.text t)) ∧
      d.write p t' = .ok (d.put b (.file (.text t'))) := by
  have hentry := read_eq_ok_iff.1 h
  rw [entryOf?] at hentry
  cases hf : d.follow p with
  | error e =>
    rw [hf] at hentry
    cases hentry
  | ok b =>
    rw [hf] at hentry
    obtain ⟨hp, hw⟩ := follow_eq_ok_iff_walks.1 hf
    have hb : d.get? b = some (.file (.text t)) := hentry
    have hslash : p.text.getLast? ≠ some '/' := by
      intro hslash
      rw [folder_of_follow_slash hslash hf] at hb
      cases hb
    exact ⟨b, hb, write_of_placeOf hslash (placeOf_eq_ok_iff_walks.2 ⟨hp, hw.toPlace⟩)
      (by simp [hb]) t'⟩

/-- **What is written is read.** -/
theorem read_of_write (hd : d.IsTree) {t : Text} (h : d.write p t = .ok d') :
    d'.read p = .ok t := by
  obtain ⟨b, _, hfollow, hget, _⟩ := of_write_eq_ok hd h
  rw [read_eq_ok_iff, entryOf?, hfollow]
  dsimp only
  rw [hget, if_pos rfl]

theorem pathExists_of_read {t : Text} (h : d.read p = .ok t) : d.pathExists p = true := by
  rw [pathExists, read_eq_ok_iff.1 h]
  rfl

end Disk

end Fabula
