import Fabula.Proofs.Project.Fields
import Fabula.Proofs.Project.Settings

/-!
# Loading settles the user's file

The user's file may be missing, incomplete, oddly written, or as it would be written. Whatever
it is, once it was loaded it is the last of these, and it stays so
(`Config.loadOrCreate_settles`). This has several parts, all of which come from two facts about
configurations: what is written is read back, and one without blank fields has none to fill.

A file is settled when it holds a configuration without blank fields, as it is written
(`Config.Settled`). A settled file is read as that configuration, nothing in it is blank, so
nothing is filled, and what would be written is what is there. So it is loaded as it is
(`Config.loadOrCreate_of_settled`), and loading changes nothing. What remains is that every load
that succeeds leaves a settled file, and there are three ways to succeed.

* The file was missing. It is written with the defaults, which are not blank, and all fields
  have them.
* The file was as it would be written, with its blank fields filled. Then it is settled.
* It was not. Then the filled configuration is written in its place.

In the last two cases the configuration takes what the file gave. The first write may fail, and
so may the last. Then the load fails, and nothing is claimed but that a file which exists is
left as it is, with all its bytes.
-/

namespace Fabula

namespace Config

variable {d d' : Disk} {p : Path} {c : Config} {t : Text}

/-! ## One file -/

/-- **A file settled**: it is as a configuration without blank fields is written. -/
def Settled (d : Disk) (p : Path) (c : Config) : Prop :=
  d.read p = .ok c.render ∧ c.IsFilled

/-- What is settled is loaded as it is. -/
theorem loadOrCreate_of_settled (h : Settled d p c) : loadOrCreate d p = (.ok c, d) := by
  have hread : readFile d p = .ok (c, c.render) :=
    readFile_eq_ok_iff.2 ⟨h.1, c, read?_render c, filled_eq_self h.2⟩
  rw [loadOrCreate, if_pos (Disk.pathExists_of_read h.1), hread]
  exact if_pos rfl

/-- What is written is settled. -/
theorem settled_of_writeFile {c' : Config} (hd : d.IsTree) (hc : c.IsFilled)
    (h : writeFile d p c = (.ok c', d')) : c' = c ∧ Settled d' p c := by
  unfold writeFile at h
  split at h
  · rename_i d₁ hwrite
    obtain ⟨hok, rfl⟩ := Prod.mk.inj h
    obtain rfl := Except.ok.inj hok
    exact ⟨rfl, Disk.read_of_write hd hwrite, hc⟩
  · cases h

/-! ## Loading -/

/-- **A file that exists** is loaded as it is read, and is settled then. -/
theorem of_loadOrCreate_of_pathExists (hd : d.IsTree) (hexists : d.pathExists p = true)
    (h : loadOrCreate d p = (.ok c, d')) : Settled d' p c ∧ ∃ t, readFile d p = .ok (c, t) := by
  rw [loadOrCreate, if_pos hexists] at h
  cases hread : readFile d p with
  | error f =>
    rw [hread] at h
    cases h
  | ok ct =>
    obtain ⟨c₁, t⟩ := ct
    rw [hread] at h
    dsimp only at h
    obtain ⟨ht, c₀, _, hfilled⟩ := readFile_eq_ok_iff.1 hread
    have hc₁ : c₁.IsFilled := hfilled ▸ isFilled_filled c₀
    split at h
    · rename_i hrender
      obtain ⟨hok, rfl⟩ := Prod.mk.inj h
      obtain rfl := Except.ok.inj hok
      exact ⟨⟨hrender ▸ ht, hc₁⟩, t, rfl⟩
    · obtain ⟨rfl, hsettled⟩ := settled_of_writeFile hd hc₁ h
      exact ⟨hsettled, t, rfl⟩

/-- **A file that holds a configuration is loaded**, and written where it has to be. -/
theorem exists_loadOrCreate (h : readFile d p = .ok (c, t)) :
    ∃ d', loadOrCreate d p = (.ok c, d') := by
  have hold := (readFile_eq_ok_iff.1 h).1
  rw [loadOrCreate, if_pos (Disk.pathExists_of_read hold), h]
  dsimp only
  by_cases hrender : c.render = t
  · exact ⟨d, if_pos hrender⟩
  · obtain ⟨_, _, hwrite⟩ := Disk.exists_write_of_read hold c.render
    rw [if_neg hrender, writeFile, hwrite]
    exact ⟨_, rfl⟩

/-- **A file that is missing** is written with the defaults, and is settled then. -/
theorem of_loadOrCreate_of_missing (hd : d.IsTree) (hmissing : d.pathExists p ≠ true)
    (h : loadOrCreate d p = (.ok c, d')) : c = {} ∧ Settled d' p c := by
  rw [loadOrCreate, if_neg hmissing] at h
  split at h
  · obtain ⟨rfl, hsettled⟩ := settled_of_writeFile hd isFilled_default h
    exact ⟨rfl, hsettled⟩
  · rename_i folder _
    have hgrown := Disk.grown_makeFolders hd folder
    unfold afterwards at h
    split at h
    · rename_i d₁ hmake
      rw [hmake] at hgrown
      obtain ⟨rfl, hsettled⟩ := settled_of_writeFile (hgrown.isTree hd) isFilled_default h
      exact ⟨rfl, hsettled⟩
    · cases h

/-- A file that exists is left alone when it cannot be loaded. -/
theorem eq_of_loadOrCreate_eq_error {f : Failure} (hexists : d.pathExists p = true)
    (h : loadOrCreate d p = (.error f, d')) : d' = d := by
  cases hread : readFile d p with
  | error e =>
    rw [loadOrCreate, if_pos hexists, hread] at h
    exact (Prod.mk.inj h).2.symm
  | ok ct =>
    obtain ⟨_, hload⟩ := exists_loadOrCreate (c := ct.1) (t := ct.2) hread
    rw [hload] at h
    cases h

/-- **Loading settles the user's file.** After one load the file is as the configuration is
written, without blank fields and with what the path gave before; another load answers the same
and changes nothing. Where the path led nowhere, all fields have their defaults. A file that holds
a configuration is loaded, and one that exists and cannot be loaded is left as it is, with all
else. -/
theorem loadOrCreate_settles (hd : d.IsTree) (p : Path) :
    (∀ c d', loadOrCreate d p = (.ok c, d') →
      d'.read p = .ok c.render ∧ c.IsFilled ∧ (∀ t, d.read p = .ok t → c.Takes t) ∧
        (d.pathExists p = false → c = {}) ∧ loadOrCreate d' p = (.ok c, d')) ∧
    (∀ t c, d.read p = .ok t → read? t = some c →
      ∃ d', loadOrCreate d p = (.ok c.filled, d')) ∧
    ∀ f d', loadOrCreate d p = (.error f, d') → d.pathExists p = true → d' = d := by
  refine ⟨fun c d' h => ?_,
    fun t c ht hc => exists_loadOrCreate (readFile_eq_ok_iff.2 ⟨ht, c, hc, rfl⟩),
    fun f d' h hexists => eq_of_loadOrCreate_eq_error hexists h⟩
  by_cases hexists : d.pathExists p = true
  · obtain ⟨hsettled, t, hread⟩ := of_loadOrCreate_of_pathExists hd hexists h
    obtain ⟨ht, c₀, hc₀, rfl⟩ := readFile_eq_ok_iff.1 hread
    refine ⟨hsettled.1, hsettled.2, fun t' ht' => ?_, fun hmissing => ?_,
      loadOrCreate_of_settled hsettled⟩
    · obtain rfl : t = t' := Except.ok.inj (ht.symm.trans ht')
      exact takes_filled hc₀
    · rw [hmissing] at hexists
      cases hexists
  · obtain ⟨hdefault, hsettled⟩ := of_loadOrCreate_of_missing hd hexists h
    exact ⟨hsettled.1, hsettled.2, fun t ht => absurd (Disk.pathExists_of_read ht) hexists,
      fun _ => hdefault, loadOrCreate_of_settled hsettled⟩

/-- A disk with one file. -/
def fileDisk (t : Text) : Disk where
  cwd := []
  entries := [(["config.toml".toList], .file (.text t))]

/-- The path of this file. -/
def filePath : Path :=
  Path.ofString "/config.toml"

/-- A file that gives one field, and another one blank. -/
def sparseText : Text :=
  "data_dir = \"game/data\"\nevents_dir = \"\"\n".toList

/-- The configuration that it is completed to. -/
def sparseConfig : Config where
  dataDir := "game/data".toList

theorem isTree_fileDisk (t : Text) : (fileDisk t).IsTree :=
  Disk.isTree_of_entries (by simp [fileDisk]) (by simp [fileDisk]) (by simp [fileDisk])

theorem loadOrCreate_sparseText : loadOrCreate (fileDisk sparseText) filePath =
    (.ok sparseConfig, fileDisk sparseConfig.render) := by
  decide +kernel

/-- The sparse file is completed, and a file that is no document is left alone. -/
theorem loadOrCreate_settles_sparse :
    (fileDisk sparseText).IsTree ∧ (fileDisk "[".toList).IsTree ∧
      loadOrCreate (fileDisk sparseText) filePath =
        (.ok sparseConfig, fileDisk sparseConfig.render) ∧
      (fileDisk sparseConfig.render).read filePath = .ok sparseConfig.render ∧
      sparseConfig.IsFilled ∧ sparseConfig.Takes sparseText ∧
      loadOrCreate (fileDisk sparseConfig.render) filePath =
        (.ok sparseConfig, fileDisk sparseConfig.render) ∧
      (loadOrCreate (fileDisk "[".toList) filePath).1.isOk = false ∧
      (loadOrCreate (fileDisk "[".toList) filePath).2 = fileDisk "[".toList := by
  have hsparse := isTree_fileDisk sparseText
  have hbroken := isTree_fileDisk "[".toList
  obtain ⟨hread, hfilled, htakes, _, hagain⟩ :=
    (loadOrCreate_settles hsparse filePath).1 _ _ loadOrCreate_sparseText
  have hfails : (loadOrCreate (fileDisk "[".toList) filePath).1.isOk = false := by
    decide +kernel
  refine ⟨hsparse, hbroken, loadOrCreate_sparseText, hread, hfilled, htakes sparseText (by decide),
    hagain, hfails, ?_⟩
  cases hload : loadOrCreate (fileDisk "[".toList) filePath with
  | mk result d' =>
    rw [hload] at hfails
    cases result with
    | ok c => cases hfails
    | error f => exact (loadOrCreate_settles hbroken filePath).2.2 f d' hload (by decide)

end Config

end Fabula
