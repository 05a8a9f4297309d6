import Fabula.Project.Settings
import Fabula.Proofs.Disk.Making
import Fabula.Proofs.Outcome

/-!
# What looking for the configuration leaves behind

A configuration that is named, or the project's own one, is only read. Where there is neither,
the user's file is written when it is missing and completed when it is incomplete, and the
folder it is in is made. That is all that is done to the disk (`Config.load_touches`), and often
nothing is (`Config.load_eq_self_iff`).

## What may be touched

An address has what it had, or nothing was there and now it is a folder on the path to the
user's file, or it is where the user's file is, which holds a configuration as it is written
(`Config.Touches`). Folders are made first. If that fails, what was made until then are folders,
and the file was not written. If it succeeds the file is loaded, and loading writes nothing but
that file. So the two steps are looked at one after the other (`Config.load_user_spec`), and
what is touched is told by their specifications.

## When nothing is

Nothing is done exactly when a configuration is given, or the user's one stands
(`Config.UserStands`). It stands when making its folder makes nothing, be it that the folder is
there or that it cannot be made, and when, in the folder that is there, the file stands. A file
stands when what can be read of it is written as it would be, and when it is missing, it cannot
be written. So a file that is no configuration stands as well: loading it fails, and leaves it.

One direction needs that what was written differs from what was there. A new file differs from
none, and a configuration is written only where its text would be another one
(`Config.loadOrCreate_spec`).
-/

namespace Fabula

namespace Config

variable {d d' : Disk} {home root p : Path} {named : Option Path}

/-- **A configuration file stands**: what can be read of it is written as it would be, and when it
is missing, it cannot be written. -/
def Stands (d : Disk) (p : Path) : Prop :=
  if d.pathExists p then ∀ c t, readFile d p = .ok (c, t) → c.render = t
  else ∀ d', d.write p (render {}) ≠ .ok d'

/-- **The user's configuration stands**: no folder has to be made for it, or none can be made, and
in the folder that is there the file stands. -/
def UserStands (d : Disk) (home : Path) : Prop :=
  (d.makeFolders (home.join userFolder)).2 = d ∧
    ((d.makeFolders (home.join userFolder)).1 = .ok () → Stands d (home.join userFile))

/-- **At most the user's configuration was touched**: an address has what it had; or nothing was
there, and now it is a folder on the path to the user's file; or it is where the user's file is,
which holds a configuration as it is written. -/
def Touches (home : Path) (d d' : Disk) : Prop :=
  ∀ a, d'.get? a = d.get? a ∨
    (d.get? a = none ∧ d'.get? a = some .folder ∧
      ∃ q ∈ (home.join userFolder).ancestors, d'.follow q = .ok a) ∨
    (d'.follow (home.join userFile) = .ok a ∧
      ∃ c : Config, d'.get? a = some (.file (.text c.render)))

/-! ## Where the user's configuration is -/

theorem isName_userFolder : IsName userFolder := by
  decide

/-- The name of the user's file in its folder. -/
def userName : Text :=
  "config.toml".toList

theorem isName_userName : IsName userName := by
  decide

theorem userFile_eq : userFile = userFolder ++ '/' :: userName := by
  decide

theorem parent?_userFile (home : Path) :
    (home.join userFile).parent? = some (home.join userFolder) := by
  rw [userFile_eq]
  exact Path.parent?_join home isName_userFolder isName_userName

theorem text_userFolder_ne_nil (home : Path) : (home.join userFolder).text ≠ [] := by
  rw [ne_eq, ← Path.components_eq_nil_iff, Path.components_join home isName_userFolder]
  simp

/-! ## Loading one file -/

/-- **Reading a file gives** the configuration its text holds, with the blank fields filled. -/
theorem readFile_eq_ok_iff {c : Config} {t : Text} : readFile d p = .ok (c, t) ↔
    d.read p = .ok t ∧ ∃ c₀, read? t = some c₀ ∧ c₀.filled = c := by
  unfold readFile
  rw [Outcome.bind_eq_ok]
  simp only [Outcome.within_eq_ok, Outcome.ofDisk_eq_ok]
  constructor
  · rintro ⟨t', ht, h⟩
    cases hread : read? t' with
    | none =>
      rw [hread] at h
      exact absurd (Outcome.within_eq_ok.1 h) Outcome.fail_ne_ok
    | some c₀ =>
      rw [hread] at h
      obtain ⟨rfl, rfl⟩ := Prod.mk.inj (Outcome.pure_eq_ok.1 h)
      exact ⟨ht, c₀, hread, rfl⟩
  · rintro ⟨ht, c₀, hread, rfl⟩
    refine ⟨t, ht, ?_⟩
    rw [hread]
    rfl

theorem writeFile_snd_of_ok {c : Config} (h : d.write p c.render = .ok d') :
    (writeFile d p c).2 = d' := by
  rw [writeFile, h]

/-- **What loading the user's file writes**, when its folder is there: nothing if the file stands,
and the whole file if it does not. -/
theorem loadOrCreate_spec (hd : d.IsTree) (hfolder : d.isFolder (home.join userFolder) = true) :
    let p := home.join userFile
    (Stands d p ∧ (loadOrCreate d p).2 = d) ∨
      (¬Stands d p ∧ ∃ c : Config, d.write p c.render = .ok (loadOrCreate d p).2 ∧
        (loadOrCreate d p).2 ≠ d) := by
  intro p
  by_cases hexists : d.pathExists p = true
  · rw [Stands, if_pos hexists, loadOrCreate, if_pos hexists]
    cases hread : readFile d p with
    | error f => exact .inl ⟨fun c t h => (by cases h), rfl⟩
    | ok ct =>
      obtain ⟨c, t⟩ := ct
      dsimp only
      by_cases hrender : c.render = t
      · rw [if_pos hrender]
        refine .inl ⟨fun c' t' h => ?_, rfl⟩
        obtain ⟨rfl, rfl⟩ := Prod.mk.inj (Except.ok.inj h)
        exact hrender
      · have hold := (readFile_eq_ok_iff.1 hread).1
        obtain ⟨_, _, hwrite⟩ := Disk.exists_write_of_read hold c.render
        rw [if_neg hrender, writeFile_snd_of_ok hwrite]
        refine .inr ⟨fun h => hrender (h c t rfl), c, hwrite, fun heq => hrender ?_⟩
        -- the file reads otherwise than before
        rw [heq] at hwrite
        exact Except.ok.inj ((Disk.read_of_write hd hwrite).symm.trans hold)
  · have hload : loadOrCreate d p = writeFile d p {} := by
      have hparent : p.parent? = some (home.join userFolder) := parent?_userFile home
      rw [loadOrCreate, if_neg hexists, hparent]
      dsimp only
      rw [Disk.makeFolders_of_isFolder hd hfolder]
      rfl
    rw [Stands, if_neg hexists, hload]
    cases hwrite : d.write p (render {}) with
    | error e =>
      refine .inl ⟨fun d' h => (by cases h), ?_⟩
      rw [writeFile, hwrite]
    | ok d' =>
      rw [writeFile_snd_of_ok hwrite]
      refine .inr ⟨fun h => h d' rfl, {}, hwrite, ?_⟩
      rintro rfl
      -- the file is there now, and was not before
      exact hexists (Disk.pathExists_of_read (Disk.read_of_write hd hwrite))

/-! ## Looking for the configuration -/

/-- A configuration that is named, and the project's own one, are only read. -/
theorem load_of_given (h : named.isSome = true ∨ d.isFile (root.join projectFile) = true) :
    (load d home named root).2 = d := by
  unfold load
  cases named with
  | some p => rfl
  | none =>
    dsimp only
    rw [if_pos (h.resolve_left (by simp))]

/-- Where there is neither, the user's file is loaded behind its folder. -/
theorem load_of_missing (hnamed : named = none) (hown : d.isFile (root.join projectFile) ≠ true) :
    load d home named root = afterwards (d.makeFolders (home.join userFolder)) fun d =>
      loadOrCreate d (home.join userFile) := by
  rw [hnamed, load]
  exact if_neg hown

/-- **The user's configuration is loaded** in two steps: folders are made, and the file stands or is
written. -/
theorem load_user_spec (hd : d.IsTree) (home : Path) (hnamed : named = none)
    (hown : d.isFile (root.join projectFile) ≠ true) :
    ∃ result d₁, d.makeFolders (home.join userFolder) = (result, d₁) ∧
      Disk.Grown (home.join userFolder).ancestors d d₁ ∧
      ((load d home named root).2 = d₁ ∧
          (result = .ok () → Stands d₁ (home.join userFile)) ∨
        result = .ok () ∧ ¬Stands d₁ (home.join userFile) ∧ ∃ c : Config,
          d₁.write (home.join userFile) c.render = .ok (load d home named root).2 ∧
            (load d home named root).2 ≠ d₁) := by
  have hgrown := Disk.grown_makeFolders hd (home.join userFolder)
  rw [load_of_missing hnamed hown]
  cases hmake : d.makeFolders (home.join userFolder) with
  | mk result d₁ =>
    rw [hmake] at hgrown
    refine ⟨result, d₁, rfl, hgrown, ?_⟩
    cases result with
    | error e => exact .inl ⟨rfl, fun h => by cases h⟩
    | ok u =>
      have hfolder := Disk.isFolder_of_makeFolders hd (text_userFolder_ne_nil home) hmake
      rcases loadOrCreate_spec (hgrown.isTree hd) hfolder with ⟨hstands, hload⟩ |
        ⟨hstands, c, hwrite, hne⟩
      · exact .inl ⟨hload, fun _ => hstands⟩
      · exact .inr ⟨rfl, hstands, c, hwrite, hne⟩

/-- **Nothing but the user's configuration is touched.** -/
theorem load_touches (hd : d.IsTree) (home : Path) (named : Option Path) (root : Path) :
    Touches home d (load d home named root).2 := by
  by_cases hgiven : named.isSome = true ∨ d.isFile (root.join projectFile) = true
  · rw [load_of_given hgiven]
    exact fun a => .inl rfl
  · rw [not_or, Option.not_isSome_iff_eq_none] at hgiven
    obtain ⟨_, d₁, _, hgrown, h⟩ := load_user_spec hd home hgiven.1 hgiven.2
    intro a
    rcases h with ⟨hload, _⟩ | ⟨_, _, c, hwrite, _⟩
    · rw [hload]
      exact (hgrown.get?_eq a).imp_right .inl
    · obtain ⟨b, _, hfollow, hget, hothers⟩ := Disk.of_write_eq_ok (hgrown.isTree hd) hwrite
      rw [hget]
      split
      · rename_i hab
        exact .inr (.inr ⟨hab ▸ hfollow, c, rfl⟩)
      · rcases hgrown.get?_eq a with hsame | ⟨hnone, hfolder, q, hq, hqfollow⟩
        · exact .inl hsame
        · exact .inr (.inl ⟨hnone, hfolder, q, hq, hothers q a hqfollow⟩)

/-- **When nothing is written**: when a configuration is given, or the user's one stands. -/
theorem load_eq_self_iff (hd : d.IsTree) (home : Path) (named : Option Path) (root : Path) :
    (load d home named root).2 = d ↔
      named.isSome = true ∨ d.isFile (root.join projectFile) = true ∨ UserStands d home := by
  rw [← or_assoc]
  by_cases hgiven : named.isSome = true ∨ d.isFile (root.join projectFile) = true
  · exact iff_of_true (load_of_given hgiven) (.inl hgiven)
  · rw [or_iff_right hgiven, UserStands]
    rw [not_or, Option.not_isSome_iff_eq_none] at hgiven
    obtain ⟨result, d₁, hmake, hgrown, h⟩ := load_user_spec hd home hgiven.1 hgiven.2
    rw [hmake]
    rcases h with ⟨hload, hstands⟩ | ⟨hok, hstands, c, hwrite, hne⟩
    · rw [hload]
      constructor
      · rintro rfl
        exact ⟨rfl, hstands⟩
      · exact And.left
    · refine iff_of_false (fun hsame => ?_) ?_
      · -- a folder that was made is still there when the file is written
        rcases hgrown.eq_or_exists with rfl | ⟨a, hnone, hfolder⟩
        · exact hne hsame
        · obtain ⟨b, hb, _, hget, _⟩ := Disk.of_write_eq_ok (hgrown.isTree hd) hwrite
          have hab : a ≠ b := by
            rintro rfl
            exact hb hfolder
          have hstill : d.get? a = some .folder := by
            rw [← hsame, hget, if_neg hab, hfolder]
          rw [hnone] at hstill
          cases hstill
      · rintro ⟨rfl, h⟩
        exact hstands (h hok)

end Config

end Fabula
