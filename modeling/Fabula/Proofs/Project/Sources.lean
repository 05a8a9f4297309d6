import Fabula.Proofs.Project.Confinement
import Fabula.Proofs.Project.Places
import Fabula.Proofs.Staging.Growth

/-!
# The source files of a project

A plan that only edits and creates is understood best when none of its paths is above another
one. This module shows it of all paths at which scaffolds edit or create anything, at once: of
the source files of a project (`Layout.sources`), which are the paths below the data folder
written with names alone, the last of which has the ending of a source file, and the others have
not. If one of them were above another one, its last name would be a name in the middle of the
other one (`Layout.Reaches.spread_sources`).

## Reaching the data folder

Every path that is staged has to pass a check, and every target of a scaffold has to be
resolved. Where the data folder can be reached (`Layout.Reaches`), this never fails below it. A
path written with names behind a folder that is there can be resolved, whatever exists of it,
and its address begins with that of the data folder (`Layout.Reaches.checkTargets_eq_ok`,
`Layout.Reaches.check_eq_ok`). So a scaffold which targets paths below the data folder and stays
at or below its targets is not stopped by a check.

Both are kept while a disk grows. A disk extends another one when it has its folders and files,
whatever these files hold (`Disk.Extends`). Edits and creations extend a disk, and a data folder
that was reached is reached on every extension. Therefore they need to be asked for only once,
before any number of scaffolds.
-/

namespace Fabula

namespace Path

variable {p : Path} {ns : List Text}

/-- **A path followed by names.** -/
def joinAll (p : Path) (ns : List Text) : Path :=
  ns.foldl join p

@[simp] theorem joinAll_nil (p : Path) : p.joinAll [] = p := rfl

theorem joinAll_concat (p : Path) (ns : List Text) (n : Text) :
    p.joinAll (ns ++ [n]) = (p.joinAll ns).join n := by
  rw [joinAll, List.foldl_concat]
  rfl

theorem components_joinAll (p : Path) (hns : ∀ n ∈ ns, IsName n) :
    (p.joinAll ns).components = p.components ++ ns.map .name := by
  induction ns using List.reverseRecOn with
  | nil => simp
  | append_singleton ns n ih =>
    rw [joinAll_concat, components_join _ (hns n (by simp)),
      ih fun m hm => hns m (List.mem_append_left _ hm), List.map_append, List.append_assoc]
    rfl

/-- Names do not go up. -/
theorem goesUp_joinAll (p : Path) (hns : ∀ n ∈ ns, IsName n) : (p.joinAll ns).goesUp = p.goesUp := by
  unfold goesUp
  rw [components_joinAll p hns]
  simp

theorem isAbsolute_joinAll (p : Path) (hns : ∀ n ∈ ns, IsName n) :
    (p.joinAll ns).isAbsolute = p.isAbsolute := by
  rw [Bool.eq_iff_iff, isAbsolute_iff, isAbsolute_iff, components_joinAll p hns]
  simp

theorem text_joinAll_ne_nil (hp : p.text ≠ []) (hns : ∀ n ∈ ns, IsName n) :
    (p.joinAll ns).text ≠ [] := by
  rw [ne_eq, ← components_eq_nil_iff, components_joinAll p hns, List.append_eq_nil_iff,
    components_eq_nil_iff]
  exact fun h => hp h.1

end Path

namespace Disk

variable {d : Disk} {p : Path} {ns : List Text}

theorem addressOf_joinAll (d : Disk) (p : Path) (hns : ∀ n ∈ ns, IsName n) :
    d.addressOf (p.joinAll ns) = d.addressOf p ++ ns := by
  induction ns using List.reverseRecOn with
  | nil => simp
  | append_singleton ns n ih =>
    rw [Path.joinAll_concat, addressOf_join _ (hns n (by simp)),
      ih fun m hm => hns m (List.mem_append_left _ hm), List.append_assoc]

/-- **A path followed by names can name a file.** -/
theorem canName_joinAll (hup : p.goesUp = false) (hstart : d.get? (d.startOf p) = some .folder)
    (hns : ∀ n ∈ ns, IsName n) (hne : ns ≠ []) : d.CanName (p.joinAll ns) := by
  have hstart' : d.get? (d.startOf (p.joinAll ns)) = some .folder := by
    rw [startOf, Path.isAbsolute_joinAll p hns]
    exact hstart
  obtain ⟨init, n, rfl⟩ := (List.eq_nil_or_concat' ns).resolve_left hne
  have hinit : ∀ m ∈ init, IsName m := fun m hm => hns m (List.mem_append_left _ hm)
  have hup' := (Path.goesUp_joinAll p hinit).trans hup
  have hn : IsName n := hns n (by simp)
  rw [Path.joinAll_concat] at hstart' ⊢
  exact ⟨goesUp_join hup' hn, endsInName_join hup' hn, getLast?_join _ hn, hstart'⟩

end Disk

/-! ## The data folder -/

/-- **A disk that has what another one has**: no folder and no file is missing. -/
structure Disk.Extends (e d : Disk) : Prop where
  plain : e.IsPlain
  cwd_eq : e.cwd = d.cwd
  folder : ∀ c, d.get? c = some .folder → e.get? c = some .folder
  ne_none : ∀ c, d.get? c ≠ none → e.get? c ≠ none

namespace Disk.Extends

variable {d e f : Disk}

theorem refl (hd : d.IsPlain) : d.Extends d :=
  ⟨hd, rfl, fun _ h => h, fun _ h => h⟩

theorem trans (h : f.Extends e) (h' : e.Extends d) : f.Extends d :=
  ⟨h.plain, h.cwd_eq.trans h'.cwd_eq, fun c hc => h.folder c (h'.folder c hc),
    fun c hc => h.ne_none c (h'.ne_none c hc)⟩

theorem addressOf_eq (h : e.Extends d) : e.addressOf = d.addressOf :=
  funext fun p => Disk.addressOf_of_cwd_eq h.cwd_eq p

theorem startOf_eq (h : e.Extends d) (p : Path) : e.startOf p = d.startOf p := by
  rw [startOf, startOf, h.cwd_eq]

/-- **Calls that edit and create** leave what is there. -/
theorem of_growsAll (hplain : e.IsPlain) (hcwd : e.cwd = d.cwd) {cs : List Call}
    (h : Call.GrowsAll d.addressOf cs d.get? e.get?) : e.Extends d :=
  ⟨hplain, hcwd, fun _ hc => h.folder hc, fun _ hc => h.ne_none hc⟩

end Disk.Extends

namespace Layout

variable {l : Layout} {d e : Disk} {p : Path} {ns : List Text}

/-- **The data folder can be reached**, and not by going up. -/
structure Reaches (l : Layout) (d : Disk) : Prop where
  goesUp : l.dataDir.goesUp = false
  follow : ∃ a, d.follow l.dataDir = .ok a

/-- **The source files**: the last name has the ending of a source file, and no other name
has. -/
def sources (l : Layout) : Set Path :=
  {p | ∃ init n, (∀ m ∈ init, IsName m ∧ ¬sourceEnding <:+ m) ∧ IsName n ∧ sourceEnding <:+ n ∧
    p = l.dataDir.joinAll (init ++ [n])}

theorem isName_concat {init : List Text} {n : Text} (hinit : ∀ m ∈ init, IsName m)
    (hn : IsName n) : ∀ m ∈ init ++ [n], IsName m := by
  intro m hm
  rcases List.mem_append.1 hm with hm | hm
  · exact hinit m hm
  · rwa [List.mem_singleton.1 hm]

theorem exists_of_mem_sources (hp : p ∈ l.sources) :
    ∃ ns, (∀ n ∈ ns, IsName n) ∧ ns ≠ [] ∧ p = l.dataDir.joinAll ns := by
  obtain ⟨init, n, hinit, hn, _, rfl⟩ := hp
  exact ⟨init ++ [n], isName_concat (fun m hm => (hinit m hm).1) hn, by simp, rfl⟩

namespace Reaches

variable (h : l.Reaches d) (hd : d.IsPlain)

include h hd in
theorem of_follow : l.dataDir.text ≠ [] ∧ d.get? (d.addressOf l.dataDir) ≠ none ∧
    d.get? (d.startOf l.dataDir) = some .folder ∧ d.follow l.dataDir = .ok (d.addressOf l.dataDir) := by
  obtain ⟨a, ha⟩ := h.follow
  obtain ⟨ht, rfl, hne, hstart, _⟩ := (Disk.follow_eq_ok_iff hd h.goesUp).1 ha
  exact ⟨ht, hne, hstart, ha⟩

include h hd in
/-- A data folder that was reached is reached as long as nothing goes. -/
theorem of_extends (he : e.Extends d) : l.Reaches e := by
  obtain ⟨a, ha⟩ := h.follow
  obtain ⟨ht, rfl, hne, hstart, hstay⟩ := (Disk.follow_eq_ok_iff hd h.goesUp).1 ha
  refine ⟨h.goesUp, e.addressOf l.dataDir, (Disk.follow_eq_ok_iff he.plain h.goesUp).2
    ⟨ht, rfl, ?_, ?_, fun hs => ?_⟩⟩
  · rw [he.addressOf_eq]
    exact he.ne_none _ hne
  · rw [he.startOf_eq]
    exact he.folder _ hstart
  · rw [he.addressOf_eq]
    exact he.folder _ (hstay hs)

include h hd in
/-- A path below the data folder starts in a folder. -/
theorem startOf_folder (hns : ∀ n ∈ ns, IsName n) :
    d.get? (d.startOf (l.dataDir.joinAll ns)) = some .folder := by
  rw [Disk.startOf, Path.isAbsolute_joinAll _ hns]
  exact (h.of_follow hd).2.2.1

include h hd in
/-- **A path below the data folder can be resolved.** -/
theorem exists_resolve (hns : ∀ n ∈ ns, IsName n) :
    ∃ a, d.resolve (l.dataDir.joinAll ns) = .ok a :=
  Disk.exists_resolve hd ((Path.goesUp_joinAll _ hns).trans h.goesUp)
    (Path.text_joinAll_ne_nil (h.of_follow hd).1 hns) (h.startOf_folder hd hns)

include h hd in
/-- **Targets below the data folder are passed.** -/
theorem checkTargets_eq_ok {targets : List Path}
    (ht : ∀ p ∈ targets, ∃ ns, (∀ n ∈ ns, IsName n) ∧ p = l.dataDir.joinAll ns) :
    l.checkTargets d targets = .ok () := by
  obtain ⟨a, ha⟩ := h.exists_resolve hd (fun n hn => absurd hn List.not_mem_nil)
  refine Outcome.bind_eq_ok.2 ⟨a, ha, ?_⟩
  induction targets with
  | nil => rfl
  | cons p targets ih =>
    obtain ⟨ns, hns, rfl⟩ := ht p List.mem_cons_self
    obtain ⟨b, hb⟩ := h.exists_resolve hd hns
    exact Outcome.bind_eq_ok.2 ⟨(), Outcome.bind_eq_ok.2 ⟨b, hb, rfl⟩,
      ih fun q hq => ht q (List.mem_cons_of_mem _ hq)⟩

include h hd in
/-- **A path below the data folder passes the check**, when it is at a target or below
one. -/
theorem check_eq_ok {tx : Transaction} (hl : tx.layout = l) (hns : ∀ n ∈ ns, IsName n)
    (hp : p = l.dataDir.joinAll ns) (ht : ∃ target ∈ tx.targets, p.isWithin target = true) :
    tx.check d p = .ok () := by
  subst hp
  obtain ⟨htext, _, _, hfollow⟩ := h.of_follow hd
  rw [Transaction.check, if_pos (List.any_eq_true.2 ht), hl,
    Disk.ensureWithin_eq_ok_iff hd ((Path.goesUp_joinAll _ hns).trans h.goesUp)
      (Path.text_joinAll_ne_nil htext hns) (h.startOf_folder hd hns) h.goesUp,
    Disk.pathExists_iff hd h.goesUp, Disk.addressOf_joinAll d _ hns]
  exact ⟨hfollow, List.prefix_append _ _⟩

include h hd in
/-- **No source file is above another one.** -/
theorem spread_sources : d.Spread l.sources where
  canName := by
    intro p hp
    obtain ⟨ns, hns, hne, rfl⟩ := exists_of_mem_sources hp
    exact Disk.canName_joinAll h.goesUp (h.of_follow hd).2.2.1 hns hne
  apart := by
    rintro _ ⟨init, n, hinit, hn, hsource, rfl⟩ _ ⟨init', n', hinit', hn', _, rfl⟩ hpre
    rw [Disk.addressOf_joinAll d _ (isName_concat (fun m hm => (hinit m hm).1) hn),
      Disk.addressOf_joinAll d _ (isName_concat (fun m hm => (hinit' m hm).1) hn'),
      List.prefix_append_right_inj] at hpre
    by_contra hne
    -- a source file above another one would be one of its folders
    have hbelow := Disk.prefix_dropLast_of_ne hpre fun heq => hne (heq ▸ rfl)
    rw [List.dropLast_concat] at hbelow
    exact (hinit' n (hbelow.subset (by simp))).2 hsource

end Reaches

end Layout

end Fabula
