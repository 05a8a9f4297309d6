import Fabula.Proofs.Disk.Removal
import Fabula.Staging.Commit

/-!
# Making folders

A folder is made with the folders above it, as far as they are missing. The program tries the
path itself first; when a folder above is missing it goes over to the path above, and comes back
when that is made. On a disk without links, either all the folders are there in the end or
nothing was made (`Disk.makeFolders_go_spec`), which is not plain, because the folders are made
one by one and nothing is taken back when the next one cannot be made.

The reason is that the way up stops at the first path where making fails for another reason than
a missing folder. If what is there is no folder, nothing has been made yet, and the failure is
answered with the disk as it was. If it is a folder, all further folders lie in it and in each
other, where nothing was, and there is nothing that could be in the way of any of them
(`Disk.MadeFolder.makeFolder_eq`). So a failure can only come before the first folder is made.

The induction is on the paths above. It carries the statement that what was made so far is the
folder of the path above and the missing folders above that (`Disk.MadeFolder`), and one step
puts one more folder (`Disk.MadeFolder.put`). The answer of each step is an equation of its own,
so that the induction does not look into the program again. Paths are taken as parents are
written (`Path.IsTrimmed`), without idle segments at the end. Then what the path above it names
ends in a name too, and its entry can be looked for.

## What was missing

Before folders are made, the topmost of those that are missing is noted, and a rollback removes
everything from there on. What has to be known is that this takes away all that was made, and
nothing else. The path that is noted is missing, and every folder that was missing lies at or
below it (`Progress.firstMissing?_spec`). The latter is so because in a tree what lies below
something missing is missing: the missing ones among the folders above a path are the lowest of
them, and the topmost is the one above which everything is there.
-/

namespace Fabula

namespace Path

/-- **A path as parents are written**: it does not go up, and when it names
something it ends in a name. -/
structure IsTrimmed (p : Path) : Prop where
  goesUp : p.goesUp = false
  lastSegment : p.names ≠ [] → isIdle p.lastSegment = false

theorem isTrimmed_of_parent? {p q : Path} (hup : p.goesUp = false) (h : p.parent? = some q) :
    q.IsTrimmed := by
  refine ⟨goesUp_parent? h hup, ?_⟩
  by_cases ht : trimIdle p.segments = []
  · rw [parent?, ht] at h
    replace h : (if p.lead = ['.'] then some ⟨[]⟩ else none) = some q := h
    split at h
    · obtain rfl := Option.some.inj h
      exact fun h0 => absurd rfl h0
    · cases h
  · obtain ⟨q', _, hq', _, _, _, hlast⟩ := exists_parent? hup ht
    obtain rfl := Option.some.inj (hq'.symm.trans h)
    exact hlast

theorem IsTrimmed.endsInName {p : Path} (hp : p.IsTrimmed) (h : p.names ≠ []) :
    p.endsInName = true :=
  endsInName_of_lastSegment hp.goesUp (hp.lastSegment h)

theorem IsTrimmed.no_slash {p : Path} (hp : p.IsTrimmed) (h : p.names ≠ []) :
    p.text.getLast? ≠ some '/' := by
  have hne : p.text ≠ [] := (exists_of_endsInName (hp.endsInName h)).1
  rw [ne_eq, ← lastSegment_eq_nil_iff hne]
  exact fun h0 => absurd (hp.lastSegment h) (by rw [h0]; simp)

/-- A path that takes no step is the root. -/
theorem isAbsolute_of_entrySteps_eq_nil {p : Path} (ht : p.text ≠ []) (h : p.entrySteps = []) :
    p.isAbsolute = true := by
  rw [entrySteps_eq ht, List.map_eq_nil_iff, written] at h
  obtain ⟨c, cs, hc⟩ := List.exists_cons_of_ne_nil ht
  rw [isAbsolute, hc, List.head?_cons, beq_iff_eq]
  by_contra hslash
  obtain ⟨piece, pieces, hp⟩ := List.exists_cons_of_ne_nil (Text.split_ne_nil '/' cs)
  rw [hc, Text.split_cons_of_ne (fun h0 => hslash (by rw [h0])) hp] at h
  simp at h

end Path

namespace Disk

variable {d d' : Disk}

/-! ## Making one folder -/

/-- A way that goes nowhere leads where it starts. -/
theorem walk_stays (ending : Ending) (links : ℕ) (a : Address) {steps : List PathStep}
    (hup : .up ∉ steps) (h : steps.filterMap PathStep.name? = []) :
    d.walk ending links a steps = .ok a ∨ d.walk ending links a steps = .error .notFolder := by
  induction steps with
  | nil => exact .inl (walk_nil d ending links a)
  | cons step steps ih =>
    rw [List.mem_cons, not_or] at hup
    cases step with
    | up => exact absurd rfl hup.1
    | enter n => simp at h
    | stay =>
      rw [walk_stay]
      split
      · exact ih hup.2 h
      · exact .inr rfl

theorem makeFolder_eq {p : Path} {a : Address} (h : d.entryAddress p = .ok a) :
    d.makeFolder p = if d.get? a = none then .ok (d.put a .folder) else .error .exists := by
  rw [makeFolder, h]
  dsimp only [bind, Except.bind]
  split
  · rename_i e he
    rw [if_neg (by simp [he])]
    rfl
  · rename_i he
    rw [if_pos he]
    rfl

/-- A folder is made in a folder, where nothing is. -/
theorem makeFolder_of_free (hd : d.IsPlain) {p : Path} (hp : p.IsTrimmed) (hn : p.names ≠ [])
    (hparent : d.get? (d.addressOf p).dropLast = some .folder)
    (hfree : d.get? (d.addressOf p) = none) :
    d.makeFolder p = .ok (d.put (d.addressOf p) .folder) := by
  have ha := (entryAddress_eq_ok_iff hd hp.goesUp (hp.endsInName hn)).2 ⟨rfl, hparent⟩
  rw [makeFolder_eq ha, if_pos hfree]

/-- What a path without names leads to is there already. -/
theorem entryAddress_of_names_eq_nil {p : Path} (hp : p.goesUp = false) (ht : p.text ≠ [])
    (hn : p.names = []) :
    (d.entryAddress p = .ok (d.startOf p) ∧ d.get? (d.startOf p) = some .folder) ∨
      d.entryAddress p = .error .notFolder := by
  have hup := Path.up_notMem_entrySteps hp
  have hnames := Path.filterMap_entrySteps hp ht
  rw [hn] at hnames
  rw [entryAddress, if_neg ht]
  cases hs : p.entrySteps with
  | nil =>
    refine .inl ⟨walk_nil _ _ _ _, ?_⟩
    rw [startOf, if_pos (Path.isAbsolute_of_entrySteps_eq_nil ht hs), get?_root]
  | cons step steps =>
    rw [hs] at hup hnames
    rw [List.mem_cons, not_or] at hup
    cases step with
    | up => exact absurd rfl hup.1
    | enter n => simp at hnames
    | stay =>
      rw [walk_stay]
      by_cases hf : d.get? (d.startOf p) = some .folder
      · rw [if_pos hf]
        exact (walk_stays _ _ _ hup.2 hnames).imp_left fun h0 => ⟨h0, hf⟩
      · rw [if_neg hf]
        exact .inr rfl

/-- **What making a folder found**: a folder to hold it, and nothing in its place. -/
theorem of_makeFolder_eq_ok (hd : d.IsPlain) {p : Path} (hp : p.IsTrimmed) (ht : p.text ≠ [])
    (h : d.makeFolder p = .ok d') : p.names ≠ [] ∧
      d.get? (d.addressOf p).dropLast = some .folder ∧ d.get? (d.addressOf p) = none ∧
      d' = d.put (d.addressOf p) .folder := by
  cases ha : d.entryAddress p with
  | error e =>
    rw [makeFolder, ha] at h
    cases h
  | ok a =>
    rw [makeFolder_eq ha] at h
    split at h
    · rename_i hfree
      by_cases hn : p.names = []
      · rcases entryAddress_of_names_eq_nil hp.goesUp ht hn (d := d) with ⟨h0, hf⟩ | h0
        · obtain rfl := Except.ok.inj (ha.symm.trans h0)
          rw [hf] at hfree
          cases hfree
        · rw [ha] at h0
          cases h0
      · obtain ⟨rfl, hparent⟩ := (entryAddress_eq_ok_iff hd hp.goesUp (hp.endsInName hn)).1 ha
        exact ⟨hn, hparent, hfree, (Except.ok.inj h).symm⟩
    · cases h

/-- Where a folder above is missing, nothing is at the path. -/
theorem of_makeFolder_eq_notFound (hd : d.IsPlain) {p : Path} (hp : p.IsTrimmed)
    (ht : p.text ≠ []) (h : d.makeFolder p = .error .notFound) :
    p.names ≠ [] ∧ d.get? (d.addressOf p) = none := by
  have hnames : p.names ≠ [] := by
    intro hn
    rcases entryAddress_of_names_eq_nil hp.goesUp ht hn (d := d) with ⟨h0, hf⟩ | h0
    · rw [makeFolder_eq h0, if_neg (by simp [hf])] at h
      cases h
    · rw [makeFolder, h0] at h
      cases h
  refine ⟨hnames, ?_⟩
  by_contra hne
  have ha := entryAddress_of_get? hd hp.goesUp (hp.endsInName hnames) hne
  rw [makeFolder_eq ha, if_neg hne] at h
  cases h

/-! ## Making the folders above as well -/

/-- **A folder was made**, with the folders above it that were missing. -/
structure MadeFolder (d : Disk) (p : Path) (d' : Disk) : Prop where
  plain : d'.IsPlain
  cwd_eq : d'.cwd = d.cwd
  /-- The path starts in a folder. -/
  start : d.get? (d.startOf p) = some .folder
  /-- Nothing stood in the way. -/
  before : ∀ c, c <+: d.addressOf p → d.get? c = none ∨ d.get? c = some .folder
  get?_eq : ∀ c, d'.get? c = if c <+: d.addressOf p then some .folder else d.get? c

/-- A folder that is there needs not be made. -/
theorem madeFolder_self (hd : d.IsPlain) {p : Path} (h : d.get? (d.addressOf p) = some .folder) :
    d.MadeFolder p d := by
  have habove : ∀ c, c <+: d.addressOf p → d.get? c = some .folder :=
    fun c hc => hd.folder_of_folder hc h
  refine ⟨hd, rfl, habove _ (startOf_prefix_addressOf d p), fun c hc => .inr (habove c hc), ?_⟩
  intro c
  split
  · exact habove c ‹_›
  · rfl

/-- A folder that is made in a folder that was made. -/
theorem MadeFolder.put {p q : Path} {n : Text} (hq : d.MadeFolder q d')
    (hcomp : p.components = q.components ++ [.name n]) (hfree : d.get? (d.addressOf p) = none) :
    d.MadeFolder p (d'.put (d.addressOf p) .folder) := by
  have ha : d.addressOf p = d.addressOf q ++ [n] := addressOf_concat hcomp
  have hne : d.addressOf p ≠ [] := by
    rw [ha]
    exact List.concat_ne_nil _ _
  have hstart : d.startOf p = d.startOf q := by
    rw [startOf, startOf, Path.isAbsolute_concat hcomp]
  have hparent : d'.get? (d.addressOf p).dropLast = some .folder := by
    rw [ha, List.dropLast_concat, hq.get?_eq, if_pos (List.prefix_refl _)]
  refine ⟨hq.plain.put hne hparent (.inl rfl) (by simp), hq.cwd_eq, hstart ▸ hq.start, ?_, ?_⟩
  · intro c hc
    rw [ha, List.prefix_concat_iff] at hc
    rcases hc with rfl | hc
    · rw [← ha]
      exact .inl hfree
    · exact hq.before c hc
  · intro c
    rw [get?_put_of_ne_nil _ hne, hq.get?_eq, ha]
    simp only [List.prefix_concat_iff]
    by_cases hc : c = d.addressOf q ++ [n]
    · rw [if_pos hc, if_pos (.inl hc)]
    · rw [if_neg hc]
      by_cases hcq : c <+: d.addressOf q
      · rw [if_pos hcq, if_pos (.inr hcq)]
      · rw [if_neg hcq, if_neg (not_or.2 ⟨hc, hcq⟩)]

theorem isFolder_iff {p : Path} : d.isFolder p = true ↔ d.entryOf? p = some .folder := by
  rw [isFolder, beq_iff_eq]

/-- A path that names something lies in a folder, and that is written as parents
are. -/
theorem exists_trimmed_parent {p : Path} (hp : p.IsTrimmed) (hn : p.names ≠ []) :
    ∃ q n, p.parent? = some q ∧ q.IsTrimmed ∧ p.components = q.components ++ [.name n] := by
  obtain ⟨q, n, hq, _, _, hcomp, _⟩ :=
    Path.exists_parent? hp.goesUp (Path.trimIdle_ne_nil_of_names hn)
  exact ⟨q, n, hq, Path.isTrimmed_of_parent? hp.goesUp hq, hcomp⟩

/-- **A folder can be made in the one above it that was made.** -/
theorem MadeFolder.makeFolder_eq {p q : Path} {n : Text} (hq : d.MadeFolder q d')
    (hp : p.IsTrimmed) (hn : p.names ≠ []) (hcomp : p.components = q.components ++ [.name n])
    (hfree : d.get? (d.addressOf p) = none) :
    d'.makeFolder p = .ok (d'.put (d.addressOf p) .folder) := by
  have hat : d'.addressOf p = d.addressOf p := addressOf_of_cwd_eq hq.cwd_eq p
  have ha : d.addressOf p = d.addressOf q ++ [n] := addressOf_concat hcomp
  have hparent : d'.get? (d'.addressOf p).dropLast = some .folder := by
    rw [hat, ha, List.dropLast_concat, hq.get?_eq, if_pos (List.prefix_refl _)]
  have hnone : d'.get? (d'.addressOf p) = none := by
    rw [hat, hq.get?_eq, if_neg, hfree]
    rw [ha]
    exact fun hpre => absurd hpre.length_le (by simp)
  rw [makeFolder_of_free hq.plain hp hn hparent hnone, hat]

section Go

variable {p q : Path}

/-- Nothing is to be made for the empty path. -/
theorem makeFolders_go_of_empty (ht : p.text = []) : makeFolders.go d p.ancestors = (.ok (), d) := by
  rw [Path.ancestors_eq, makeFolders.go, if_pos ht]

/-- A folder that can be made is all there is to make. -/
theorem makeFolders_go_of_ok (ht : p.text ≠ []) (hm : d.makeFolder p = .ok d') :
    makeFolders.go d p.ancestors = (.ok (), d') := by
  rw [Path.ancestors_eq, makeFolders.go, if_neg ht, hm]

/-- Where a folder above is missing, those above are made first. -/
theorem makeFolders_go_of_notFound (ht : p.text ≠ []) (hm : d.makeFolder p = .error .notFound)
    (hq : p.parent? = some q) : makeFolders.go d p.ancestors =
      match makeFolders.go d q.ancestors with
      | (.ok (), d) => makeFolders.make d p
      | failed => failed := by
  rw [Path.ancestors_eq, makeFolders.go, if_neg ht, hm, hq]
  rfl

/-- What is refused for another reason is there already, or cannot be made. -/
theorem makeFolders_go_of_error {e : DiskError} (ht : p.text ≠ []) (hm : d.makeFolder p = .error e)
    (he : e ≠ .notFound) :
    makeFolders.go d p.ancestors = if d.isFolder p then (.ok (), d) else (.error e, d) := by
  rw [Path.ancestors_eq, makeFolders.go, if_neg ht, hm]
  cases e with
  | notFound => exact absurd rfl he
  | _ => rfl

end Go

/-- **Making folders makes all of them or none.** -/
theorem makeFolders_go_spec (hd : d.IsPlain) {p : Path} (hp : p.IsTrimmed) :
    (∃ e, makeFolders.go d p.ancestors = (.error e, d)) ∨
      ∃ d', makeFolders.go d p.ancestors = (.ok (), d') ∧
        if p.text = [] then d' = d else d.MadeFolder p d' := by
  induction hk : p.components.length using Nat.strong_induction_on generalizing p with
  | h k ih =>
  by_cases ht : p.text = []
  · refine .inr ⟨d, makeFolders_go_of_empty ht, ?_⟩
    rw [if_pos ht]
  simp only [if_neg ht]
  cases hm : d.makeFolder p with
  | ok d₁ =>
    obtain ⟨hn, hparent, hfree, rfl⟩ := of_makeFolder_eq_ok hd hp ht hm
    obtain ⟨q, n, _, _, hcomp⟩ := exists_trimmed_parent hp hn
    rw [addressOf_concat hcomp, List.dropLast_concat] at hparent
    exact .inr ⟨_, makeFolders_go_of_ok ht hm, (madeFolder_self hd hparent).put hcomp hfree⟩
  | error e =>
    by_cases he : e = .notFound
    · subst he
      obtain ⟨hn, hfree⟩ := of_makeFolder_eq_notFound hd hp ht hm
      obtain ⟨q, n, hq, hqt, hcomp⟩ := exists_trimmed_parent hp hn
      have hlen : q.components.length < k := by
        rw [← hk, hcomp, List.length_append]
        exact Nat.lt_succ_self _
      rw [makeFolders_go_of_notFound ht hm hq]
      rcases ih _ hlen hqt rfl with ⟨e, hgo⟩ | ⟨d₁, hgo, hmade⟩
      · rw [hgo]
        exact .inl ⟨e, rfl⟩
      rw [hgo]
      show (∃ e, makeFolders.make d₁ p = (.error e, d)) ∨
        ∃ d', makeFolders.make d₁ p = (.ok (), d') ∧ d.MadeFolder p d'
      rw [makeFolders.make]
      by_cases hqt' : q.text = []
      · -- nothing was made above, so the folder fails as it failed before
        rw [if_pos hqt'] at hmade
        subst hmade
        rw [hm]
        refine .inl ⟨.notFound, if_neg ?_⟩
        rw [isFolder_iff]
        intro hf
        rw [get?_of_entryOf? hd hp.goesUp hf] at hfree
        cases hfree
      · rw [if_neg hqt'] at hmade
        rw [hmade.makeFolder_eq hp hn hcomp hfree]
        exact .inr ⟨_, rfl, hmade.put hcomp hfree⟩
    · rw [makeFolders_go_of_error ht hm he]
      by_cases hf : d.isFolder p = true
      · rw [if_pos hf]
        exact .inr ⟨d, rfl, madeFolder_self hd (get?_of_entryOf? hd hp.goesUp (isFolder_iff.1 hf))⟩
      · rw [if_neg hf]
        exact .inl ⟨e, rfl⟩

end Disk

/-! ## What was missing -/

namespace Progress

variable {d : Disk}

/-- A path without names leads to where it starts. -/
theorem pathExists_of_names_eq_nil (hd : d.IsPlain) {p : Path} (hp : p.goesUp = false)
    (ht : p.text ≠ []) (hn : p.names = []) (hs : d.get? (d.startOf p) = some .folder) :
    d.pathExists p = true := by
  have ha : d.addressOf p = d.startOf p := by
    rw [Disk.addressOf, hn, List.append_nil]
  have hf : d.follow p = .ok (d.addressOf p) := by
    rw [Disk.follow_eq_ok_iff hd hp, ha]
    exact ⟨ht, rfl, by simp [hs], hs, fun _ => hs⟩
  rw [Disk.pathExists, Disk.entryOf?, hf, ha]
  show (d.get? (d.startOf p)).isSome = true
  rw [hs]
  rfl

theorem firstMissing?_eq_none {p : Path} (h : p.text = [] ∨ d.pathExists p = true) :
    firstMissing? d p = none := by
  rw [firstMissing?, Path.ancestors_eq, List.takeWhile_cons_of_neg]
  · rfl
  · rcases h with h | h <;> simp [h]

theorem firstMissing?_eq {p q : Path} (hq : p.parent? = some q) (ht : p.text ≠ [])
    (hp : d.pathExists p ≠ true) :
    firstMissing? d p = some ((firstMissing? d q).getD p) := by
  rw [firstMissing?, Path.ancestors_eq, List.takeWhile_cons_of_pos (by simp [ht, hp]), hq]
  exact List.getLast?_cons

/-- **The topmost missing folder**: it is missing, and so is nothing that the path
needs and that does not lie below it. -/
theorem firstMissing?_spec (hd : d.IsPlain) {p : Path} (hp : p.IsTrimmed) (ht : p.text ≠ [])
    (hs : d.get? (d.startOf p) = some .folder) :
    match firstMissing? d p with
    | none => d.get? (d.addressOf p) ≠ none
    | some top => top.IsTrimmed ∧ top.names ≠ [] ∧ d.get? (d.addressOf top) = none ∧
        d.addressOf top <+: d.addressOf p ∧
        ∀ c, c <+: d.addressOf p → d.get? c = none → d.addressOf top <+: c := by
  induction hk : p.components.length using Nat.strong_induction_on generalizing p with
  | h k ih =>
  by_cases hex : d.pathExists p = true
  · rw [firstMissing?_eq_none (.inr hex)]
    obtain ⟨e, he⟩ := Option.isSome_iff_exists.1 hex
    show d.get? (d.addressOf p) ≠ none
    rw [Disk.get?_of_entryOf? hd hp.goesUp he]
    simp
  · have hn : p.names ≠ [] := fun hn => hex (pathExists_of_names_eq_nil hd hp.goesUp ht hn hs)
    have hnone : d.get? (d.addressOf p) = none := by
      rw [← Disk.entryOf?_eq hd hp.goesUp (hp.endsInName hn) (hp.no_slash hn)]
      simpa [Disk.pathExists] using hex
    obtain ⟨q, n, hq, hqt, hcomp⟩ := Disk.exists_trimmed_parent hp hn
    have ha : d.addressOf p = d.addressOf q ++ [n] := Disk.addressOf_concat hcomp
    have hs' : d.get? (d.startOf q) = some .folder := by
      rwa [Disk.startOf, ← Path.isAbsolute_concat hcomp]
    rw [firstMissing?_eq hq ht hex]
    -- the path itself is the topmost, when what is above it is there
    have hself : d.get? (d.addressOf q) ≠ none → p.IsTrimmed ∧ p.names ≠ [] ∧
        d.get? (d.addressOf p) = none ∧ d.addressOf p <+: d.addressOf p ∧
        ∀ c, c <+: d.addressOf p → d.get? c = none → d.addressOf p <+: c := by
      refine fun hqe => ⟨hp, hn, hnone, List.prefix_refl _, fun c hc hcn => ?_⟩
      rw [ha, List.prefix_concat_iff, ← ha] at hc
      rcases hc with rfl | hc
      · exact List.prefix_refl _
      · exact absurd (hd.get?_none_below hc hcn) hqe
    by_cases hqt' : q.text = []
    · rw [firstMissing?_eq_none (.inl hqt')]
      refine hself ?_
      have : d.addressOf q = d.startOf q := by
        rw [Disk.addressOf, Path.names, Path.components_eq_nil_iff.2 hqt', List.filterMap_nil,
          List.append_nil]
      rw [this, hs']
      simp
    · have hlen : q.components.length < k := by
        rw [← hk, hcomp, List.length_append]
        exact Nat.lt_succ_self _
      have hrec := ih _ hlen hqt hqt' hs' rfl
      cases hf : firstMissing? d q with
      | none =>
        rw [hf] at hrec
        exact hself hrec
      | some top =>
        rw [hf] at hrec
        obtain ⟨htop, htn, hmiss, hpre, habove⟩ := hrec
        have hpre' : d.addressOf top <+: d.addressOf p := ha ▸ hpre.trans (List.prefix_append _ _)
        refine ⟨htop, htn, hmiss, hpre', fun c hc hcn => ?_⟩
        rw [ha, List.prefix_concat_iff, ← ha] at hc
        rcases hc with rfl | hc
        · exact hpre'
        · exact habove c hc hcn

end Progress

end Fabula
