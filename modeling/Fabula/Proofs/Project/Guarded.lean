import Fabula.Proofs.Disk.Links
import Fabula.Proofs.Disk.Write
import Fabula.Proofs.Outcome

/-!
# What the check says of the entry that is changed

A path is checked by what it leads to, its last link followed, while creating, replacing and
removing act on the entry that its name is of, in the folder that the path above it leads to
(`Disk.affected`). The two are one unless that entry is a link. So what the check passes is an
entry in the data folder, or a link that leads into it (`Disk.affected_of_ensureWithin`). The
second case is not a gap in the proof: a link outside, which leads to a file inside, passes, and
the link is what is replaced.

## What is resolved

A path is resolved by climbing from it to what exists. The climb is described by a relation,
with one case for a path that leads somewhere, and one for a path that does not, which is
resolved by the path above it with its name behind (`Disk.Resolves`). This has the recursion of
the climb and not its bound, and inductions go over its cases.

In the first case the path leads to an entry. The folder above leads to where the entry is held,
if no link is followed from there on. So the entry that is changed is the one the path leads to,
or it is a link. In the second case the path above is resolved in the same way, and the name
behind it is the one of the entry (`Disk.Resolves.eq_affected`).

## Folders that are made

A path whose folders are still to be made is checked by the nearest one that exists. The missing
ones will be made below that, each at or above the address of the path
(`Disk.Resolves.above_missing`), so whatever is made for a path that passed the check lies below
something that passed it, too.
-/

namespace Fabula

namespace Disk

variable {d : Disk} {p q root : Path} {a b c R : Address} {n : Text}

/-- **The entry that is changed at a path**: the one of its name, in the folder that the path
above it leads to. -/
def affected (d : Disk) (p : Path) : Except DiskError Address :=
  match p.parent?, p.fileName? with
  | some folder, some name => do
    let (_, a) ← d.workFolder folder
    pure (a ++ [name])
  | _, _ => .error .busy

theorem affected_eq (hq : p.parent? = some q) (hn : p.fileName? = some n)
    (hf : d.follow (d.absolute q) = .ok b) (hb : d.get? b = some .folder) :
    d.affected p = .ok (b ++ [n]) := by
  rw [affected, hq, hn]
  simp only [workFolder_eq_ok_iff_follow.2 ⟨rfl, hf, hb⟩]
  rfl

theorem of_affected_eq_ok (h : d.affected p = .ok a) : ∃ q n b, p.parent? = some q ∧
    p.fileName? = some n ∧ d.follow (d.absolute q) = .ok b ∧ d.get? b = some .folder ∧
      a = b ++ [n] := by
  rw [affected] at h
  split at h
  · rename_i q n hq hn
    cases hw : d.workFolder q with
    | error e =>
      rw [hw] at h
      cases h
    | ok wb =>
      obtain ⟨w, b⟩ := wb
      obtain ⟨_, hf, hb⟩ := workFolder_eq_ok_iff_follow.1 hw
      rw [hw] at h
      exact ⟨q, n, b, hq, hn, hf, hb, (Except.ok.inj h).symm⟩
  · cases h

/-- The path above a path starts where the path starts. -/
theorem startOf_parent? (hup : p.goesUp = false) (hq : p.parent? = some q)
    (hn : p.fileName? = some n) : d.startOf q = d.startOf p ∧ q.goesUp = false := by
  obtain ⟨q', n', hq', _, _, hcomp, _⟩ :=
    Path.exists_parent? hup (Path.trimIdle_ne_nil_of_fileName? hn)
  obtain rfl := Option.some.inj (hq'.symm.trans hq)
  exact ⟨by rw [startOf, startOf, Path.isAbsolute_concat hcomp],
    (Path.goesUp_concat hcomp).symm.trans hup⟩

/-! ## The entry and what the path leads to -/

/-- **The entry a path names is the one that is changed at it.** -/
theorem affected_of_entryAddress (hd : d.IsTree) (hup : p.goesUp = false)
    (hend : p.endsInName = true) (h : d.entryAddress p = .ok a) : d.affected p = .ok a := by
  obtain ⟨_, hw⟩ := entryAddress_eq_ok_iff_walks.1 h
  obtain ⟨q, n, k, hq, hn, hway⟩ := Path.exists_way_of_endsInName hup hend
  obtain ⟨hstart, _⟩ := startOf_parent? (d := d) hup hq hn
  rw [hway] at hw
  have hfolder := hw.folder (by simp)
  obtain ⟨b, links, hqw, hnw⟩ := hw.split (by simp)
  obtain ⟨rfl, hb⟩ := hnw.of_stays.of_enter_entry
  refine affected_eq hq hn (follow_of_walks (text_absolute_ne_nil d q) hb ?_) hb
  rw [← hstart] at hqw hfolder
  rw [startOf_absolute hd.cwd_names]
  exact (walks_absolute_iff hd hfolder).2 hqw

/-! ## What is resolved -/

/-- A path, or the working folder when it is empty. -/
def orHere (q : Path) : Path :=
  if q.text = [] then ⟨['.']⟩ else q

theorem follow_orHere (hb : d.get? b = some .folder)
    (h : d.Walks .existing maxLinks (d.startOf q) q.way b) : d.follow (orHere q) = .ok b := by
  rw [orHere]
  split
  · obtain ⟨t⟩ := q
    obtain rfl : t = [] := ‹_›
    cases h
    exact follow_eq_ok_iff_walks.2 ⟨by simp, .stay hb .done⟩
  · exact follow_of_walks ‹_› hb h

/-- **How a path is resolved**: by what it leads to, or with its name behind what the path above
it is resolved by. -/
inductive Resolves (d : Disk) : Path → List Text → Address → Prop
  | here {p : Path} {missing : List Text} {b : Address} (h : d.follow p = .ok b) :
      Resolves d p missing (b ++ missing)
  | above {p q : Path} {n : Text} {missing : List Text} {a : Address}
      (hf : ∀ b, d.follow p ≠ .ok b) (hn : p.fileName? = some n) (hq : p.parent? = some q)
      (h : Resolves d (orHere q) (n :: missing) a) : Resolves d p missing a

theorem resolves_of_resolve_go {k : ℕ} {existing : Path} {missing : List Text}
    (h : resolve.go d p k existing missing = .ok a) : d.Resolves existing missing a := by
  induction k generalizing existing missing with
  | zero =>
    cases hf : d.follow existing with
    | ok b =>
      rw [resolve_go_of_ok hf] at h
      rw [← Except.ok.inj h]
      exact .here hf
    | error e =>
      unfold resolve.go at h
      simp only [hf] at h
      cases h
  | succ k ih =>
    cases hf : d.follow existing with
    | ok b =>
      rw [resolve_go_of_ok hf] at h
      rw [← Except.ok.inj h]
      exact .here hf
    | error e =>
      cases hn : existing.fileName? with
      | none =>
        rw [resolve.go.eq_def] at h
        simp only [hf, hn] at h
        cases h
      | some n =>
        cases hq : existing.parent? with
        | none =>
          rw [resolve.go.eq_def] at h
          simp only [hf, hn, hq] at h
          cases h
        | some q =>
          rw [resolve_go_succ hf hn hq] at h
          exact .above (by simp [hf]) hn hq (ih h)

theorem resolves_of_resolve (h : d.resolve p = .ok a) : d.Resolves p [] a :=
  resolves_of_resolve_go h

/-- What a path that resolves starts from is a folder. -/
theorem Resolves.folder {missing : List Text} (h : d.Resolves p missing a)
    (hup : p.goesUp = false) : d.get? (d.startOf p) = some .folder := by
  induction h with
  | here h => exact (follow_eq_ok_iff_walks.1 h).2.folder (Path.steps_ne_nil _)
  | @above p q n _ _ _ hn hq _ ih =>
    obtain ⟨hstart, hqup⟩ := startOf_parent? (d := d) hup hq hn
    rw [← hstart]
    rw [orHere] at ih
    split at ih
    · obtain ⟨t⟩ := q
      obtain rfl : t = [] := ‹_›
      exact ih rfl
    · exact ih hqup

/-- **What a path is resolved by is the entry that is changed at it**, unless that is a link. -/
theorem Resolves.eq_affected (hd : d.IsTree) (h : d.Resolves p [] c) (hup : p.goesUp = false)
    (ha : d.affected p = .ok a) :
    c = a ∨ (∃ t, d.get? a = some (.link t)) ∧ d.follow p = .ok c := by
  obtain ⟨q, n, b, hq, hn, hf, hb, rfl⟩ := of_affected_eq_ok ha
  obtain ⟨hstart, _⟩ := startOf_parent? (d := d) hup hq hn
  have hfolder := h.folder hup
  rw [← hstart] at hfolder
  have hqw := (walks_of_follow hf).2
  rw [startOf_absolute hd.cwd_names, walks_absolute_iff hd hfolder] at hqw
  cases h with
  | here h =>
    obtain ⟨k, l, hway⟩ := Path.exists_way_of_parent? hq hn
    obtain ⟨_, hw⟩ := walks_of_follow h
    rw [hway, ← hstart] at hw
    obtain ⟨b', links, hqw', hw⟩ := hw.split (by simp)
    obtain rfl := hqw'.unique hqw
    rw [List.append_nil]
    rcases hw.of_stays.of_enter_existing rfl with hlink | rfl
    · exact .inr ⟨hlink, h⟩
    · exact .inl rfl
  | above hf' hn' hq' h =>
    obtain rfl := Option.some.inj (hq'.symm.trans hq)
    obtain rfl := Option.some.inj (hn'.symm.trans hn)
    have hb' := follow_orHere hb hqw
    cases h with
    | here h =>
      rw [← Except.ok.inj (hb'.symm.trans h)]
      exact .inl rfl
    | above hf'' _ _ _ => exact absurd hb' (hf'' b)

/-- **Missing folders are missing where the path resolves**: a path above that names an entry
which is missing names one at or above the address of the path. -/
theorem Resolves.above_missing (hd : d.IsTree) {missing : List Text} (h : d.Resolves p missing c)
    (hup : p.goesUp = false) {s : Path} (hs : s ∈ p.ancestors) (hne : s.text ≠ [])
    (ha : d.entryAddress s = .ok a) (hnone : d.get? a = none) : a <+: c := by
  have hfolder := h.folder hup
  induction h with
  | @here p missing b h =>
    -- the path leads to something, and so does what is above it
    obtain ⟨⟨rest, hrest⟩, hcomp⟩ := Path.way_of_mem_ancestors hup hs
    have hstart : d.startOf p = d.startOf s := by
      rw [startOf, startOf, isAbsolute_of_within hne (List.isPrefixOf_iff_prefix.2 hcomp)]
    obtain ⟨_, hw⟩ := walks_of_follow h
    obtain ⟨_, hentry⟩ := entryAddress_eq_ok_iff_walks.1 ha
    rw [← hrest] at hw
    rw [← hstart] at hentry
    obtain ⟨b', hw'⟩ : ∃ b', d.Walks .existing maxLinks (d.startOf p) s.way b' := by
      by_cases hr : rest = []
      · rw [hr, List.append_nil] at hw
        exact ⟨b, hw⟩
      · obtain ⟨b', _, hw', _⟩ := hw.split hr
        exact ⟨b', hw'⟩
    exact absurd hnone (hentry.ne_none_of_existing hd hw' (by simp [hfolder]))
  | @above p q n missing c hf hn hq h ih =>
    obtain ⟨hstart, hqup⟩ := startOf_parent? (d := d) hup hq hn
    rw [Path.ancestors_eq, hq, Option.map_some, Option.getD_some] at hs
    rcases List.mem_cons.1 hs with rfl | hs
    · obtain ⟨k, l, hway⟩ := Path.exists_way_of_parent? hq hn
      obtain ⟨_, hentry⟩ := entryAddress_eq_ok_iff_walks.1 ha
      rw [hway, ← hstart] at hentry
      obtain ⟨b, links, hqw, hentry⟩ := hentry.split (by simp)
      obtain ⟨rfl, hb⟩ := hentry.of_stays.of_enter_missing rfl hnone
      have hb' := follow_orHere hb hqw
      cases h with
      | here h =>
        rw [← Except.ok.inj (hb'.symm.trans h)]
        exact ⟨missing, by simp⟩
      | above hf' _ _ _ => exact absurd hb' (hf' b)
    · have hqne : q.text ≠ [] := by
        intro h0
        obtain ⟨t⟩ := q
        obtain rfl : t = [] := h0
        obtain rfl := List.mem_singleton.1 hs
        exact hne rfl
      rw [orHere, if_neg hqne] at ih
      exact ih hqup hs (hstart ▸ hfolder)

/-! ## What the check passes -/

/-- What a path that passes the check is resolved by lies in the folder. -/
theorem exists_resolve_of_ensureWithin (h : d.ensureWithin p root = .ok ()) :
    p.goesUp = false ∧ ∃ R c, d.follow root = .ok R ∧ d.resolve p = .ok c ∧ R <+: c := by
  rw [ensureWithin] at h
  split at h
  · cases h
  · rename_i hup
    split at h
    · cases h
    · rename_i R hR
      obtain ⟨c, hc, h⟩ := Outcome.bind_eq_ok.1 h
      split at h
      · rename_i hpre
        exact ⟨by simpa using hup, R, c, hR, hc, List.isPrefixOf_iff_prefix.1 hpre⟩
      · cases h

/-- **What is changed at a path that passes the check** lies in the folder, or is a link that
leads into it. -/
theorem affected_of_ensureWithin (hd : d.IsTree) (h : d.ensureWithin p root = .ok ())
    (ha : d.affected p = .ok a) : ∃ R, d.follow root = .ok R ∧
      (R <+: a ∨ ∃ t c, d.get? a = some (.link t) ∧ d.follow p = .ok c ∧ R <+: c) := by
  obtain ⟨hup, R, c, hR, hc, hpre⟩ := exists_resolve_of_ensureWithin h
  refine ⟨R, hR, ?_⟩
  rcases (resolves_of_resolve hc).eq_affected hd hup ha with rfl | ⟨⟨t, ht⟩, hf⟩
  · exact .inl hpre
  · exact .inr ⟨t, c, ht, hf, hpre⟩

end Disk

end Fabula
