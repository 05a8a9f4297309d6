import Fabula.Proofs.Disk.Removal

/-!
# Moving several things aside

What is removed is moved aside one after the other, each move on the disk the last one left.
This module says what the disk is after any number of moves, and that they can be undone.

Each move puts a hidden folder beside a path and moves what is at the path into it. The name of
the folder is made up, and is longer than all names which are on the disk or may be used. An
address of short names is therefore in no hidden folder (`Disk.IsShort`), and the disk is
described at these addresses only. What lay at or below the paths is gone from there, and all
else is as it was (`Disk.Moves.get?_eq`). At any other address there is at most what the hidden
folders hold.

## Back

Moved back in the opposite order, everything is where it was. The proof is by induction from the
last move, which is the first to be undone. It is undone on the disk that it left, or on one
that differs from it a little, as a commit that failed may leave files at empty places where
there were files before. Such a disk covers the one that was left (`Disk.Covers`), and the
statement is made for all disks that do (`Disk.Moves.restore_covers`). In the end there are no
empty places where there were files, because all of these have been moved back, and the disk is
the same as before (`Disk.Moves.same_of_covers`).
-/

namespace Fabula

namespace Disk

/-- **An address of names that are short enough** not to be made up. -/
def IsShort (reserved : ℕ) (c : Address) : Prop :=
  ∀ n ∈ c, n.length ≤ reserved

theorem isShort_of_get? {d : Disk} {reserved : ℕ} (hr : d.longestName ≤ reserved) {c : Address}
    (h : d.get? c ≠ none) : IsShort reserved c :=
  fun _ hn => (length_le_longestName h hn).trans hr

/-- The names that lead to the working folder are short. -/
theorem isShort_cwd {d : Disk} {reserved : ℕ} (hr : d.longestName ≤ reserved) :
    IsShort reserved d.cwd := by
  intro n hn
  refine le_trans (le_foldr_max ?_) hr
  exact List.mem_append_left _ (List.mem_map_of_mem (List.mem_append_left _ hn))

theorem isShort_startOf {d : Disk} {reserved : ℕ} (hr : d.longestName ≤ reserved) (p : Path) :
    IsShort reserved (d.startOf p) := by
  rw [startOf]
  split
  · exact fun n hn => absurd hn List.not_mem_nil
  · exact isShort_cwd hr

/-- A path spells a short address. -/
theorem isShort_addressOf {d : Disk} {reserved : ℕ} (hr : d.longestName ≤ reserved) {p : Path}
    (hp : p.text.length ≤ reserved) : IsShort reserved (d.addressOf p) := by
  intro n hn
  rw [addressOf, List.mem_append] at hn
  rcases hn with hn | hn
  · exact isShort_startOf hr p n hn
  · exact (Path.length_le_of_mem_names hn).trans hp

/-- The places where files were. -/
def filesOf (d : Disk) (c : Address) : Prop :=
  ∃ content, d.get? c = some (.file content)

/-- **Moves one after the other.** -/
inductive Moves (reserved : ℕ) (d : Disk) : List Moved → Disk → Prop
  | nil : Moves reserved d [] d
  | snoc {ms : List Moved} {m : Moved} {d₁ d₂ : Disk} (hs : Moves reserved d ms d₁)
      (h : d₁.MovedAside reserved m d₂) : Moves reserved d (ms ++ [m]) d₂

namespace Moves

variable {reserved : ℕ} {d d' D : Disk} {ms : List Moved}

theorem plain (h : Moves reserved d ms d') (hd : d.IsPlain) : d'.IsPlain := by
  cases h with
  | nil => exact hd
  | snoc _ h => exact h.plain

theorem cwd_eq (h : Moves reserved d ms d') : d'.cwd = d.cwd := by
  induction h with
  | nil => rfl
  | snoc _ h ih => exact h.cwd_eq.trans ih

theorem addressOf_eq (h : Moves reserved d ms d') (p : Path) : d'.addressOf p = d.addressOf p :=
  addressOf_of_cwd_eq h.cwd_eq p

/-- **What is seen after the moves**: nothing at or below what was moved, and all
else as it was. -/
theorem get?_eq (h : Moves reserved d ms d') {c : Address} (hc : IsShort reserved c) :
    d'.get? c = if ∃ m ∈ ms, d.addressOf m.original <+: c then none else d.get? c := by
  induction h with
  | nil => rw [if_neg (by simp)]
  | @snoc ms m d₁ d₂ hs hm ih =>
    have hat : d₁.addressOf m.original = d.addressOf m.original := hs.addressOf_eq _
    by_cases ho : d.addressOf m.original <+: c
    · rw [if_pos ⟨m, by simp, ho⟩]
      rw [← hat] at ho
      obtain ⟨r, rfl⟩ := ho
      exact hm.gone r
    · rw [hm.kept c (hat ▸ ho) (hm.not_below_holder_of_short hc), ih]
      refine if_congr ?_ rfl rfl
      constructor
      · rintro ⟨m', hm', hpre⟩
        exact ⟨m', List.mem_append_left _ hm', hpre⟩
      · rintro ⟨m', hm', hpre⟩
        rcases List.mem_append.1 hm' with hm' | hm'
        · exact ⟨m', hm', hpre⟩
        · obtain rfl := List.mem_singleton.1 hm'
          exact absurd hpre ho

/-- What is at a short address is what was there, or nothing. -/
theorem get?_eq_or (h : Moves reserved d ms d') {c : Address} (hc : IsShort reserved c) :
    d'.get? c = none ∨ d'.get? c = d.get? c := by
  rw [h.get?_eq hc]
  split
  · exact .inl rfl
  · exact .inr rfl

theorem restore_concat (D : Disk) (ms : List Moved) (m : Moved) :
    D.restore (ms ++ [m]) = (D.putBack m).restore ms := by
  rw [restore, List.reverse_append]
  rfl

/-- **Moving back undoes the moves**, also on a disk that holds files in empty
places where there were files before. -/
theorem restore_covers (h : Moves reserved d ms d') (hd : d.IsPlain)
    (hr : d.longestName ≤ reserved) (hD : D.Covers d' d.filesOf) :
    (D.restore ms).Covers d d.filesOf := by
  have hshort : ∀ c, d.filesOf c → IsShort reserved c := by
    rintro c ⟨content, hc⟩
    exact isShort_of_get? hr (by simp [hc])
  induction h generalizing D with
  | nil => exact hD
  | @snoc ms m d₁ d₂ hs hm ih =>
    rw [restore_concat]
    refine ih (hD.putBack (hs.plain hd) hm hshort fun c hc => ?_)
    obtain ⟨content, hfile⟩ := hc
    rcases hs.get?_eq_or (hshort c ⟨content, hfile⟩) with h0 | h0 <;> rw [h0]
    · simp
    · simp [hfile]

/-- **Everything is where it was** after the moves are undone: where a file was
there is no empty place. -/
theorem same_of_covers (h : Moves reserved d ms d') (hd : d.IsPlain)
    (hr : d.longestName ≤ reserved) (hD : D.Covers d' d.filesOf) :
    (D.restore ms).IsPlain ∧ (D.restore ms).Same d := by
  have hcov := h.restore_covers hd hr hD
  refine ⟨hcov.plain, hcov.cwd_eq, fun c => ?_⟩
  rcases hcov.get?_eq c with h0 | ⟨⟨content, hfile⟩, hnone, _⟩
  · exact h0
  · rw [hfile] at hnone
    cases hnone

end Moves

theorem Covers.refl {d : Disk} (hd : d.IsPlain) (places : Address → Prop) : d.Covers d places :=
  ⟨hd, rfl, fun _ => .inl rfl⟩

/-- **Moving all aside** moves every path, or leaves everything as it was. -/
theorem moveAllAside_go_spec {reserved : ℕ} {d d₁ : Disk} (hd : d.IsPlain)
    (hr : d.longestName ≤ reserved) {ps : List Path} {moved : List Moved}
    (hp : ∀ p ∈ ps, p.goesUp = false ∧ p.text.length ≤ reserved)
    (h : Moves reserved d moved d₁) :
    match moveAllAside.go reserved d₁ moved ps with
    | (.ok ms, d') => Moves reserved d ms d' ∧
        ms.map Moved.original = moved.map Moved.original ++ ps
    | (.error _, d') => d'.IsPlain ∧ d'.Same d := by
  induction ps generalizing d₁ moved with
  | nil =>
    rw [moveAllAside.go]
    exact ⟨h, by simp⟩
  | cons p ps ih =>
    obtain ⟨hup, hlen⟩ := hp p List.mem_cons_self
    rw [moveAllAside.go]
    cases hm : d₁.moveAside reserved p with
    | error f =>
      exact h.same_of_covers hd hr (Covers.refl (h.plain hd) _)
    | ok r =>
      obtain ⟨m, d₂⟩ := r
      obtain ⟨ho, hmoved⟩ := movedAside_of_moveAside (h.plain hd) hup hlen hm
      have hrec := ih (fun q hq => hp q (List.mem_cons_of_mem _ hq)) (h.snoc hmoved)
      simp only
      split
      · rename_i hgo
        rw [hgo] at hrec
        refine ⟨hrec.1, ?_⟩
        rw [hrec.2, List.map_append, List.map_singleton, ho, List.append_assoc]
        rfl
      · rename_i hgo
        rw [hgo] at hrec
        exact hrec

end Disk

end Fabula
