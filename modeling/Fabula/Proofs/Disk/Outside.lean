import Fabula.Proofs.Disk.Links
import Fabula.Proofs.Staging.Moves

/-!
# A disk that changes inside one folder

The check against the data folder is made when a path is staged, and its result is used when the
commit comes to the path. In between the commit has written, moved and removed other things, all
of them inside the data folder. Without links that would not matter. With links, a path that was
checked may now lead elsewhere: what it passes may be gone, or be a folder where a link was.
This module shows that it still does not lead outside, as long as no link leads up.

## The argument

Compare a walk on the changed disk with the one that was made on the old disk. As long as it
stands outside of the folder, it finds what it found then, because nothing is different there.
Either it never comes to a difference, and then it ends where it ended before. Or it enters a
name and finds there what was not there before, and such an entry is inside
(`Disk.SameOutside.inside_of_ne`). If it was a folder and is none now, the walk can only end
there. If it was no folder, nothing was below it then. So there is no link below it now either:
none is put anywhere, and of those that were moved aside into a hidden folder no path can come
across one, its names being too short. From there on the walk goes from folder to folder below
the entry, and it cannot go up: the steps of the path do not, and neither do those of the links
that it was on the way of. It ends inside (`Disk.Walks.down`).

That is `Disk.SameOutside.walks`: a walk ends where it ended before, or inside. If links may
lead up it is false. A target that goes up from a folder which used to be a link leads somewhere
else than before, and possibly outside.

## What keeps a disk the same outside

Putting an entry that is no link, cutting a subtree, and moving one, keep the relation when they
are done inside. For moving it has to be asked what happens to the links in what is moved:
either there are none, or they come to where no path leads. Renaming combines these, so a whole
commit keeps it if each of its paths was found inside.
-/

namespace Fabula

/-- Where a link leads. -/
def Entry.target? : Entry → Option Path
  | .link target => some target
  | _ => none

namespace Disk

variable {d D : Disk} {ending : Ending} {links reserved : ℕ} {R a b c : Address}
  {s : List PathStep}

/-- **Below a folder**, and not the folder itself. -/
def Inside (R c : Address) : Prop :=
  R <+: c ∧ c ≠ R

theorem Inside.of_above (h : Inside R a) (hab : a <+: b) : Inside R b := by
  refine ⟨h.1.trans hab, ?_⟩
  rintro rfl
  exact h.2 (hab.eq_of_length_le h.1.length_le)

theorem Inside.ne_nil (h : Inside R a) : a ≠ [] := by
  rintro rfl
  exact h.2 (List.prefix_nil.1 h.1).symm

theorem inside_concat {n : Text} : Inside R (a ++ [n]) ↔ R <+: a := by
  rw [Inside, List.prefix_concat_iff]
  constructor
  · rintro ⟨h | h, hne⟩
    · exact absurd h.symm hne
    · exact h
  · intro h
    refine ⟨.inr h, fun h0 => ?_⟩
    have := h.length_le
    rw [← h0, List.length_append, List.length_singleton] at this
    omega

/-- **Steps of names that are short enough** not to be made up, none of which leads up. -/
structure AreShort (reserved : ℕ) (s : List PathStep) : Prop where
  length_le : ∀ n, .enter n ∈ s → n.length ≤ reserved
  up_notMem : .up ∉ s

theorem AreShort.of_cons {step : PathStep} (h : AreShort reserved (step :: s)) :
    AreShort reserved s :=
  ⟨fun n hn => h.length_le n (List.mem_cons_of_mem _ hn),
    fun hup => h.up_notMem (List.mem_cons_of_mem _ hup)⟩

theorem AreShort.append {s' : List PathStep} (h : AreShort reserved s)
    (h' : AreShort reserved s') : AreShort reserved (s ++ s') :=
  ⟨fun n hn => (List.mem_append.1 hn).elim (h.length_le n) (h'.length_le n),
    fun hup => (List.mem_append.1 hup).elim h.up_notMem h'.up_notMem⟩

theorem AreShort.of_sublist {s' : List PathStep} (h : AreShort reserved s')
    (hs : s ⊆ s') : AreShort reserved s :=
  ⟨fun n hn => h.length_le n (hs hn), fun hup => h.up_notMem (hs hup)⟩

/-- No link is longer than the longest name. -/
theorem length_le_of_link {t : Path} (h : d.get? a = some (.link t)) :
    t.text.length ≤ d.longestName := by
  have hne : a ≠ [] := by
    rintro rfl
    cases h
  exact le_foldr_max (List.mem_append_right _
    (List.mem_map.2 ⟨(a, .link t), mem_entries_of_get? hne h, rfl⟩))

theorem areShort_steps {p : Path} (hup : p.goesUp = false) (hp : p.text.length ≤ reserved) :
    AreShort reserved p.steps :=
  ⟨fun _ hn => (Path.length_le_of_mem_steps hn).trans hp, Path.up_notMem_steps hup⟩

theorem IsShort.concat {n : Text} (h : IsShort reserved a) (hn : n.length ≤ reserved) :
    IsShort reserved (a ++ [n]) := by
  intro m hm
  rcases List.mem_append.1 hm with hm | hm
  · exact h m hm
  · rwa [List.mem_singleton.1 hm]

/-- **Where no link is come across**, a walk goes down. -/
theorem Walks.down (hnone : ∀ c t, a <+: c → IsShort reserved c → D.get? c ≠ some (.link t))
    (ha : IsShort reserved a) (hs : AreShort reserved s) (h : D.Walks ending links a s b) :
    a <+: b := by
  induction h with
  | done => exact List.prefix_refl _
  | stay _ _ ih => exact ih hnone ha hs.of_cons
  | up _ _ _ => exact absurd List.mem_cons_self hs.up_notMem
  | missing _ _ _ => exact List.prefix_append _ _
  | @enter _ a _ n _ _ _ _ _ _ ih =>
    have hn := ha.concat (hs.length_le n List.mem_cons_self)
    exact (List.prefix_append a [n]).trans
      (ih (fun c t hc => hnone c t ((List.prefix_append a [n]).trans hc)) hn hs.of_cons)
  | entry _ _ _ => exact List.prefix_append _ _
  | @link _ a _ n t _ _ hn _ _ _ _ =>
    have hshort := ha.concat (hs.length_le n List.mem_cons_self)
    exact absurd hn (hnone _ t (List.prefix_append a [n]) hshort)

/-- **No link leads up.** -/
def LinksGoDown (d : Disk) : Prop :=
  ∀ c t, d.get? c = some (.link t) → t.goesUp = false

theorem linksGoDown_of_entries
    (h : ∀ x ∈ d.entries, ∀ t ∈ x.2.target?, t.goesUp = false) : d.LinksGoDown := by
  intro c t hc
  have hne : c ≠ [] := by
    rintro rfl
    cases hc
  exact h _ (mem_entries_of_get? hne hc) t rfl

/-- **The disk is the same outside a folder**, and its links were there before, but for those that
were moved to where no path leads. -/
structure SameOutside (R : Address) (reserved : ℕ) (d D : Disk) : Prop where
  cwd_eq : D.cwd = d.cwd
  get?_eq : ∀ c, ¬Inside R c → D.get? c = d.get? c
  link_eq : ∀ c t, IsShort reserved c → D.get? c = some (.link t) → d.get? c = some (.link t)

namespace SameOutside

theorem refl (R : Address) (reserved : ℕ) (d : Disk) : d.SameOutside R reserved d :=
  ⟨rfl, fun _ _ => rfl, fun _ _ _ h => h⟩

variable (h : d.SameOutside R reserved D)
include h

/-- Where something is different is inside. -/
theorem inside_of_ne (hc : D.get? c ≠ d.get? c) : Inside R c := by
  by_contra hin
  exact hc (h.get?_eq c hin)

/-- From what is inside and was no folder before, a walk stays inside. -/
theorem inside_of_new (hd : d.IsTree) (hnew : d.get? a ≠ some .folder)
    (hin : Inside R a) (ha : IsShort reserved a) (hs : AreShort reserved s)
    (hw : D.Walks ending links a s b) : Inside R b := by
  by_cases hne : s = []
  · subst hne
    cases hw
    exact hin
  · refine hin.of_above (hw.down (fun c t hac hc ht => ?_) ha hs)
    by_cases heq : a = c
    · rw [← heq, hw.folder hne] at ht
      cases ht
    · -- a link below would have been there before, and the folder with it
      exact hnew (hd.folder_above hac heq (h.link_eq c t hc ht))

/-- A step is taken from what was a folder before, or the walk stays inside. -/
theorem folder_or (hd : d.IsTree) (ha : IsShort reserved a) (hs : AreShort reserved s)
    (hw : D.Walks ending links a s b) (hf : D.get? a = some .folder) :
    d.get? a = some .folder ∨ Inside R b := by
  by_cases hfa : d.get? a = some .folder
  · exact .inl hfa
  · have hin := h.inside_of_ne (c := a) (by rw [hf]; exact Ne.symm hfa)
    exact .inr (h.inside_of_new hd hfa hin ha hs hw)

/-- **A walk ends where it ended before**, or inside. -/
theorem walks (hd : d.IsTree) (hlinks : d.LinksGoDown) (hr : d.longestName ≤ reserved)
    (ha : IsShort reserved a) (hs : AreShort reserved s) (hw : D.Walks ending links a s b) :
    d.Walks ending links a s b ∨ Inside R b := by
  induction hw with
  | done => exact .inl .done
  | stay ha' hw ih =>
    refine (h.folder_or hd ha hs (.stay ha' hw) ha').elim (fun hfa => ?_) .inr
    exact (ih ha hs.of_cons).imp_left (.stay hfa)
  | up _ _ _ => exact absurd List.mem_cons_self hs.up_notMem
  | @missing links a n ha' hn he =>
    have hw : D.Walks ending links a [.enter n] (a ++ [n]) := .missing ha' hn he
    refine (h.folder_or hd ha hs hw ha').elim (fun hfa => ?_) .inr
    by_cases hsame : D.get? (a ++ [n]) = d.get? (a ++ [n])
    · exact .inl (.missing hfa (hsame ▸ hn) he)
    · exact .inr (h.inside_of_ne hsame)
  | @enter links a b n e s ha' hn he hw ih =>
    have hshort := ha.concat (hs.length_le n List.mem_cons_self)
    refine (h.folder_or hd ha hs (.enter ha' hn he hw) ha').elim (fun hfa => ?_) .inr
    by_cases hsame : D.get? (a ++ [n]) = d.get? (a ++ [n])
    · exact (ih hshort hs.of_cons).imp_left (.enter hfa (hsame ▸ hn) he)
    · have hin := h.inside_of_ne hsame
      by_cases hfn : d.get? (a ++ [n]) = some .folder
      · -- the folder is no folder now, so the walk ends there
        have hnil : s = [] := by
          by_contra hne
          exact hsame ((hw.folder hne).trans hfn.symm)
        subst hnil
        cases hw
        exact .inr hin
      · exact .inr (h.inside_of_new hd hfn hin hshort hs.of_cons hw)
  | @entry links a n t ha' hn he =>
    have hshort := ha.concat (hs.length_le n List.mem_cons_self)
    have hw : D.Walks ending links a [.enter n] (a ++ [n]) := .entry ha' hn he
    refine (h.folder_or hd ha hs hw ha').elim (fun hfa => ?_) .inr
    exact .inl (.entry hfa (h.link_eq _ t hshort hn) he)
  | @link links a b n t s ha' hn he ht hw ih =>
    have hshort := ha.concat (hs.length_le n List.mem_cons_self)
    refine (h.folder_or hd ha hs (.link ha' hn he ht hw) ha').elim (fun hfa => ?_) .inr
    have hn' := h.link_eq _ t hshort hn
    have hnext : IsShort reserved (if t.isAbsolute then [] else a) := by
      split
      · exact fun m hm => absurd hm List.not_mem_nil
      · exact ha
    have hsteps := areShort_steps (hlinks _ t hn') ((length_le_of_link hn').trans hr)
    exact (ih hnext (hsteps.append hs.of_cons)).imp_left (.link hfa hn' he ht)

/-! ## Changes inside -/

/-- An entry that is no link is put inside. -/
theorem put (ha : Inside R a) {e : Entry} (he : ∀ t, e ≠ .link t) :
    d.SameOutside R reserved (D.put a e) where
  cwd_eq := h.cwd_eq
  get?_eq := by
    intro c hc
    have hca : c ≠ a := by
      rintro rfl
      exact hc ha
    rw [get?_put_of_ne_nil D ha.ne_nil, if_neg hca, h.get?_eq c hc]
  link_eq := by
    intro c t hc ht
    rw [get?_put_of_ne_nil D ha.ne_nil] at ht
    split at ht
    · exact absurd (Option.some.inj ht) (he t)
    · exact h.link_eq c t hc ht

/-- What is inside is cut. -/
theorem cutTree (ha : Inside R a) : d.SameOutside R reserved (D.cutTree a) where
  cwd_eq := h.cwd_eq
  get?_eq := by
    intro c hc
    rw [get?_cutTree_of_ne_nil D ha.ne_nil, if_neg fun hac => hc (ha.of_above hac),
      h.get?_eq c hc]
  link_eq := by
    intro c t hc ht
    rw [get?_cutTree_of_ne_nil D ha.ne_nil] at ht
    split at ht
    · cases ht
    · exact h.link_eq c t hc ht

/-- What is inside is moved to where nothing is, inside as well. Its links are moved with it, so
they have to come to where no path leads. -/
theorem moveTree (ha : Inside R a) (hb : Inside R b) (hfree : ∀ c, b <+: c → D.get? c = none)
    (hlink : ∀ c t, IsShort reserved (b ++ c) → D.get? (a ++ c) ≠ some (.link t)) :
    d.SameOutside R reserved (D.moveTree a b) where
  cwd_eq := h.cwd_eq
  get?_eq := by
    intro c hc
    rw [get?_moveTree D ha.ne_nil hb.ne_nil hfree, if_neg fun hbc => hc (hb.of_above hbc),
      if_neg fun hac => hc (ha.of_above hac), h.get?_eq c hc]
  link_eq := by
    intro c t hc ht
    rw [get?_moveTree D ha.ne_nil hb.ne_nil hfree] at ht
    split at ht
    · rename_i hbc
      obtain ⟨r, rfl⟩ := hbc
      rw [List.drop_left] at ht
      exact absurd ht (hlink r t hc)
    · split at ht
      · cases ht
      · exact h.link_eq c t hc ht

/-- **Renaming moves what is inside** to another place inside, if it does anything. -/
theorem rename {p q : Path} {D' : Disk} (hr : D.rename p q = .ok D')
    (ha : D.entryAddress p = .ok a) (hb : D.entryAddress q = .ok b)
    (hina : Inside R a) (hinb : Inside R b)
    (hfree : D.get? a = some .folder → ∀ c, b <+: c → D.get? c = none)
    (hlink : ∀ c t, IsShort reserved (b ++ c) → D.get? (a ++ c) ≠ some (.link t)) :
    d.SameOutside R reserved D' := by
  have hreplace : d.SameOutside R reserved ((D.cutTree b).moveTree a b) := by
    have hcut := get?_cutTree_of_ne_nil D hinb.ne_nil
    refine (h.cutTree hinb).moveTree hina hinb (fun c hc => by rw [hcut, if_pos hc]) ?_
    intro c t hc ht
    rw [hcut] at ht
    split at ht
    · cases ht
    · exact hlink c t hc ht
  obtain ⟨a', b', ha', hb', hpe, hqe⟩ := of_rename_eq_ok hr
  obtain rfl := Except.ok.inj (ha.symm.trans ha')
  obtain rfl := Except.ok.inj (hb.symm.trans hb')
  rw [rename_eq ha hb hpe hqe] at hr
  split at hr
  · cases hr
  · rename_i hfolder
    split at hr
    · rw [← Except.ok.inj hr]
      exact h
    · split at hr
      · rw [← Except.ok.inj hr]
        exact h.moveTree hina hinb (hfree hfolder) hlink
      · split at hr
        · rw [← Except.ok.inj hr]
          exact hreplace
        · cases hr
      · cases hr
  · split at hr
    · cases hr
    · split at hr
      · cases hr
      · split at hr
        · rw [← Except.ok.inj hr]
          exact h
        · rw [← Except.ok.inj hr]
          exact hreplace

end SameOutside

end Disk

end Fabula
