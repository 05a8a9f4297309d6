import Mathlib.Data.List.Induction
import Mathlib.Data.List.Nodup
import Fabula.Disk.Basic
import Fabula.Proofs.Path.Components

/-!
# Trees

A disk is kept as a flat list of addresses with their entries, and most such lists are no disks.
An entry could lie below a file, or be listed twice with different contents. A disk is a *tree*
when every entry lies in a folder and is listed once (`Disk.IsTree`), and it is *plain* when no
entry is a link (`Disk.IsPlain`). Operations are shown to leave trees behind, so that the
theorems about them may be applied one after the other.

## The three changes

Every operation makes its changes by writing an entry, cutting a subtree, or moving one, and
what it does is said by the view `Disk.get?`. For writing and cutting the view is immediate.
Moving is a change of the addresses in the list, and after it a lookup finds what was found
before at the address that comes from there, provided that nothing was listed at or below the
place it is moved to (`Disk.get?_moveTree`): otherwise two entries would come to lie at one
address, and the one that is listed first would hide the other.

That the result is a tree follows from what each change is asked for. An entry is written into a
folder, and a file does not take the place of a folder, since what is below the folder would
then lie in no folder (`Disk.IsTree.put`). A cut takes away everything below its root, so
nothing is left without a folder (`Disk.IsPlain.cutTree`). A move needs a folder to go to, a
free place there, and a place that does not lie in what is moved, since that would come to lie
in nothing (`Disk.IsPlain.moveTree`).

## Above and below

In a tree, what is above an entry is a folder, and not only the next one above but all of them
(`Disk.IsTree.folder_above`). Turned round this says that below what is no folder there is
nothing (`Disk.IsTree.get?_below`). The two together are how a single fact about an address
answers a question about a whole subtree.

Two disks that hold the same are compared by the view alone (`Disk.Same`). Their lists may be in
different orders, which no operation can tell.
-/

namespace Fabula

namespace Disk

/-- **A tree**: every entry lies in a folder, and none is listed twice. -/
structure IsTree (d : Disk) : Prop where
  /-- No address is listed twice. -/
  nodup : (d.entries.map Prod.fst).Nodup
  /-- The root is not listed. -/
  ne_root : ∀ x ∈ d.entries, x.1 ≠ []
  /-- What is above an entry is a folder. -/
  parent : ∀ a e, a ≠ [] → d.get? a = some e → d.get? a.dropLast = some .folder
  /-- The working folder is told by names. -/
  cwd_names : ∀ n ∈ d.cwd, IsName n

/-- **A plain tree**: one without symbolic links. -/
structure IsPlain (d : Disk) : Prop extends d.IsTree where
  /-- No entry is a link. -/
  no_link : ∀ a t, d.get? a ≠ some (.link t)

/-- **Two disks hold the same**: the same entries at the same addresses, and the
same working folder. -/
structure Same (d d' : Disk) : Prop where
  cwd_eq : d.cwd = d'.cwd
  get?_eq : ∀ a, d.get? a = d'.get? a

theorem Same.refl (d : Disk) : d.Same d := ⟨rfl, fun _ => rfl⟩

theorem Same.symm {d d' : Disk} (h : d.Same d') : d'.Same d :=
  ⟨h.cwd_eq.symm, fun a => (h.get?_eq a).symm⟩

theorem Same.trans {d₁ d₂ d₃ : Disk} (h : d₁.Same d₂) (h' : d₂.Same d₃) : d₁.Same d₃ :=
  ⟨h.cwd_eq.trans h'.cwd_eq, fun a => (h.get?_eq a).trans (h'.get?_eq a)⟩

theorem isFolderAt_iff {d : Disk} {a : Address} :
    d.isFolderAt a = true ↔ d.get? a = some .folder := by
  rw [isFolderAt, beq_iff_eq]

/-! ## Above and below -/

/-- An address does not lie at or above the folder it is in. -/
theorem not_prefix_dropLast {a : Address} (h : a ≠ []) : ¬a <+: a.dropLast := by
  intro hpre
  have hlen := hpre.length_le
  rw [List.length_dropLast] at hlen
  have := List.length_pos_of_ne_nil h
  omega

/-- An address that begins another one begins that without its last name. -/
theorem prefix_dropLast_of_ne {a c : Address} (h : c <+: a) (hne : c ≠ a) : c <+: a.dropLast := by
  obtain ⟨r, rfl⟩ := h
  have hr : r ≠ [] := by
    rintro rfl
    exact hne (List.append_nil c).symm
  rw [List.dropLast_append_of_ne_nil hr]
  exact List.prefix_append c _

/-- Above something there are folders. -/
theorem IsTree.folder_of_append {d : Disk} (h : d.IsTree) {a b : Address} {e : Entry}
    (hb : b ≠ []) (he : d.get? (a ++ b) = some e) : d.get? a = some .folder := by
  induction b using List.reverseRecOn generalizing e with
  | nil => exact absurd rfl hb
  | append_singleton b n ih =>
    have hp := h.parent _ _ (by simp) he
    rw [← List.append_assoc, List.dropLast_concat] at hp
    by_cases hbn : b = []
    · subst hbn
      rwa [List.append_nil] at hp
    · exact ih hbn hp

theorem IsTree.folder_above {d : Disk} (h : d.IsTree) {a c : Address} {e : Entry}
    (hac : a <+: c) (hne : a ≠ c) (he : d.get? c = some e) : d.get? a = some .folder := by
  obtain ⟨b, rfl⟩ := hac
  exact h.folder_of_append (by rintro rfl; exact hne (List.append_nil a).symm) he

/-- Above a folder there are folders. -/
theorem IsTree.folder_of_folder {d : Disk} (h : d.IsTree) {a c : Address} (hac : a <+: c)
    (hc : d.get? c = some .folder) : d.get? a = some .folder := by
  by_cases hne : a = c
  · rw [hne, hc]
  · exact h.folder_above hac hne hc

/-- Below what is no folder there is nothing. -/
theorem IsTree.get?_below {d : Disk} (h : d.IsTree) {a c : Address} (hac : a <+: c)
    (hne : a ≠ c) (ha : d.get? a ≠ some .folder) : d.get? c = none := by
  cases hc : d.get? c with
  | none => rfl
  | some e => exact absurd (h.folder_above hac hne hc) ha

/-- Where nothing is there is nothing below either. -/
theorem IsTree.get?_none_below {d : Disk} (h : d.IsTree) {a c : Address} (hac : a <+: c)
    (ha : d.get? a = none) : d.get? c = none := by
  by_cases hne : a = c
  · rw [← hne, ha]
  · exact h.get?_below hac hne (by simp [ha])

/-! ## The three changes, seen through the view -/

theorem get?_of_ne_nil (d : Disk) {a : Address} (h : a ≠ []) : d.get? a = d.entries.lookup a :=
  if_neg h

theorem get?_put_of_ne_nil (d : Disk) {a : Address} (ha : a ≠ []) (e : Entry) (c : Address) :
    (d.put a e).get? c = if c = a then some e else d.get? c := by
  rw [get?_put]
  by_cases hc : c = []
  · subst hc
    rw [if_pos rfl, if_neg (Ne.symm ha), get?_root]
  · rw [if_neg hc]

theorem get?_cutTree_of_ne_nil (d : Disk) {a : Address} (ha : a ≠ []) (c : Address) :
    (d.cutTree a).get? c = if a <+: c then none else d.get? c := by
  by_cases hc : c = []
  · subst hc
    rw [if_neg (by simpa using ha)]
    rfl
  · rw [get?_cutTree d hc]
    simp only [List.isPrefixOf_iff_prefix]

/-- Where an entry goes when what is at `a` is moved to `b`. -/
theorem lookup_moveTree {a b : Address} (c : Address) (entries : List (Address × Entry))
    (hb : ∀ x ∈ entries, ¬b <+: x.1) :
    (entries.map fun x =>
        if a.isPrefixOf x.1 then (b ++ x.1.drop a.length, x.2) else x).lookup c
      = if b <+: c then entries.lookup (a ++ c.drop b.length)
        else if a <+: c then none else entries.lookup c := by
  induction entries with
  | nil => simp
  | cons x xs ih =>
    obtain ⟨k, e⟩ := x
    have hk : ¬b <+: k := hb (k, e) List.mem_cons_self
    have ih := ih fun x hx => hb x (List.mem_cons_of_mem _ hx)
    rw [List.map_cons]
    by_cases hak : a <+: k
    · obtain ⟨k, rfl⟩ := hak
      rw [if_pos (List.isPrefixOf_iff_prefix.2 (List.prefix_append a k)), List.drop_left]
      by_cases hc : b <+: c
      · obtain ⟨c, rfl⟩ := hc
        rw [if_pos (List.prefix_append b c), List.drop_left] at ih ⊢
        by_cases hkc : c = k
        · subst hkc
          rw [lookup_cons_self, lookup_cons_self]
        · rw [lookup_cons_ne (by simpa using hkc), lookup_cons_ne (by simpa using hkc), ih]
      · rw [lookup_cons_ne (by rintro rfl; exact hc (List.prefix_append b k)), ih, if_neg hc,
          if_neg hc]
        by_cases hac : a <+: c
        · rw [if_pos hac, if_pos hac]
        · rw [if_neg hac, if_neg hac,
            lookup_cons_ne (by rintro rfl; exact hac (List.prefix_append a k))]
    · rw [if_neg (by rwa [List.isPrefixOf_iff_prefix])]
      by_cases hck : c = k
      · subst hck
        rw [if_neg hk, if_neg hak, lookup_cons_self, lookup_cons_self]
      · rw [lookup_cons_ne hck, ih]
        split
        · rw [lookup_cons_ne (by rintro rfl; exact hak (List.prefix_append a _))]
        · split
          · rfl
          · rw [lookup_cons_ne hck]

theorem get?_eq_none_iff {d : Disk} {a : Address} (ha : a ≠ []) :
    d.get? a = none ↔ ∀ x ∈ d.entries, x.1 ≠ a := by
  rw [get?_of_ne_nil d ha, List.lookup_eq_none_iff]
  exact forall₂_congr fun x _ => by rw [bne_iff_ne]; exact ne_comm

/-- **Moving a subtree** shows it at its new place and leaves nothing at the old
one. -/
theorem get?_moveTree (d : Disk) {a b : Address} (ha : a ≠ []) (hb : b ≠ [])
    (hfree : ∀ c, b <+: c → d.get? c = none) (c : Address) :
    (d.moveTree a b).get? c
      = if b <+: c then d.get? (a ++ c.drop b.length)
        else if a <+: c then none else d.get? c := by
  have hentries : ∀ x ∈ d.entries, ¬b <+: x.1 := by
    intro x hx hpre
    have hne : x.1 ≠ [] := fun h0 => hb (List.prefix_nil.1 (h0 ▸ hpre))
    exact (get?_eq_none_iff hne).1 (hfree _ hpre) x hx rfl
  by_cases hc : c = []
  · subst hc
    rw [if_neg (by simpa using hb), if_neg (by simpa using ha)]
    rfl
  · rw [get?_of_ne_nil _ hc, moveTree, lookup_moveTree c _ hentries, get?_of_ne_nil d hc,
      get?_of_ne_nil d (List.append_ne_nil_of_left_ne_nil ha _)]

/-! ## Plain trees stay plain trees -/

/-- Whether an entry is a link. -/
def isLink : Entry → Bool
  | .link _ => true
  | _ => false

/-- What is on the disk is listed. -/
theorem mem_entries_of_get? {d : Disk} {a : Address} {e : Entry} (ha : a ≠ [])
    (h : d.get? a = some e) : (a, e) ∈ d.entries := by
  rw [get?_of_ne_nil d ha] at h
  obtain ⟨init, rest, hsplit, _⟩ := List.lookup_eq_some_iff.1 h
  rw [hsplit]
  exact List.mem_append_right _ List.mem_cons_self

/-- **A tree is told by its entries.** -/
theorem isTree_of_entries {d : Disk} (hnodup : (d.entries.map Prod.fst).Nodup)
    (h : ∀ x ∈ d.entries, x.1 ≠ [] ∧ d.get? x.1.dropLast = some .folder)
    (hcwd : ∀ n ∈ d.cwd, IsName n) : d.IsTree :=
  ⟨hnodup, fun x hx => (h x hx).1, fun _ _ ha hget => (h _ (mem_entries_of_get? ha hget)).2, hcwd⟩

/-- **A plain tree is told by its entries.** -/
theorem isPlain_of_entries {d : Disk} (hnodup : (d.entries.map Prod.fst).Nodup)
    (h : ∀ x ∈ d.entries, x.1 ≠ [] ∧ d.get? x.1.dropLast = some .folder ∧ isLink x.2 = false)
    (hcwd : ∀ n ∈ d.cwd, IsName n) : d.IsPlain := by
  refine ⟨isTree_of_entries hnodup (fun x hx => ⟨(h x hx).1, (h x hx).2.1⟩) hcwd,
    fun a t hget => ?_⟩
  have ha : a ≠ [] := by
    rintro rfl
    cases hget
  exact absurd (h _ (mem_entries_of_get? ha hget)).2.2 (by simp [isLink])

theorem nodup_filter {d : Disk} (h : d.IsTree) (q : Address × Entry → Bool) :
    ((d.entries.filter q).map Prod.fst).Nodup :=
  h.nodup.sublist (List.filter_sublist.map _)

/-- **Writing an entry** in a folder leaves a tree, when a file does not take the place of a
folder. -/
theorem IsTree.put {d : Disk} (h : d.IsTree) {a : Address} {e : Entry} (ha : a ≠ [])
    (hp : d.get? a.dropLast = some .folder) (he : e = .folder ∨ d.get? a ≠ some .folder) :
    (d.put a e).IsTree where
  nodup := by
    rw [Disk.put, List.map_cons, List.nodup_cons]
    refine ⟨fun hm => ?_, nodup_filter h _⟩
    obtain ⟨x, hx, rfl⟩ := List.mem_map.1 hm
    simpa using (List.mem_filter.1 hx).2
  ne_root := by
    intro x hx
    rcases List.mem_cons.1 hx with rfl | hx
    · exact ha
    · exact h.ne_root x (List.mem_of_mem_filter hx)
  parent := by
    intro c e' hc hget
    rw [get?_put_of_ne_nil d ha] at hget ⊢
    by_cases hca : c = a
    · subst hca
      have hne : c.dropLast ≠ c := fun heq => not_prefix_dropLast hc ⟨[], by simpa using heq.symm⟩
      rw [if_neg hne]
      exact hp
    · rw [if_neg hca] at hget
      have hfolder := h.parent c e' hc hget
      split
      · rename_i heq
        rw [heq] at hfolder
        rcases he with rfl | he
        · rfl
        · exact absurd hfolder he
      · exact hfolder
  cwd_names := h.cwd_names

/-- A plain tree stays plain, when no link is written. -/
theorem IsPlain.put {d : Disk} (h : d.IsPlain) {a : Address} {e : Entry} (ha : a ≠ [])
    (hp : d.get? a.dropLast = some .folder) (he : e = .folder ∨ d.get? a ≠ some .folder)
    (hlink : ∀ t, e ≠ .link t) : (d.put a e).IsPlain where
  toIsTree := h.toIsTree.put ha hp he
  no_link := by
    intro c t hget
    rw [get?_put_of_ne_nil d ha] at hget
    split at hget
    · exact hlink t (Option.some.inj hget)
    · exact h.no_link c t hget

/-- **Cutting a subtree** leaves a plain tree. -/
theorem IsPlain.cutTree {d : Disk} (h : d.IsPlain) {a : Address} (ha : a ≠ []) :
    (d.cutTree a).IsPlain where
  nodup := nodup_filter h.toIsTree _
  ne_root := fun x hx => h.ne_root x (List.mem_of_mem_filter hx)
  parent := by
    intro c e hc hget
    rw [get?_cutTree_of_ne_nil d ha] at hget ⊢
    split at hget
    · cases hget
    · rename_i hac
      rw [if_neg fun hpre => hac (hpre.trans (List.dropLast_prefix c))]
      exact h.parent c e hc hget
  cwd_names := h.cwd_names
  no_link := by
    intro c t hget
    rw [get?_cutTree_of_ne_nil d ha] at hget
    split at hget
    · cases hget
    · exact h.no_link c t hget

/-- **Moving a subtree** into a folder, to where nothing is, leaves a plain tree,
unless it is moved into itself. -/
theorem IsPlain.moveTree {d : Disk} (h : d.IsPlain) {a b : Address} (ha : a ≠ []) (hb : b ≠ [])
    (hp : d.get? b.dropLast = some .folder) (hfree : d.get? b = none) (hab : ¬a <+: b) :
    (d.moveTree a b).IsPlain := by
  have hbelow : ∀ c, b <+: c → d.get? c = none := fun c hc => h.get?_none_below hc hfree
  have hview := get?_moveTree d ha hb hbelow
  have hkeys : ∀ k ∈ d.entries.map Prod.fst, ¬b <+: k := by
    intro k hk hbk
    obtain ⟨x, hx, rfl⟩ := List.mem_map.1 hk
    exact (get?_eq_none_iff (h.ne_root x hx)).1 (hbelow _ hbk) x hx rfl
  refine ⟨⟨?_, ?_, ?_, h.cwd_names⟩, ?_⟩
  · let move (k : Address) : Address := if a <+: k then b ++ k.drop a.length else k
    have hmap : ((d.moveTree a b).entries.map Prod.fst) = (d.entries.map Prod.fst).map move := by
      rw [Disk.moveTree, List.map_map, List.map_map]
      refine List.map_congr_left fun x _ => ?_
      simp only [Function.comp_apply, move, List.isPrefixOf_iff_prefix]
      split <;> rfl
    rw [hmap]
    refine List.Nodup.map_on ?_ h.nodup
    intro k hk l hl heq
    by_cases hak : a <+: k
    · by_cases hal : a <+: l
      · obtain ⟨k, rfl⟩ := hak
        obtain ⟨l, rfl⟩ := hal
        simpa [move] using heq
      · exact absurd ⟨_, by simpa [move, hak, hal] using heq⟩ (hkeys l hl)
    · by_cases hal : a <+: l
      · exact absurd ⟨_, by simpa [move, hak, hal] using heq.symm⟩ (hkeys k hk)
      · simpa [move, hak, hal] using heq
  · intro x hx
    obtain ⟨y, hy, rfl⟩ := List.mem_map.1 hx
    split
    · exact List.append_ne_nil_of_left_ne_nil hb _
    · exact h.ne_root y hy
  · intro c e hc hget
    rw [hview] at hget ⊢
    by_cases hbc : b <+: c
    · obtain ⟨r, rfl⟩ := hbc
      rw [if_pos (List.prefix_append b r), List.drop_left] at hget
      by_cases hr : r = []
      · subst hr
        rw [List.append_nil, if_neg, if_neg, hp]
        · exact fun hpre => hab (hpre.trans (List.dropLast_prefix b))
        · exact not_prefix_dropLast hb
      · rw [List.dropLast_append_of_ne_nil hr, if_pos (List.prefix_append b _), List.drop_left]
        have := h.parent _ e (List.append_ne_nil_of_left_ne_nil ha r) hget
        rwa [List.dropLast_append_of_ne_nil hr] at this
    · rw [if_neg hbc] at hget
      split at hget
      · cases hget
      · rename_i hac
        rw [if_neg fun hpre => hbc (hpre.trans (List.dropLast_prefix c)),
          if_neg fun hpre => hac (hpre.trans (List.dropLast_prefix c))]
        exact h.parent c e hc hget
  · intro c t hget
    rw [hview] at hget
    split at hget
    · exact h.no_link _ t hget
    · split at hget
      · cases hget
      · exact h.no_link _ t hget

end Disk

end Fabula
