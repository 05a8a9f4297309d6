import Fabula.Proofs.Disk.Write

/-!
# Removing, moving aside and moving back

What is deleted in a commit is moved aside first, into a hidden folder beside it, and removed
when everything else has succeeded. When something fails it is moved back. That a failed commit
leaves the disk as it was rests on the two being inverse to each other, although between them
other files were written, of which not all have been taken back.

## Moving aside

The hidden folder is made in the folder of the entry, with a name longer than any on the disk
and longer than any path the plan has mentioned (`reserved`). What is there after the entry has
been moved into it is told in four parts (`Disk.MovedAside`): nothing where the entry was, the
entry with all that is below it in the hidden folder, the hidden folder itself, and everything
else as it was. The parts do not overlap, since the hidden folder lies beside the entry and has
another name. That nobody meets it is a matter of length: an address of names that are short
enough is not in the hidden folder (`Disk.MovedAside.not_below_holder_of_short`).

## Moving back

At the time of moving back, the disk need not be the one that moving aside has left. Files may
have been put at some places that were empty then, and among them at the very place of the
entry, which a created file may take after a deletion. So what is compared is not two disks but
a disk with one that it covers (`Disk.Covers`): it holds what the other one holds and, at
certain places where the other has nothing, files.

A file in the place of what is moved back is replaced by it. Were it a folder, the renaming
would fail, but there are no folders at these places. Files below the entry cannot be, for the
entry was gone and with it the folder that would hold them, unless it was made again. So moving
back succeeds and leaves a disk that covers the one from before (`Disk.Covers.putBack`), and
after all has been moved back and the files have been removed, what is left is that disk.

A file is removed like a tree (`Disk.removeFile_eq_removeTree`), and what a path leads to is
what is at its address (`Disk.entryOf?_eq`). With these the questions a transaction asks are
questions about the view.
-/

namespace Fabula

namespace Disk

variable {d d' : Disk}

/-! ## Removing -/

theorem entryAddress_of_get? (hd : d.IsPlain) {p : Path} (hup : p.goesUp = false)
    (hend : p.endsInName = true) (h : d.get? (d.addressOf p) ≠ none) :
    d.entryAddress p = .ok (d.addressOf p) := by
  obtain ⟨e, he⟩ := Option.ne_none_iff_exists'.1 h
  rw [entryAddress_eq_ok_iff hd hup hend]
  exact ⟨rfl, hd.parent _ e (addressOf_ne_nil hup hend) he⟩

/-- **Removing a tree** cuts it off, when it is there. -/
theorem removeTree_of_get? (hd : d.IsPlain) {p : Path} (hup : p.goesUp = false)
    (hend : p.endsInName = true) (h : d.get? (d.addressOf p) ≠ none) :
    d.removeTree p = .ok (d.cutTree (d.addressOf p)) := by
  rw [removeTree, entryAddress_of_get? hd hup hend h]
  dsimp only [bind, Except.bind]
  split
  · contradiction
  · rfl

/-- What is not there cannot be removed. -/
theorem removeTree_eq_error (hd : d.IsPlain) {p : Path} (hup : p.goesUp = false)
    (hend : p.endsInName = true) (h : d.get? (d.addressOf p) = none) :
    ∃ e, d.removeTree p = .error e := by
  rw [removeTree]
  cases he : d.entryAddress p with
  | error e => exact ⟨e, rfl⟩
  | ok a =>
    obtain ⟨rfl, _⟩ := (entryAddress_eq_ok_iff hd hup hend).1 he
    refine ⟨.notFound, ?_⟩
    dsimp only [bind, Except.bind]
    rw [h]
    rfl

/-- A file is removed like a tree. -/
theorem removeFile_eq_removeTree (hd : d.IsPlain) {p : Path} (hup : p.goesUp = false)
    (hend : p.endsInName = true) (h : d.get? (d.addressOf p) ≠ some .folder) :
    d.removeFile p = d.removeTree p := by
  rw [removeFile, removeTree]
  cases he : d.entryAddress p with
  | error e => rfl
  | ok a =>
    obtain ⟨rfl, _⟩ := (entryAddress_eq_ok_iff hd hup hend).1 he
    dsimp only [bind, Except.bind]
    cases hg : d.get? (d.addressOf p) with
    | none => rfl
    | some e =>
      cases e with
      | folder => exact absurd hg h
      | file _ => rfl
      | link _ => rfl

/-! ## Asking -/

theorem startOf_prefix_addressOf (d : Disk) (p : Path) : d.startOf p <+: d.addressOf p :=
  List.prefix_append _ _

/-- **What a path that ends in a name leads to** is what is at its address. -/
theorem entryOf?_eq (hd : d.IsPlain) {p : Path} (hup : p.goesUp = false)
    (hend : p.endsInName = true) (hslash : p.text.getLast? ≠ some '/') :
    d.entryOf? p = d.get? (d.addressOf p) := by
  obtain ⟨hp, init, n, hi⟩ := Path.exists_of_endsInName hend
  have hsteps := Path.steps_eq_entrySteps hslash
  rw [entryOf?]
  cases hf : d.follow p with
  | ok a => rw [((follow_eq_ok_iff hd hup).1 hf).2.1]
  | error e =>
    by_contra hne
    have hget : d.get? (d.addressOf p) ≠ none := fun h0 => hne h0.symm
    obtain ⟨e', he'⟩ := Option.ne_none_iff_exists'.1 hget
    have hstart : d.get? (d.startOf p) = some .folder := by
      refine hd.folder_above (startOf_prefix_addressOf d p) ?_ he'
      rw [addressOf]
      simpa using Path.names_ne_nil_of_endsInName hup hend
    have hok : d.follow p = .ok (d.addressOf p) := by
      rw [follow_eq_ok_iff hd hup]
      refine ⟨hp, rfl, hget, hstart, ?_⟩
      rw [hsteps, hi, List.getLast?_concat]
      intro h0
      cases h0
    rw [hok] at hf
    cases hf

/-- What a path leads to is at its address. -/
theorem get?_of_entryOf? (hd : d.IsPlain) {p : Path} (hup : p.goesUp = false) {e : Entry}
    (h : d.entryOf? p = some e) : d.get? (d.addressOf p) = some e := by
  rw [entryOf?] at h
  cases hf : d.follow p with
  | ok a =>
    rw [hf] at h
    rwa [← ((follow_eq_ok_iff hd hup).1 hf).2.1]
  | error f =>
    rw [hf] at h
    cases h

/-- **What a path that ends in a name leads to**, below the path in front. -/
theorem entryOf?_join (hd : d.IsPlain) {q : Path} {n : Text} (hup : q.goesUp = false)
    (hn : IsName n) : d.entryOf? (q.join n) = d.get? (d.addressOf q ++ [n]) := by
  rw [entryOf?_eq hd (goesUp_join hup hn) (endsInName_join hup hn) (getLast?_join q hn),
    addressOf_join q hn]

/-- A text is read where a path leads to a file that holds it. -/
theorem read_eq_ok_iff {p : Path} {t : Text} :
    d.read p = .ok t ↔ d.entryOf? p = some (.file (.text t)) := by
  unfold read entryOf?
  cases d.follow p with
  | error e =>
    constructor
    · intro h
      cases h
    · intro h
      cases h
  | ok a =>
    dsimp only [bind, Except.bind]
    split
    · rename_i t' hfile
      rw [hfile]
      constructor
      · intro h
        rw [Except.ok.inj h]
      · intro h
        cases h
        rfl
    · rename_i bytes hfile
      rw [hfile]
      constructor
      · intro h
        cases h
      · intro h
        cases h
    · rename_i hnot _
      constructor
      · intro h
        cases h
      · intro h
        exact absurd h (hnot t)

/-! ## Moving aside -/

/-- **Something was moved aside**: what was at its address is found in a hidden
folder, which lies beside it and where there was nothing. -/
structure MovedAside (d : Disk) (reserved : ℕ) (m : Moved) (d' : Disk) : Prop where
  plain : d'.IsPlain
  cwd_eq : d'.cwd = d.cwd
  original_up : m.original.goesUp = false
  original_ends : m.original.endsInName = true
  original_slash : d.get? (d.addressOf m.original) ≠ some .folder →
    m.original.text.getLast? ≠ some '/'
  aside_up : m.aside.goesUp = false
  aside_ends : m.aside.endsInName = true
  aside_slash : m.aside.text.getLast? ≠ some '/'
  holder_up : m.holder.goesUp = false
  holder_ends : m.holder.endsInName = true
  /-- What was moved was there. -/
  found : d.get? (d.addressOf m.original) ≠ none
  /-- The hidden folder is beside it. -/
  beside : (d.addressOf m.holder).dropLast = (d.addressOf m.original).dropLast
  inside : (d.addressOf m.aside).dropLast = d.addressOf m.holder
  /-- The hidden folder has a name longer than any that is asked for. -/
  long : ∃ n ∈ d.addressOf m.holder, reserved < n.length
  fresh : ∀ c, d.addressOf m.holder <+: c → d.get? c = none
  holder_folder : d'.get? (d.addressOf m.holder) = some .folder
  moved : ∀ r, d'.get? (d.addressOf m.aside ++ r) = d.get? (d.addressOf m.original ++ r)
  gone : ∀ r, d'.get? (d.addressOf m.original ++ r) = none
  kept : ∀ c, ¬d.addressOf m.original <+: c → ¬d.addressOf m.holder <+: c →
    d'.get? c = d.get? c

/-- **What is seen after an entry moved into a new folder beside it**: the folder, the entry
in it, and nothing where the entry was. -/
theorem movedView_hidden {base : Address} {n hidden : Text} (hne : n ≠ hidden) {e : Disk}
    (he : ∀ c, e.get? c = if c = base ++ [hidden] then some .folder else d.get? c) :
    e.movedView (base ++ [n]) (base ++ [hidden, n]) (base ++ [hidden]) = some .folder ∧
    (∀ r, e.movedView (base ++ [n]) (base ++ [hidden, n]) (base ++ [hidden, n] ++ r) =
      d.get? (base ++ [n] ++ r)) ∧
    (∀ r, e.movedView (base ++ [n]) (base ++ [hidden, n]) (base ++ [n] ++ r) = none) ∧
    ∀ c, ¬base ++ [n] <+: c → ¬base ++ [hidden] <+: c →
      e.movedView (base ++ [n]) (base ++ [hidden, n]) c = d.get? c := by
  have hbeside : ¬base ++ [n] <+: base ++ [hidden] := by
    rw [List.prefix_append_right_inj]
    simpa using hne
  have hinside : ¬base ++ [hidden, n] <+: base ++ [hidden] := by
    rw [List.prefix_append_right_inj]
    simp
  have hkeep : ∀ c, c ≠ base ++ [hidden] → e.get? c = d.get? c := fun c hc => by
    rw [he, if_neg hc]
  refine ⟨?_, fun r => ?_, fun r => ?_, fun c hc hc' => ?_⟩
  · rw [movedView, if_neg hinside, if_neg hbeside, he, if_pos rfl]
  · rw [movedView, if_pos (List.prefix_append _ r), List.drop_left]
    exact hkeep _ fun h => hbeside (h ▸ List.prefix_append _ r)
  · rw [movedView, if_neg, if_pos (List.prefix_append _ r)]
    rw [List.append_assoc, List.prefix_append_right_inj]
    exact fun h => hne.symm (List.cons_prefix_cons.1 h).1
  · rw [movedView, if_neg, if_neg hc]
    · refine hkeep c ?_
      rintro rfl
      exact hc' (List.prefix_refl _)
    · refine fun h => hc' (List.IsPrefix.trans ?_ h)
      rw [List.prefix_append_right_inj]
      simp

/-- A renaming into a new hidden folder moves aside. -/
theorem movedAside_of_rename (hd : d.IsPlain) {p q : Path} {n : Text} (hup : p.goesUp = false)
    (hqup : q.goesUp = false) (hcomp : p.components = q.components ++ [.name n]) (hn : IsName n)
    (hfolder : d.get? (d.addressOf q) = some .folder) {reserved : ℕ}
    (hp : p.text.length ≤ reserved) {stem : Text} (hstem : '/' ∉ stem) {holder aside : Path}
    (hholder : holder = (d.absolute q).join (d.freshName reserved stem))
    (haside : aside = holder.join n)
    (h : (d.put (d.addressOf q ++ [d.freshName reserved stem]) .folder).rename p aside = .ok d') :
    d.MovedAside reserved ⟨p, aside, holder⟩ d' := by
  set hidden := d.freshName reserved stem with hhidden
  have hisName : IsName hidden := isName_freshName d _ hstem
  have hne : n ≠ hidden := ne_freshName hcomp hp _
  have hfresh : ∀ c, d.addressOf q ++ [hidden] <+: c → d.get? c = none := fun c hc =>
    get?_of_freshName_mem (hc.subset (List.mem_append_right _ List.mem_cons_self))
  -- the disk with the hidden folder
  set e := d.put (d.addressOf q ++ [hidden]) .folder with he
  have heplain : e.IsPlain := hd.put_freshName hfolder (by simp)
  have hview : ∀ c, e.get? c = if c = d.addressOf q ++ [hidden] then some .folder else d.get? c :=
    get?_put_of_ne_nil d (List.concat_ne_nil hidden (d.addressOf q)) .folder
  have hat : ∀ p, e.addressOf p = d.addressOf p := addressOf_of_cwd_eq rfl
  -- the three paths and their addresses
  have habsolute := goesUp_absolute hd.cwd_names hqup
  have hholderUp : holder.goesUp = false := hholder ▸ goesUp_join habsolute hisName
  have hasideUp : aside.goesUp = false := haside ▸ goesUp_join hholderUp hn
  have ho : d.addressOf p = d.addressOf q ++ [n] := addressOf_concat hcomp
  have hh : d.addressOf holder = d.addressOf q ++ [hidden] := by
    rw [hholder, addressOf_absolute_join hd.cwd_names q hisName]
  have hs : d.addressOf aside = d.addressOf q ++ [hidden, n] := by
    rw [haside, addressOf_join _ hn, hh, List.append_assoc]
    rfl
  obtain ⟨hpe, hae, hfound, hparent, hfile⟩ := of_rename heplain hup hasideUp h
  rw [hat, ho] at hfound
  rw [hat, hs] at hparent
  rw [hat, hat, ho, hs] at hfile
  have hentry : e.get? (d.addressOf q ++ [n]) = d.get? (d.addressOf q ++ [n]) := by
    rw [hview, if_neg (by simpa using hne)]
  have hdst : e.get? (d.addressOf q ++ [hidden, n]) = none := by
    rw [hview, if_neg (by simp)]
    exact hfresh _ ⟨[n], by simp⟩
  obtain ⟨d₁, hd₁, hplain, hcwd, hget⟩ := exists_rename heplain hup hasideUp hpe hae
    (by rwa [hat, ho]) (by rwa [hat, hs])
    (by
      rw [hat, hat, ho, hs, List.prefix_append_right_inj]
      simpa using hne)
    (fun _ => by rwa [hat, hs])
    (by rwa [hat, hat, ho, hs])
  obtain rfl := Except.ok.inj (h.symm.trans hd₁)
  rw [hat, hat, ho, hs] at hget
  obtain ⟨hfolder', hmoved, hgone, hkept⟩ := movedView_hidden hne hview
  exact {
    plain := hplain
    cwd_eq := hcwd
    original_up := hup
    original_ends := hpe
    original_slash := fun h0 => (hfile (by rwa [hentry, ← ho])).2.1
    aside_up := hasideUp
    aside_ends := hae
    aside_slash := haside ▸ getLast?_join holder hn
    holder_up := hholderUp
    holder_ends := hholder ▸ endsInName_join habsolute hisName
    found := by rwa [ho, ← hentry]
    beside := by rw [ho, hh, List.dropLast_concat, List.dropLast_concat]
    inside := by rw [hs, hh, List.append_cons, List.dropLast_concat]
    long := ⟨hidden, by rw [hh]; simp, reserved_lt_freshName d reserved stem⟩
    fresh := by rwa [hh]
    holder_folder := by rw [hh, hget, hfolder']
    moved := fun r => by rw [ho, hs, hget, hmoved]
    gone := fun r => by rw [ho, hget, hgone]
    kept := fun c hc hc' => by
      rw [ho] at hc
      rw [hh] at hc'
      rw [hget, hkept c hc hc'] }

/-- **Moving aside** moves what is at the path, or fails. -/
theorem movedAside_of_moveAside (hd : d.IsPlain) {p : Path} (hup : p.goesUp = false)
    {reserved : ℕ} (hp : p.text.length ≤ reserved) {m : Moved}
    (h : d.moveAside reserved p = .ok (m, d')) :
    m.original = p ∧ d.MovedAside reserved m d' := by
  rw [moveAside] at h
  cases hq : p.parent? with
  | none =>
    rw [hq] at h
    cases h
  | some q =>
    cases hn : p.fileName? with
    | none =>
      rw [hq, hn] at h
      cases h
    | some n =>
      simp only [hq, hn] at h
      obtain ⟨q', n', hq', hn', hname, hcomp, _⟩ :=
        Path.exists_parent? hup (Path.trimIdle_ne_nil_of_fileName? hn)
      obtain rfl := Option.some.inj (hq'.symm.trans hq)
      obtain rfl := Option.some.inj (hn'.symm.trans hn)
      have hqup : q'.goesUp = false := Path.goesUp_parent? hq hup
      cases hwork : d.workFolder q' with
      | error e =>
        rw [hwork] at h
        cases h
      | ok wa =>
        obtain ⟨w, a⟩ := wa
        obtain ⟨rfl, rfl, hfolder⟩ := (workFolder_eq_ok_iff hd hqup).1 hwork
        simp only [hwork] at h
        split at h
        · rename_i d₁ hr
          obtain ⟨rfl, rfl⟩ := Prod.mk.inj (Except.ok.inj h)
          exact ⟨rfl, movedAside_of_rename hd hup hqup hcomp hname hfolder hp (by decide) rfl rfl hr⟩
        · cases h

/-! ## Moving back -/

/-- **One disk covers another**: it holds what the other one holds, and files at
some of the places where nothing is on the other. -/
structure Covers (D d : Disk) (places : Address → Prop) : Prop where
  plain : D.IsPlain
  cwd_eq : D.cwd = d.cwd
  get?_eq : ∀ c, D.get? c = d.get? c ∨
    (places c ∧ d.get? c = none ∧ ∃ content, D.get? c = some (.file content))

theorem Covers.eq_of_some {D d : Disk} {places : Address → Prop} (h : D.Covers d places)
    {c : Address} {e : Entry} (hc : d.get? c = some e) : D.get? c = some e := by
  rcases h.get?_eq c with h0 | ⟨_, h0, _⟩
  · rw [h0, hc]
  · rw [hc] at h0
    cases h0

/-- Dropping a hidden folder cuts it off. -/
theorem dropHolder_eq (hd : d.IsPlain) {m : Moved} (hup : m.holder.goesUp = false)
    (hend : m.holder.endsInName = true) (h : d.get? (d.addressOf m.holder) ≠ none) :
    d.dropHolder m = d.cutTree (d.addressOf m.holder) := by
  rw [dropHolder, removeTree_of_get? hd hup hend h]

namespace MovedAside

variable {reserved : ℕ} {m : Moved}

theorem original_ne_nil (hm : d.MovedAside reserved m d') : d.addressOf m.original ≠ [] :=
  addressOf_ne_nil hm.original_up hm.original_ends

theorem holder_ne_nil (hm : d.MovedAside reserved m d') : d.addressOf m.holder ≠ [] :=
  addressOf_ne_nil hm.holder_up hm.holder_ends

theorem aside_ne_nil (hm : d.MovedAside reserved m d') : d.addressOf m.aside ≠ [] :=
  addressOf_ne_nil hm.aside_up hm.aside_ends

/-- What was moved does not lie in the hidden folder. -/
theorem not_below_holder (hm : d.MovedAside reserved m d') :
    ¬d.addressOf m.holder <+: d.addressOf m.original :=
  fun h => hm.found (hm.fresh _ h)

theorem holder_not_below_original (hm : d.MovedAside reserved m d') :
    ¬d.addressOf m.original <+: d.addressOf m.holder := by
  intro h
  have hlen := congrArg List.length hm.beside
  rw [List.length_dropLast, List.length_dropLast] at hlen
  have := List.length_pos_of_ne_nil hm.original_ne_nil
  have := List.length_pos_of_ne_nil hm.holder_ne_nil
  exact hm.not_below_holder (h.eq_of_length (by omega) ▸ List.prefix_refl _)

theorem holder_prefix_aside (hm : d.MovedAside reserved m d') :
    d.addressOf m.holder <+: d.addressOf m.aside := by
  rw [← hm.inside]
  exact List.dropLast_prefix _

theorem holder_not_below_aside (hm : d.MovedAside reserved m d') :
    ¬d.addressOf m.aside <+: d.addressOf m.holder := by
  rw [← hm.inside]
  exact not_prefix_dropLast hm.aside_ne_nil

/-- The folder of what was moved is there still. -/
theorem parent (hm : d.MovedAside reserved m d') (hd : d.IsPlain) :
    d'.get? (d.addressOf m.original).dropLast = some .folder := by
  obtain ⟨e, he⟩ := Option.ne_none_iff_exists'.1 hm.found
  rw [hm.kept _ (not_prefix_dropLast hm.original_ne_nil)]
  · exact hd.parent _ e hm.original_ne_nil he
  · rw [← hm.beside]
    exact not_prefix_dropLast hm.holder_ne_nil

theorem original_gone (hm : d.MovedAside reserved m d') :
    d'.get? (d.addressOf m.original) = none := by
  simpa using hm.gone []

/-- What is asked for does not lie in the hidden folder. -/
theorem not_below_holder_of_short (hm : d.MovedAside reserved m d') {c : Address}
    (hc : ∀ n ∈ c, n.length ≤ reserved) : ¬d.addressOf m.holder <+: c := by
  intro h
  obtain ⟨n, hn, hlong⟩ := hm.long
  have := hc n (h.subset hn)
  omega

end MovedAside

/-- **Moving back undoes moving aside**, and files that were written to empty
places stay where they are, but for the one that what is moved back replaces. -/
theorem Covers.putBack {D : Disk} {places : Address → Prop} {reserved : ℕ} {m : Moved}
    (hD : D.Covers d' places) (hd : d.IsPlain) (hm : d.MovedAside reserved m d')
    (hshort : ∀ c, places c → ∀ n ∈ c, n.length ≤ reserved)
    (hfile : ∀ c, places c → d.get? c ≠ some .folder) :
    (D.putBack m).Covers d places := by
  have hat : ∀ p, D.addressOf p = d.addressOf p :=
    addressOf_of_cwd_eq (hD.cwd_eq.trans hm.cwd_eq)
  have hhidden : ∀ c, d.addressOf m.holder <+: c → D.get? c = d'.get? c := by
    intro c hc
    rcases hD.get?_eq c with h0 | ⟨hp, _⟩
    · exact h0
    · exact absurd hc (hm.not_below_holder_of_short (hshort c hp))
  have hsAt : ∀ r, D.get? (d.addressOf m.aside ++ r) = d.get? (d.addressOf m.original ++ r) := by
    intro r
    rw [hhidden _ (hm.holder_prefix_aside.trans (List.prefix_append _ r)), hm.moved]
  have hsAt' : D.get? (d.addressOf m.aside) = d.get? (d.addressOf m.original) := by
    simpa using hsAt []
  obtain ⟨D₁, hD₁, hplain, hcwd, hget⟩ := exists_rename hD.plain hm.aside_up hm.original_up
    hm.aside_ends hm.original_ends (by rw [hat, hsAt']; exact hm.found)
    (by rw [hat]; exact hD.eq_of_some (hm.parent hd))
    (by
      rw [hat, hat]
      exact fun h0 => hm.not_below_holder (hm.holder_prefix_aside.trans h0))
    (by
      rw [hat, hat, hsAt']
      intro hfolder
      rcases hD.get?_eq (d.addressOf m.original) with h0 | ⟨hp, _⟩
      · rw [h0, hm.original_gone]
      · exact absurd hfolder (hfile _ hp))
    (by
      rw [hat, hat, hsAt']
      refine fun hnot => ⟨?_, hm.aside_slash, hm.original_slash hnot⟩
      rcases hD.get?_eq (d.addressOf m.original) with h0 | ⟨_, _, content, h0⟩
      · rw [h0, hm.original_gone]
        simp
      · rw [h0]
        simp)
  rw [hat, hat] at hget
  have hat₁ : ∀ p, D₁.addressOf p = d.addressOf p := fun p =>
    (addressOf_of_cwd_eq hcwd p).trans (hat p)
  have hholder : D₁.get? (d.addressOf m.holder) = some .folder := by
    rw [hget, movedView, if_neg hm.holder_not_below_original, if_neg hm.holder_not_below_aside,
      hhidden _ (List.prefix_refl _), hm.holder_folder]
  rw [Disk.putBack, hD₁]
  show (D₁.dropHolder m).Covers d places
  rw [dropHolder_eq hplain hm.holder_up hm.holder_ends (by rw [hat₁, hholder]; simp), hat₁]
  refine ⟨hplain.cutTree hm.holder_ne_nil, hcwd.trans (hD.cwd_eq.trans hm.cwd_eq), fun c => ?_⟩
  rw [get?_cutTree_of_ne_nil _ hm.holder_ne_nil]
  by_cases hhc : d.addressOf m.holder <+: c
  · rw [if_pos hhc, hm.fresh c hhc]
    exact .inl rfl
  · rw [if_neg hhc, hget, movedView]
    by_cases hoc : d.addressOf m.original <+: c
    · obtain ⟨r, rfl⟩ := hoc
      rw [if_pos (List.prefix_append _ r), List.drop_left, hsAt]
      exact .inl rfl
    · rw [if_neg hoc, if_neg fun h0 => hhc (hm.holder_prefix_aside.trans h0), ← hm.kept c hoc hhc]
      exact hD.get?_eq c

end Disk

end Fabula
