import Fabula.Proofs.Staging.Place
import Fabula.Proofs.Staging.Success

/-!
# Plans that only edit and create

A transaction without removals, none of whose paths is above another one, can be told by what
the disk is going to look like. A call edits a file of that view or adds one to it
(`Call.Grows`), and the transaction is what the calls made of the view of the disk
(`Transaction.Grown.calls_iff`). Whether a file is read from the disk or from the transaction,
and whether it was created before the transaction or in it, makes no difference.

This is what makes plans comparable. Two plans may be carried out in one transaction, or each in
its own, one on the disk that the other one left. The calls are the same, and so is what they do
to a view.

## What is going to be at a path

A transaction holds a text for a path when the path was read or created (`Transaction.text?`).
Where it does, that is what is going to be there, where it does not there is what was there, and
above what is created there are folders (`Transaction.Grown.effect_at`,
`Transaction.Grown.effect_above`). So a call finds in the transaction what it would find in the
view: the text it edits, or nothing where it creates. What it then puts into the transaction is
one write, or one creation, in the view. Both directions are needed, because the two plans have
to fail together as well (`Transaction.Grown.grows_of_stages`,
`Transaction.Grown.exists_stages`).

That no path is above another one (`Disk.Spread`) is what makes the address of one of them be
the concern of that one only.

## Clear ways

The one thing a transaction does not see while it is planned is whether the ways to the new
files are clear, as this is found out by the commit. It is asked for here when a file is added.
Since no file is above another one, it may be asked on the disk as well as on the view
(`Transaction.Grown.isClear_effect_iff`), so it is the same question at every moment. The commit
succeeds when it is answered for all new files (`Transaction.Grown.commit_eq_ok_iff`).
-/

namespace Fabula

open Disk (View)

/-- **Paths that can name files, none of which is above another one.** -/
structure Disk.Spread (d : Disk) (S : Set Path) : Prop where
  canName : ∀ p ∈ S, d.CanName p
  apart : ∀ p ∈ S, ∀ q ∈ S, d.addressOf p <+: d.addressOf q → p = q

namespace Disk.Spread

variable {d : Disk} {S : Set Path} {p q : Path}

theorem addressOf_ne (h : d.Spread S) (hp : p ∈ S) (hq : q ∈ S) (hne : p ≠ q) :
    d.addressOf p ≠ d.addressOf q :=
  fun heq => hne (h.apart p hp q hq (heq ▸ List.prefix_refl _))

/-- Of such paths two mean the same when they are one. -/
theorem same_iff (h : d.Spread S) (hp : p ∈ S) (hq : q ∈ S) : p.same q = true ↔ p = q := by
  constructor
  · intro hsame
    exact h.apart p hp q hq (addressOf_congr (Path.same_iff.1 hsame) ▸ List.prefix_refl _)
  · rintro rfl
    exact Path.same_refl p

/-- What is above such a path is none of them. -/
theorem ne_of_prefix_dropLast (h : d.Spread S) (hp : p ∈ S) (hq : q ∈ S) {c : Address}
    (hc : c <+: (d.addressOf q).dropLast) : d.addressOf p ≠ c := by
  rintro rfl
  have hname := h.canName q hq
  obtain rfl := h.apart p hp q hq (hc.trans (List.dropLast_prefix _))
  exact Disk.not_prefix_dropLast (Disk.addressOf_ne_nil hname.goesUp hname.endsInName) hc

end Disk.Spread

/-! ## Calls on a view -/

/-- **What a call that edits or creates does to a view.** A file is added where nothing is,
on a way that is clear. -/
inductive Call.Grows (address : Path → Address) : Call → View → View → Prop
  | update {p : Path} {patch : Text → Outcome Text} {v : View} {t t' : Text}
      (hfile : v (address p) = some (.file (.text t))) (hpatch : patch t = .ok t') :
      Grows address (.update p patch) v (v.write (address p) t')
  | create {p : Path} {t : Text} {v : View} (hfree : v (address p) = none)
      (hclear : v.IsClear (address p).dropLast) :
      Grows address (.create p t) v (v.create (address p) t)

/-- **What calls do to a view**, one after the other. -/
inductive Call.GrowsAll (address : Path → Address) : List Call → View → View → Prop
  | nil (v : View) : GrowsAll address [] v v
  | cons {c : Call} {cs : List Call} {v v₁ v₂ : View} (h : c.Grows address v v₁)
      (hs : GrowsAll address cs v₁ v₂) : GrowsAll address (c :: cs) v v₂

namespace Call

variable {address : Path → Address} {c : Call} {cs cs' : List Call} {v v₁ v₂ : View}
  {a : Address}

/-- A call does one thing to a view. -/
theorem Grows.unique (h : c.Grows address v v₁) (h' : c.Grows address v v₂) : v₁ = v₂ := by
  cases h with
  | update hfile hpatch =>
    cases h' with
    | update hfile' hpatch' =>
      rw [hfile] at hfile'
      cases hfile'
      rw [hpatch] at hpatch'
      cases hpatch'
      rfl
  | create => cases h' with
    | create => rfl

/-- **What a call does not reach** stays as it is. -/
theorem Grows.eq_of_not_prefix (h : c.Grows address v v₁) (ha : ¬a <+: address c.path) :
    v₁ a = v a := by
  cases h with
  | update =>
    rw [View.write, if_neg]
    rintro rfl
    exact ha (List.prefix_refl _)
  | create => exact View.create_of_not_prefix ha

/-- **No folder goes.** -/
theorem Grows.folder (h : c.Grows address v v₁) (ha : v a = some .folder) :
    v₁ a = some .folder := by
  cases h with
  | update hfile =>
    rw [View.write, if_neg, ha]
    rintro rfl
    rw [ha] at hfile
    cases hfile
  | create hfree =>
    refine View.folder_create ?_ ha
    rw [hfree]
    simp

/-- **Nothing goes.** -/
theorem Grows.ne_none (h : c.Grows address v v₁) (ha : v a ≠ none) : v₁ a ≠ none := by
  cases h with
  | @update p patch v t t' hfile _ =>
    rw [View.write]
    split
    · simp
    · exact ha
  | @create p t v hfree hclear =>
    rw [View.create, View.write]
    split
    · simp
    · rw [View.makeFolders]
      split
      · simp
      · exact ha

theorem growsAll_nil_iff : GrowsAll address [] v v₁ ↔ v₁ = v := by
  constructor
  · rintro ⟨⟩
    rfl
  · rintro rfl
    exact .nil v₁

theorem growsAll_append_iff : GrowsAll address (cs ++ cs') v v₂ ↔
    ∃ v₁, GrowsAll address cs v v₁ ∧ GrowsAll address cs' v₁ v₂ := by
  induction cs generalizing v with
  | nil =>
    constructor
    · exact fun h => ⟨v, .nil v, h⟩
    · rintro ⟨v₁, h, h'⟩
      rwa [growsAll_nil_iff.1 h] at h'
  | cons c cs ih =>
    constructor
    · intro h
      cases h with
      | cons hc hs =>
        obtain ⟨v₁, h, h'⟩ := ih.1 hs
        exact ⟨v₁, .cons hc h, h'⟩
    · rintro ⟨v₁, h, h'⟩
      cases h with
      | cons hc hs => exact .cons hc (ih.2 ⟨v₁, hs, h'⟩)

theorem GrowsAll.unique (h : GrowsAll address cs v v₁) (h' : GrowsAll address cs v v₂) :
    v₁ = v₂ := by
  induction h with
  | nil => exact (growsAll_nil_iff.1 h').symm
  | cons hc hs ih =>
    cases h' with
    | cons hc' hs' =>
      obtain rfl := hc.unique hc'
      exact ih hs'

theorem GrowsAll.eq_of_not_prefix (h : GrowsAll address cs v v₁)
    (ha : ∀ c ∈ cs, ¬a <+: address c.path) : v₁ a = v a := by
  induction h with
  | nil => rfl
  | cons hc hs ih =>
    rw [ih fun c' hc' => ha c' (List.mem_cons_of_mem _ hc'),
      hc.eq_of_not_prefix (ha _ List.mem_cons_self)]

theorem GrowsAll.folder (h : GrowsAll address cs v v₁) (ha : v a = some .folder) :
    v₁ a = some .folder := by
  induction h with
  | nil => exact ha
  | cons hc hs ih => exact ih (hc.folder ha)

theorem GrowsAll.ne_none (h : GrowsAll address cs v v₁) (ha : v a ≠ none) : v₁ a ≠ none := by
  induction h with
  | nil => exact ha
  | cons hc hs ih => exact ih (hc.ne_none ha)

/-- **A way that leads through no new file** stays clear. -/
theorem GrowsAll.isClear (h : GrowsAll address cs v v₁) (hoff : ∀ c ∈ cs, ¬address c.path <+: a)
    (ha : v.IsClear a) : v₁.IsClear a := by
  induction h with
  | nil => exact ha
  | cons hc hs ih =>
    refine ih (fun c hc' => hoff c (List.mem_cons_of_mem _ hc')) ?_
    have hpath := hoff _ List.mem_cons_self
    cases hc with
    | update hfile => exact ((View.sameOutline_write hfile).isClear_iff a).2 ha
    | create hfree hclear => exact (View.isClear_create_iff hclear hpath).2 ha

/-- **A file that one call edits** holds its text as edited. -/
theorem GrowsAll.text_of_update {p : Path} {patch : Text → Outcome Text} {t : Text}
    (h : GrowsAll address (cs ++ .update p patch :: cs') v v₂)
    (hfront : ∀ c ∈ cs, ¬address p <+: address c.path)
    (hback : ∀ c ∈ cs', ¬address p <+: address c.path)
    (hold : v (address p) = some (.file (.text t))) :
    ∃ t', patch t = .ok t' ∧ v₂ (address p) = some (.file (.text t')) := by
  obtain ⟨v₁, hcs, hrest⟩ := growsAll_append_iff.1 h
  cases hrest with
  | cons hc hs =>
    rw [← hcs.eq_of_not_prefix hfront] at hold
    rw [hs.eq_of_not_prefix hback]
    cases hc with
    | update hfile hpatch =>
      rw [hold] at hfile
      cases hfile
      exact ⟨_, hpatch, if_pos rfl⟩

/-- **A file that one call creates** holds the text it was created with. -/
theorem GrowsAll.text_of_create {p : Path} {t : Text}
    (h : GrowsAll address (cs ++ .create p t :: cs') v v₂)
    (hback : ∀ c ∈ cs', ¬address p <+: address c.path) :
    v₂ (address p) = some (.file (.text t)) := by
  obtain ⟨v₁, hcs, hrest⟩ := growsAll_append_iff.1 h
  cases hrest with
  | cons hc hs =>
    rw [hs.eq_of_not_prefix hback]
    cases hc with
    | create => exact if_pos rfl

end Call

namespace Transaction

variable {d : Disk} {S : Set Path} {tx tx' : Transaction} {p q : Path} {c : Call}

/-! ## What a transaction holds -/

/-- **The text a transaction holds for a path**, if it was read or created. -/
def text? (tx : Transaction) (p : Path) : Option Text :=
  (tx.created.find? p).or ((tx.staged.find? p).map Staged.current)

/-- **A transaction that only edits and creates**, at certain paths. -/
structure Grown (d : Disk) (S : Set Path) (tx : Transaction) : Prop where
  sound : tx.Sound d
  removals : tx.removals = []
  staged : ∀ x ∈ tx.staged, x.1 ∈ S
  created : ∀ x ∈ tx.created, x.1 ∈ S

/-- **The ways to the new files are clear.** -/
def IsOpen (d : Disk) (S : Set Path) (tx : Transaction) : Prop :=
  ∀ q ∈ S, tx.created.holds q = true → View.IsClear d.get? (d.addressOf q).dropLast

theorem Grown.init (d : Disk) (S : Set Path) (l : Layout) (targets : List Path) :
    Grown d S { layout := l, targets } where
  sound := .init d l targets
  removals := rfl
  staged := fun _ hx => absurd hx List.not_mem_nil
  created := fun _ hx => absurd hx List.not_mem_nil

theorem IsOpen.init (d : Disk) (S : Set Path) (l : Layout) (targets : List Path) :
    IsOpen d S { layout := l, targets } :=
  fun _ _ h => absurd h Bool.false_ne_true

namespace Grown

/-- A map in order keeps for a path what it lists for it. -/
theorem find?_eq_some_iff {α : Type} {m : PathMap α} {a : α} (hS : d.Spread S) (hm : m.Sorted)
    (hmS : ∀ x ∈ m, x.1 ∈ S) (hq : q ∈ S) : m.find? q = some a ↔ (q, a) ∈ m := by
  constructor
  · intro h
    obtain ⟨r, hr, hmem⟩ := PathMap.exists_mem_of_find? h
    obtain rfl := (hS.same_iff (hmS _ hmem) hq).1 hr
    exact hmem
  · exact hm.find?_of_mem

variable (hS : d.Spread S) (h : tx.Grown d S) (hd : d.IsPlain)

include hS h in
theorem find?_created {t : Text} (hq : q ∈ S) :
    tx.created.find? q = some t ↔ (q, t) ∈ tx.created :=
  find?_eq_some_iff hS h.sound.created_sorted h.created hq

include hS h in
theorem find?_staged {s : Staged} (hq : q ∈ S) :
    tx.staged.find? q = some s ↔ (q, s) ∈ tx.staged :=
  find?_eq_some_iff hS h.sound.staged_sorted h.staged hq

include hS h hd in
/-- **What is going to be at a path** is the text held for it, or what is there. -/
theorem effect_at (hq : q ∈ S) : tx.effect d (d.addressOf q) =
    (tx.text? q).elim (d.get? (d.addressOf q)) fun t => some (.file (.text t)) := by
  have hnot : tx.created.find? q = none → ∀ x ∈ tx.created, ¬d.addressOf q <+: d.addressOf x.1 := by
    intro hnone x hx hpre
    obtain rfl := hS.apart q hq x.1 (h.created x hx) hpre
    rw [(h.find?_created hS hq).2 hx] at hnone
    cases hnone
  unfold text?
  cases hc : tx.created.find? q with
  | some t =>
    have hmem := (h.find?_created hS hq).1 hc
    refine effect_created_text hmem (fun y hy hpre => ?_) fun y hy heq => ?_
    · rw [← hS.apart q hq y.1 (h.created y hy) hpre]
    · obtain rfl := hS.apart y.1 (h.created y hy) q hq (heq ▸ List.prefix_refl _)
      rw [(h.find?_created hS hq).2 hy] at hc
      exact Option.some.inj hc
  | none =>
    cases hs : tx.staged.find? q with
    | some s =>
      have hmem := (h.find?_staged hS hq).1 hs
      refine h.sound.effect_staged hd hmem (fun y hy heq => ?_) (hnot hc) ?_
      · obtain rfl := hS.apart y.1 (h.staged y hy) q hq (heq ▸ List.prefix_refl _)
        rw [(h.find?_staged hS hq).2 hy] at hs
        exact Option.some.inj hs
      · rw [h.removals]
        simp
    | none =>
      refine effect_elsewhere (fun x hx heq => ?_) (hnot hc) ?_
      · obtain rfl := hS.apart x.1 (h.staged x hx) q hq (heq ▸ List.prefix_refl _)
        rw [(h.find?_staged hS hq).2 hx] at hs
        cases hs
      · rw [h.removals]
        simp

include hS h in
theorem exists_holds {c : Address} : (∃ x ∈ tx.created, c <+: d.addressOf x.1) ↔
    ∃ q ∈ S, tx.created.holds q = true ∧ c <+: d.addressOf q := by
  constructor
  · rintro ⟨x, hx, hpre⟩
    refine ⟨x.1, h.created x hx, ?_, hpre⟩
    rw [PathMap.holds, (h.find?_created hS (h.created x hx)).2 hx]
    rfl
  · rintro ⟨q, hq, hholds, hpre⟩
    obtain ⟨t, ht⟩ := Option.isSome_iff_exists.1 hholds
    exact ⟨(q, t), (h.find?_created hS hq).1 ht, hpre⟩

include hS h in
/-- **Above a new file** there is going to be a folder. -/
theorem effect_above {c : Address} (hc : ∀ q ∈ S, d.addressOf q ≠ c) (hq : q ∈ S)
    (hholds : tx.created.holds q = true) (hpre : c <+: d.addressOf q) :
    tx.effect d c = some .folder := by
  obtain ⟨x, hx, hxc⟩ := (h.exists_holds hS).2 ⟨q, hq, hholds, hpre⟩
  exact effect_above_created (fun y hy => hc y.1 (h.created y hy)) hx hxc

include hS h in
/-- **Everywhere else** is what was there. -/
theorem effect_off {c : Address} (hc : ∀ q ∈ S, d.addressOf q ≠ c)
    (hno : ∀ q ∈ S, tx.created.holds q = true → ¬c <+: d.addressOf q) :
    tx.effect d c = d.get? c := by
  refine effect_elsewhere (fun x hx => hc x.1 (h.staged x hx)) (fun x hx hpre => ?_) ?_
  · obtain ⟨q, hq, hholds, hpre'⟩ := (h.exists_holds hS).1 ⟨x, hx, hpre⟩
    exact hno q hq hholds hpre'
  · rw [h.removals]
    simp

include hS h in
/-- **A way that is clear on the disk** stays clear, and no other way becomes so. -/
theorem isClear_effect_iff (hopen : tx.IsOpen d S) (hq : q ∈ S) :
    View.IsClear (tx.effect d) (d.addressOf q).dropLast ↔
      View.IsClear d.get? (d.addressOf q).dropLast := by
  refine forall₂_congr fun c hc => ?_
  have hoff : ∀ r ∈ S, d.addressOf r ≠ c := fun r hr => hS.ne_of_prefix_dropLast hr hq hc
  by_cases habove : ∃ r ∈ S, tx.created.holds r = true ∧ c <+: d.addressOf r
  · obtain ⟨r, hr, hholds, hpre⟩ := habove
    rw [h.effect_above hS hoff hr hholds hpre]
    exact iff_of_true (.inr rfl)
      (hopen r hr hholds c (Disk.prefix_dropLast_of_ne hpre (hoff r hr).symm))
  · rw [h.effect_off hS hoff fun r hr hholds hpre => habove ⟨r, hr, hholds, hpre⟩]

/-! ## One call -/

include hS h hd in
/-- **A text that is put in the place of another one** is written. -/
theorem effect_eq_write (h' : tx'.Grown d S) (hp : p ∈ S) {t : Text}
    (htext : ∀ q ∈ S, tx'.text? q = if p.same q = true then some t else tx.text? q)
    (hholds : ∀ q ∈ S, tx'.created.holds q = tx.created.holds q) :
    tx'.effect d = View.write (tx.effect d) (d.addressOf p) t := by
  funext c
  unfold View.write
  by_cases hc : ∃ q ∈ S, d.addressOf q = c
  · obtain ⟨q, hq, rfl⟩ := hc
    rw [h'.effect_at hS hd hq, h.effect_at hS hd hq, htext q hq]
    by_cases hqp : p = q
    · rw [if_pos ((hS.same_iff hp hq).2 hqp), if_pos (hqp ▸ rfl)]
      rfl
    · rw [if_neg (mt (hS.same_iff hp hq).1 hqp), if_neg (hS.addressOf_ne hq hp (Ne.symm hqp))]
  · have hoff : ∀ q ∈ S, d.addressOf q ≠ c := fun q hq heq => hc ⟨q, hq, heq⟩
    rw [if_neg (hoff p hp).symm]
    by_cases habove : ∃ r ∈ S, tx.created.holds r = true ∧ c <+: d.addressOf r
    · obtain ⟨r, hr, hr', hpre⟩ := habove
      rw [h.effect_above hS hoff hr hr' hpre,
        h'.effect_above hS hoff hr ((hholds r hr).trans hr') hpre]
    · have hno : ∀ r ∈ S, tx.created.holds r = true → ¬c <+: d.addressOf r :=
        fun r hr hr' hpre => habove ⟨r, hr, hr', hpre⟩
      rw [h.effect_off hS hoff hno,
        h'.effect_off hS hoff fun r hr hr' => hno r hr ((hholds r hr).symm.trans hr')]

include hS h hd in
/-- **A new file** is created, with the folders above it. -/
theorem effect_eq_create (h' : tx'.Grown d S) (hp : p ∈ S) {t : Text}
    (htext : ∀ q ∈ S, tx'.text? q = if p.same q = true then some t else tx.text? q)
    (hholds : ∀ q ∈ S, tx'.created.holds q = true ↔ p = q ∨ tx.created.holds q = true) :
    tx'.effect d = View.create (tx.effect d) (d.addressOf p) t := by
  funext c
  by_cases hc : ∃ q ∈ S, d.addressOf q = c
  · obtain ⟨q, hq, rfl⟩ := hc
    rw [h'.effect_at hS hd hq, htext q hq]
    by_cases hqp : p = q
    · rw [if_pos ((hS.same_iff hp hq).2 hqp), View.create, View.write, if_pos (hqp ▸ rfl)]
      rfl
    · rw [if_neg (mt (hS.same_iff hp hq).1 hqp), View.create_of_not_prefix, h.effect_at hS hd hq]
      exact fun hpre => hqp (hS.apart q hq p hp hpre).symm
  · have hoff : ∀ q ∈ S, d.addressOf q ≠ c := fun q hq heq => hc ⟨q, hq, heq⟩
    by_cases hpre : c <+: d.addressOf p
    · rw [h'.effect_above hS hoff hp ((hholds p hp).2 (.inl rfl)) hpre, View.create, View.write,
        if_neg (hoff p hp).symm, View.makeFolders,
        if_pos (Disk.prefix_dropLast_of_ne hpre (hoff p hp).symm)]
    · rw [View.create_of_not_prefix hpre]
      by_cases habove : ∃ r ∈ S, tx.created.holds r = true ∧ c <+: d.addressOf r
      · obtain ⟨r, hr, hr', hpre'⟩ := habove
        rw [h.effect_above hS hoff hr hr' hpre',
          h'.effect_above hS hoff hr ((hholds r hr).2 (.inr hr')) hpre']
      · have hno : ∀ r ∈ S, tx.created.holds r = true → ¬c <+: d.addressOf r :=
          fun r hr hr' hpre' => habove ⟨r, hr, hr', hpre'⟩
        rw [h.effect_off hS hoff hno, h'.effect_off hS hoff fun r hr hr' => ?_]
        rcases (hholds r hr).1 hr' with rfl | hr''
        · exact hpre
        · exact hno r hr hr''

end Grown

end Transaction

namespace Call

/-- Whether a call edits a file or creates one. -/
def isGrowth : Call → Bool
  | update _ _ => true
  | create _ _ => true
  | _ => false

/-- What is created stays created. -/
theorem Stages.holds_created {d : Disk} {tx tx' : Transaction} {c : Call} {q : Path}
    (h : c.Stages d tx tx') (hq : tx.created.holds q = true) : tx'.created.holds q = true := by
  cases h with
  | updateCreated | create =>
    unfold PathMap.holds
    rw [PathMap.find?_insert]
    split
    · rfl
    · exact hq
  | _ => exact hq

end Call

namespace Transaction

variable {d : Disk} {tx : Transaction} {p : Path} {t : Text}

theorem read_of_created (hc : tx.check d p = .ok ()) (hcr : tx.created.find? p = some t) :
    tx.read d p = .ok (t, tx) := by
  refine Outcome.bind_eq_ok.2 ⟨(), hc, ?_⟩
  rw [hcr]
  rfl

theorem read_of_staged {s : Staged} (hc : tx.check d p = .ok ()) (hcr : tx.created.find? p = none)
    (hst : tx.staged.find? p = some s) : tx.read d p = .ok (s.current, tx) := by
  refine Outcome.bind_eq_ok.2 ⟨(), hc, ?_⟩
  rw [hcr, hst]
  rfl

theorem read_of_disk (hc : tx.check d p = .ok ()) (hcr : tx.created.find? p = none)
    (hst : tx.staged.find? p = none) (hr : d.read p = .ok t) :
    tx.read d p = .ok (t, { tx with staged := tx.staged.insert p ⟨t, t⟩ }) := by
  refine Outcome.bind_eq_ok.2 ⟨(), hc, ?_⟩
  rw [hcr, hst, hr]
  rfl

end Transaction

/-- **What an edit or a creation may stage it stages.** -/
theorem Call.Stages.exists_run {d : Disk} {tx tx' : Transaction} {c : Call}
    (h : c.Stages d tx tx') (hgrowth : c.isGrowth = true) :
    ∃ answer, c.run d tx = .ok (answer, tx') := by
  cases h with
  | @updateCreated p patch t t' hc hcr hp =>
    refine ⟨.done, Outcome.bind_eq_ok.2 ⟨_, Outcome.bind_eq_ok.2
      ⟨_, Transaction.read_of_created hc hcr, Outcome.bind_eq_ok.2
        ⟨t', Outcome.within_eq_ok.2 hp, ?_⟩⟩, rfl⟩⟩
    simp only [PathMap.holds, hcr]
    rfl
  | @updateStaged p patch s t' hc hcr hst hp =>
    refine ⟨.done, Outcome.bind_eq_ok.2 ⟨_, Outcome.bind_eq_ok.2
      ⟨_, Transaction.read_of_staged hc hcr hst, Outcome.bind_eq_ok.2
        ⟨t', Outcome.within_eq_ok.2 hp, ?_⟩⟩, rfl⟩⟩
    simp only [PathMap.holds, hcr, hst]
    rfl
  | @updateNew p patch t t' hc hcr hst hr hp =>
    refine ⟨.done, Outcome.bind_eq_ok.2 ⟨_, Outcome.bind_eq_ok.2
      ⟨_, Transaction.read_of_disk hc hcr hst hr, Outcome.bind_eq_ok.2
        ⟨t', Outcome.within_eq_ok.2 hp, ?_⟩⟩, rfl⟩⟩
    simp only [PathMap.holds, hcr, PathMap.find?_insert, Path.same_refl]
    rfl
  | @create p t hc he =>
    refine ⟨.done, Outcome.bind_eq_ok.2 ⟨_, Outcome.bind_eq_ok.2 ⟨(), hc, ?_⟩, rfl⟩⟩
    rw [if_neg (by simp [he])]
    rfl
  | _ => cases hgrowth

namespace Transaction

variable {d : Disk} {S : Set Path} {tx tx' : Transaction} {p q : Path} {c : Call}

theorem text?_putCreated (tx : Transaction) (p q : Path) (t : Text) :
    text? { tx with created := tx.created.insert p t } q =
      if p.same q = true then some t else tx.text? q := by
  unfold text?
  show ((tx.created.insert p t).find? q).or _ = _
  rw [PathMap.find?_insert]
  split
  · rfl
  · rfl

theorem text?_putStaged {staged : PathMap Staged} {s : Staged} (hcreated : tx.created.find? p = none)
    (hstaged : staged.find? q = if p.same q = true then some s else tx.staged.find? q)
    (hone : p.same q = true → p = q) : text? { tx with staged } q =
      if p.same q = true then some s.current else tx.text? q := by
  unfold text?
  show (tx.created.find? q).or ((staged.find? q).map Staged.current) = _
  rw [hstaged]
  by_cases hsame : p.same q = true
  · rw [if_pos hsame, if_pos hsame, ← hone hsame, hcreated]
    rfl
  · rw [if_neg hsame, if_neg hsame]

/-- What is kept after a path was read and edited. -/
theorem find?_insert_insert {α : Type} (m : PathMap α) (p q : Path) (a b : α) :
    ((m.insert p a).insert p b).find? q = if p.same q = true then some b else m.find? q := by
  rw [PathMap.find?_insert, PathMap.find?_insert]
  split
  · rfl
  · rfl

theorem holds_insert {m : PathMap Text} {t : Text} :
    (m.insert p t).holds q = true ↔ p.same q = true ∨ m.holds q = true := by
  unfold PathMap.holds
  rw [PathMap.find?_insert]
  split
  · rename_i hsame
    exact iff_of_true rfl (.inl hsame)
  · rename_i hsame
    exact (or_iff_right hsame).symm

namespace Grown

/-- A map that keeps values for certain paths does so after one is put in. -/
theorem mem_of_insert {α : Type} {m : PathMap α} (hm : m.Sorted) (hmS : ∀ x ∈ m, x.1 ∈ S)
    (hp : p ∈ S) (a : α) : ∀ x ∈ m.insert p a, x.1 ∈ S := by
  intro x hx
  rcases PathMap.mem_insert hm hx with hx | ⟨q, b, rfl, _, hq, _⟩ | ⟨rfl, _⟩
  · exact hmS x hx
  · exact hmS (q, b) hq
  · exact hp

/-- **A call keeps a transaction one that only edits and creates.** -/
theorem stages (h : tx.Grown d S) (hc : c.Stages d tx tx') (hgrowth : c.isGrowth = true)
    (hp : c.path ∈ S) : tx'.Grown d S := by
  have hsound := h.sound.stages hc
  cases hc with
  | updateCreated | create =>
    exact ⟨hsound, h.removals, h.staged, mem_of_insert h.sound.created_sorted h.created hp _⟩
  | updateStaged =>
    exact ⟨hsound, h.removals, mem_of_insert h.sound.staged_sorted h.staged hp _, h.created⟩
  | updateNew =>
    refine ⟨hsound, h.removals, ?_, h.created⟩
    exact mem_of_insert (h.sound.staged_sorted.insert _ _)
      (mem_of_insert h.sound.staged_sorted h.staged hp _) hp _
  | _ => cases hgrowth

variable (hS : d.Spread S) (h : tx.Grown d S) (hd : d.IsPlain)

include hS h hd in
/-- What a path is read as, if it is not held: what is there. -/
theorem effect_of_read (hp : p ∈ S) {t : Text} (hnone : tx.text? p = none)
    (hr : d.read p = .ok t) : tx.effect d (d.addressOf p) = some (.file (.text t)) := by
  rw [h.effect_at hS hd hp, hnone, Option.elim_none, ← (hS.canName p hp).entryOf?_eq hd]
  exact Disk.read_eq_ok_iff.1 hr

include hS h hd in
/-- **There is going to be nothing at a path** where the transaction sees nothing. -/
theorem effect_eq_none_iff (hp : p ∈ S) :
    tx.effect d (d.addressOf p) = none ↔ tx.pathExists d p = false := by
  have hremoved : tx.isRemoved p = false := by
    rw [isRemoved, h.removals]
    rfl
  rw [h.effect_at hS hd hp, pathExists, hremoved, Disk.pathExists,
    (hS.canName p hp).entryOf?_eq hd, PathMap.holds, text?]
  cases hcr : tx.created.find? p with
  | some t => simp
  | none =>
    cases hst : tx.staged.find? p with
    | none => simp
    | some s =>
      have hr := h.sound.staged p s ((h.find?_staged hS hp).1 hst)
      rw [Disk.read_eq_ok_iff, (hS.canName p hp).entryOf?_eq hd] at hr
      simp [hr]

include hS h hd in
/-- **What a call stages** is what it does to the view, when the ways to the new files are
clear. -/
theorem grows_of_stages (hc : c.Stages d tx tx') (hgrowth : c.isGrowth = true) (hp : c.path ∈ S)
    (hopen : tx'.IsOpen d S) : c.Grows d.addressOf (tx.effect d) (tx'.effect d) := by
  have h' := h.stages hc hgrowth hp
  have hopen₀ : tx.IsOpen d S := fun q hq hholds => hopen q hq (hc.holds_created hholds)
  cases hc with
  | @updateCreated p patch t t' _ hcr hpatch =>
    change p ∈ S at hp
    have htext : tx.text? p = some t := by
      rw [text?, hcr]
      rfl
    rw [h.effect_eq_write hS hd h' hp (fun q _ => text?_putCreated tx p q t') fun q hq => ?_]
    · refine .update ?_ hpatch
      rw [h.effect_at hS hd hp, htext]
      rfl
    · rw [Bool.eq_iff_iff, holds_insert, or_iff_right_iff_imp]
      intro hsame
      rw [← (hS.same_iff hp hq).1 hsame, PathMap.holds, hcr]
      rfl
  | @updateStaged p patch s t' _ hcr hst hpatch =>
    change p ∈ S at hp
    have htext : tx.text? p = some s.current := by
      rw [text?, hcr, hst]
      rfl
    rw [h.effect_eq_write hS hd h' hp (fun q hq => text?_putStaged hcr (PathMap.find?_insert _ _ _ _)
      (hS.same_iff hp hq).1) fun q _ => rfl]
    refine .update ?_ hpatch
    rw [h.effect_at hS hd hp, htext]
    rfl
  | @updateNew p patch t t' _ hcr hst hr hpatch =>
    change p ∈ S at hp
    have htext : tx.text? p = none := by
      rw [text?, hcr, hst]
      rfl
    rw [h.effect_eq_write hS hd h' hp (fun q hq => text?_putStaged hcr
      (find?_insert_insert _ _ _ _ _) (hS.same_iff hp hq).1) fun q _ => rfl]
    exact .update (h.effect_of_read hS hd hp htext hr) hpatch
  | @create p t _ he =>
    change p ∈ S at hp
    rw [h.effect_eq_create hS hd h' hp (fun q _ => text?_putCreated tx p q t) fun q hq => ?_]
    · refine .create ((h.effect_eq_none_iff hS hd hp).2 he) ?_
      exact (h.isClear_effect_iff hS hopen₀ hp).2
        (hopen p hp (holds_insert.2 (.inl (Path.same_refl p))))
    · rw [holds_insert, hS.same_iff hp hq]
  | _ => cases hgrowth

include hS h hd in
/-- **What a call does to the view** it stages. -/
theorem exists_stages (hopen : tx.IsOpen d S) (hcheck : tx.check d c.path = .ok ())
    (hp : c.path ∈ S) {v : View} (hgrows : c.Grows d.addressOf (tx.effect d) v) :
    ∃ tx', c.Stages d tx tx' ∧ tx'.IsOpen d S := by
  cases hgrows with
  | @update p patch _ t t' hfile hpatch =>
    change p ∈ S at hp
    rw [h.effect_at hS hd hp, text?] at hfile
    cases hcr : tx.created.find? p with
    | some t₀ =>
      rw [hcr] at hfile
      cases hfile
      refine ⟨_, .updateCreated hcheck hcr hpatch, fun q hq hholds => ?_⟩
      rcases holds_insert.1 hholds with hsame | hq'
      · obtain rfl := (hS.same_iff hp hq).1 hsame
        exact hopen p hp (by rw [PathMap.holds, hcr]; rfl)
      · exact hopen q hq hq'
    | none =>
      rw [hcr, Option.none_or] at hfile
      cases hst : tx.staged.find? p with
      | some s₀ =>
        rw [hst] at hfile
        cases hfile
        exact ⟨_, .updateStaged hcheck hcr hst hpatch, hopen⟩
      | none =>
        rw [hst, Option.map_none, Option.elim_none, ← (hS.canName p hp).entryOf?_eq hd] at hfile
        exact ⟨_, .updateNew hcheck hcr hst (Disk.read_eq_ok_iff.2 hfile) hpatch, hopen⟩
  | @create p t _ hfree hclear =>
    change p ∈ S at hp
    refine ⟨_, .create hcheck ((h.effect_eq_none_iff hS hd hp).1 hfree), fun q hq hholds => ?_⟩
    rcases holds_insert.1 hholds with hsame | hq'
    · obtain rfl := (hS.same_iff hp hq).1 hsame
      exact (h.isClear_effect_iff hS hopen hp).1 hclear
    · exact hopen q hq hq'

/-! ## Any number of calls -/

include h in
/-- **Calls keep a transaction one that only edits and creates.** -/
theorem calls {cs : List Call} (hcs : Calls d tx cs tx')
    (hcalls : ∀ c ∈ cs, c.isGrowth = true ∧ c.path ∈ S) : tx'.Grown d S := by
  induction hcs with
  | nil => exact h
  | cons hc _ ih =>
    obtain ⟨hgrowth, hp⟩ := hcalls _ List.mem_cons_self
    exact ih (h.stages (Call.stages_of_run hc) hgrowth hp)
      fun c' hc' => hcalls c' (List.mem_cons_of_mem _ hc')

/-- What is created stays created. -/
theorem isOpen_of_calls {cs : List Call} (hcs : Calls d tx cs tx') (hopen : tx'.IsOpen d S) :
    tx.IsOpen d S := by
  induction hcs with
  | nil => exact hopen
  | cons hc _ ih =>
    exact fun q hq hholds => ih hopen q hq ((Call.stages_of_run hc).holds_created hholds)

include hS h hd in
/-- **Calls make of the view what they stage**, and stage what they make of the view. Every
way to a new file has to be clear. -/
theorem calls_iff {cs : List Call} {v : View} (hopen : tx.IsOpen d S)
    (hcalls : ∀ c ∈ cs, c.isGrowth = true ∧ c.path ∈ S ∧ tx.check d c.path = .ok ()) :
    Call.GrowsAll d.addressOf cs (tx.effect d) v ↔
      ∃ tx', Calls d tx cs tx' ∧ tx'.IsOpen d S ∧ tx'.effect d = v := by
  induction cs generalizing tx with
  | nil =>
    rw [Call.growsAll_nil_iff]
    constructor
    · rintro rfl
      exact ⟨tx, .nil tx, hopen, rfl⟩
    · rintro ⟨tx', hcs, _, rfl⟩
      cases hcs
      rfl
  | cons c cs ih =>
    obtain ⟨hgrowth, hp, hcheck⟩ := hcalls c List.mem_cons_self
    -- a call leaves alone what may be touched
    have hcalls' : ∀ tx₁, c.Stages d tx tx₁ →
        ∀ c' ∈ cs, c'.isGrowth = true ∧ c'.path ∈ S ∧ tx₁.check d c'.path = .ok () := by
      intro tx₁ hc c' hc'
      obtain ⟨hgrowth', hp', hcheck'⟩ := hcalls c' (List.mem_cons_of_mem _ hc')
      refine ⟨hgrowth', hp', ?_⟩
      rwa [check, hc.layout_eq.1, hc.layout_eq.2]
    constructor
    · intro hall
      cases hall with
      | @cons _ _ _ v₁ _ hc hs =>
        obtain ⟨tx₁, hstages, hopen₁⟩ := h.exists_stages hS hd hopen hcheck hp hc
        obtain rfl := hc.unique (h.grows_of_stages hS hd hstages hgrowth hp hopen₁)
        obtain ⟨tx', hcs, hopen', hview⟩ := (ih (h.stages hstages hgrowth hp) hopen₁
          (hcalls' tx₁ hstages)).1 hs
        obtain ⟨answer, hrun⟩ := hstages.exists_run hgrowth
        exact ⟨tx', .cons hrun hcs, hopen', hview⟩
    · rintro ⟨tx', hall, hopen', rfl⟩
      cases hall with
      | @cons _ tx₁ _ _ _ _ hrun hcs =>
        have hstages := Call.stages_of_run hrun
        have hopen₁ := isOpen_of_calls hcs hopen'
        exact .cons (h.grows_of_stages hS hd hstages hgrowth hp hopen₁)
          ((ih (h.stages hstages hgrowth hp) hopen₁ (hcalls' tx₁ hstages)).2
            ⟨tx', hcs, hopen', rfl⟩)

/-! ## The commit -/

/-- Every path of the transaction is one of the paths it is confined to. -/
theorem mem_of_mem_paths (h : tx.Grown d S) (hp : p ∈ tx.paths) : p ∈ S := by
  rcases mem_paths.1 hp with ⟨s, hs⟩ | ⟨t, ht⟩ | hr
  · exact h.staged _ hs
  · exact h.created _ ht
  · rw [h.removals] at hr
    exact absurd hr List.not_mem_nil

include hS h hd in
/-- **The commit succeeds** when the ways to the new files are clear. -/
theorem commit_eq_ok_iff (scaffold : Text) :
    (∃ r d', tx.commit scaffold d = (.ok r, d')) ↔ tx.IsOpen d S := by
  have hapart : tx.created.Pairwise fun x y => ¬d.addressOf x.1 <+: d.addressOf y.1 ∧
      ¬d.addressOf y.1 <+: d.addressOf x.1 := by
    refine h.sound.created_sorted.imp_of_mem fun {x y} hx hy hlt => ?_
    have hne : x.1 ≠ y.1 := by
      intro heq
      exact Path.not_same_of_lt hlt (heq ▸ Path.same_refl _)
    exact ⟨fun hpre => hne (hS.apart _ (h.created x hx) _ (h.created y hy) hpre),
      fun hpre => hne (hS.apart _ (h.created y hy) _ (h.created x hx) hpre).symm⟩
  rw [h.sound.commit_eq_ok_iff hd h.removals (fun p hp => hS.canName p (h.mem_of_mem_paths hp))
    hapart]
  constructor
  · intro hclear q hq hholds
    obtain ⟨t, ht⟩ := Option.isSome_iff_exists.1 hholds
    exact hclear (q, t) ((h.find?_created hS hq).1 ht)
  · intro hopen x hx
    refine hopen x.1 (h.created x hx) ?_
    rw [PathMap.holds, (h.find?_created hS (h.created x hx)).2 hx]
    rfl

end Grown

end Transaction

end Fabula
