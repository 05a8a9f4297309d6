import Fabula.Proofs.Project.Places
import Fabula.Proofs.Staging.Place

/-!
# Plans that list an entity

Creating and removing an entity have one shape: calls that create or remove something at the
entity's place, then an edit of the register and one of the world state. What such a plan leaves
behind follows from the shape alone, and is said once for all of them (`Listing`).

## Places apart

The place of an entity is in the folder of its kind, and the registry files are in the data
folder itself. These are different folders with different names, and an id is one name. So no
entity is at, above or below another one, and none is above or below a registry file
(`place_eq_of_comparable`, `not_prefix_place`). Everything that a plan does at
the place of its entity is therefore done away from all other places.

## What is left behind

What a transaction leaves is known address by address, from what is staged, created and removed.
In a plan of this shape the registry files are staged, with their texts as edited, and
everything that is created or removed lies at the place of the entity (`Listing.created_place`,
`Listing.removed_place`). Hence the two registry files hold their texts as edited
(`Listing.effect_register`, `Listing.effect_worldState`), and the places of the other entities
are as they were (`Listing.effect_other`). At the place of the entity there is what was created,
or a folder above that, or nothing when it was removed.

An edit of a file may leave its text as it was. It is staged then, and not written, which makes
no difference to what is left.
-/

namespace Fabula

open Removal

/-- **A plan that lists an entity**: calls at the place of the entity, then an edit of
each registry file. -/
structure Listing (l : Layout) (d : Disk) (kind : EntityKind) (id : Text) (front : List Call)
    (register worldState : Text → Outcome Text) (tx : Transaction) : Prop where
  layout : l.IsDefault
  plain : d.IsPlain
  isWord : IsWord id
  /-- The calls in front read nothing, and stay at the place of the entity. -/
  front_place : ∀ c ∈ front, c.edits = false ∧ ∃ rest,
    d.addressOf c.path = d.addressOf l.dataDir ++ (kind.place id ++ rest)
  calls : ∃ targets, Calls d { layout := l, targets }
    (front ++ [.update l.registerFile register, .update l.worldStateFile worldState]) tx

/-! ## Places apart -/

/-- No file of the data folder is at or above an entity. -/
theorem not_prefix_place {n : Text} {kind : EntityKind} (hn : n ≠ kind.container) (id : Text)
    (b rest : Address) : ¬b ++ [n] <+: b ++ (kind.place id ++ rest) := by
  rw [List.prefix_append_right_inj]
  exact fun hpre => hn (List.cons_prefix_cons.1 hpre).1

/-- No entity is at or above a file of the data folder. -/
theorem not_place_prefix (n : Text) (kind : EntityKind) (id : Text) (b rest : Address) :
    ¬b ++ (kind.place id ++ rest) <+: b ++ [n] := by
  rw [List.prefix_append_right_inj]
  intro hpre
  have hlen := hpre.length_le
  simp [EntityKind.place] at hlen

/-- **No entity is at, above or below another one.** -/
theorem place_eq_of_comparable {kind kind' : EntityKind} {id id' : Text} {b rest : Address}
    (h : b ++ kind'.place id' <+: b ++ (kind.place id ++ rest) ∨
      b ++ (kind.place id ++ rest) <+: b ++ kind'.place id') : kind' = kind ∧ id' = id := by
  rw [List.prefix_append_right_inj, List.prefix_append_right_inj] at h
  rcases h with h | h
  · obtain ⟨hfolder, h⟩ := List.cons_prefix_cons.1 h
    obtain ⟨hname, _⟩ := List.cons_prefix_cons.1 h
    exact EntityKind.place_injective (by rw [EntityKind.place, EntityKind.place, hfolder, hname])
  · obtain ⟨hfolder, h⟩ := List.cons_prefix_cons.1 h
    obtain ⟨hname, _⟩ := List.cons_prefix_cons.1 h
    exact EntityKind.place_injective (by rw [EntityKind.place, EntityKind.place, hfolder, hname])

namespace Listing

variable {l : Layout} {d : Disk} {kind kind' : EntityKind} {id id' : Text} {front : List Call}
  {register worldState : Text → Outcome Text} {tx : Transaction}
  (h : Listing l d kind id front register worldState tx)

include h in
theorem sound : tx.Sound d := by
  obtain ⟨targets, hcalls⟩ := h.calls
  exact (Transaction.Sound.init d l targets).calls hcalls

include h in
/-- The two registry files are two. -/
theorem addressOf_ne : d.addressOf l.registerFile ≠ d.addressOf l.worldStateFile := by
  rw [h.layout.addressOf_registerFile, h.layout.addressOf_worldStateFile]
  intro heq
  exact absurd (List.append_cancel_left heq) (by decide)

/-- Paths of different addresses do not mean the same. -/
theorem same_eq_false {p q : Path} (hne : d.addressOf p ≠ d.addressOf q) : p.same q = false := by
  rw [Bool.eq_false_iff]
  exact fun hsame => hne (Disk.addressOf_congr (Path.same_iff.1 hsame))

/-! ## What is staged -/

include h in
/-- What is created was created by a call in front. -/
theorem created_front {x : Path × Text} (hx : x ∈ tx.created) :
    ∃ q t, Call.create q t ∈ front ∧ q.same x.1 = true := by
  obtain ⟨targets, hcalls⟩ := h.calls
  have hspec := hcalls.created_spec (p := x.1) rfl
  rw [h.sound.created_sorted.find?_of_mem hx] at hspec
  split at hspec
  · cases hspec
  · rename_i first hfirst
    obtain ⟨c, hc, htext⟩ := List.exists_of_findSome?_eq_some hfirst
    cases c with
    | create q t =>
      rw [Call.createdText?] at htext
      split at htext
      · rename_i hsame
        exact ⟨q, t, by simpa using hc, hsame⟩
      · cases htext
    | _ => cases htext

include h in
/-- What is created lies at the place of the entity. -/
theorem created_place {x : Path × Text} (hx : x ∈ tx.created) : ∃ rest,
    d.addressOf x.1 = d.addressOf l.dataDir ++ (kind.place id ++ rest) := by
  obtain ⟨q, t, hc, hsame⟩ := h.created_front hx
  obtain ⟨_, rest, haddress⟩ := h.front_place _ hc
  exact ⟨rest, (Disk.addressOf_congr (Path.same_iff.1 hsame)).symm.trans haddress⟩

include h in
/-- What is removed lies at the place of the entity. -/
theorem removed_place {p : Path} (hp : p ∈ tx.removals) : ∃ rest,
    d.addressOf p = d.addressOf l.dataDir ++ (kind.place id ++ rest) := by
  obtain ⟨targets, hcalls⟩ := h.calls
  rw [hcalls.removals_eq, List.nil_append] at hp
  obtain ⟨c, hc, hremoved⟩ := List.mem_filterMap.1 hp
  have hfront : c ∈ front := by
    rcases List.mem_append.1 hc with hc | hc
    · exact hc
    · rcases List.mem_cons.1 hc with rfl | hc
      · cases hremoved
      · obtain rfl := List.mem_singleton.1 hc
        cases hremoved
  obtain ⟨_, hplace⟩ := h.front_place c hfront
  cases c with
  | deleteFile q => exact Option.some.inj hremoved ▸ hplace
  | deleteFolder q => exact Option.some.inj hremoved ▸ hplace
  | _ => cases hremoved

include h in
/-- Nothing but the registry files is staged. -/
theorem staged_cases {x : Path × Staged} (hx : x ∈ tx.staged) :
    l.registerFile.same x.1 = true ∨ l.worldStateFile.same x.1 = true := by
  obtain ⟨targets, hcalls⟩ := h.calls
  by_contra hnot
  rw [not_or, Bool.not_eq_true, Bool.not_eq_true] at hnot
  have hnone := hcalls.staged_eq (p := x.1) fun c hc hedits => by
    rcases List.mem_append.1 hc with hc | hc
    · rw [(h.front_place c hc).1] at hedits
      cases hedits
    · rcases List.mem_cons.1 hc with rfl | hc
      · exact hnot.1
      · obtain rfl := List.mem_singleton.1 hc
        exact hnot.2
  rw [h.sound.staged_sorted.find?_of_mem hx] at hnone
  cases hnone

include h in
/-- A call in front does nothing to a file of the data folder. -/
theorem front_apart {p : Path} {n : Text}
    (hp : d.addressOf p = d.addressOf l.dataDir ++ [n]) {c : Call} (hc : c ∈ front) :
    c.creates p = false ∧ c.patch? p = none := by
  obtain ⟨hedits, rest, hplace⟩ := h.front_place c hc
  have hne : c.path.same p = false := by
    refine same_eq_false (d := d) fun heq => ?_
    rw [hplace, hp] at heq
    refine not_place_prefix n kind id (d.addressOf l.dataDir) rest ?_
    exact ⟨[], by rw [List.append_nil, heq]⟩
  cases c with
  | read q => cases hedits
  | update q patch => cases hedits
  | create q t => exact ⟨hne, rfl⟩
  | «exists» q => exact ⟨rfl, rfl⟩
  | deleteFile q => exact ⟨rfl, rfl⟩
  | deleteFolder q => exact ⟨rfl, rfl⟩

include h in
/-- **A registry file is staged as edited.** -/
theorem staged_of_patch {p : Path} {n : Text} {patch : Text → Outcome Text}
    (hp : d.addressOf p = d.addressOf l.dataDir ++ [n])
    (hpatch : [Call.update l.registerFile register,
      .update l.worldStateFile worldState].filterMap (Call.patch? p) = [patch]) :
    ∃ s, tx.staged.find? p = some s ∧ patch s.original = .ok s.current := by
  obtain ⟨targets, hcalls⟩ := h.calls
  refine hcalls.exists_staged (fun c hc => ?_) ?_
  · rcases List.mem_append.1 hc with hc | hc
    · exact (h.front_apart hp hc).1
    · rcases List.mem_cons.1 hc with rfl | hc
      · rfl
      · obtain rfl := List.mem_singleton.1 hc
        rfl
  · rw [List.filterMap_append, hpatch, List.filterMap_eq_nil_iff.2 fun c hc =>
      (h.front_apart hp hc).2, List.nil_append]

/-! ## What is left behind -/

include h in
/-- A registry file holds what was staged for it. -/
theorem effect_of_staged {p : Path} {n : Text} (hn : n ≠ kind.container)
    (hp : d.addressOf p = d.addressOf l.dataDir ++ [n])
    (hreg : p = l.registerFile ∨ p = l.worldStateFile) {s : Staged}
    (hs : tx.staged.find? p = some s) :
    d.get? (d.addressOf p) = some (.file (.text s.original)) ∧
      tx.effect d (d.addressOf p) = some (.file (.text s.current)) := by
  obtain ⟨q, hsame, hq⟩ := PathMap.exists_mem_of_find? hs
  have haddress : d.addressOf q = d.addressOf p := Disk.addressOf_congr (Path.same_iff.1 hsame)
  have hup := h.sound.goesUp h.plain (Transaction.Sound.mem_paths_of_staged hq)
  have hread := Disk.get?_of_read h.plain hup (h.sound.staged q s hq)
  have heffect := h.sound.effect_staged h.plain hq (fun x hx hxq => ?_) (fun x hx => ?_)
    (fun r hr => ?_)
  · rw [haddress] at hread heffect
    exact ⟨hread, heffect⟩
  · -- a path of the same address means the same
    have hxp : p.same x.1 = true := by
      rcases hreg with rfl | rfl
      · rcases h.staged_cases hx with hx' | hx'
        · exact hx'
        · have heq := Disk.addressOf_congr (d := d) (Path.same_iff.1 hx')
          exact absurd (haddress.symm.trans (hxq.symm.trans heq.symm)) h.addressOf_ne
      · rcases h.staged_cases hx with hx' | hx'
        · have heq := Disk.addressOf_congr (d := d) (Path.same_iff.1 hx')
          exact absurd (heq.trans (hxq.trans haddress)) h.addressOf_ne
        · exact hx'
    rw [PathMap.find?_congr _ hxp, h.sound.staged_sorted.find?_of_mem hx] at hs
    exact Option.some.inj hs
  · obtain ⟨rest, hrest⟩ := h.created_place hx
    rw [haddress, hp, hrest]
    exact not_prefix_place hn id _ rest
  · obtain ⟨rest, hrest⟩ := h.removed_place hr
    rw [haddress, hp, hrest]
    exact not_place_prefix n kind id _ rest

include h in
/-- **The register holds its text as edited.** -/
theorem effect_register : ∃ t t',
    d.get? (d.addressOf l.dataDir ++ [Layout.registerName]) = some (.file (.text t)) ∧
    register t = .ok t' ∧
    tx.effect d (d.addressOf l.dataDir ++ [Layout.registerName]) = some (.file (.text t')) := by
  have hn : Layout.registerName ≠ kind.container := by
    cases kind <;> decide
  have hp := h.layout.addressOf_registerFile d
  have hother : l.worldStateFile.same l.registerFile = false :=
    same_eq_false (Ne.symm h.addressOf_ne)
  have hpatches : [Call.update l.registerFile register,
      .update l.worldStateFile worldState].filterMap (Call.patch? l.registerFile) = [register] := by
    simp [Call.patch?, Path.same_refl, hother]
  obtain ⟨s, hs, hpatch⟩ := h.staged_of_patch hp hpatches
  obtain ⟨hold, hnew⟩ := h.effect_of_staged hn hp (.inl rfl) hs
  rw [hp] at hold hnew
  exact ⟨s.original, s.current, hold, hpatch, hnew⟩

include h in
/-- **The world state holds its text as edited.** -/
theorem effect_worldState : ∃ t t',
    d.get? (d.addressOf l.dataDir ++ [Layout.worldStateName]) = some (.file (.text t)) ∧
    worldState t = .ok t' ∧
    tx.effect d (d.addressOf l.dataDir ++ [Layout.worldStateName]) = some (.file (.text t')) := by
  have hn : Layout.worldStateName ≠ kind.container := by
    cases kind <;> decide
  have hp := h.layout.addressOf_worldStateFile d
  have hother : l.registerFile.same l.worldStateFile = false := same_eq_false h.addressOf_ne
  have hpatches : [Call.update l.registerFile register,
      .update l.worldStateFile worldState].filterMap (Call.patch? l.worldStateFile) =
        [worldState] := by
    simp [Call.patch?, Path.same_refl, hother]
  obtain ⟨s, hs, hpatch⟩ := h.staged_of_patch hp hpatches
  obtain ⟨hold, hnew⟩ := h.effect_of_staged hn hp (.inr rfl) hs
  rw [hp] at hold hnew
  exact ⟨s.original, s.current, hold, hpatch, hnew⟩

include h in
/-- No registry file is at or below the place of an entity. -/
theorem staged_ne_place {x : Path × Staged} (hx : x ∈ tx.staged) (kind' : EntityKind) (id' : Text)
    (rest : Address) : d.addressOf x.1 ≠ d.addressOf l.dataDir ++ kind'.place id' ++ rest := by
  intro heq
  have hlen := congrArg List.length heq
  rcases h.staged_cases hx with hx' | hx'
  · rw [← Disk.addressOf_congr (Path.same_iff.1 hx'), h.layout.addressOf_registerFile] at hlen
    simp [EntityKind.place] at hlen
  · rw [← Disk.addressOf_congr (Path.same_iff.1 hx'), h.layout.addressOf_worldStateFile] at hlen
    simp [EntityKind.place] at hlen

include h in
/-- **Another entity's place is left alone.** -/
theorem effect_other (hne : ¬(kind' = kind ∧ id' = id)) :
    tx.effect d (d.addressOf l.dataDir ++ kind'.place id') =
      d.get? (d.addressOf l.dataDir ++ kind'.place id') := by
  refine Transaction.effect_elsewhere (fun x hx => ?_) (fun x hx => ?_) fun r hr => ?_
  · exact fun heq => h.staged_ne_place hx kind' id' [] (by rw [heq, List.append_nil])
  · obtain ⟨rest, hrest⟩ := h.created_place hx
    rw [hrest]
    exact fun hpre => hne (place_eq_of_comparable (.inl hpre))
  · obtain ⟨rest, hrest⟩ := h.removed_place hr
    rw [hrest]
    exact fun hpre => hne (place_eq_of_comparable (.inr hpre))

include h in
/-- A call that creates a file has it created. -/
theorem exists_created {p : Path} {t : Text} (hp : Call.create p t ∈ front) :
    ∃ x ∈ tx.created, d.addressOf x.1 = d.addressOf p := by
  obtain ⟨targets, hcalls⟩ := h.calls
  have hspec := hcalls.created_spec (p := p) rfl
  split at hspec
  · rename_i hnone
    rw [List.findSome?_eq_none_iff] at hnone
    have htext := hnone _ (List.mem_append_left _ hp)
    rw [Call.createdText?, if_pos (Path.same_refl p)] at htext
    cases htext
  · obtain ⟨t', hfind, _⟩ := hspec
    obtain ⟨q, hsame, hq⟩ := PathMap.exists_mem_of_find? hfind
    exact ⟨(q, t'), hq, Disk.addressOf_congr (Path.same_iff.1 hsame)⟩

include h in
/-- **A file is created** at the place of the entity, when all that is created is
there. -/
theorem effect_of_create {p : Path} {t : Text} (hp : Call.create p t ∈ front)
    (hall : ∀ q t, Call.create q t ∈ front →
      d.addressOf q = d.addressOf l.dataDir ++ kind.place id) :
    ∃ t, tx.effect d (d.addressOf l.dataDir ++ kind.place id) = some (.file (.text t)) := by
  have hcreated : ∀ x ∈ tx.created, d.addressOf x.1 = d.addressOf l.dataDir ++ kind.place id := by
    intro x hx
    obtain ⟨q, t, hq, hsame⟩ := h.created_front hx
    exact (Disk.addressOf_congr (Path.same_iff.1 hsame)).symm.trans (hall q t hq)
  obtain ⟨x, hx, _⟩ := h.exists_created hp
  rw [← hcreated x hx]
  exact Transaction.effect_created hx fun y hy _ => (hcreated y hy).trans (hcreated x hx).symm

include h in
/-- **A folder is made** at the place of the entity, when all that is created is below
it. -/
theorem effect_above_create {p : Path} {t : Text} (hp : Call.create p t ∈ front)
    (hall : ∀ q t, Call.create q t ∈ front →
      d.addressOf q ≠ d.addressOf l.dataDir ++ kind.place id) :
    tx.effect d (d.addressOf l.dataDir ++ kind.place id) = some .folder := by
  obtain ⟨x, hx, _⟩ := h.exists_created hp
  obtain ⟨rest, hrest⟩ := h.created_place hx
  refine Transaction.effect_above_created (fun y hy => ?_) hx ?_
  · obtain ⟨q, t, hq, hsame⟩ := h.created_front hy
    rw [← Disk.addressOf_congr (Path.same_iff.1 hsame)]
    exact hall q t hq
  · rw [hrest, ← List.append_assoc]
    exact List.prefix_append _ rest

include h in
/-- **What removes the place of the entity** leaves nothing there. -/
theorem effect_of_remove {p : Path} (hp : p ∈ tx.removals)
    (haddress : d.addressOf p = d.addressOf l.dataDir ++ kind.place id)
    (hcreates : ∀ q t, Call.create q t ∉ front) :
    tx.effect d (d.addressOf l.dataDir ++ kind.place id) = none := by
  refine Transaction.effect_removed (fun x hx => ?_) (fun x hx => ?_) hp
    (haddress ▸ List.prefix_refl _)
  · exact fun heq => h.staged_ne_place hx kind id [] (by rw [heq, List.append_nil])
  · obtain ⟨q, t, hc, _⟩ := h.created_front hx
    exact absurd hc (hcreates q t)

end Listing

end Fabula
