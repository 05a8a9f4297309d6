import Fabula.Proofs.Scaffold.Growths

/-!
# New entities can be created

Whether an entity can be created depends on its own place alone. In a project that shows a
ledger, an entity that is not on it has a free place, the registry files can be edited, and what
is left is that no file stands where the folder of its kind has to be (`Layout.HasRoom`). So a
creation succeeds (`Layout.exists_run_creatingEntity`, `Layout.exists_run_creatingEvent`), and
success is what is proved, not only what is left in case of success.

The edits succeed because the registry files of a ledger are known, and an addition to the file
of a ledger is the file of another one. The commit succeeds because it only edits and creates:
the two files that are edited are there, and the ways to the new ones are clear. Above a place
there are the folder of the kind and the data folder. The former is missing or a folder, the
latter is there, since the registry files are in it (`Layout.Shows.folder`).

A creation takes away no folder and puts its files at the place of its entity, so the room stays
(`Layout.HasRoom.of_growsAll`). Therefore any entities of which no two are one can be created
one after the other, whatever they are called. An event has two files in a folder that is made
for it. The way to the second one goes through the folder, which is there by then, or is missing
as before when the ways are asked for on the disk at the beginning
(`Layout.exists_growsAll_eventFiles`).
-/

namespace Fabula

open scoped Engine.Tireless

open Removal Registry Scaffold

open Disk (View)

namespace Layout

/-- **No file is in the way** of the folders the entities are in. -/
def HasRoom (l : Layout) (d : Disk) : Prop :=
  ∀ kind : EntityKind, View.IsClear d.get? (d.addressOf l.dataDir ++ [kind.container])

variable {l : Layout} {heads : Heads} {d d' : Disk} {live : Ledger} {kind : EntityKind}
  {id name : Text}

/-- A project that shows a ledger has a data folder. -/
theorem Shows.folder (h : l.Shows heads d live) : d.get? (d.addressOf l.dataDir) = some .folder :=
  h.plain.folder_of_append (List.cons_ne_nil _ _) h.register

/-- It can be reached. -/
theorem Shows.reaches (h : l.Shows heads d live) (hl : l.IsDefault) (hdata : l.dataDir.text ≠ []) :
    l.Reaches d := by
  have hstart := h.plain.folder_of_folder (Disk.startOf_prefix_addressOf d l.dataDir) h.folder
  refine ⟨hl.goesUp, _, (Disk.follow_eq_ok_iff h.plain hl.goesUp).2
    ⟨hdata, rfl, ?_, hstart, fun _ => h.folder⟩⟩
  rw [h.folder]
  simp

/-- **There is room** where the folders of the entities are missing. -/
theorem Shows.hasRoom (h : l.Shows heads d live) (hnone : ∀ kind : EntityKind,
    d.get? (d.addressOf l.dataDir ++ [kind.container]) = none) : l.HasRoom d := by
  intro kind c hc
  rcases List.prefix_concat_iff.1 hc with rfl | hc
  · exact .inl (hnone kind)
  · exact .inr (h.plain.folder_of_folder hc h.folder)

/-- No registry file is at or above a place. -/
theorem registry_not_above (hl : l.IsDefault) {q : Path} {rest : Address}
    (hq : d.addressOf q = d.addressOf l.dataDir ++ (kind.place id ++ rest)) :
    ¬d.addressOf l.registerFile <+: d.addressOf q ∧
      ¬d.addressOf l.worldStateFile <+: d.addressOf q := by
  rw [hq, hl.addressOf_registerFile, hl.addressOf_worldStateFile]
  exact ⟨not_prefix_place (by cases kind <;> decide) id _ rest,
    not_prefix_place (by cases kind <;> decide) id _ rest⟩

/-- The two registry files are apart. -/
theorem not_prefix_registry (hl : l.IsDefault) (d : Disk) :
    ¬d.addressOf l.registerFile <+: d.addressOf l.worldStateFile ∧
      ¬d.addressOf l.worldStateFile <+: d.addressOf l.registerFile := by
  rw [hl.addressOf_registerFile, hl.addressOf_worldStateFile, List.prefix_append_right_inj,
    List.prefix_append_right_inj]
  decide

section Calls

variable {front : List Call} {v : View} {register worldState : Text → Outcome Text} {t t' : Text}
  (hl : l.IsDefault) (hfront : ∀ x ∈ front, ∃ rest,
    d.addressOf x.path = d.addressOf l.dataDir ++ (kind.place id ++ rest))

include hl hfront in
/-- **The registry files can be edited** after anything that is done at the place of an
entity. -/
theorem Shows.exists_growsAll (h : l.Shows heads d live)
    (hgrows : Call.GrowsAll d.addressOf front d.get? v)
    (hregister : register (Ledger.register heads live) = .ok t)
    (hworldState : worldState (Ledger.worldState heads live) = .ok t') : ∃ v', Call.GrowsAll d.addressOf
      (front ++ [.update l.registerFile register, .update l.worldStateFile worldState]) d.get? v' := by
  have hold : v (d.addressOf l.registerFile) = some (.file (.text (Ledger.register heads live))) := by
    rw [hgrows.eq_of_not_prefix fun x hx => (registry_not_above hl (hfront x hx).choose_spec).1,
      hl.addressOf_registerFile]
    exact h.register
  have hold' : v (d.addressOf l.worldStateFile) = some (.file (.text (Ledger.worldState heads live))) := by
    rw [hgrows.eq_of_not_prefix fun x hx => (registry_not_above hl (hfront x hx).choose_spec).2,
      hl.addressOf_worldStateFile]
    exact h.worldState
  have hapart : d.addressOf l.worldStateFile ≠ d.addressOf l.registerFile :=
    fun heq => (not_prefix_registry hl d).2 (heq ▸ List.prefix_refl _)
  refine ⟨_, Call.growsAll_append_iff.2 ⟨v, hgrows, .cons (.update hold hregister)
    (.cons (.update ?_ hworldState) (.nil _))⟩⟩
  rw [View.write, if_neg hapart]
  exact hold'

include hl hfront in
/-- **Then they hold their texts as edited.** -/
theorem texts_of_growsAll (hgrows : Call.GrowsAll d.addressOf
      (front ++ [.update l.registerFile register, .update l.worldStateFile worldState]) d.get? v)
    (hold : d.get? (d.addressOf l.registerFile) = some (.file (.text t)))
    (hold' : d.get? (d.addressOf l.worldStateFile) = some (.file (.text t'))) :
    (∃ s, register t = .ok s ∧ v (d.addressOf l.registerFile) = some (.file (.text s))) ∧
      ∃ s, worldState t' = .ok s ∧ v (d.addressOf l.worldStateFile) = some (.file (.text s)) := by
  have happart := not_prefix_registry hl d
  have hfar := fun x (hx : x ∈ front) => registry_not_above hl (hfront x hx).choose_spec
  refine ⟨hgrows.text_of_update (fun x hx => (hfar x hx).1) (fun x hx => ?_) hold, ?_⟩
  · rw [List.mem_singleton.1 hx]
    exact happart.1
  · rw [List.append_cons] at hgrows
    refine hgrows.text_of_update (fun x hx => ?_) (fun x hx => absurd hx List.not_mem_nil) hold'
    rcases List.mem_append.1 hx with hx | hx
    · exact (hfar x hx).2
    · rw [List.mem_singleton.1 hx]
      exact happart.2

include hl hfront in
/-- **The room stays** after an entity is created. -/
theorem HasRoom.of_growsAll (h : l.HasRoom d) (hextends : d'.Extends d)
    (hgrows : Call.GrowsAll d.addressOf
      (front ++ [.update l.registerFile register, .update l.worldStateFile worldState])
      d.get? d'.get?) : l.HasRoom d' := by
  intro kind'
  rw [hextends.addressOf_eq]
  refine hgrows.isClear (fun c hc => ?_) (h kind')
  have hname : ∀ n ∈ [registerName, worldStateName],
      ¬d.addressOf l.dataDir ++ [n] <+: d.addressOf l.dataDir ++ [kind'.container] := by
    intro n hn
    rw [List.prefix_append_right_inj]
    revert n
    cases kind' <;> decide
  rcases List.mem_append.1 hc with hc | hc
  · obtain ⟨rest, hrest⟩ := hfront c hc
    rw [hrest]
    exact not_place_prefix _ _ _ _ _
  · rcases List.mem_cons.1 hc with rfl | hc
    · rw [Call.path, hl.addressOf_registerFile]
      exact hname _ (by simp)
    · rw [List.mem_singleton.1 hc, Call.path, hl.addressOf_worldStateFile]
      exact hname _ (by simp)

end Calls

variable (hl : l.IsDefault) (hdata : l.dataDir.text ≠ []) (h : l.Shows heads d live)
  (hroom : l.HasRoom d)

/-- The place of an entity that is not on the ledger is free. -/
theorem Shows.place_free (h : l.Shows heads d live) (hvalid : Ledger.IsValid (live ++ [(kind, id)])) :
    d.get? (d.addressOf l.dataDir ++ kind.place id) = none := by
  have hmem : (kind, id) ∈ live ++ [(kind, id)] := List.mem_append_right _ List.mem_cons_self
  by_contra hsome
  have hold := (h.places kind id (hvalid.free _ hmem).1).1 hsome
  exact (List.nodup_append.1 hvalid.nodup).2.2 _ hold _ List.mem_cons_self rfl

include hl hdata h hroom in
/-- **An entity that is not there can be created**, unless it is an event. -/
theorem exists_run_creatingEntity (hkind : kind ≠ .event)
    (hvalid : Ledger.IsValid (live ++ [(kind, id)])) : ∃ r d',
      l.run .apply (creatingEntity kind id name) d = (.ok r, d') ∧
        l.Shows heads d' (live ++ [(kind, id)]) ∧ l.HasRoom d' := by
  have hid : IsFreeId id := hvalid.free _ (List.mem_append_right _ List.mem_cons_self)
  have hword := hid.isWord
  have hfile : d.addressOf (l.entityFile kind id) = d.addressOf l.dataDir ++ kind.place id := by
    rw [IsDefault.entityFile_eq hkind, hl.addressOf_placeOf d kind hword]
  have hfree : d.get? (d.addressOf (l.entityFile kind id)) = none := by
    rw [hfile]
    exact h.place_free hvalid
  have hclear : View.IsClear d.get? (d.addressOf (l.entityFile kind id)).dropLast := by
    rw [hfile, show kind.place id = [kind.container] ++ [kind.placeName id] from rfl,
      ← List.append_assoc, List.dropLast_concat]
    exact hroom kind
  have hfront : ∀ x ∈ [Call.create (l.entityFile kind id) (Template.entity kind id name)], ∃ rest,
      d.addressOf x.path = d.addressOf l.dataDir ++ (kind.place id ++ rest) := by
    intro x hx
    rw [List.mem_singleton.1 hx]
    exact hl.place_prefix_entityFile d kind hword
  have hfor : (entityGrowth l kind id name).IsFor l d := isFor_entityGrowth hl hkind hword
  obtain ⟨v, hgrows⟩ := h.exists_growsAll hl hfront (.cons (.create hfree hclear) (.nil _))
    (addToRegister_ledger hl hdata hvalid hkind) (addToWorldState_ledger hl hdata hvalid)
  obtain ⟨r, d', hrun⟩ := Growth.exists_run (h.reaches hl hdata) h.plain hfor (.refl h.plain)
    trivial hgrows
  obtain ⟨hextends, -, hgrows⟩ := Growth.of_run (h.reaches hl hdata) h.plain hfor
    (.refl h.plain) hrun
  have hrun : l.run .apply (creatingEntity kind id name) d = (.ok r, d') := hrun
  have hcases := l.run_cases h.plain (s := creatingEntity kind id name) fun _ _ _ hplan =>
    ⟨_, (creatingEntity_spec.1 hplan).2⟩
  rw [hrun] at hcases
  obtain ⟨hplain, hcwd, _, _, hplan, hview⟩ := hcases
  exact ⟨r, d', hrun, shows_creatingEntity hl hdata h hid hplain hcwd hview hkind hplan,
    hroom.of_growsAll hl hfront hextends hgrows⟩

include hl h hroom in
/-- **The files of a new event can be created**, one after the other in one folder. -/
theorem exists_growsAll_eventFiles (hvalid : Ledger.IsValid (live ++ [(.event, id)]))
    (t t' : Text) : ∃ v, Call.GrowsAll d.addressOf
      [.create (l.eventFile id) t, .create (l.passageMapFile id) t'] d.get? v := by
  have hword : IsWord id := hvalid.isWord (List.mem_append_right _ List.mem_cons_self)
  have hdir : d.addressOf (l.eventDir id) = d.addressOf l.dataDir ++ EntityKind.event.place id :=
    hl.addressOf_placeOf d .event hword
  have hfree := h.place_free hvalid
  rw [← hdir] at hfree
  have hclear : View.IsClear d.get? (d.addressOf (l.eventDir id)) := by
    intro c hc
    rw [hdir, show EntityKind.event.place id = [EntityKind.event.container] ++ [id] from rfl,
      ← List.append_assoc, List.prefix_concat_iff, List.append_assoc] at hc
    rcases hc with rfl | hc
    · exact .inl (hdir ▸ hfree)
    · exact hroom .event c hc
  have hevent : d.addressOf (l.eventFile id) =
      d.addressOf (l.eventDir id) ++ [id ++ ".event.ts".toList] :=
    Disk.addressOf_join _ (isName_append hword (by decide))
  have hmap : d.addressOf (l.passageMapFile id) =
      d.addressOf (l.eventDir id) ++ [id ++ ".passages.ts".toList] :=
    Disk.addressOf_join _ (isName_append hword (by decide))
  have hclearEvent : View.IsClear d.get? (d.addressOf (l.eventFile id)).dropLast := by
    rwa [hevent, List.dropLast_concat]
  -- neither file is above the other one or its folder
  have hapart : ¬d.addressOf (l.passageMapFile id) <+: d.addressOf (l.eventFile id) := by
    rw [hevent, hmap, List.prefix_append_right_inj]
    intro hpre
    have hending := List.append_cancel_left (List.cons_prefix_cons.1 hpre).1
    exact absurd hending (by decide)
  have hbelow : ¬d.addressOf (l.eventFile id) <+: d.addressOf (l.eventDir id) := by
    rw [hevent]
    exact fun hpre => absurd hpre.length_le (by simp)
  refine ⟨_, .cons (.create ?_ hclearEvent) (.cons (.create ?_ ?_) (.nil _))⟩
  · rw [hevent]
    exact h.plain.get?_none_below (List.prefix_append _ _) hfree
  · rw [View.create_of_not_prefix hapart, hmap]
    exact h.plain.get?_none_below (List.prefix_append _ _) hfree
  · rw [hmap, List.dropLast_concat, View.isClear_create_iff hclearEvent hbelow]
    exact hclear

include hl hdata h hroom in
/-- **An event that is not there can be created.** -/
theorem exists_run_creatingEvent {args : EventArgs}
    (hvalid : Ledger.IsValid (live ++ [(.event, args.id)])) : ∃ r d',
      l.run .apply (creatingEvent args) d = (.ok r, d') ∧
        l.Shows heads d' (live ++ [(.event, args.id)]) ∧ l.HasRoom d' := by
  have hid : IsFreeId args.id := hvalid.free _ (List.mem_append_right _ List.mem_cons_self)
  have hword := hid.isWord
  have hfront : ∀ x ∈ [Call.create (l.eventFile args.id) (Template.event args),
      .create (l.passageMapFile args.id) (Template.passageMap args.id)], ∃ rest,
        d.addressOf x.path = d.addressOf l.dataDir ++ (EntityKind.event.place args.id ++ rest) := by
    intro x hx
    rcases List.mem_cons.1 hx with rfl | hx
    · exact hl.place_prefix_entityFile d .event hword
    · rw [List.mem_singleton.1 hx]
      exact hl.addressOf_passageMapFile d hword
  have hfor : (eventGrowth d l args).IsFor l d :=
    isFor_eventGrowth hl (h.reaches hl hdata) h.plain hword
  have hasks : (eventGrowth d l args).asks d.get? := by
    have hdir : d.addressOf (l.eventDir args.id) = _ := hl.addressOf_placeOf d .event hword
    show d.get? (d.addressOf (l.eventDir args.id)) = none
    rw [hdir]
    exact h.place_free hvalid
  obtain ⟨_, hfiles⟩ := exists_growsAll_eventFiles hl h hroom hvalid (Template.event args)
    (Template.passageMap args.id)
  obtain ⟨v, hgrows⟩ := h.exists_growsAll hl hfront hfiles (registerEvent_ledger hl hdata hvalid)
    (addToWorldState_ledger hl hdata hvalid)
  obtain ⟨r, d', hrun⟩ := Growth.exists_run (h.reaches hl hdata) h.plain hfor (.refl h.plain)
    hasks hgrows
  obtain ⟨hextends, -, hgrows⟩ := Growth.of_run (h.reaches hl hdata) h.plain hfor
    (.refl h.plain) hrun
  have hgrows : Call.GrowsAll d.addressOf
      ([.create (l.eventFile args.id) (Template.event args),
        .create (l.passageMapFile args.id) (Template.passageMap args.id)] ++
        [.update l.registerFile _, .update l.worldStateFile _]) d.get? d'.get? := hgrows
  have hrun : l.run .apply (creatingEvent args) d = (.ok r, d') := hrun
  have hcases := l.run_cases h.plain (s := creatingEvent args) fun _ _ _ hplan =>
    ⟨_, (creatingEvent_spec.1 hplan).2⟩
  rw [hrun] at hcases
  obtain ⟨hplain, hcwd, _, _, hplan, hview⟩ := hcases
  exact ⟨r, d', hrun, shows_creatingEvent hl hdata h hid hplain hcwd hview rfl hplan,
    hroom.of_growsAll hl hfront hextends hgrows⟩

end Layout

end Fabula
