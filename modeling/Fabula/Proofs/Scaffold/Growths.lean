import Fabula.Proofs.Scaffold.Batch
import Fabula.Proofs.Scaffold.Passages

/-!
# Creating entities, events and passages, one of many

The three scaffolds that create something only edit and create source files
(`Scaffold.isFor_entityGrowth`, `Scaffold.isFor_eventGrowth`, `Scaffold.isFor_passageGrowth`).
This module tells each of them by what it asks and by its calls, on every transaction that has
edits and creations of source files in it, and says when one of them leaves what another one
asks as it is.

## The source files

All paths that are edited or created end in the ending of a source file, and the folders above
them do not, as they are called like ids, or like an id with an ending of their own. So no
source file is above another one. This is what the transactions are asked for in which only
edits and creations are made.

## What is asked

An entity that is no event asks nothing but that its file can be created, which is part of the
call. An event asks for its folder not to be there. The transaction answers that as the disk
does, because a folder is never created by itself, and the folders that are made for new files
are not seen by a transaction (`Scaffold.pathExists_eventDir`). A passage asks for no file of
its own in the folder of its character. It looks for such a file on the disk, among the names in
that folder.

Neither answer is changed by creating another one of the same kind. Two events have two folders
(`Scaffold.leaves_eventGrowth`). Two passages may have one folder, but the names of their files
begin with different ids and a point, and a name begins with one id and a point only
(`Scaffold.leaves_passageGrowth`).
-/

namespace Fabula

open Removal

open Disk (View)

/-! ## The source files -/

theorem not_suffix_of_isWord {id : Text} (hid : IsWord id) : ¬sourceEnding <:+ id := by
  intro h
  exact hid.not_mem (c := '.') (by decide) (h.subset (by decide))

theorem not_suffix_container (kind : EntityKind) : ¬sourceEnding <:+ kind.container :=
  not_suffix_of_isWord kind.isWord_container

theorem not_suffix_passageFolderName (character : Text) :
    ¬sourceEnding <:+ passageFolderName character := by
  intro h
  have hending : sourceEnding <:+ passageFolderEnding :=
    List.suffix_of_suffix_length_le h (List.suffix_append _ _) (by decide)
  revert hending
  decide

theorem suffix_passageFileName (passage : Text) (kind : PassageKind) :
    sourceEnding <:+ passageFileName passage kind :=
  List.suffix_append _ _

namespace EntityKind

theorem isName_of_mem_place (kind : EntityKind) {id : Text} (hid : IsWord id) :
    ∀ n ∈ kind.place id, IsName n := by
  intro n hn
  rcases List.mem_cons.1 hn with rfl | hn
  · exact isName_of_isWord kind.isWord_container
  · rw [List.mem_singleton.1 hn]
    exact kind.isName_placeName hid

end EntityKind

namespace Layout

namespace IsDefault

variable {l : Layout} (h : l.IsDefault) {kind : EntityKind} {id : Text}

include h in
theorem registerFile_mem_sources : l.registerFile ∈ l.sources :=
  ⟨[], registerName, fun _ hm => absurd hm List.not_mem_nil, by decide, by decide,
    h.registerFile_eq⟩

include h in
theorem worldStateFile_mem_sources : l.worldStateFile ∈ l.sources :=
  ⟨[], worldStateName, fun _ hm => absurd hm List.not_mem_nil, by decide, by decide,
    h.worldStateFile_eq⟩

include h in
theorem placeOf_eq_joinAll (kind : EntityKind) (id : Text) :
    l.placeOf kind id = l.dataDir.joinAll (kind.place id) :=
  h.placeOf_eq kind id

include h in
/-- The file of an entity is a source file. -/
theorem placeOf_mem_sources (hkind : kind ≠ .event) (hid : IsWord id) :
    l.placeOf kind id ∈ l.sources := by
  refine ⟨[kind.container], kind.placeName id, fun m hm => ?_, kind.isName_placeName hid, ?_,
    h.placeOf_eq kind id⟩
  · rw [List.mem_singleton.1 hm]
    exact ⟨isName_of_isWord kind.isWord_container, not_suffix_container kind⟩
  · cases kind with
    | event => exact absurd rfl hkind
    | location =>
      have hending : sourceEnding <:+ ".location.ts".toList := by
        decide
      exact List.suffix_append_of_suffix hending
    | _ => exact List.suffix_append _ _

include h in
/-- The files in the folder of an event are source files. -/
theorem eventDir_join_mem_sources (hid : IsWord id) {ending : Text} (hslash : '/' ∉ ending)
    (hending : sourceEnding <:+ ending) : (l.eventDir id).join (id ++ ending) ∈ l.sources := by
  refine ⟨EntityKind.event.place id, id ++ ending, fun m hm => ?_, isName_append hid hslash,
    List.suffix_append_of_suffix hending, ?_⟩
  · refine ⟨EntityKind.isName_of_mem_place .event hid m hm, ?_⟩
    rcases List.mem_cons.1 hm with rfl | hm
    · exact not_suffix_container .event
    · rw [List.mem_singleton.1 hm]
      exact not_suffix_of_isWord hid
  · rw [Path.joinAll_concat, ← h.placeOf_eq_joinAll]
    rfl

include h in
theorem eventFile_mem_sources (hid : IsWord id) : l.eventFile id ∈ l.sources :=
  h.eventDir_join_mem_sources hid (by decide) (by decide)

include h in
theorem passageMapFile_mem_sources (hid : IsWord id) : l.passageMapFile id ∈ l.sources :=
  h.eventDir_join_mem_sources hid (by decide) (by decide)

variable {p : PassageRef} {kind' : PassageKind}

include h in
theorem passageFolder_eq_joinAll (event character : Text) : l.passageFolder event character =
    l.dataDir.joinAll (EntityKind.event.place event ++ [passageFolderName character]) := by
  rw [Path.joinAll_concat, ← h.placeOf_eq_joinAll]
  rfl

include h in
theorem passageFile_eq_joinAll (p : PassageRef) (kind : PassageKind) : l.passageFile p kind =
    l.dataDir.joinAll (EntityKind.event.place p.event ++ [passageFolderName p.character] ++
      [passageFileName p.passage kind]) := by
  rw [Path.joinAll_concat, ← h.passageFolder_eq_joinAll]
  rfl

theorem isName_of_mem_passageFolder (hp : p.IsValid) :
    ∀ n ∈ EntityKind.event.place p.event ++ [passageFolderName p.character], IsName n :=
  isName_concat (EntityKind.isName_of_mem_place .event (isWord_of_isId hp.event))
    (isName_passageFolderName hp.character)

include h in
/-- The file of a passage is a source file. -/
theorem passageFile_mem_sources (hp : p.IsValid) : l.passageFile p kind' ∈ l.sources := by
  refine ⟨EntityKind.event.place p.event ++ [passageFolderName p.character], _, fun m hm => ?_,
    isName_passageFileName hp.passage kind', suffix_passageFileName _ _,
    h.passageFile_eq_joinAll p kind'⟩
  refine ⟨isName_of_mem_passageFolder hp m hm, ?_⟩
  rcases List.mem_append.1 hm with hm | hm
  · rcases List.mem_cons.1 hm with rfl | hm
    · exact not_suffix_container .event
    · rw [List.mem_singleton.1 hm]
      exact not_suffix_of_isWord (isWord_of_isId hp.event)
  · rw [List.mem_singleton.1 hm]
    exact not_suffix_passageFolderName p.character

end IsDefault

/-- A source file is written with names behind the data folder. -/
theorem exists_names_of_mem_sources {l : Layout} {p : Path} (hp : p ∈ l.sources) :
    ∃ ns, (∀ n ∈ ns, IsName n) ∧ p = l.dataDir.joinAll ns := by
  obtain ⟨ns, hns, _, hpns⟩ := exists_of_mem_sources hp
  exact ⟨ns, hns, hpns⟩

end Layout

namespace Path

theorem isWithin_self (p : Path) : p.isWithin p = true :=
  List.isPrefixOf_iff_prefix.2 (List.prefix_refl _)

/-- A name written behind a path leads into it. -/
theorem isWithin_join (p : Path) {n : Text} (hn : IsName n) : (p.join n).isWithin p = true := by
  rw [isWithin, List.isPrefixOf_iff_prefix, components_join p hn]
  exact List.prefix_append _ _

end Path

namespace Scaffold

open Growth Layout

variable {l : Layout} {d : Disk} {kind : EntityKind} {id name : Text}

/-- **A transaction sees the folder of an event** where the disk has it: no such folder is
created by itself. -/
theorem pathExists_eventDir (hl : l.IsDefault) (hd : d.IsPlain) (hid : IsWord id)
    (hspread : d.Spread l.sources) {tx : Transaction} (hgrown : tx.Grown d l.sources) :
    tx.pathExists d (l.eventDir id) = false ↔ d.get? (d.addressOf (l.eventDir id)) = none := by
  have hcreated : tx.created.holds (l.eventDir id) = false := by
    by_contra hholds
    rw [Bool.not_eq_false] at hholds
    obtain ⟨t, ht⟩ := Option.isSome_iff_exists.1 hholds
    obtain ⟨q, hsame, hq⟩ := PathMap.exists_mem_of_find? ht
    have haddress : d.addressOf q = d.addressOf (l.eventDir id) :=
      Disk.addressOf_congr (Path.same_iff.1 hsame)
    -- such a file would be above the file of the event
    have hname : IsName (id ++ ".event.ts".toList) := isName_append hid (by decide)
    have hfile : d.addressOf (l.eventFile id) = d.addressOf q ++ [id ++ ".event.ts".toList] := by
      rw [haddress]
      exact Disk.addressOf_join _ hname
    obtain rfl := hspread.apart q (hgrown.created _ hq) _ (hl.eventFile_mem_sources hid)
      (hfile ▸ List.prefix_append _ _)
    have hlen := congrArg List.length hfile
    simp at hlen
  have hremoved : tx.isRemoved (l.eventDir id) = false := by
    rw [Transaction.isRemoved, hgrown.removals]
    rfl
  have hthere := hl.pathExists_placeOf hd .event hid
  rw [← hl.addressOf_placeOf d .event hid] at hthere
  rw [Transaction.pathExists, hcreated, hremoved, Bool.false_or, Bool.not_false, Bool.and_true,
    ← Bool.not_eq_true]
  exact (not_congr hthere).trans not_not

variable [Engine]

/-! ## Entities -/

/-- An entity that is created has an id, and is no event. -/
theorem of_createEntity {id? : Option Text} {s : Scaffold} (h : createEntity kind name id? = .ok s) :
    kind ≠ .event ∧ Text.isId (id?.getD name.idOfName) = true ∧
      s = creatingEntity kind (id?.getD name.idOfName) name.trim := by
  unfold createEntity at h
  split at h
  · exact absurd h Outcome.fail_ne_ok
  · rename_i hkind
    obtain ⟨_, hid, h⟩ := Outcome.bind_eq_ok.1 h
    obtain ⟨_, _, h⟩ := Outcome.bind_eq_ok.1 h
    exact ⟨hkind, checkId_eq_ok_iff.1 hid, (Outcome.pure_eq_ok.1 h).symm⟩

/-- **Creating an entity**, one of many. -/
def entityGrowth (l : Layout) (kind : EntityKind) (id name : Text) : Growth where
  scaffold := creatingEntity kind id name
  asks _ := True
  calls := [.create (l.entityFile kind id) (Template.entity kind id name),
    .update l.registerFile (entityOf l kind id).addToRegister,
    .update l.worldStateFile (entityOf l kind id).addToWorldState]

/-- **Creating an entity** that is no event edits the registry files and creates its file. -/
theorem isFor_entityGrowth (hl : l.IsDefault) (hkind : kind ≠ .event) (hid : IsWord id) :
    (entityGrowth l kind id name).IsFor l d where
  targets := by
    intro p hp
    refine exists_names_of_mem_sources ?_
    have hfile : l.entityFile kind id ∈ l.sources := by
      rw [IsDefault.entityFile_eq hkind]
      exact hl.placeOf_mem_sources hkind hid
    rcases List.mem_cons.1 hp with rfl | hp
    · exact hl.registerFile_mem_sources
    rcases List.mem_cons.1 hp with rfl | hp
    · exact hl.worldStateFile_mem_sources
    · rwa [List.mem_singleton.1 hp]
  calls := by
    intro c hc
    rcases List.mem_cons.1 hc with rfl | hc
    · refine ⟨rfl, ?_, l.entityFile kind id, ?_, Path.isWithin_self _⟩
      · show l.entityFile kind id ∈ l.sources
        rw [IsDefault.entityFile_eq hkind]
        exact hl.placeOf_mem_sources hkind hid
      · exact List.mem_cons_of_mem _ (List.mem_cons_of_mem _ List.mem_cons_self)
    rcases List.mem_cons.1 hc with rfl | hc
    · exact ⟨rfl, hl.registerFile_mem_sources, _, List.mem_cons_self, Path.isWithin_self _⟩
    · rw [List.mem_singleton.1 hc]
      exact ⟨rfl, hl.worldStateFile_mem_sources, _,
        List.mem_cons_of_mem _ List.mem_cons_self, Path.isWithin_self _⟩
  plan_iff := by
    rintro e tx tx' _ hlayout _
    show (creatingEntity kind id name).plan e tx = .ok tx' ↔ True ∧ _
    rw [creatingEntity_spec, hlayout]
    constructor
    · exact fun h => ⟨trivial, h.2⟩
    · rintro ⟨-, hcalls⟩
      refine ⟨?_, hcalls⟩
      cases hcalls with
      | cons hrun _ => cases Call.stages_of_run hrun with
        | create _ hfree => exact hfree

/-! ## Events -/

/-- **Creating an event**, one of many: its folder must not be there. -/
def eventGrowth (d : Disk) (l : Layout) (args : EventArgs) : Growth where
  scaffold := creatingEvent args
  asks v := v (d.addressOf (l.eventDir args.id)) = none
  calls := [.create (l.eventFile args.id) (Template.event args),
    .create (l.passageMapFile args.id) (Template.passageMap args.id),
    .update l.registerFile (registerEvent l args.id),
    .update l.worldStateFile (entityOf l .event args.id).addToWorldState]

/-- **Creating an event** edits the registry files and creates two files in its folder. -/
theorem isFor_eventGrowth {args : EventArgs} (hl : l.IsDefault) (hreach : l.Reaches d)
    (hd : d.IsPlain) (hid : IsWord args.id) : (eventGrowth d l args).IsFor l d where
  targets := by
    intro p hp
    rcases List.mem_cons.1 hp with rfl | hp
    · exact exists_names_of_mem_sources hl.registerFile_mem_sources
    rcases List.mem_cons.1 hp with rfl | hp
    · exact exists_names_of_mem_sources hl.worldStateFile_mem_sources
    · rw [List.mem_singleton.1 hp]
      exact ⟨_, EntityKind.isName_of_mem_place .event hid, hl.placeOf_eq_joinAll .event args.id⟩
  calls := by
    have hdir : l.eventDir args.id ∈ eventTargets args.id l :=
      List.mem_cons_of_mem _ (List.mem_cons_of_mem _ List.mem_cons_self)
    intro c hc
    rcases List.mem_cons.1 hc with rfl | hc
    · exact ⟨rfl, hl.eventFile_mem_sources hid, _, hdir,
        Path.isWithin_join _ (isName_append hid (by decide))⟩
    rcases List.mem_cons.1 hc with rfl | hc
    · exact ⟨rfl, hl.passageMapFile_mem_sources hid, _, hdir,
        Path.isWithin_join _ (isName_append hid (by decide))⟩
    rcases List.mem_cons.1 hc with rfl | hc
    · exact ⟨rfl, hl.registerFile_mem_sources, _, List.mem_cons_self, Path.isWithin_self _⟩
    · rw [List.mem_singleton.1 hc]
      exact ⟨rfl, hl.worldStateFile_mem_sources, _,
        List.mem_cons_of_mem _ List.mem_cons_self, Path.isWithin_self _⟩
  plan_iff := by
    rintro e tx tx' he hlayout hgrown
    have hspread := (hreach.of_extends hd he).spread_sources he.plain
    show (creatingEvent args).plan e tx = .ok tx' ↔ e.get? (d.addressOf (l.eventDir args.id)) = none ∧ _
    rw [creatingEvent_spec, hlayout, pathExists_eventDir hl he.plain hid hspread hgrown,
      he.addressOf_eq]
    rfl

/-- **Creating an event leaves the folder of another one** as it is. -/
theorem leaves_eventGrowth {args args' : EventArgs} (hl : l.IsDefault) (hid : IsWord args.id)
    (hid' : IsWord args'.id) (hne : args.id ≠ args'.id) :
    Leaves d.addressOf (eventGrowth d l args) (eventGrowth d l args') := by
  intro v v' hgrows
  have hdir : d.addressOf (l.eventDir args'.id) =
      d.addressOf l.dataDir ++ (EntityKind.event.place args'.id ++ []) := by
    rw [List.append_nil]
    exact hl.addressOf_placeOf d .event hid'
  have hbelow : ∀ rest, ¬d.addressOf (l.eventDir args'.id) <+:
      d.addressOf l.dataDir ++ (EntityKind.event.place args.id ++ rest) := by
    intro rest hpre
    rw [hdir, List.append_nil] at hpre
    exact hne (place_eq_of_comparable (.inl hpre)).2.symm
  show v' (d.addressOf (l.eventDir args'.id)) = none ↔ v (d.addressOf (l.eventDir args'.id)) = none
  rw [hgrows.eq_of_not_prefix fun c hc => ?_]
  rcases List.mem_cons.1 hc with rfl | hc
  · obtain ⟨rest, hrest⟩ := hl.place_prefix_entityFile d .event hid
    exact hrest ▸ hbelow rest
  rcases List.mem_cons.1 hc with rfl | hc
  · obtain ⟨rest, hrest⟩ := hl.addressOf_passageMapFile d hid
    exact hrest ▸ hbelow rest
  rcases List.mem_cons.1 hc with rfl | hc
  · rw [hdir, Call.path, hl.addressOf_registerFile]
    exact not_place_prefix _ _ _ _ _
  · rw [List.mem_singleton.1 hc, hdir, Call.path, hl.addressOf_worldStateFile]
    exact not_place_prefix _ _ _ _ _

/-! ## Passages -/

variable {p p' : PassageRef} {passageKind passageKind' : PassageKind}
  {title link title' link' : Option Text}

/-- **Creating a passage**, one of many: no file of it must be in the folder of its
character. -/
def passageGrowth (d : Disk) (l : Layout) (p : PassageRef) (kind : PassageKind)
    (title link : Option Text) : Growth where
  scaffold := createPassage p kind title link
  asks v := (title.forM (checkShown "passage title".toList) = .ok () ∧
      link.forM (checkId "linked passage".toList) = .ok ()) ∧
    ∀ n e, isPassageFile p.passage (n, e) = true →
      v (d.addressOf (l.passageFolder p.event p.character) ++ [n]) ≠ some e
  calls := [.create (l.passageFile p kind) (Template.passage kind p title link),
    .update (l.passageMapFile p.event)
      (p.addTo (l.passageModule p.event (l.passageFile p kind)))]

/-- **Creating a passage** of an event and a character that are there edits the passage map
and creates one file. -/
theorem isFor_passageGrowth (hl : l.IsDefault) (hp : p.IsValid)
    (hevent : d.get? (d.addressOf (l.eventDir p.event)) = some .folder)
    (hcharacter : d.get? (d.addressOf (l.characterFile p.character)) ≠ none) :
    (passageGrowth d l p passageKind title link).IsFor l d where
  targets := by
    intro q hq
    rcases List.mem_cons.1 hq with rfl | hq
    · exact exists_names_of_mem_sources (hl.passageMapFile_mem_sources (isWord_of_isId hp.event))
    rcases List.mem_cons.1 hq with rfl | hq
    · exact ⟨_, IsDefault.isName_of_mem_passageFolder hp, hl.passageFolder_eq_joinAll _ _⟩
    · have hfile : l.placeOf .character p.character ∈ l.sources :=
        hl.placeOf_mem_sources (by decide) (isWord_of_isId hp.character)
      rw [List.mem_singleton.1 hq]
      exact exists_names_of_mem_sources hfile
  calls := by
    intro c hc
    rcases List.mem_cons.1 hc with rfl | hc
    · exact ⟨rfl, hl.passageFile_mem_sources hp, _, List.mem_cons_of_mem _ List.mem_cons_self,
        Path.isWithin_join _ (isName_passageFileName hp.passage passageKind)⟩
    · rw [List.mem_singleton.1 hc]
      exact ⟨rfl, hl.passageMapFile_mem_sources (isWord_of_isId hp.event), _, List.mem_cons_self,
        Path.isWithin_self _⟩
  plan_iff := by
    rintro e tx tx' he hlayout _
    have hup : (l.eventDir p.event).goesUp = false := by
      have hdir := hl.placeOf_eq_joinAll .event p.event
      rw [show l.eventDir p.event = l.placeOf .event p.event from rfl, hdir,
        Path.goesUp_joinAll _ (EntityKind.isName_of_mem_place .event (isWord_of_isId hp.event))]
      exact hl.goesUp
    have hfolder : e.isFolder (l.eventDir p.event) = true := by
      rw [Disk.isFolder_iff, hl.eventDir_eq, Disk.entryOf?_join he.plain
        (Disk.goesUp_join hl.goesUp (by decide)) (isName_of_isWord (isWord_of_isId hp.event)),
        ← Disk.addressOf_join _ (isName_of_isWord (isWord_of_isId hp.event)), ← hl.eventDir_eq,
        he.addressOf_eq]
      exact he.folder _ hevent
    have hfile : e.pathExists (l.characterFile p.character) = true := by
      refine (hl.pathExists_placeOf he.plain .character (isWord_of_isId hp.character)).2 ?_
      rw [← hl.addressOf_placeOf e .character (isWord_of_isId hp.character), he.addressOf_eq]
      exact he.ne_none _ hcharacter
    show (createPassage p passageKind title link).plan e tx = .ok tx' ↔ (_ ∧ _) ∧ _
    rw [createPassage_spec, hlayout, hfolder, hfile, passageFolder_eq,
      findPassageFile_eq_none_iff he.plain hup (isName_passageFolderName hp.character),
      ← Disk.addressOf_join _ (isName_passageFolderName hp.character), ← passageFolder_eq,
      he.addressOf_eq]
    simp only [and_self, true_and, and_assoc]
    rfl

/-- **Creating a passage leaves the files of another one** as they are. -/
theorem leaves_passageGrowth (hl : l.IsDefault) (hp : p.IsValid) (hp' : p'.IsValid)
    (hne : p.passage ≠ p'.passage) :
    Leaves d.addressOf (passageGrowth d l p passageKind title link)
      (passageGrowth d l p' passageKind' title' link') := by
  intro v v' hgrows
  refine and_congr_right fun _ => forall_congr' fun n => forall₂_congr fun e hfits => ?_
  have hfolder : ∀ (q : PassageRef) (rest : Address), q.IsValid →
      d.addressOf (l.passageFolder q.event q.character) ++ rest = d.addressOf l.dataDir ++
        (EntityKind.event.place q.event ++ passageFolderName q.character :: rest) := by
    intro q rest hq
    rw [hl.passageFolder_eq_joinAll, Disk.addressOf_joinAll d _
      (IsDefault.isName_of_mem_passageFolder hq)]
    simp
  rw [hgrows.eq_of_not_prefix fun c hc hpre => ?_]
  rw [hfolder p' [n] hp'] at hpre
  rcases List.mem_cons.1 hc with rfl | hc
  · -- the new file has another name
    have hfile : d.addressOf (l.passageFile p passageKind) =
        d.addressOf (l.passageFolder p.event p.character) ++
          [passageFileName p.passage passageKind] :=
      Disk.addressOf_join _ (isName_passageFileName hp.passage passageKind)
    rw [Call.path, hfile, hfolder p _ hp, List.prefix_append_right_inj] at hpre
    have hname := hpre.eq_of_length (by simp [EntityKind.place])
    simp only [EntityKind.place, List.cons_append, List.nil_append, List.cons.injEq, and_true,
      true_and] at hname
    rw [hname.2.2] at hfits
    have hstarts := (Bool.and_eq_true _ _ ▸ hfits : _ ∧ _).1
    exact hne (passage_eq_of_startsWith hp'.passage hp.passage hstarts)
  · rw [List.mem_singleton.1 hc, Call.path] at hpre
    have hmap : d.addressOf (l.passageMapFile p.event) = d.addressOf l.dataDir ++
        (EntityKind.event.place p.event ++ [passageMapName p.event]) := by
      rw [addressOf_passageMapFile hp.event, ← List.append_assoc, ← hl.addressOf_placeOf d .event
        (isWord_of_isId hp.event)]
      rfl
    rw [hmap, List.prefix_append_right_inj] at hpre
    have hlen := hpre.length_le
    simp [EntityKind.place] at hlen

end Scaffold

end Fabula
