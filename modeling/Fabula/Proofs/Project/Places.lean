import Fabula.Project.Layout
import Fabula.Proofs.Disk.Removal
import Fabula.Proofs.Path.Below
import Fabula.Proofs.Registry.Ledger

/-!
# Where the entities of a project are

With the default names, a project keeps the registry files in its data folder and each entity
one level below it, in the folder of its kind: a file, or for an event a folder
(`Layout.placeOf`). The paths of a project are joined from texts, one segment at a time. This
module turns them into addresses: the data folder's, followed by a list of names
(`Layout.IsDefault.addressOf_placeOf`, `Layout.IsDefault.addressOf_registerFile`).

## Addresses

That is right whatever the data folder is, as long as it is not reached upwards. An id is a
word, and with an ending it is a name, so joining it adds one name to the address. Then two
entities have one place only if they are one (`EntityKind.place_injective`), and that none is
above or below another one is seen from the length of the lists. On a tree without links what is
read at a path is what is at its address, so what is known of addresses is known of the files.

## Modules

The registry files import an entity from its module, and the module is computed from the path of
its file. Written by names behind the data folder, that is these names without the ending
(`importSpecifier_eq`). So seen from the data folder the file of an entity is the module a
ledger says it is (`Layout.IsDefault.dataModule_entityFile`), and the loader of an event imports
the passage map. This is where the texts of a ledger and the paths of a project meet.
-/

namespace Fabula

open Removal

/-! ## Import specifiers -/

/-- The ending of a source file. -/
def sourceEnding : Text :=
  ".ts".toList

/-- **The import specifier of a file below a folder.** -/
theorem importSpecifier_eq {folder file : Path} {ns : List Text} {stem : Text}
    (hfolder : folder.text ≠ []) (h : file.components = folder.components ++ ns.map .name)
    (hstem : Text.join ['/'] ns = stem ++ sourceEnding) :
    importSpecifier folder file = '.' :: '/' :: stem := by
  obtain ⟨seen, hseen, hcomponents⟩ :=
    Path.within?_eq (mt Path.components_eq_nil_iff.1 hfolder) h
  have htexts : seen.components.map Component.text = ns := by
    rw [hcomponents, List.map_map]
    exact List.map_id ns
  have hhere : "./".toList = ['.', '/'] := by
    decide
  unfold importSpecifier
  rw [hseen, Option.getD_some, hhere]
  show ['.', '/'] ++ (Text.before? sourceEnding
    (Text.join ['/'] (seen.components.map Component.text))).getD _ = _
  rw [htexts, hstem, Text.before?_append]
  rfl

/-! ## Names and places -/

/-- A word with an ending is a name. -/
theorem isName_append {id ending : Text} (hid : IsWord id) (hending : '/' ∉ ending) :
    IsName (id ++ ending) := by
  obtain ⟨c, cs, rfl⟩ := List.exists_cons_of_ne_nil hid.ne_nil
  have hpoint : c ≠ '.' := by
    rintro rfl
    exact hid.not_mem (c := '.') (by decide) List.mem_cons_self
  refine ⟨List.cons_ne_nil _ _, ?_, ?_, ?_⟩
  · exact fun heq => hpoint (List.cons.inj heq).1
  · exact fun heq => hpoint (List.cons.inj heq).1
  · rw [List.mem_append, not_or]
    exact ⟨hid.not_mem (by decide), hending⟩

theorem isName_of_isWord {id : Text} (hid : IsWord id) : IsName id := by
  have hname : IsName (id ++ []) := isName_append hid List.not_mem_nil
  rwa [List.append_nil] at hname

namespace EntityKind

/-- What the file of an entity is called, or the folder of an event. -/
def placeName (kind : EntityKind) (id : Text) : Text :=
  match kind with
  | character => id ++ sourceEnding
  | sideCharacter => id ++ sourceEnding
  | location => id ++ ".location.ts".toList
  | event => id

theorem isName_placeName (kind : EntityKind) {id : Text} (hid : IsWord id) :
    IsName (kind.placeName id) := by
  cases kind with
  | character => exact isName_append hid (by decide)
  | sideCharacter => exact isName_append hid (by decide)
  | location => exact isName_append hid (by decide)
  | event => exact isName_of_isWord hid

/-- **The names that lead from the data folder to an entity.** -/
def place (kind : EntityKind) (id : Text) : Address :=
  [kind.container, kind.placeName id]

/-- No two entities are at one place. -/
theorem place_injective {kind kind' : EntityKind} {id id' : Text}
    (h : kind.place id = kind'.place id') : kind = kind' ∧ id = id' := by
  obtain ⟨hfolder, hname⟩ := List.cons.inj h
  obtain rfl := container_injective hfolder
  refine ⟨rfl, ?_⟩
  have hname := (List.cons.inj hname).1
  cases kind with
  | character => exact List.append_cancel_right hname
  | sideCharacter => exact List.append_cancel_right hname
  | location => exact (List.append_left_inj _).1 hname
  | event => exact hname

end EntityKind

namespace Layout

/-- **A layout with the default names**: nothing but the data folder, which is not
reached upwards, is chosen. -/
structure IsDefault (l : Layout) : Prop where
  config_eq : l.config = { dataDir := l.config.dataDir, showDiff := l.config.showDiff }
  goesUp : l.dataDir.goesUp = false

/-- What the register is called. -/
def registerName : Text :=
  "register.ts".toList

/-- What the world state is called. -/
def worldStateName : Text :=
  "TWorldState.ts".toList

/-- **Where an entity is**: its file, or the folder of an event. -/
def placeOf (l : Layout) (kind : EntityKind) (id : Text) : Path :=
  match kind with
  | .event => l.eventDir id
  | _ => l.entityFile kind id

/-- **Where an entity is**, with the default names. -/
theorem placeOf_eq_of_config {l : Layout}
    (hconfig : l.config = { dataDir := l.config.dataDir, showDiff := l.config.showDiff })
    (kind : EntityKind) (id : Text) :
    l.placeOf kind id = (l.dataDir.join kind.container).join (kind.placeName id) := by
  cases kind with
  | character =>
    rw [placeOf, entityFile, characterFile, charactersDir, hconfig]
    · rfl
    · exact fun heq => nomatch heq
  | sideCharacter =>
    rw [placeOf, entityFile, sideCharacterFile, sideCharactersDir, hconfig]
    · rfl
    · exact fun heq => nomatch heq
  | location =>
    rw [placeOf, entityFile, locationFile, locationsDir, hconfig]
    · rfl
    · exact fun heq => nomatch heq
  | event =>
    rw [placeOf, eventDir, eventsDir, hconfig]
    rfl

/-- The default names, in a project of which one place is not reached upwards. -/
theorem isDefault_of_goesUp {l : Layout}
    (hconfig : l.config = { dataDir := l.config.dataDir, showDiff := l.config.showDiff })
    {kind : EntityKind} {id : Text} (hid : IsWord id) (hup : (l.placeOf kind id).goesUp = false) :
    l.IsDefault := by
  refine ⟨hconfig, ?_⟩
  rwa [placeOf_eq_of_config hconfig, Path.goesUp_concat (Path.components_join _
    (kind.isName_placeName hid)), Path.goesUp_concat (Path.components_join _
    (isName_of_isWord kind.isWord_container))] at hup

namespace IsDefault

variable {l : Layout} (h : l.IsDefault) {d : Disk} {kind : EntityKind} {id : Text}

include h in
theorem registerFile_eq : l.registerFile = l.dataDir.join registerName := by
  rw [registerFile, h.config_eq]
  rfl

include h in
theorem worldStateFile_eq : l.worldStateFile = l.dataDir.join worldStateName := by
  rw [worldStateFile, h.config_eq]
  rfl

include h in
/-- The folder of a kind is called like its container. -/
theorem eventDir_eq (id : Text) :
    l.eventDir id = (l.dataDir.join EntityKind.event.container).join id :=
  placeOf_eq_of_config h.config_eq .event id

include h in
theorem placeOf_eq (kind : EntityKind) (id : Text) :
    l.placeOf kind id = (l.dataDir.join kind.container).join (kind.placeName id) :=
  placeOf_eq_of_config h.config_eq kind id

/-! ## Addresses -/

include h in
theorem addressOf_registerFile (d : Disk) :
    d.addressOf l.registerFile = d.addressOf l.dataDir ++ [registerName] := by
  rw [h.registerFile_eq, Disk.addressOf_join _ (by decide)]

include h in
theorem addressOf_worldStateFile (d : Disk) :
    d.addressOf l.worldStateFile = d.addressOf l.dataDir ++ [worldStateName] := by
  rw [h.worldStateFile_eq, Disk.addressOf_join _ (by decide)]

include h in
theorem addressOf_placeOf (d : Disk) (kind : EntityKind) (hid : IsWord id) :
    d.addressOf (l.placeOf kind id) = d.addressOf l.dataDir ++ kind.place id := by
  rw [h.placeOf_eq, Disk.addressOf_join _ (kind.isName_placeName hid),
    Disk.addressOf_join _ (isName_of_isWord kind.isWord_container), List.append_assoc]
  rfl

/-! ## What is there -/

include h in
theorem read_registerFile (hd : d.IsPlain) {t : Text} : d.read l.registerFile = .ok t ↔
    d.get? (d.addressOf l.dataDir ++ [registerName]) = some (.file (.text t)) := by
  rw [Disk.read_eq_ok_iff, h.registerFile_eq, Disk.entryOf?_join hd h.goesUp (by decide)]

include h in
theorem read_worldStateFile (hd : d.IsPlain) {t : Text} : d.read l.worldStateFile = .ok t ↔
    d.get? (d.addressOf l.dataDir ++ [worldStateName]) = some (.file (.text t)) := by
  rw [Disk.read_eq_ok_iff, h.worldStateFile_eq, Disk.entryOf?_join hd h.goesUp (by decide)]

include h in
theorem pathExists_placeOf (hd : d.IsPlain) (kind : EntityKind) (hid : IsWord id) :
    d.pathExists (l.placeOf kind id) = true ↔
      d.get? (d.addressOf l.dataDir ++ kind.place id) ≠ none := by
  have hfolder := isName_of_isWord kind.isWord_container
  rw [Disk.pathExists, h.placeOf_eq, Disk.entryOf?_join hd (Disk.goesUp_join h.goesUp hfolder)
    (kind.isName_placeName hid), Disk.addressOf_join _ hfolder, List.append_assoc,
    Option.isSome_iff_ne_none]
  rfl

/-! ## Files and modules -/

/-- The files of an entity below its place. -/
theorem entityFile_eq (hkind : kind ≠ .event) : l.entityFile kind id = l.placeOf kind id := by
  cases kind with
  | event => exact absurd rfl hkind
  | _ => rfl

include h in
/-- The file of an entity lies at its place, or in it. -/
theorem place_prefix_entityFile (d : Disk) (kind : EntityKind) (hid : IsWord id) :
    ∃ rest, d.addressOf (l.entityFile kind id) =
      d.addressOf l.dataDir ++ (kind.place id ++ rest) := by
  by_cases hkind : kind = .event
  · subst hkind
    refine ⟨[id ++ ".event.ts".toList], ?_⟩
    have hname : IsName (id ++ ".event.ts".toList) := isName_append hid (by decide)
    have heq : l.entityFile .event id = (l.placeOf .event id).join (id ++ ".event.ts".toList) := rfl
    rw [heq, Disk.addressOf_join _ hname, h.addressOf_placeOf d .event hid, List.append_assoc]
  · rw [entityFile_eq hkind, h.addressOf_placeOf d kind hid]
    exact ⟨[], by rw [List.append_nil]⟩

include h in
theorem addressOf_passageMapFile (d : Disk) (hid : IsWord id) :
    ∃ rest, d.addressOf (l.passageMapFile id) =
      d.addressOf l.dataDir ++ (EntityKind.event.place id ++ rest) := by
  refine ⟨[id ++ ".passages.ts".toList], ?_⟩
  have hname : IsName (id ++ ".passages.ts".toList) := isName_append hid (by decide)
  have heq : l.passageMapFile id = (l.placeOf .event id).join (id ++ ".passages.ts".toList) := rfl
  rw [heq, Disk.addressOf_join _ hname, h.addressOf_placeOf d .event hid, List.append_assoc]

include h in
theorem components_placeOf (kind : EntityKind) (hid : IsWord id) :
    (l.placeOf kind id).components =
      l.dataDir.components ++ [.name kind.container, .name (kind.placeName id)] := by
  rw [h.placeOf_eq, Path.components_join _ (kind.isName_placeName hid),
    Path.components_join _ (isName_of_isWord kind.isWord_container), List.append_assoc]
  rfl

/-- The module of a file in the folder of a kind. -/
theorem dataModule_eq (hdata : l.dataDir.text ≠ []) {file : Path} {ns : List Text} {stem : Text}
    (hne : ns ≠ []) (hfile : file.components =
      l.dataDir.components ++ (kind.container :: ns).map .name)
    (hstem : Text.join ['/'] ns = stem ++ sourceEnding) :
    l.dataModule file = '.' :: '/' :: (kind.container ++ '/' :: stem) := by
  refine importSpecifier_eq hdata hfile ?_
  rw [Text.join_cons _ _ hne, hstem]
  simp

/-- What a file in the folder of an event is called, without the ending of a source
file. -/
theorem join_eventFile (id : Text) {ending stem : Text} (hending : ending = stem ++ sourceEnding) :
    Text.join ['/'] [id, id ++ ending] = id ++ '/' :: (id ++ stem) ++ sourceEnding := by
  rw [Text.join_cons _ _ (List.cons_ne_nil _ _), Text.join_singleton, hending]
  simp

include h in
theorem components_eventFile (hid : IsWord id) {ending : Text} (hending : '/' ∉ ending) :
    ((l.placeOf .event id).join (id ++ ending)).components = l.dataDir.components ++
      (EntityKind.event.container :: [id, id ++ ending]).map .name := by
  rw [Path.components_join _ (isName_append hid hending), h.components_placeOf .event hid,
    List.append_assoc]
  rfl

include h in
/-- **The module of an entity's file** is the one a ledger says it is. -/
theorem dataModule_entityFile (hdata : l.dataDir.text ≠ []) (kind : EntityKind) (hid : IsWord id) :
    l.dataModule (l.entityFile kind id) = kind.moduleOf id := by
  by_cases hkind : kind = .event
  · subst hkind
    have hending : '/' ∉ ".event.ts".toList := by
      decide
    exact dataModule_eq hdata (List.cons_ne_nil _ _) (h.components_eventFile hid hending)
      (join_eventFile id (by decide))
  · have hfile : (l.entityFile kind id).components =
        l.dataDir.components ++ (kind.container :: [kind.placeName id]).map .name := by
      rw [entityFile_eq hkind, h.components_placeOf kind hid]
      rfl
    refine dataModule_eq hdata (List.cons_ne_nil _ _) hfile ?_
    rw [Text.join_singleton]
    cases kind with
    | character => rfl
    | sideCharacter => rfl
    | location =>
      have hending : ".location.ts".toList = ".location".toList ++ sourceEnding := by
        decide
      rw [EntityKind.placeName, EntityKind.fileStem, hending, List.append_assoc]
    | event => exact absurd rfl hkind

include h in
/-- **The module of an event's passage map** is the one its loader imports. -/
theorem dataModule_passageMapFile (hdata : l.dataDir.text ≠ []) (hid : IsWord id) :
    l.dataModule (l.passageMapFile id) = Ledger.passagesModule id := by
  have hending : '/' ∉ ".passages.ts".toList := by
    decide
  exact dataModule_eq hdata (List.cons_ne_nil _ _) (h.components_eventFile hid hending)
    (join_eventFile id (by decide))

end IsDefault

end Layout

end Fabula
