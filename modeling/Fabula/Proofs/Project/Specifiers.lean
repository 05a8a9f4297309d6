import Fabula.Proofs.Registry.Passages
import Fabula.Proofs.Scaffold.PassagePlans

/-!
# Import specifiers lead back to their files

A specifier is the names that lead from a folder to a source file, put together without the
ending. Written behind the folder, with the ending, it leads along the same names
(`Path.IsSourceBelow.components_join_specifier`), and the names can be read off it again,
because no name has a slash (`Path.IsSourceBelow.specifier_injective`). So files with one
specifier are reached by the same names.

That is about any source file below a folder. What is left is where the files of a project are.

## Folders as they are configured

The folders of entities may be configured, as any texts that lead inside the data folder. Such a
text may be empty, it may have idle segments and slashes too many, and a folder may be called
like a source file. A specifier is not made from the text but from the names the path has as
components. A text that leads inside is read as its names, and written behind a folder it leads
along these (`Path.IsInner.components_join`). Thus the files are below the folder which their
specifier is seen from (`Layout.IsInside.isSourceBelow_entityFile`,
`Layout.IsInside.isSourceBelow_passageFile`).

## Different ids

The file of an entity has the id in its name, and the folder of an event has it. Two entities of
one kind with different ids are therefore reached by different names, and have different
specifiers. With passages it is the same, as the id of the character is in the name of the
folder and the id of the passage in that of the file (`Layout.passage_eq_of_names`).
Both parts together are `Layout.specifiers_resolve`.
-/

namespace Fabula

open Removal

namespace Text

/-- An ending of the last piece is an ending of the whole. -/
theorem join_concat_append (c : Char) (init : List Text) (n ending : Text) :
    join [c] (init ++ [n ++ ending]) = join [c] (init ++ [n]) ++ ending := by
  by_cases h : init = []
  · rw [h, List.nil_append, List.nil_append, join_singleton, join_singleton]
  · have hlast : ∀ m : Text, join [c] (init ++ [m]) = join [c] init ++ c :: m := by
      intro m
      rw [join_append c h (List.cons_ne_nil m []), join_singleton]
    rw [hlast, hlast, List.append_assoc]
    rfl

end Text

namespace Path

/-! ## Texts that lead inside -/

/-- **A text that leads inside a folder**, written behind it: it does not begin at the root and
does not go up. It may be empty, and may have idle segments. -/
structure IsInner (t : Text) : Prop where
  relative : isAbsolute ⟨t⟩ = false
  goesUp : goesUp ⟨t⟩ = false

instance (t : Text) : Decidable (IsInner t) :=
  decidable_of_iff (isAbsolute ⟨t⟩ = false ∧ Path.goesUp ⟨t⟩ = false)
    ⟨fun h => ⟨h.1, h.2⟩, fun h => ⟨h.relative, h.goesUp⟩⟩

/-- Names are what a path is called by. -/
theorem isName_of_mem_names {p : Path} {n : Text} (h : n ∈ p.names) : IsName n := by
  rw [names_eq] at h
  obtain ⟨c, hc, hname⟩ := List.mem_filterMap.1 h
  obtain ⟨s, hs, rfl⟩ := List.mem_map.1 hc
  obtain ⟨hsplit, hidle⟩ := List.mem_filter.1 hs
  unfold component at hname
  split at hname
  · cases hname
  · rename_i hup
    obtain rfl := Option.some.inj hname
    have hne := mt isIdle_iff.2 (by simpa using hidle)
    rw [not_or] at hne
    exact ⟨hne.1, hne.2, hup, Text.not_mem_of_mem_split hsplit⟩

/-- A text that leads inside is read as its names. -/
theorem IsInner.behindLead_eq {t : Text} (h : IsInner t) :
    behindLead t = (names ⟨t⟩).map .name := by
  have hup := goesUp_iff_mem_behindLead.1 h.goesUp
  have hname : ∀ c ∈ behindLead t, c.name?.map Component.name = some c := by
    intro c hc
    obtain ⟨s, _, rfl⟩ := List.mem_map.1 hc
    unfold component
    split
    · rename_i hs
      exact absurd (by rwa [component, if_pos hs] at hc) hup
    · rfl
  rw [names_eq, List.map_filterMap, List.filterMap_congr hname, List.filterMap_some]

/-- **Written behind a folder**, it leads along its names. -/
theorem IsInner.components_join {t : Text} (h : IsInner t) {folder : Path}
    (hfolder : folder.text ≠ []) :
    (folder.join t).components = folder.components ++ (names ⟨t⟩).map .name := by
  have hhead : t.head? ≠ some '/' := by
    simpa [isAbsolute] using h.relative
  rw [components_join_of_ne hfolder hhead, h.behindLead_eq]

/-! ## Source files below a folder -/

/-- **A source file below a folder**: the names that lead to it, the last one without the
ending. -/
structure IsSourceBelow (folder file : Path) (init : List Text) (n : Text) : Prop where
  folder_ne : folder.text ≠ []
  components_eq : file.components =
    folder.components ++ (init ++ [n ++ sourceEnding]).map .name
  isName : ∀ m ∈ init ++ [n ++ sourceEnding], IsName m

namespace IsSourceBelow

variable {folder dir file file' : Path} {init init' : List Text} {n n' : Text}

/-- A source file written behind a path that names lead to. -/
theorem of_join (hfolder : folder.text ≠ [])
    (hdir : dir.components = folder.components ++ init.map .name) (hinit : ∀ m ∈ init, IsName m)
    (hn : IsName (n ++ sourceEnding)) :
    IsSourceBelow folder (dir.join (n ++ sourceEnding)) init n := by
  refine ⟨hfolder, ?_, fun m hm => ?_⟩
  · rw [components_join _ hn, hdir, List.append_assoc, List.map_append]
    rfl
  · rcases List.mem_append.1 hm with hm | hm
    · exact hinit m hm
    · rwa [List.mem_singleton.1 hm]

/-- The specifier is the names without the ending, put together. -/
theorem specifier_eq (h : IsSourceBelow folder file init n) :
    importSpecifier folder file = '.' :: '/' :: Text.join ['/'] (init ++ [n]) :=
  importSpecifier_eq h.folder_ne h.components_eq (Text.join_concat_append '/' init n sourceEnding)

/-- **The specifier leads back to the file**, from the folder it is seen from. -/
theorem components_join_specifier (h : IsSourceBelow folder file init n) :
    (folder.join (importSpecifier folder file ++ sourceEnding)).components = file.components := by
  have htext : importSpecifier folder file ++ sourceEnding
      = ['.'] ++ '/' :: Text.join ['/'] (init ++ [n ++ sourceEnding]) := by
    rw [h.specifier_eq, Text.join_concat_append]
    rfl
  have hidle : (init ++ [n ++ sourceEnding]).filter (fun s => !isIdle s)
      = init ++ [n ++ sourceEnding] :=
    List.filter_eq_self.2 fun m hm => by rw [isIdle_eq_false_of_isName (h.isName m hm)]; rfl
  have hnames : (init ++ [n ++ sourceEnding]).map component
      = (init ++ [n ++ sourceEnding]).map .name :=
    List.map_congr_left fun m hm => component_of_isName (h.isName m hm)
  rw [htext, components_join_of_ne h.folder_ne (by simp), behindLead_append_slash,
    behindLead_join fun m hm => (h.isName m hm).2.2.2, hidle, hnames, h.components_eq]
  rfl

/-- No name has a slash, also without the ending. -/
theorem not_mem_names (h : IsSourceBelow folder file init n) : ∀ m ∈ init ++ [n], '/' ∉ m := by
  intro m hm
  rcases List.mem_append.1 hm with hm | hm
  · exact (h.isName m (List.mem_append_left _ hm)).2.2.2
  · rw [List.mem_singleton.1 hm]
    have hlast := (h.isName (n ++ sourceEnding) (by simp)).2.2.2
    exact fun hn => hlast (List.mem_append_left _ hn)

/-- **Files with one specifier** are reached by the same names. -/
theorem specifier_injective (h : IsSourceBelow folder file init n)
    (h' : IsSourceBelow folder file' init' n')
    (heq : importSpecifier folder file = importSpecifier folder file') :
    init ++ [n] = init' ++ [n'] := by
  rw [h.specifier_eq, h'.specifier_eq] at heq
  have hjoin := (List.cons.inj (List.cons.inj heq).2).2
  have hsplit := congrArg (Text.split '/') hjoin
  rwa [Text.split_join (by simp) h.not_mem_names, Text.split_join (by simp) h'.not_mem_names]
    at hsplit

end IsSourceBelow

end Path

/-! ## The files of a project -/

/-- The folder of a kind of entities, as it is configured. -/
def Config.folderOf (c : Config) : EntityKind → Text
  | .character => c.charactersDir
  | .sideCharacter => c.sideCharactersDir
  | .location => c.locationsDir
  | .event => c.eventsDir

namespace EntityKind

/-- The folder of a single event, seen from the folder of the events; the other kinds have
none. -/
def ownFolder : EntityKind → Text → List Text
  | event, id => [id]
  | _, _ => []

/-- What the file of an entity is called, without the ending of a source file. -/
def fileName : EntityKind → Text → Text
  | character, id => id
  | sideCharacter, id => id
  | location, id => id ++ ".location".toList
  | event, id => id ++ ".event".toList

/-- The file of an entity is called by its id. -/
theorem fileName_injective {kind : EntityKind} {id id' : Text}
    (h : kind.fileName id = kind.fileName id') : id = id' := by
  cases kind with
  | character => exact h
  | sideCharacter => exact h
  | location => exact List.append_cancel_right h
  | event => exact List.append_cancel_right h

end EntityKind

namespace Layout

variable {l : Layout} {id : Text} {p : PassageRef}

/-- **A layout whose files are inside its data folder**: there is a data folder, and the folders
of the entities lead inside it. -/
structure IsInside (l : Layout) : Prop where
  dataDir_ne : l.dataDir.text ≠ []
  folders : ∀ kind, Path.IsInner (l.config.folderOf kind)

/-- The names that lead from the data folder to the folder of a kind. -/
def folderNames (l : Layout) (kind : EntityKind) : List Text :=
  Path.names ⟨l.config.folderOf kind⟩

namespace IsInside

variable (h : l.IsInside)

include h in
/-- The folder of a kind, written as configured, is reached by its names. -/
theorem components_folder (kind : EntityKind) : (l.dataDir.join (l.config.folderOf kind)).components
    = l.dataDir.components ++ (l.folderNames kind).map .name :=
  (h.folders kind).components_join h.dataDir_ne

include h in
theorem components_eventDir (hid : IsWord id) : (l.eventDir id).components =
    l.dataDir.components ++ (l.folderNames .event ++ [id]).map .name := by
  have hfolder := h.components_folder .event
  rw [eventDir, Path.components_join _ (isName_of_isWord hid), eventsDir]
  rw [Config.folderOf] at hfolder
  rw [hfolder, List.append_assoc, List.map_append]
  rfl

include h in
theorem eventDir_ne (hid : IsWord id) : (l.eventDir id).text ≠ [] := by
  rw [ne_eq, ← Path.components_eq_nil_iff, h.components_eventDir hid]
  simp

/-- The names of a folder, and an id behind them. -/
theorem isName_of_mem_eventDir (l : Layout) (hid : IsWord id) :
    ∀ m ∈ l.folderNames .event ++ [id], IsName m := by
  intro m hm
  rcases List.mem_append.1 hm with hm | hm
  · exact Path.isName_of_mem_names hm
  · rw [List.mem_singleton.1 hm]
    exact isName_of_isWord hid

include h in
/-- **The file of an entity is below the data folder.** -/
theorem isSourceBelow_entityFile (kind : EntityKind) (hid : IsWord id) :
    Path.IsSourceBelow l.dataDir (l.entityFile kind id)
      (l.folderNames kind ++ kind.ownFolder id) (kind.fileName id) := by
  have hfolder : ∀ {name : Text}, IsName (name ++ sourceEnding) →
      Path.IsSourceBelow l.dataDir ((l.dataDir.join (l.config.folderOf kind)).join
        (name ++ sourceEnding)) (l.folderNames kind) name := fun hname =>
    .of_join h.dataDir_ne (h.components_folder kind)
      (fun _ hm => Path.isName_of_mem_names hm) hname
  cases kind with
  | character =>
    rw [EntityKind.ownFolder, List.append_nil]
    · exact hfolder (isName_append hid (by decide))
    · simp
  | sideCharacter =>
    rw [EntityKind.ownFolder, List.append_nil]
    · exact hfolder (isName_append hid (by decide))
    · simp
  | location =>
    have hending : id ++ ".location.ts".toList = id ++ ".location".toList ++ sourceEnding := by
      rw [List.append_assoc]
      rfl
    have hname : IsName (id ++ ".location.ts".toList) := isName_append hid (by decide)
    rw [EntityKind.ownFolder, List.append_nil, entityFile, locationFile, hending]
    · exact hfolder (hending ▸ hname)
    · simp
  | event =>
    have hending : id ++ ".event.ts".toList = id ++ ".event".toList ++ sourceEnding := by
      rw [List.append_assoc]
      rfl
    have hname : IsName (id ++ ".event.ts".toList) := isName_append hid (by decide)
    rw [entityFile, eventFile, hending]
    exact .of_join h.dataDir_ne (h.components_eventDir hid) (isName_of_mem_eventDir l hid)
      (hending ▸ hname)

include h in
/-- **The passage map of an event is below the data folder.** -/
theorem isSourceBelow_passageMapFile (hid : IsWord id) :
    Path.IsSourceBelow l.dataDir (l.passageMapFile id) (l.folderNames .event ++ [id])
      (id ++ ".passages".toList) := by
  have hending : id ++ ".passages.ts".toList = id ++ ".passages".toList ++ sourceEnding := by
    rw [List.append_assoc]
    rfl
  have hname : IsName (id ++ ".passages.ts".toList) := isName_append hid (by decide)
  rw [passageMapFile, hending]
  exact .of_join h.dataDir_ne (h.components_eventDir hid) (isName_of_mem_eventDir l hid)
    (hending ▸ hname)

include h in
/-- **The file of a passage is below the folder of its event.** -/
theorem isSourceBelow_passageFile (hp : p.IsValid) (kind : PassageKind) :
    Path.IsSourceBelow (l.eventDir p.event) (l.passageFile p kind)
      [passageFolderName p.character] (p.passage ++ '.' :: kind.tag) := by
  have hfolder := isName_passageFolderName hp.character
  refine .of_join (h.eventDir_ne (isWord_of_isId hp.event)) (Path.components_join _ hfolder) ?_
    (isName_passageFileName hp.passage kind)
  intro m hm
  rwa [List.mem_singleton.1 hm]

end IsInside

/-- No two files of passages of one event are called alike, and in one folder. -/
theorem passage_eq_of_names {q : PassageRef} {kind kind' : PassageKind} (hp : p.IsValid)
    (hq : q.IsValid) (hevent : p.event = q.event)
    (heq : [passageFolderName p.character] ++ [p.passage ++ '.' :: kind.tag] =
      [passageFolderName q.character] ++ [q.passage ++ '.' :: kind'.tag]) :
    p = q ∧ kind = kind' := by
  refine PassageRef.moduleOf_injective hp hq hevent ?_
  obtain ⟨hfolder, hfile⟩ := List.cons.inj heq
  have hcharacter : p.character = q.character := List.append_cancel_right hfolder
  unfold PassageRef.moduleOf
  rw [hcharacter, (List.cons.inj hfile).1]

/-- **Import specifiers resolve to the files they were written for.** The data folder may be any
path but the empty one, and the folders of the entities any texts that lead inside it. Then the
specifier of an entity's file or of a passage map, written behind the data folder, and the
specifier of a passage's file, written behind the folder of its event, lead to that file again.
The files of two entities of one kind, of two passage maps, and of two passages of one event have
different specifiers. -/
theorem specifiers_resolve (l : Layout) (hdata : l.dataDir.text ≠ [])
    (hfolders : ∀ kind, Path.IsInner (l.config.folderOf kind)) :
    (∀ (kind : EntityKind) (id : Text), id.isId = true →
      (l.dataDir.join (importSpecifier l.dataDir (l.entityFile kind id) ++ ".ts".toList)).components
        = (l.entityFile kind id).components) ∧
    (∀ id : Text, id.isId = true →
      (l.dataDir.join (importSpecifier l.dataDir (l.passageMapFile id) ++ ".ts".toList)).components
        = (l.passageMapFile id).components) ∧
    (∀ (p : PassageRef) (kind : PassageKind), p.IsValid →
      ((l.eventDir p.event).join (importSpecifier (l.eventDir p.event) (l.passageFile p kind)
        ++ ".ts".toList)).components = (l.passageFile p kind).components) ∧
    (∀ (kind : EntityKind) (id id' : Text), id.isId = true → id'.isId = true → id ≠ id' →
      importSpecifier l.dataDir (l.entityFile kind id)
        ≠ importSpecifier l.dataDir (l.entityFile kind id')) ∧
    (∀ id id' : Text, id.isId = true → id'.isId = true → id ≠ id' →
      importSpecifier l.dataDir (l.passageMapFile id)
        ≠ importSpecifier l.dataDir (l.passageMapFile id')) ∧
    ∀ (p q : PassageRef) (kind kind' : PassageKind), p.IsValid → q.IsValid →
      p.event = q.event → (p, kind) ≠ (q, kind') →
      importSpecifier (l.eventDir p.event) (l.passageFile p kind)
        ≠ importSpecifier (l.eventDir q.event) (l.passageFile q kind') := by
  have h : l.IsInside := ⟨hdata, hfolders⟩
  refine ⟨fun kind id hid => ?_, fun id hid => ?_, fun p kind hp => ?_,
    fun kind id id' hid hid' hne heq => hne ?_, fun id id' hid hid' hne heq => hne ?_,
    fun p q kind kind' hp hq hevent hne heq => hne ?_⟩
  · exact (h.isSourceBelow_entityFile kind (isWord_of_isId hid)).components_join_specifier
  · exact (h.isSourceBelow_passageMapFile (isWord_of_isId hid)).components_join_specifier
  · exact (h.isSourceBelow_passageFile hp kind).components_join_specifier
  · have hnames := (h.isSourceBelow_entityFile kind (isWord_of_isId hid)).specifier_injective
      (h.isSourceBelow_entityFile kind (isWord_of_isId hid')) heq
    have hlast := (List.append_inj' hnames rfl).2
    exact EntityKind.fileName_injective (List.cons.inj hlast).1
  · have hnames := (h.isSourceBelow_passageMapFile (isWord_of_isId hid)).specifier_injective
      (h.isSourceBelow_passageMapFile (isWord_of_isId hid')) heq
    have hlast := (List.append_inj' hnames rfl).2
    exact List.append_cancel_right (List.cons.inj hlast).1
  · rw [hevent] at heq
    have hnames := (hevent ▸ h.isSourceBelow_passageFile hp kind).specifier_injective
      (h.isSourceBelow_passageFile hq kind') heq
    obtain ⟨rfl, rfl⟩ := passage_eq_of_names hp hq hevent hnames
    rfl

/-- A layout whose folders are written with idle segments, with slashes too many, with nothing at
all, and with names that end like a source file. -/
def oddLayout : Layout where
  root := .ofString "game"
  config :=
    { dataDir := "./src.ts//data/".toList
      charactersDir := ".//people.ts/./old/".toList
      sideCharactersDir := []
      locationsDir := ".".toList
      eventsDir := "events.ts".toList }

theorem specifiers_resolve_odd :
    oddLayout.dataDir.text ≠ [] ∧ (∀ kind, Path.IsInner (oddLayout.config.folderOf kind)) ∧
      importSpecifier oddLayout.dataDir (oddLayout.entityFile .character "ann".toList)
        = "./people.ts/old/ann".toList ∧
      (oddLayout.dataDir.join "./people.ts/old/ann.ts".toList).components
        = (oddLayout.entityFile .character "ann".toList).components ∧
      importSpecifier oddLayout.dataDir (oddLayout.entityFile .sideCharacter "bob".toList)
        ≠ importSpecifier oddLayout.dataDir (oddLayout.entityFile .sideCharacter "bo".toList) ∧
      importSpecifier (oddLayout.eventDir "ball".toList)
          (oddLayout.passageFile ⟨"ball".toList, "ann".toList, "intro".toList⟩ .linear)
        = "./ann.passages/intro.linear".toList ∧
      ((oddLayout.eventDir "ball".toList).join "./ann.passages/intro.linear.ts".toList).components
        = (oddLayout.passageFile ⟨"ball".toList, "ann".toList, "intro".toList⟩ .linear).components := by
  have hdata : oddLayout.dataDir.text ≠ [] := by
    decide
  have hfolders : ∀ kind, Path.IsInner (oddLayout.config.folderOf kind) := by
    intro kind
    cases kind <;> decide
  have hcharacter : importSpecifier oddLayout.dataDir (oddLayout.entityFile .character "ann".toList)
      = "./people.ts/old/ann".toList := by
    decide
  have hpassage : importSpecifier (oddLayout.eventDir "ball".toList)
      (oddLayout.passageFile ⟨"ball".toList, "ann".toList, "intro".toList⟩ .linear)
      = "./ann.passages/intro.linear".toList := by
    decide
  obtain ⟨hentity, _, hpassages, hdistinct, _, _⟩ := specifiers_resolve oddLayout hdata hfolders
  have hleads := hentity .character "ann".toList (by decide)
  have hleads' := hpassages ⟨"ball".toList, "ann".toList, "intro".toList⟩ .linear (by decide)
  rw [hcharacter] at hleads
  rw [hpassage] at hleads'
  exact ⟨hdata, hfolders, hcharacter, hleads,
    hdistinct .sideCharacter _ _ (by decide) (by decide) (by decide), hpassage, hleads'⟩

end Layout

end Fabula
