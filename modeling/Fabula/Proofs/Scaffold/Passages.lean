import Fabula.Proofs.Registry.Readings
import Fabula.Proofs.Scaffold.History
import Fabula.Proofs.Scaffold.PassagePlans

/-!
# The folder of an event and its passage map

The passages of an event are in two places: as files in its folder, and in its passage map. A
folder keeps a list of passages when the map is the text of that list and the files are those of
its passages and no others (`Layout.Keeps`). A new event keeps the empty list, and each
operation on passages keeps the folder keeping a list: one that succeeds changes the list as it
says, one that fails leaves it (`PassageStep.keeps_apply`). So after any number of operations
the files, the union, the record and the imports agree (`Layout.passages_of_history`).

## What is kept

Which file a removal takes, and whether the folder goes with it, it reads off the folder. That
what it reads there is right is part of what is kept: the folder of a character holds nothing
but the files of the passages on the list, and there is such a folder only when the character
has a passage. Creating a passage puts a file there, in a folder that may be made for it.
Removing one takes its file, or the folder with it when no other passage is in it, so no empty
folder is left.

The passages of the event have different places (`PassageRef.place_injective`), so an operation
on one of them leaves the files of the others. The map is edited as a text, and its edits are
those of the list. In particular a passage is created when it has no file, and then it is not on
the list, and it is removed when it has one, and then it is.

An operation that fails, for whatever reason, leaves the disk as it was, and so it does if an
edit gives up.

## A new event

The folder of a new event has two files, the event's own and its passage map, which is the text
of the empty list. The two have names that are not those of folders of passages. Nothing was in
the folder before, because a new event is refused where its folder is there
(`Layout.keeps_creatingEvent`).

## What agrees

The last step is to read the map: the variants of its union, the keys of its record and the
modules it imports are each those of the passages on the list (`Layout.InStep`). The map is read
with an engine that gives nothing up, since reading it is not one of the operations.
-/

namespace Fabula

open Removal Registry Scaffold

/-- What the passage map of an event is called. -/
def passageMapName (event : Text) : Text :=
  event ++ ".passages.ts".toList

namespace PassageRef

/-- **The names that lead from the folder of an event to a passage.** -/
def place (p : PassageRef) (kind : PassageKind) : Address :=
  [passageFolderName p.character, passageFileName p.passage kind]

/-- **No two passages of an event are at one place**, whatever their kinds. -/
theorem place_injective {p q : PassageRef} {kind kind' : PassageKind} (hp : p.IsValid)
    (hq : q.IsValid) (hevent : p.event = q.event) (h : p.place kind = q.place kind') :
    p = q ∧ kind = kind' := by
  obtain ⟨hfolder, hrest⟩ := List.cons.inj h
  obtain ⟨hname, _⟩ := List.cons.inj hrest
  rw [passageFileName_eq, passageFileName_eq] at hname
  obtain ⟨hpassage, htag⟩ := append_point_inj hp.passage hq.passage hname
  refine moduleOf_injective hp hq hevent ?_
  unfold moduleOf
  rw [List.append_cancel_right hfolder, hpassage, List.append_cancel_right htag]

end PassageRef

namespace Layout

/-- **The folder of an event keeps a list of passages**: its passage map is that of the
list, and in the folders of the characters are the files of the passages and nothing
else. -/
structure Keeps (l : Layout) (event : Text) (d : Disk) (present : PassageMap) : Prop where
  plain : d.IsPlain
  listing : PassageMap.IsListing event present
  goesUp : (l.eventDir event).goesUp = false
  map : d.get? (d.addressOf (l.eventDir event) ++ [passageMapName event]) =
    some (.file (.text (PassageMap.text event present)))
  files : ∀ x ∈ present, ∃ t,
    d.get? (d.addressOf (l.eventDir event) ++ x.1.place x.2) = some (.file (.text t))
  only_files : ∀ character n, character.isId = true →
    d.get? (d.addressOf (l.eventDir event) ++ [passageFolderName character, n]) ≠ none →
      ∃ x ∈ present, x.1.character = character ∧ n = passageFileName x.1.passage x.2
  only_folders : ∀ character, character.isId = true →
    d.get? (d.addressOf (l.eventDir event) ++ [passageFolderName character]) ≠ none →
      ∃ x ∈ present, x.1.character = character

/-! ## Where the files are -/

variable {l : Layout} {event character : Text} {d d' : Disk} {present : PassageMap}
  {p : PassageRef} {kind : PassageKind}

theorem isName_passageMapName (h : event.isId = true) : IsName (passageMapName event) :=
  isName_append (isWord_of_isId h) (by decide)

/-- No passage map is called like a folder of passages. -/
theorem passageMapName_ne (h : event.isId = true) (h' : character.isId = true) :
    passageMapName event ≠ passageFolderName character := by
  intro heq
  have hends := (append_point_inj h h'
    (show event ++ '.' :: "passages.ts".toList = character ++ '.' :: "passages".toList from heq)).2
  exact absurd hends (by decide)

/-- No event file is called like a folder of passages. -/
theorem eventFileName_ne (h : event.isId = true) (h' : character.isId = true) :
    event ++ ".event.ts".toList ≠ passageFolderName character := by
  intro heq
  have hends := (append_point_inj h h'
    (show event ++ '.' :: "event.ts".toList = character ++ '.' :: "passages".toList from heq)).2
  exact absurd hends (by decide)

theorem passageMapFile_eq (l : Layout) (event : Text) :
    l.passageMapFile event = (l.eventDir event).join (passageMapName event) :=
  rfl

theorem passageFolder_eq (l : Layout) (event character : Text) :
    l.passageFolder event character = (l.eventDir event).join (passageFolderName character) :=
  rfl

theorem passageFile_eq (l : Layout) (p : PassageRef) (kind : PassageKind) :
    l.passageFile p kind = ((l.eventDir p.event).join (passageFolderName p.character)).join
      (passageFileName p.passage kind) :=
  rfl

theorem addressOf_passageMapFile (h : event.isId = true) (d : Disk) :
    d.addressOf (l.passageMapFile event) =
      d.addressOf (l.eventDir event) ++ [passageMapName event] := by
  rw [passageMapFile_eq, Disk.addressOf_join _ (isName_passageMapName h)]

theorem addressOf_passageFolder (h : character.isId = true) (d : Disk) :
    d.addressOf (l.passageFolder event character) =
      d.addressOf (l.eventDir event) ++ [passageFolderName character] := by
  rw [passageFolder_eq, Disk.addressOf_join _ (isName_passageFolderName h)]

theorem addressOf_passageFile (h : p.IsValid) (d : Disk) :
    d.addressOf (l.passageFile p kind) = d.addressOf (l.eventDir p.event) ++ p.place kind := by
  rw [passageFile_eq, Disk.addressOf_join _ (isName_passageFileName h.passage kind),
    Disk.addressOf_join _ (isName_passageFolderName h.character), List.append_assoc]
  rfl

/-- **Seen from the passage map**, the file of a passage is its module. -/
theorem passageModule_passageFile (h : p.IsValid) :
    l.passageModule p.event (l.passageFile p kind) = p.moduleOf kind := by
  have hdir : (l.eventDir p.event).text ≠ [] := by
    intro hnil
    have hcomponents := Path.components_join l.eventsDir (isName_of_isWord (isWord_of_isId h.event))
    rw [show l.eventsDir.join p.event = l.eventDir p.event from rfl,
      Path.components_eq_nil_iff.2 hnil] at hcomponents
    simp at hcomponents
  refine importSpecifier_eq hdir (show _ = _ ++ (p.place kind).map Component.name from ?_) ?_
  · rw [passageFile_eq, Path.components_join _ (isName_passageFileName h.passage kind),
      Path.components_join _ (isName_passageFolderName h.character), List.append_assoc]
    rfl
  · have hfolder : passageFolderEnding = '.' :: "passages".toList := by
      decide
    have hend : PassageRef.folderEnd = "passages".toList ++ ['/'] := by
      decide
    show Text.join ['/'] [passageFolderName p.character, passageFileName p.passage kind] = _
    rw [Text.join_cons _ _ (List.cons_ne_nil _ _), Text.join_singleton, passageFileName_eq,
      passageFolderName, hfolder, hend]
    simp

namespace Keeps

variable {tx : Transaction} {targets : List Path} {title link : Option Text}

/-- What a folder keeps depends on what the disk holds. -/
theorem of_same (h : l.Keeps event d present) (hplain : d'.IsPlain) (hsame : d'.Same d) :
    l.Keeps event d' present := by
  have hbase := Disk.addressOf_of_cwd_eq hsame.cwd_eq (l.eventDir event)
  have hget : d'.get? = d.get? := funext hsame.get?_eq
  refine ⟨hplain, h.listing, h.goesUp, ?_, ?_, ?_, ?_⟩
  · rw [hbase, hget]
    exact h.map
  · rw [hbase, hget]
    exact h.files
  · rw [hbase, hget]
    exact h.only_files
  · rw [hbase, hget]
    exact h.only_folders

/-- **The folder of a character holds files of passages.** -/
theorem holdsPassages (h : l.Keeps event d present) (hid : character.isId = true) :
    HoldsPassages d (d.addressOf (l.eventDir event) ++ [passageFolderName character]) := by
  intro n hn
  rw [List.append_assoc] at hn
  obtain ⟨x, hx, _, rfl⟩ := h.only_files character n hid hn
  exact ⟨_, _, (h.listing.valid x hx).1.passage, rfl⟩

/-- **A file is there when its passage is on the list.** -/
theorem get?_place_iff (h : l.Keeps event d present) (hp : p.IsValid) (hevent : p.event = event) :
    d.get? (d.addressOf (l.eventDir event) ++ p.place kind) ≠ none ↔ (p, kind) ∈ present := by
  constructor
  · intro hsome
    obtain ⟨x, hx, hcharacter, hname⟩ := h.only_files _ _ hp.character hsome
    obtain ⟨hvalid, hxevent⟩ := h.listing.valid x hx
    have hplace : p.place kind = x.1.place x.2 := by
      rw [PassageRef.place, PassageRef.place, hcharacter, hname]
    obtain ⟨rfl, rfl⟩ := PassageRef.place_injective hp hvalid (hevent.trans hxevent.symm) hplace
    exact hx
  · intro hmem
    obtain ⟨t, ht⟩ := h.files _ hmem
    rw [ht]
    simp

/-- The map of the folder is read as the text of the list. -/
theorem map_eq (h : l.Keeps event d present) {t : Text}
    (ht : d.read (l.passageMapFile event) = .ok t) : t = PassageMap.text event present := by
  rw [Disk.read_eq_ok_iff, passageMapFile_eq,
    Disk.entryOf?_join h.plain h.goesUp (isName_passageMapName h.listing.isId), h.map] at ht
  simpa using ht.symm

/-- **A passage has a file when it is on the list**, with the kind it is listed with. -/
theorem isFile_passageFile_iff (h : l.Keeps event d present) (hp : p.IsValid)
    (hevent : p.event = event) : d.isFile (l.passageFile p kind) = true ↔ (p, kind) ∈ present := by
  subst hevent
  have hfolder := isName_passageFolderName hp.character
  have hentry : d.entryOf? (l.passageFile p kind) =
      d.get? (d.addressOf (l.eventDir p.event) ++ p.place kind) := by
    rw [passageFile_eq, Disk.entryOf?_join h.plain (Disk.goesUp_join h.goesUp hfolder)
      (isName_passageFileName hp.passage kind), Disk.addressOf_join _ hfolder, List.append_assoc]
    rfl
  unfold Disk.isFile
  rw [hentry, ← h.get?_place_iff hp rfl]
  constructor
  · intro hfile hnone
    rw [hnone] at hfile
    cases hfile
  · intro hsome
    obtain ⟨t, ht⟩ := h.files _ ((h.get?_place_iff hp rfl).1 hsome)
    rw [show d.get? (d.addressOf (l.eventDir p.event) ++ p.place kind) = _ from ht]

/-- **A character has a folder when it has a passage.** -/
theorem isFolder_passageFolder_iff (h : l.Keeps event d present) (hid : character.isId = true) :
    d.isFolder (l.passageFolder event character) = true ↔
      ∃ x ∈ present, x.1.character = character := by
  rw [Disk.isFolder_iff, passageFolder_eq,
    Disk.entryOf?_join h.plain h.goesUp (isName_passageFolderName hid)]
  constructor
  · intro hfolder
    exact h.only_folders character hid (by rw [hfolder]; simp)
  · rintro ⟨x, hx, rfl⟩
    obtain ⟨t, ht⟩ := h.files x hx
    refine h.plain.folder_above ?_ ?_ ht
    · simp [PassageRef.place]
    · simp [PassageRef.place]

/-- **What creating a passage stages**: its file, and the map with the passage behind the
others. -/
theorem staged_of_create [Engine] (h : l.Keeps event d present) (hp : p.IsValid) (hevent : p.event = event)
    (hplan : (createPassage p kind title link).plan d { layout := l, targets } = .ok tx) :
    PassageMap.IsListing event (present ++ [(p, kind)]) ∧
      tx = {
        layout := l
        targets
        created := [(l.passageFile p kind, Template.passage kind p title link)]
        staged := [(l.passageMapFile event, ⟨PassageMap.text event present,
          PassageMap.text event (present ++ [(p, kind)])⟩)] } := by
  subst hevent
  obtain ⟨-, -, hnone, hcalls⟩ := createPassage_spec.1 hplan
  have hlisting : PassageMap.IsListing p.event (present ++ [(p, kind)]) := by
    refine h.listing.concat hp rfl (fun hmem => ?_) kind
    -- a passage on the list has a file, whatever its kind
    obtain ⟨⟨q, kind'⟩, hx, rfl⟩ := List.mem_map.1 hmem
    obtain ⟨t, ht⟩ := h.files _ hx
    have hno := of_findPassageFile_none h.plain h.goesUp (isName_passageFolderName hp.character)
      hnone kind'
    rw [List.append_assoc] at hno
    exact absurd (ht.symm.trans hno) (by simp)
  have hne : (l.passageFile p kind).same (l.passageMapFile p.event) = false := by
    refine Listing.same_eq_false (d := d) ?_
    rw [addressOf_passageMapFile hp.event, addressOf_passageFile hp]
    intro heq
    have hlength := congrArg List.length heq
    simp [PassageRef.place] at hlength
  obtain ⟨t, t', hread, hpatch, rfl⟩ := hcalls.of_create_update hne
  rw [passageModule_passageFile hp, h.map_eq hread] at hpatch
  rw [h.map_eq hread, (PassageRef.isSteady_addTo _ _ _).result_eq
    (PassageMap.addTo_text hlisting) hpatch]
  exact ⟨hlisting, rfl⟩

/-- **What is there when that was committed.** -/
theorem effect_of_create (h : l.Keeps p.event d present) (hp : p.IsValid) (t t' : Text)
    (c : Address) :
    Transaction.effect {
        layout := l
        targets
        created := [(l.passageFile p kind, t)]
        staged := [(l.passageMapFile p.event, ⟨PassageMap.text p.event present, t'⟩)] } d c =
      if c = d.addressOf (l.eventDir p.event) ++ p.place kind then some (.file (.text t))
      else if c <+: d.addressOf (l.eventDir p.event) ++ [passageFolderName p.character] then
        some .folder
      else if c = d.addressOf (l.eventDir p.event) ++ [passageMapName p.event] then
        some (.file (.text t'))
      else d.get? c := by
  have hmapAddress := addressOf_passageMapFile (l := l) hp.event d
  have hfolder : (d.addressOf (l.eventDir p.event) ++ p.place kind).dropLast =
      d.addressOf (l.eventDir p.event) ++ [passageFolderName p.character] := by
    unfold PassageRef.place
    rw [List.dropLast_append_of_ne_nil (List.cons_ne_nil _ _)]
    rfl
  rw [Transaction.effect_one_edit (by rw [hmapAddress]; simpa [Disk.View.cut] using h.map),
    hmapAddress]
  show Disk.View.create (Disk.View.write (Disk.View.cut d.get? []) _ _)
    (d.addressOf (l.passageFile p kind)) _ c = _
  unfold Disk.View.create Disk.View.write Disk.View.makeFolders Disk.View.cut
  rw [addressOf_passageFile hp, hfolder]
  simp

/-- **A created passage is kept**, behind the others. -/
theorem create [Engine] (h : l.Keeps event d present) (hp : p.IsValid) (hevent : p.event = event)
    (hplan : (createPassage p kind title link).plan d { layout := l, targets } = .ok tx)
    (hplain : d'.IsPlain) (hcwd : d'.cwd = d.cwd) (hview : d'.get? = tx.effect d) :
    l.Keeps event d' (present ++ [(p, kind)]) := by
  obtain ⟨hlisting, rfl⟩ := h.staged_of_create hp hevent hplan
  subst hevent
  have hbase : d'.addressOf (l.eventDir p.event) = d.addressOf (l.eventDir p.event) :=
    Disk.addressOf_of_cwd_eq hcwd _
  have hget := fun c => (congrFun hview c).trans (h.effect_of_create hp _ _ c)
  refine ⟨hplain, hlisting, h.goesUp, ?_, fun x hx => ?_, fun c n hc hn => ?_, fun c hc hn => ?_⟩
  · have hname := passageMapName_ne hp.event hp.character
    rw [hbase, hget, if_neg (by simp [PassageRef.place]), if_neg (by simpa using hname), if_pos rfl]
  · rw [hbase, hget]
    rcases List.mem_append.1 hx with hx | hx
    · by_cases hsame : x.1.place x.2 = p.place kind
      · rw [hsame, if_pos rfl]
        exact ⟨_, rfl⟩
      · obtain ⟨t, ht⟩ := h.files x hx
        rw [if_neg (by simpa using hsame), if_neg (by simp [PassageRef.place]),
          if_neg (by simp [PassageRef.place]), ht]
        exact ⟨t, rfl⟩
    · rw [List.mem_singleton.1 hx, if_pos rfl]
      exact ⟨_, rfl⟩
  · rw [hbase, hget] at hn
    by_cases hsame : [passageFolderName c, n] = p.place kind
    · obtain ⟨hfolder, hrest⟩ := List.cons.inj hsame
      obtain ⟨hname, _⟩ := List.cons.inj hrest
      exact ⟨(p, kind), by simp, (List.append_cancel_right hfolder).symm, hname⟩
    · rw [if_neg (by simpa using hsame), if_neg (by simp), if_neg (by simp)] at hn
      obtain ⟨x, hx, hx'⟩ := h.only_files c n hc hn
      exact ⟨x, List.mem_append_left _ hx, hx'⟩
  · rw [hbase, hget] at hn
    by_cases hsame : passageFolderName c = passageFolderName p.character
    · exact ⟨(p, kind), by simp, (List.append_cancel_right hsame).symm⟩
    · have hname := passageMapName_ne hp.event hc
      rw [if_neg (by simp [PassageRef.place]), if_neg (by simpa using hsame),
        if_neg (by simpa using hname.symm)] at hn
      obtain ⟨x, hx, hx'⟩ := h.only_folders c hc hn
      exact ⟨x, List.mem_append_left _ hx, hx'⟩

/-- A list with a passage has what it has without it. -/
theorem mem_insert {xs ys : PassageMap} {x y : PassageRef × PassageKind} (hx : x ∈ xs ++ ys) :
    x ∈ xs ++ y :: ys :=
  List.mem_append.2 ((List.mem_append.1 hx).imp_right (List.mem_cons_of_mem _))

theorem mem_of_mem_insert {xs ys : PassageMap} {x y : PassageRef × PassageKind}
    (hx : x ∈ xs ++ y :: ys) (hne : x ≠ y) : x ∈ xs ++ ys := by
  rcases List.mem_append.1 hx with hx | hx
  · exact List.mem_append_left _ hx
  · exact List.mem_append_right _ ((List.mem_cons.1 hx).resolve_left hne)

/-- **The file that is found** is that of a passage on the list. -/
theorem of_findPassageFile (h : l.Keeps event d present) (hp : p.IsValid) (hevent : p.event = event)
    {file : Path} (hfound : findPassageFile d (l.passageFolder event p.character) p.passage =
      .ok (some file)) : ∃ kind, (p, kind) ∈ present ∧ file = l.passageFile p kind := by
  subst hevent
  obtain ⟨kind, hthere, hfile⟩ := of_findPassageFile_some h.plain h.goesUp
    (isName_passageFolderName hp.character) (h.holdsPassages hp.character) hp.passage hfound
  rw [List.append_assoc] at hthere
  exact ⟨kind, (h.get?_place_iff hp rfl).1 hthere, hfile⟩

/-- **A folder with one file** is that of a character with one passage. -/
theorem length_existingPassages_iff {xs ys : PassageMap}
    (h : l.Keeps event d (xs ++ (p, kind) :: ys)) {ids : List Text}
    (hids : existingPassages d (l.passageFolder event p.character) = .ok ids) :
    ids.length = 1 ↔ ∀ x ∈ xs ++ ys, x.1.character ≠ p.character := by
  obtain ⟨hleft, ⟨hp, rfl⟩, hothers⟩ := h.listing.of_insert
  obtain ⟨t, ht⟩ := h.files (p, kind) (by simp)
  have hthere : d.get? (d.addressOf (l.eventDir p.event) ++ [passageFolderName p.character] ++
      [passageFileName p.passage kind]) ≠ none := by
    rw [List.append_assoc]
    exact fun hno => absurd (ht.symm.trans hno) (by simp)
  have hfolder : d.get? (d.addressOf (l.eventDir p.event) ++ [passageFolderName p.character]) =
      some .folder :=
    h.plain.folder_of_append (List.cons_ne_nil _ _)
      (show d.get? (_ ++ [passageFileName p.passage kind]) = _ by rw [List.append_assoc]; exact ht)
  rw [length_existingPassages h.plain h.goesUp (isName_passageFolderName hp.character)
    (h.holdsPassages hp.character) hfolder hids, Disk.length_list_eq_one_iff h.plain.toIsTree hthere]
  constructor
  · intro hone x hx hcharacter
    obtain ⟨hvalid, hevent⟩ := hleft.valid x hx
    obtain ⟨t, ht⟩ := h.files x (mem_insert hx)
    have hname := hone (passageFileName x.1.passage x.2) (by
      rw [List.append_assoc, ← hcharacter]
      exact fun hno => absurd (ht.symm.trans hno) (by simp))
    have hplace : p.place kind = x.1.place x.2 := by
      rw [PassageRef.place, PassageRef.place, hcharacter, hname]
    exact hothers x hx (PassageRef.place_injective hp hvalid hevent.symm hplace).1
  · intro hnone m hm
    rw [List.append_assoc] at hm
    obtain ⟨x, hx, hcharacter, rfl⟩ := h.only_files _ m hp.character hm
    by_cases hsame : x = (p, kind)
    · rw [hsame]
    · exact absurd hcharacter (hnone x (mem_of_mem_insert hx hsame))

/-- **What removing a passage stages**: the map without the passage, and the removal of its
file, or of the folder when the character has no other passage. -/
theorem staged_of_remove [Engine] (h : l.Keeps event d present) (hp : p.IsValid) (hevent : p.event = event)
    (hplan : (removePassage p).plan d { layout := l, targets } = .ok tx) :
    ∃ xs kind ys r, present = xs ++ (p, kind) :: ys ∧
      tx = { layout := l, targets, removals := [r], staged := [(l.passageMapFile event,
        ⟨PassageMap.text event present, PassageMap.text event (xs ++ ys)⟩)] } ∧
      ((d.addressOf r = d.addressOf (l.eventDir event) ++ [passageFolderName p.character] ∧
          ∀ x ∈ xs ++ ys, x.1.character ≠ p.character) ∨
        (d.addressOf r = d.addressOf (l.eventDir event) ++ p.place kind ∧
          ∃ x ∈ xs ++ ys, x.1.character = p.character)) := by
  subst hevent
  obtain ⟨file, ids, hfound, hids, hcalls⟩ := removePassage_spec hplan
  obtain ⟨kind, hmem, rfl⟩ := h.of_findPassageFile hp rfl hfound
  obtain ⟨xs, ys, rfl⟩ := List.append_of_mem hmem
  have hone := h.length_existingPassages_iff hids
  obtain ⟨r, hr, hcases⟩ : ∃ r, Call.removed? (if ids.length = 1
      then .deleteFolder (l.passageFolder p.event p.character)
      else .deleteFile (l.passageFile p kind)) = some r ∧
      ((d.addressOf r = d.addressOf (l.eventDir p.event) ++ [passageFolderName p.character] ∧
          ∀ x ∈ xs ++ ys, x.1.character ≠ p.character) ∨
        (d.addressOf r = d.addressOf (l.eventDir p.event) ++ p.place kind ∧
          ∃ x ∈ xs ++ ys, x.1.character = p.character)) := by
    by_cases hlast : ids.length = 1
    · rw [if_pos hlast]
      exact ⟨_, rfl, .inl ⟨addressOf_passageFolder hp.character d, hone.1 hlast⟩⟩
    · have hmore := mt hone.2 hlast
      push Not at hmore
      rw [if_neg hlast]
      exact ⟨_, rfl, .inr ⟨addressOf_passageFile hp d, hmore⟩⟩
  obtain ⟨t, t', hread, hpatch, rfl⟩ := hcalls.of_remove_update hr
  rw [passageModule_passageFile hp, h.map_eq hread] at hpatch
  rw [h.map_eq hread, (PassageRef.isSteady_removeFrom _ _ _).result_eq
    (PassageMap.removeFrom_text h.listing) hpatch]
  exact ⟨xs, kind, ys, r, rfl, rfl, hcases⟩

/-- **What is there when an edit of the map and a removal were committed.** -/
theorem effect_of_remove {r : Path} (h : l.Keeps event d present) (t' : Text)
    (hr : ¬d.addressOf r <+: d.addressOf (l.eventDir event) ++ [passageMapName event])
    (c : Address) :
    Transaction.effect { layout := l, targets, removals := [r], staged := [(l.passageMapFile event,
        ⟨PassageMap.text event present, t'⟩)] } d c =
      if c = d.addressOf (l.eventDir event) ++ [passageMapName event] then some (.file (.text t'))
      else if d.addressOf r <+: c then none else d.get? c := by
  have hmapAddress := addressOf_passageMapFile (l := l) h.listing.isId d
  have hmap : Disk.View.cut d.get? [d.addressOf r] (d.addressOf (l.passageMapFile event)) =
      some (.file (.text (PassageMap.text event present))) := by
    rw [hmapAddress]
    simpa [Disk.View.cut, hr] using h.map
  rw [Transaction.effect_one_edit hmap, hmapAddress]
  simp [Disk.View.cut, Disk.View.write]

/-- **A removed passage is kept no more.** -/
theorem remove [Engine] (h : l.Keeps event d present) (hp : p.IsValid) (hevent : p.event = event)
    (hplan : (removePassage p).plan d { layout := l, targets } = .ok tx)
    (hplain : d'.IsPlain) (hcwd : d'.cwd = d.cwd) (hview : d'.get? = tx.effect d) :
    l.Keeps event d' (present.without p) := by
  have hbase : d'.addressOf (l.eventDir event) = d.addressOf (l.eventDir event) :=
    Disk.addressOf_of_cwd_eq hcwd _
  have hid := h.listing.isId
  obtain ⟨xs, kind, ys, r, rfl, rfl, hcases⟩ := h.staged_of_remove hp hevent hplan
  obtain ⟨hleft, _, hothers⟩ := h.listing.of_insert
  have hkept : ¬d.addressOf r <+: d.addressOf (l.eventDir event) ++ [passageMapName event] := by
    have hname := passageMapName_ne hid hp.character
    rcases hcases with ⟨hat, _⟩ | ⟨hat, _⟩
    · rw [hat]
      simpa using hname.symm
    · rw [hat]
      simp [PassageRef.place]
  have hget := fun c => (congrFun hview c).trans (h.effect_of_remove _ hkept c)
  rw [h.listing.without_eq]
  refine ⟨hplain, hleft, h.goesUp, ?_, fun x hx => ?_, fun c n hc hn => ?_, fun c hc hn => ?_⟩
  · rw [hbase, hget, if_pos rfl]
  · obtain ⟨hvalid, hxevent⟩ := hleft.valid x hx
    obtain ⟨t, ht⟩ := h.files x (mem_insert hx)
    have hstays : ¬d.addressOf r <+: d.addressOf (l.eventDir event) ++ x.1.place x.2 := by
      rcases hcases with ⟨hat, hnone⟩ | ⟨hat, _⟩
      · rw [hat, PassageRef.place, List.prefix_append_right_inj, List.cons_prefix_cons]
        exact fun hpre => hnone x hx (List.append_cancel_right hpre.1).symm
      · rw [hat, List.prefix_append_right_inj]
        intro hpre
        exact hothers x hx (PassageRef.place_injective hp hvalid (hevent.trans hxevent.symm)
          (hpre.eq_of_length rfl)).1
    rw [hbase, hget, if_neg (by simp [PassageRef.place]), if_neg hstays, ht]
    exact ⟨t, rfl⟩
  · rw [hbase, hget, if_neg (by simp)] at hn
    split at hn
    · exact absurd rfl hn
    · rename_i hstays
      obtain ⟨x, hx, hcharacter, rfl⟩ := h.only_files c n hc hn
      refine ⟨x, mem_of_mem_insert hx ?_, hcharacter, rfl⟩
      rintro rfl
      obtain rfl : p.character = c := hcharacter
      refine hstays ?_
      rcases hcases with ⟨hat, _⟩ | ⟨hat, _⟩
      · rw [hat]
        simp
      · rw [hat]
        exact List.prefix_refl _
  · have hname := passageMapName_ne hid hc
    rw [hbase, hget, if_neg (by simpa using hname.symm)] at hn
    split at hn
    · exact absurd rfl hn
    · rename_i hstays
      obtain ⟨x, hx, hcharacter⟩ := h.only_folders c hc hn
      by_cases hsame : x = (p, kind)
      · obtain rfl := hsame
        obtain rfl : p.character = c := hcharacter
        rcases hcases with ⟨hat, _⟩ | ⟨_, hother⟩
        · rw [hat] at hstays
          exact absurd (List.prefix_refl _) hstays
        · exact hother
      · exact ⟨x, mem_of_mem_insert hx hsame, hcharacter⟩

end Keeps

/-! ## A new event -/

/-- An event that is created has an id. -/
theorem of_createEvent [Engine] {args : EventArgs} {scaffold : Scaffold}
    (h : createEvent args = .ok scaffold) :
    args.id.isId = true ∧ scaffold = creatingEvent args := by
  unfold createEvent at h
  simp only [Outcome.bind_eq_ok, Outcome.pure_eq_ok] at h
  obtain ⟨_, hid, _, _, _, _, _, _, _, _, _, _, rfl⟩ := h
  exact ⟨checkId_eq_ok_iff.1 hid, rfl⟩

variable {args : EventArgs} {tx : Transaction} {targets : List Path}

/-- **A project in which an event can be created** is not reached upwards. -/
theorem goesUp_of_creatingEvent [Engine] (hd : d.IsPlain) (hid : args.id.isId = true)
    (hplan : (creatingEvent args).plan d { layout := l, targets } = .ok tx) :
    (l.eventDir args.id).goesUp = false := by
  have hcalls := (creatingEvent_spec.1 hplan).2
  cases hcalls with
  | cons hrun _ =>
    cases Call.stages_of_run hrun with
    | create hcheck =>
      unfold Transaction.check at hcheck
      split at hcheck
      · have hup := (Disk.of_ensureWithin hd hcheck).1
        have hname : IsName (args.id ++ ".event.ts".toList) :=
          isName_append (isWord_of_isId hid) (by decide)
        rwa [show l.eventFile args.id = (l.eventDir args.id).join _ from rfl,
          Path.goesUp_concat (Path.components_join _ hname)] at hup
      · exact absurd hcheck Outcome.fail_ne_ok

/-- Where the file of an event is. -/
theorem addressOf_eventFile_below (hid : args.id.isId = true) (d : Disk) :
    d.addressOf (l.eventFile args.id) =
      d.addressOf (l.eventDir args.id) ++ [args.id ++ ".event.ts".toList] :=
  Disk.addressOf_join _ (isName_append (isWord_of_isId hid) (by decide))

section NewEvent

variable [Engine] (hl : l.IsDefault) (hd : d.IsPlain) (hid : args.id.isId = true)
  (hplan : (creatingEvent args).plan d { layout := l, targets } = .ok tx)

include hl hd hid hplan in
/-- In the folder of a new event nothing was before. -/
theorem get?_below_newEvent (rest : Address) :
    d.get? (d.addressOf (l.eventDir args.id) ++ rest) = none := by
  have hword := isWord_of_isId hid
  have haddress : d.addressOf (l.eventDir args.id) =
      d.addressOf l.dataDir ++ EntityKind.event.place args.id := hl.addressOf_placeOf d .event hword
  have hnone := (creatingEvent_spec.1 hplan).1
  rw [pathExists_init] at hnone
  refine hd.get?_none_below (List.prefix_append _ rest) ?_
  by_contra hsome
  have hexists := (hl.pathExists_placeOf hd .event hword).2 (haddress ▸ hsome)
  exact absurd (hexists.symm.trans hnone) (by simp)

include hl hid hplan in
/-- **The passage map of a new event** is created as its template: the three other paths that
are created or edited are not its path. -/
theorem created_passageMapFile :
    tx.created.find? (l.passageMapFile args.id) = some (Template.passageMap args.id) := by
  have hdirAddress : d.addressOf (l.eventDir args.id) =
      d.addressOf l.dataDir ++ EntityKind.event.place args.id :=
    hl.addressOf_placeOf d .event (isWord_of_isId hid)
  have hregistry : ∀ {q : Path} {n : Text}, d.addressOf q = d.addressOf l.dataDir ++ [n] →
      q.same (l.passageMapFile args.id) = false := by
    intro q n hq
    refine Listing.same_eq_false (d := d) ?_
    rw [hq, addressOf_passageMapFile hid, hdirAddress]
    intro heq
    have hlength := congrArg List.length heq
    simp [EntityKind.place] at hlength
  have hevent : (l.eventFile args.id).same (l.passageMapFile args.id) = false := by
    refine Listing.same_eq_false (d := d) ?_
    rw [addressOf_eventFile_below hid, addressOf_passageMapFile hid]
    intro heq
    exact absurd (List.append_cancel_left (List.cons.inj (List.append_cancel_left heq)).1)
      (by decide)
  have hspec := (creatingEvent_spec.1 hplan).2.created_spec (p := l.passageMapFile args.id) rfl
  simp [Call.createdText?, hevent, Path.same_refl, Call.patchesBehind, Call.creates, Call.patch?,
    List.filterMap_cons, hregistry (hl.addressOf_registerFile d),
    hregistry (hl.addressOf_worldStateFile d)] at hspec
  obtain ⟨t, hfind, htext⟩ := hspec
  rw [hfind]
  exact congrArg some (Except.ok.inj htext).symm

include hl hd hid hplan in
/-- **What is created for a new event** is its file and its passage map. -/
theorem created_of_newEvent {x : Path × Text} (hx : x ∈ tx.created) :
    d.addressOf x.1 = d.addressOf (l.eventDir args.id) ++ [args.id ++ ".event.ts".toList] ∨
      (d.addressOf x.1 = d.addressOf (l.eventDir args.id) ++ [passageMapName args.id] ∧
        x.2 = Template.passageMap args.id) := by
  have hlisting := listing_creatingEvent hl hd (isWord_of_isId hid) hplan
  obtain ⟨q, t, hq, hsame⟩ := hlisting.created_front hx
  have haddress : d.addressOf q = d.addressOf x.1 := Disk.addressOf_congr (Path.same_iff.1 hsame)
  rcases List.mem_cons.1 hq with hq | hq
  · cases hq
    exact .inl (haddress.symm.trans (addressOf_eventFile_below hid d))
  · cases List.mem_singleton.1 hq
    have hmap := created_passageMapFile hl hid hplan
    rw [PathMap.find?_congr _ hsame, hlisting.sound.created_sorted.find?_of_mem hx] at hmap
    exact .inr ⟨haddress.symm.trans (addressOf_passageMapFile hid d), Option.some.inj hmap⟩

include hl hd hid hplan in
/-- No folder of passages is made for a new event. -/
theorem effect_passageFolder_newEvent {c : Text} (hc : c.isId = true) (rest : Address) :
    tx.effect d (d.addressOf (l.eventDir args.id) ++ passageFolderName c :: rest) = none := by
  have hword := isWord_of_isId hid
  rw [Transaction.effect_elsewhere (fun x hx => ?_) (fun x hx hpre => ?_) (fun r hr => ?_),
    get?_below_newEvent hl hd hid hplan]
  · rw [show d.addressOf (l.eventDir args.id) = _ from hl.addressOf_placeOf d .event hword]
    exact (listing_creatingEvent hl hd hword hplan).staged_ne_place hx .event args.id
      (passageFolderName c :: rest)
  · rcases created_of_newEvent hl hd hid hplan hx with hat | ⟨hat, _⟩
    · rw [hat, List.prefix_append_right_inj] at hpre
      exact eventFileName_ne hid hc (List.cons_prefix_cons.1 hpre).1.symm
    · rw [hat, List.prefix_append_right_inj] at hpre
      exact passageMapName_ne hid hc (List.cons_prefix_cons.1 hpre).1.symm
  · rw [(creatingEvent_spec.1 hplan).2.removals_eq] at hr
    exact absurd hr (by simp [Call.removed?])

include hl hd hid hplan in
/-- Its passage map is there. -/
theorem effect_passageMapFile_newEvent :
    tx.effect d (d.addressOf (l.eventDir args.id) ++ [passageMapName args.id]) =
      some (.file (.text (Template.passageMap args.id))) := by
  have hcreated := fun {x} => created_of_newEvent hl hd hid hplan (x := x)
  obtain ⟨q, hsame, hq⟩ := PathMap.exists_mem_of_find? (created_passageMapFile hl hid hplan)
  have haddress : d.addressOf q = d.addressOf (l.eventDir args.id) ++ [passageMapName args.id] :=
    (Disk.addressOf_congr (Path.same_iff.1 hsame)).trans (addressOf_passageMapFile hid d)
  rw [← haddress]
  refine Transaction.effect_created_text hq (fun y hy hpre => ?_) (fun y hy hyq => ?_)
  · rw [haddress] at hpre ⊢
    rcases hcreated hy with hat | ⟨hat, _⟩
    · rw [hat] at hpre ⊢
      exact (hpre.eq_of_length (by simp)).symm
    · exact hat
  · rcases hcreated hy with hat | ⟨_, htext⟩
    · rw [hat, haddress] at hyq
      have hname : args.id ++ ".event.ts".toList = args.id ++ ".passages.ts".toList :=
        (List.cons.inj (List.append_cancel_left hyq)).1
      exact absurd (List.append_cancel_left hname) (by decide)
    · exact htext

include hl hd hid hplan in
/-- **A new event keeps no passages.** -/
theorem keeps_creatingEvent (hplain : d'.IsPlain) (hcwd : d'.cwd = d.cwd)
    (hview : d'.get? = tx.effect d) : l.Keeps args.id d' [] := by
  have hbase : d'.addressOf (l.eventDir args.id) = d.addressOf (l.eventDir args.id) :=
    Disk.addressOf_of_cwd_eq hcwd _
  have hfolders : ∀ c rest, c.isId = true →
      d'.get? (d'.addressOf (l.eventDir args.id) ++ passageFolderName c :: rest) = none := by
    intro c rest hc
    rw [hbase, hview, effect_passageFolder_newEvent hl hd hid hplan hc]
  refine ⟨hplain, ⟨hid, by simp, List.nodup_nil⟩, goesUp_of_creatingEvent hd hid hplan, ?_,
    by simp, fun c n hc hn => absurd (hfolders c [n] hc) hn,
    fun c hc hn => absurd (hfolders c [] hc) hn⟩
  rw [hbase, hview, effect_passageMapFile_newEvent hl hd hid hplan, PassageMap.text_nil]

end NewEvent

end Layout

/-! ## Any number of operations -/

/-- **An operation on the passages of an event.** -/
inductive PassageStep where
  | create (p : PassageRef) (kind : PassageKind) (title link : Option Text)
  | remove (p : PassageRef)

namespace PassageStep

/-- What is run. -/
def scaffold [Engine] : PassageStep → Scaffold
  | create p kind title link => createPassage p kind title link
  | remove p => removePassage p

/-- **The passage it is about.** -/
def passage : PassageStep → PassageRef
  | create p _ _ _ => p
  | remove p => p

/-- **What it makes of the list of passages**, when it succeeds. -/
def onMap (s : PassageStep) (present : PassageMap) : PassageMap :=
  match s with
  | create p kind _ _ => present ++ [(p, kind)]
  | remove p => present.without p

variable [Engine] {l : Layout} {event : Text} {d : Disk} {present : PassageMap} {s : PassageStep}

/-- **Its plan makes calls** of the transaction. -/
theorem exists_calls (s : PassageStep) :
    ∀ d tx tx', s.scaffold.plan d tx = .ok tx' → ∃ cs, Calls d tx cs tx' := by
  intro d tx tx' hplan
  cases s with
  | create p kind title link => exact ⟨_, (createPassage_spec.1 hplan).2.2.2⟩
  | remove p =>
    obtain ⟨_, _, _, _, hcalls⟩ := removePassage_spec hplan
    exact ⟨_, hcalls⟩

/-- **One operation** keeps the folder of the event keeping a list: the one it makes when
it succeeds, and the old one when it fails. -/
theorem keeps_apply (h : l.Keeps event d present) (hp : s.passage.IsValid)
    (hevent : s.passage.event = event) :
    match l.run .apply s.scaffold d with
    | (.ok _, d') => l.Keeps event d' (s.onMap present)
    | (.error _, d') => d'.Same d ∧ l.Keeps event d' present := by
  have hrun := l.run_cases h.plain s.exists_calls
  cases hresult : l.run .apply s.scaffold d with
  | mk r d' =>
    rw [hresult] at hrun
    cases r with
    | error f => exact ⟨hrun.2, h.of_same hrun.1 hrun.2⟩
    | ok report =>
      obtain ⟨hplain, hcwd, tx, _, hplan, hview⟩ := hrun
      show l.Keeps event d' (s.onMap present)
      cases s with
      | create p kind title link => exact h.create hp hevent hplan hplain hcwd hview
      | remove p => exact h.remove hp hevent hplan hplain hcwd hview

/-- **Applies operations one after the other**, and keeps a list of the passages of those
that succeed. -/
def runAll (l : Layout) (steps : List PassageStep) (d : Disk) (present : PassageMap) :
    Disk × PassageMap :=
  match steps with
  | [] => (d, present)
  | s :: steps =>
    match l.run .apply s.scaffold d with
    | (.ok _, d') => runAll l steps d' (s.onMap present)
    | (.error _, d') => runAll l steps d' present

/-- The same, each operation committed at once. -/
def runAllAtOnce (l : Layout) (steps : List PassageStep) (d : Disk) (present : PassageMap) :
    Disk × PassageMap :=
  match steps with
  | [] => (d, present)
  | s :: steps =>
    match l.runAtOnce s.scaffold d with
    | (.ok _, d') => runAllAtOnce l steps d' (s.onMap present)
    | (.error _, d') => runAllAtOnce l steps d' present

/-- **Nobody else writes**, so committing at once comes to the same. -/
theorem runAll_eq_runAllAtOnce (l : Layout) (steps : List PassageStep) (d : Disk)
    (present : PassageMap) : runAll l steps d present = runAllAtOnce l steps d present := by
  induction steps generalizing d present with
  | nil => rfl
  | cons s steps ih =>
    unfold runAll runAllAtOnce
    rw [l.run_eq_runAtOnce s.exists_calls]
    cases l.runAtOnce s.scaffold d with
    | mk r d' => cases r <;> exact ih d' _

/-- **Any number of operations** keep the folder keeping the list. -/
theorem keeps_runAll {steps : List PassageStep} (h : l.Keeps event d present)
    (hsteps : ∀ s ∈ steps, s.passage.IsValid ∧ s.passage.event = event) :
    l.Keeps event (runAll l steps d present).1 (runAll l steps d present).2 := by
  induction steps generalizing d present with
  | nil => exact h
  | cons s steps ih =>
    obtain ⟨hp, hevent⟩ := hsteps s List.mem_cons_self
    have hstep := keeps_apply h hp hevent
    have hrest : ∀ s' ∈ steps, s'.passage.IsValid ∧ s'.passage.event = event := fun s' hs' =>
      hsteps s' (List.mem_cons_of_mem _ hs')
    unfold runAll
    cases hrun : l.run .apply s.scaffold d with
    | mk r d' =>
      rw [hrun] at hstep
      cases r with
      | ok report => exact ih hstep hrest
      | error f => exact ih hstep.2 hrest

end PassageStep

namespace Layout

open scoped Engine.Tireless in
/-- **The passages of an event are in step with a list**: the files, the variants of the
union, the keys of the record and the imports are those of the passages on the list. The map
is read here with an engine that gives nothing up. -/
structure InStep (l : Layout) (event : Text) (d : Disk) (present : PassageMap) : Prop where
  /-- No passage is listed twice, and all are of the event. -/
  nodup : (present.map Prod.fst).Nodup
  valid : ∀ x ∈ present, x.1.IsValid ∧ x.1.event = event
  /-- A passage has a file when it is listed, and that with the kind it is listed with. -/
  files : ∀ (p : PassageRef) (kind : PassageKind), p.IsValid → p.event = event →
    (d.isFile (l.passageFile p kind) = true ↔ (p, kind) ∈ present)
  one_file : ∀ (p : PassageRef) (kind kind' : PassageKind), p.IsValid → p.event = event →
    d.isFile (l.passageFile p kind) = true → d.isFile (l.passageFile p kind') = true →
      kind = kind'
  /-- A character has a folder when it has a passage. -/
  folders : ∀ character : Text, character.isId = true →
    (d.isFolder (l.passageFolder event character) = true ↔ ∃ x ∈ present, x.1.character = character)
  /-- The passage map lists the passages three times, and imports each from the file that
  is there. -/
  map : ∃ t, d.read (l.passageMapFile event) = .ok t ∧
    (∃ u, UnionDeclaration.find (Template.passageIdType event) t = .ok u ∧
      u.variants = present.map fun x => x.1.literal) ∧
    (∃ c, Container.locate .binding (Template.passageContainer event) t = .ok c ∧
      recordKeys c.body = present.map fun x => x.1.literal) ∧
    relativeImports t = present.reverse.map fun x =>
      (x.1.symbol, l.passageModule event (l.passageFile x.1 x.2))

/-- **What a folder keeps is in step.** -/
theorem Keeps.inStep {l : Layout} {event : Text} {d : Disk} {present : PassageMap}
    (h : l.Keeps event d present) : l.InStep event d present := by
  have hlisting := h.listing
  refine ⟨hlisting.nodup, hlisting.valid, fun p kind hp hevent => h.isFile_passageFile_iff hp hevent,
    fun p kind kind' hp hevent hfile hfile' => ?_, fun c hc => h.isFolder_passageFolder_iff hc,
    _, ?_, PassageMap.variants_text hlisting, PassageMap.recordKeys_text hlisting, ?_⟩
  · have hmem := (h.isFile_passageFile_iff hp hevent).1 hfile
    have hmem' := (h.isFile_passageFile_iff hp hevent).1 hfile'
    exact congrArg Prod.snd (List.inj_on_of_nodup_map hlisting.nodup hmem hmem' rfl)
  · rw [Disk.read_eq_ok_iff, passageMapFile_eq,
      Disk.entryOf?_join h.plain h.goesUp (isName_passageMapName hlisting.isId)]
    exact h.map
  · rw [PassageMap.relativeImports_text hlisting]
    refine List.map_congr_left fun x hx => ?_
    obtain ⟨hvalid, hevent⟩ := hlisting.valid x (List.mem_reverse.1 hx)
    rw [← hevent, passageModule_passageFile hvalid]

/-- **The passages of a new event stay in step.** In a project with the default names, after
an event was created and any operations on its passages, each of which may have succeeded
or failed, its files, the union, the record and the imports are those of the passages
created and not removed since. -/
theorem passages_of_history [Engine] {l : Layout} {d₀ d : Disk} {args : EventArgs} {scaffold : Scaffold}
    {report : Report}
    (hconfig : l.config = { dataDir := l.config.dataDir, showDiff := l.config.showDiff })
    (hplain : d₀.IsPlain) (hscaffold : createEvent args = .ok scaffold)
    (hrun : l.run .apply scaffold d₀ = (.ok report, d)) (steps : List PassageStep)
    (hsteps : ∀ s ∈ steps, s.passage.IsValid ∧ s.passage.event = args.id) :
    l.InStep args.id (PassageStep.runAll l steps d []).1 (PassageStep.runAll l steps d []).2 := by
  obtain ⟨hid, rfl⟩ := of_createEvent hscaffold
  have hcases := l.run_cases hplain (s := creatingEvent args) fun d tx tx' hplan =>
    ⟨_, (creatingEvent_spec.1 hplan).2⟩
  rw [hrun] at hcases
  obtain ⟨hplain', hcwd, tx, _, hplan, hview⟩ := hcases
  have hup : (l.placeOf .event args.id).goesUp = false := goesUp_of_creatingEvent hplain hid hplan
  have hl := isDefault_of_goesUp hconfig (isWord_of_isId hid) hup
  have hnew := keeps_creatingEvent hl hplain hid hplan hplain' hcwd hview
  exact (PassageStep.keeps_runAll hnew hsteps).inStep

section Ann

open scoped Engine.Tireless

/-- A project in the root. -/
def annLayout : Layout :=
  ⟨⟨['/']⟩, {}⟩

/-- Its disk, with one character. -/
def annDisk : Disk where
  cwd := []
  entries := [(["src".toList], .folder), (["src".toList, "data".toList], .folder),
    (["src".toList, "data".toList, registerName],
      .file (.text "events: \x7b\n\x7d\npassages: \x7b\n\x7d".toList)),
    (["src".toList, "data".toList, worldStateName], .file (.text "events: \x7b\n\x7d".toList)),
    (["src".toList, "data".toList, "characters".toList], .folder),
    (["src".toList, "data".toList, "characters".toList, "ann".toList ++ sourceEnding],
      .file (.text []))]

/-- The event that is created in it. -/
def annBall : EventArgs :=
  { id := "ball".toList, title := "Ball".toList }

/-- Two passages of which one begins the other. The first is refused while it is there with
another kind, and created with it when it is gone. -/
def annHistory : List PassageStep :=
  [.create ⟨"ball".toList, "ann".toList, "in".toList⟩ .screen none none,
    .create ⟨"ball".toList, "ann".toList, "in".toList⟩ .transition none none,
    .remove ⟨"ball".toList, "ann".toList, "in".toList⟩,
    .create ⟨"ball".toList, "ann".toList, "in".toList⟩ .transition none none,
    .create ⟨"ball".toList, "ann".toList, "intro".toList⟩ .linear none none]

theorem passages_of_history_ann : ∃ scaffold report d,
    (annLayout.config =
        { dataDir := annLayout.config.dataDir, showDiff := annLayout.config.showDiff } ∧
      annDisk.IsPlain ∧ createEvent annBall = .ok scaffold ∧
      annLayout.run .apply scaffold annDisk = (.ok report, d) ∧
      ∀ s ∈ annHistory, s.passage.IsValid ∧ s.passage.event = annBall.id) ∧
    (PassageStep.runAll annLayout (annHistory.take 2) d []).2 =
      [(⟨"ball".toList, "ann".toList, "in".toList⟩, .screen)] ∧
    annLayout.InStep annBall.id (PassageStep.runAll annLayout annHistory d []).1
      [(⟨"ball".toList, "ann".toList, "in".toList⟩, .transition),
        (⟨"ball".toList, "ann".toList, "intro".toList⟩, .linear)] := by
  have hplain : annDisk.IsPlain :=
    Disk.isPlain_of_entries (by decide +kernel) (by decide +kernel) (by decide +kernel)
  have hsteps : ∀ s ∈ annHistory, s.passage.IsValid ∧ s.passage.event = annBall.id := by
    decide +kernel
  have hcreates : createEvent annBall = .ok (creatingEvent annBall) := by
    have hok : (createEvent annBall).isOk = true := by
      decide +kernel
    obtain ⟨scaffold, hscaffold⟩ := Outcome.exists_of_isOk hok
    rw [hscaffold, (of_createEvent hscaffold).2]
  have hmakes : ∀ d tx tx', (creatingEvent annBall).plan d tx = .ok tx' →
      ∃ cs, Calls d tx cs tx' :=
    fun _ _ _ hplan => ⟨_, (creatingEvent_spec.1 hplan).2⟩
  have hruns : (annLayout.runAtOnce (creatingEvent annBall) annDisk).1.isOk = true := by
    decide +kernel
  have hhalf : (PassageStep.runAllAtOnce annLayout (annHistory.take 2)
      (annLayout.runAtOnce (creatingEvent annBall) annDisk).2 []).2 =
        [(⟨"ball".toList, "ann".toList, "in".toList⟩, .screen)] := by
    decide +kernel
  have hlist : (PassageStep.runAllAtOnce annLayout annHistory
      (annLayout.runAtOnce (creatingEvent annBall) annDisk).2 []).2 =
        [(⟨"ball".toList, "ann".toList, "in".toList⟩, .transition),
          (⟨"ball".toList, "ann".toList, "intro".toList⟩, .linear)] := by
    decide +kernel
  cases hrun : annLayout.runAtOnce (creatingEvent annBall) annDisk with
  | mk r d =>
    rw [hrun] at hruns hhalf hlist
    obtain ⟨report, rfl⟩ := Outcome.exists_of_isOk hruns
    rw [← annLayout.run_eq_runAtOnce hmakes] at hrun
    have hstep := passages_of_history rfl hplain hcreates hrun annHistory hsteps
    rw [PassageStep.runAll_eq_runAllAtOnce, hlist] at hstep
    rw [← PassageStep.runAll_eq_runAllAtOnce] at hhalf hstep
    exact ⟨_, report, d, ⟨rfl, hplain, hcreates, hrun, hsteps⟩, hhalf, hstep⟩

end Ann

end Layout

end Fabula
