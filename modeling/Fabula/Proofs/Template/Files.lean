import Mathlib.Data.Fin.VecNotation
import Fabula.Proofs.Template.Literals
import Fabula.Proofs.Registry.Passages
import Fabula.Template.Entity
import Fabula.Template.Event
import Fabula.Template.Passage
import Fabula.Template.Race

/-!
# Generated files quote the texts they are given

Every file and every entry that is written from shown texts is one fixed text but for the
literals these are put into, so it quotes them (`Template.quotes_shown`): whatever the names,
titles and descriptions are, the code around them is the same, with the same braces, and each
text is the whole content of one literal.

For each template the fixed text is cut at its literals, and three things are seen of each
piece: it leads the reader from the code back to the code, it has no slash outside of literals,
and the quote at its end opens a literal. Where a piece is a constant these are evaluated. Where
ids stand in it they are names, and a name moves the reader nowhere, be it in the code or in a
literal (`Place.after_name`). So the pieces are constants with names between them, for all ids
at once. The rest is the general statement about texts that are fixed but for their literals
(`Template.Quotes.of_fill`).

## Passages

A passage has a title only when it is a screen, and no title there is the empty one. The link to
a neighbouring passage is an id in a literal, and the id of the passage that is written stands
in literals as well. These are not shown texts, and they are part of what is fixed. Files of
passages that are no screens quote nothing, so nothing is to be said about them.
-/

namespace Fabula

namespace Template

open Place Removal

/-- In a literal between single quotes. -/
private abbrev inQuotes : Place :=
  literal '\'' .plain []

/-- A write that is fixed but for its literals quotes what is put into them. -/
theorem Quotes.of_fill {n : ℕ} {write : (Fin n → Text) → Text} (holes : Fin n → Hole) (last : Text)
    (h : ∀ t, write t = fill holes last t) (hholes : ∀ i, (holes i).IsPlain)
    (hlast : Reads start last start) : Quotes write := by
  obtain rfl : write = fill holes last := funext h
  exact quotes_fill hholes hlast

variable {id : Text}

/-! ## Entities -/

theorem quotes_character (hid : id.isId = true) :
    Quotes fun t : Fin 1 → Text => character id (t 0) := by
  have hname := (isWord_of_isId hid).isNameText
  have hopen : "',\n\tname: _('".toList = "',\n\tname: _(".toList ++ ['\''] := by
    decide +kernel
  have hclose : "'),\n\tgeneral_description: ``,\n\tstart_passage_Id: undefined,\n\t\n\tinit: \x7b\n".toList =
      '\'' :: "),\n\tgeneral_description: ``,\n\tstart_passage_Id: undefined,\n\t\n\tinit: \x7b\n".toList := by
    decide +kernel
  refine .of_fill
    ![⟨"import \x7b TCharacter \x7d from 'types/TCharacter';\n\nexport const ".toList ++
      id.capitalize ++ ": TCharacter<'".toList ++ id ++ "'> = \x7b\n\tid: '".toList ++ id ++
      "',\n\tname: _(".toList, '\''⟩]
    ("),\n\tgeneral_description: ``,\n\tstart_passage_Id: undefined,\n\t\n\tinit: \x7b\n".toList ++
      "\t\thealth: 100,\n\t\thunger: 100,\n\t\tstamina: 100,\n\t\tinventory: [],\n".toList ++
      "\t\tlocation: undefined,\n\t\x7d,\n\x7d;\n\nexport type T".toList ++ id.capitalize ++
      "CharacterData = \x7b\n\t\n\x7d;\n".toList)
    (fun t => ?_) (Fin.cons ⟨?_, .inl rfl⟩ nofun) ?_
  · unfold character
    rw [hopen, hclose]
    simp only [fill, Matrix.cons_val_zero, List.append_assoc, List.cons_append, List.nil_append]
  · exact .through (q := inQuotes) rfl hname (.through (q := inQuotes) rfl hname
      (.through (q := start) rfl hname.capitalize (by decide +kernel) (by decide +kernel))
      (by decide +kernel)) (by decide +kernel)
  · exact .through (q := start) rfl hname.capitalize (by decide +kernel) (by decide +kernel)

theorem quotes_sideCharacter (hid : id.isId = true) :
    Quotes fun t : Fin 1 → Text => sideCharacter id (t 0) := by
  have hname := (isWord_of_isId hid).isNameText
  have hopen : "',\n\tname: _('".toList = "',\n\tname: _(".toList ++ ['\''] := by
    decide +kernel
  have hclose : "'),\n\tgeneral_description: ``,\n\t\n\tinit: \x7b\n\t\tinventory: [],\n".toList =
      '\'' :: "),\n\tgeneral_description: ``,\n\t\n\tinit: \x7b\n\t\tinventory: [],\n".toList := by
    decide +kernel
  refine .of_fill
    ![⟨"import \x7b TSideCharacter \x7d from 'types/TCharacter';\n\nexport const ".toList ++
      id.capitalize ++ ": TSideCharacter<'".toList ++ id ++ "'> = \x7b\n\tid: '".toList ++ id ++
      "',\n\tname: _(".toList, '\''⟩]
    ("),\n\tgeneral_description: ``,\n\t\n\tinit: \x7b\n\t\tinventory: [],\n".toList ++
      "\t\tlocation: undefined,\n\t\tis_dead: false,\n\t\x7d,\n\x7d;\n\nexport type T".toList ++
      id.capitalize ++ "SideCharacterData = \x7b\n\t\n\x7d;\n".toList)
    (fun t => ?_) (Fin.cons ⟨?_, .inl rfl⟩ nofun) ?_
  · unfold sideCharacter
    rw [hopen, hclose]
    simp only [fill, Matrix.cons_val_zero, List.append_assoc, List.cons_append, List.nil_append]
  · exact .through (q := inQuotes) rfl hname (.through (q := inQuotes) rfl hname
      (.through (q := start) rfl hname.capitalize (by decide +kernel) (by decide +kernel))
      (by decide +kernel)) (by decide +kernel)
  · exact .through (q := start) rfl hname.capitalize (by decide +kernel) (by decide +kernel)

theorem quotes_location (hid : id.isId = true) :
    Quotes fun t : Fin 1 → Text => location id (t 0) := by
  have hname := (isWord_of_isId hid).isNameText
  have hopen : "',\n\tname: _('".toList = "',\n\tname: _(".toList ++ ['\''] := by
    decide +kernel
  have hclose : "'),\n\tdescription: '',\n\t\n\tlocalCharacters: [\n\t],\n\tinit: \x7b\x7d,\n\x7d;\n".toList =
      '\'' :: "),\n\tdescription: '',\n\t\n\tlocalCharacters: [\n\t],\n\tinit: \x7b\x7d,\n\x7d;\n".toList := by
    decide +kernel
  refine .of_fill
    ![⟨"import \x7b TLocation \x7d from 'types/TLocation';\n\nexport const ".toList ++ id ++
      "Location: TLocation<'".toList ++ id ++ "'> = \x7b\n\tid: '".toList ++ id ++
      "',\n\tname: _(".toList, '\''⟩]
    ("),\n\tdescription: '',\n\t\n\tlocalCharacters: [\n\t],\n\tinit: \x7b\x7d,\n\x7d;\n".toList ++
      "\nexport type T".toList ++ id.capitalize ++
      "LocationData = \x7b\n\tvoid?: void;\n\x7d;\n".toList)
    (fun t => ?_) (Fin.cons ⟨?_, .inl rfl⟩ nofun) ?_
  · unfold location
    rw [hopen, hclose]
    simp only [fill, Matrix.cons_val_zero, List.append_assoc, List.cons_append, List.nil_append]
  · exact .through (q := inQuotes) rfl hname (.through (q := inQuotes) rfl hname
      (.through (q := start) rfl hname (by decide +kernel) (by decide +kernel))
      (by decide +kernel)) (by decide +kernel)
  · exact .through (q := start) rfl hname.capitalize
      (.append (q := start) (by decide +kernel) (by decide +kernel)) (by decide +kernel)

/-! ## Events -/

theorem quotes_event {place : Text} (hid : id.isId = true) (hplace : place.isId = true) :
    Quotes fun t : Fin 4 → Text => event
      { id, title := t 0, description := t 1, start := t 2, stop := t 3, location := place } := by
  have hname := (isWord_of_isId hid).isNameText
  have htitle : "',\n\ttitle: _('".toList = "',\n\ttitle: _(".toList ++ ['\''] := by
    decide +kernel
  have hdescription : "'),\n\tdescription: `".toList = '\'' :: "),\n\tdescription: ".toList ++ ['\x60'] := by
    decide +kernel
  have hstart : "`,\n\ttimeRange: TimeRange.fromString('".toList =
      '\x60' :: ",\n\ttimeRange: TimeRange.fromString(".toList ++ ['\''] := by
    decide +kernel
  have hstop : "', '".toList = '\'' :: ", ".toList ++ ['\''] := by
    decide +kernel
  have hclose : "'),\n\tlocation: '".toList = '\'' :: "),\n\tlocation: '".toList := by
    decide +kernel
  refine .of_fill
    ![⟨"import \x7b Time, TimeRange \x7d from 'time/Time';\n".toList ++
        "import \x7b TEvent \x7d from 'types/TEvent';\n\nexport const ".toList ++ id ++
        "Event: TEvent<'".toList ++ id ++ "'> = \x7b\n\teventId: '".toList ++ id ++
        "',\n\ttitle: _(".toList, '\''⟩,
      ⟨"),\n\tdescription: ".toList, '\x60'⟩,
      ⟨",\n\ttimeRange: TimeRange.fromString(".toList, '\''⟩,
      ⟨", ".toList, '\''⟩]
    ("),\n\tlocation: '".toList ++ place ++
      "',\n\t\n\tchildren: [],\n\t\n\ttriggers: [],\n\t\n\tinit: \x7b\x7d,\n\x7d;\n".toList ++
      "\nexport type T".toList ++ id.capitalize ++ "EventData = \x7b\n\t\n\x7d;\n".toList)
    (fun t => ?_)
    (Fin.cons ⟨?_, .inl rfl⟩ (Fin.cons ⟨?_, .inr rfl⟩ (Fin.cons ⟨?_, .inl rfl⟩
      (Fin.cons ⟨?_, .inl rfl⟩ nofun)))) ?_
  · unfold event
    rw [htitle, hdescription, hstart, hstop, hclose]
    simp only [fill, Matrix.cons_val_zero, Matrix.cons_val_succ, List.append_assoc, List.cons_append,
      List.nil_append]
    rfl
  · exact .through (q := inQuotes) rfl hname (.through (q := inQuotes) rfl hname
      (.through (q := start) rfl hname (.append (q := start) (by decide +kernel) (by decide +kernel))
        (by decide +kernel)) (by decide +kernel)) (by decide +kernel)
  · show Reads start "),\n\tdescription: ".toList start
    decide +kernel
  · show Reads start ",\n\ttimeRange: TimeRange.fromString(".toList start
    decide +kernel
  · show Reads start ", ".toList start
    decide +kernel
  · exact .through (q := start) rfl hname.capitalize (.append (q := start)
      (.through (q := inQuotes) rfl (isWord_of_isId hplace).isNameText (by decide +kernel)
        (by decide +kernel)) (by decide +kernel)) (by decide +kernel)

/-! ## Races -/

theorem quotes_race (hid : id.isId = true) :
    Quotes fun t : Fin 2 → Text => race id (t 0) (t 1) := by
  have hname := (isWord_of_isId hid).isNameText
  have hopen : ": \x7b\n\tname: _('".toList = ": \x7b\n\tname: _(".toList ++ ['\''] := by
    decide +kernel
  have hdescription : "'),\n\tdescription: _('".toList =
      '\'' :: "),\n\tdescription: _(".toList ++ ['\''] := by
    decide +kernel
  have hclose : "'),\n\x7d".toList = '\'' :: "),\n\x7d".toList := by
    decide +kernel
  refine .of_fill
    ![⟨id ++ ": \x7b\n\tname: _(".toList, '\''⟩, ⟨"),\n\tdescription: _(".toList, '\''⟩] "),\n\x7d".toList
    (fun t => ?_) (Fin.cons ⟨?_, .inl rfl⟩ (Fin.cons ⟨?_, .inl rfl⟩ nofun)) (by decide +kernel)
  · unfold race
    rw [hopen, hdescription, hclose]
    simp only [fill, Matrix.cons_val_zero, Matrix.cons_val_succ, List.append_assoc, List.cons_append,
      List.nil_append]
    rfl
  · exact .append (q := start) (.name rfl hname) (by decide +kernel)
  · show Reads start "),\n\tdescription: _(".toList start
    decide +kernel

/-! ## Passages -/

variable {p : PassageRef}

theorem reads_passageHead (hp : p.IsValid) : Reads start (passageHead p) start := by
  have hevent := (isWord_of_isId hp.event).isNameText
  have hcharacter := (isWord_of_isId hp.character).isNameText
  exact .through (q := inQuotes) rfl (isWord_of_isId hp.passage).isNameText
    (.through (q := inQuotes) rfl hcharacter (.through (q := inQuotes) rfl hevent
      (.through (q := inQuotes) rfl hcharacter (.through (q := inQuotes) rfl hevent
        (.through (q := start) rfl hp.isNameText_symbol
          (.append (q := start) (by decide +kernel) (by decide +kernel)) (by decide +kernel))
        (by decide +kernel)) (by decide +kernel)) (by decide +kernel)) (by decide +kernel))
    (by decide +kernel)

/-- The id of a passage stays in a literal. -/
theorem reads_neighbour (hp : p.IsValid) {passage : Text} (hpassage : IsNameText passage) :
    Reads inQuotes (neighbour p passage) inQuotes := by
  have hhyphen : Reads inQuotes ['-'] inQuotes := by decide +kernel
  have hevent := Reads.name (p := inQuotes) rfl (isWord_of_isId hp.event).isNameText
  have hcharacter := Reads.name (p := inQuotes) rfl (isWord_of_isId hp.character).isNameText
  exact (hevent.append (hhyphen.append hcharacter)).append
    (hhyphen.append (.name rfl hpassage))

theorem quotes_screen {link : Option Text} (hp : p.IsValid) (hlink : ∀ l ∈ link, l.isId = true) :
    Quotes fun t : Fin 1 → Text => passage .screen p (some (t 0)) link := by
  have hneighbour : Reads inQuotes (neighbour p (link.getD [])) inQuotes := by
    refine reads_neighbour hp ?_
    cases link with
    | none => nofun
    | some l => exact (isWord_of_isId (hlink l rfl)).isNameText
  have hopen : "\n\ttype: 'screen',\n\ttitle: _('".toList =
      "\n\ttype: 'screen',\n\ttitle: _(".toList ++ ['\''] := by
    decide +kernel
  have hclose : "'),\n\timage: '',\n\n\tbody: [\n\t\t\x7b\n\t\t\tcondition: true,\n".toList =
      '\'' :: "),\n\timage: '',\n\n\tbody: [\n\t\t\x7b\n\t\t\tcondition: true,\n".toList := by
    decide +kernel
  refine .of_fill
    ![⟨passageHead p ++ "\n\ttype: 'screen',\n\ttitle: _(".toList, '\''⟩]
    ("),\n\timage: '',\n\n\tbody: [\n\t\t\x7b\n\t\t\tcondition: true,\n".toList ++
      "\t\t\ttext: _(''),\n\t\t\tlinks: [\n\t\t\t\t\x7b\n\t\t\t\t\ttext: _(''),\n".toList ++
      "\t\t\t\t\tpassageId: '".toList ++ neighbour p (link.getD []) ++
      "',\n\t\t\t\t\tcost: \x7b\n\t\t\t\t\t\ttime: DeltaTime.fromMin(),\n\t\t\t\t\t\x7d,\n".toList ++
      "\t\t\t\t\tautoPriortiy: 1,\n\t\t\t\t\x7d,\n\t\t\t],\n\t\t\x7d,\n\t],\n".toList ++
      "\x7d);\n".toList)
    (fun t => ?_) (Fin.cons ⟨?_, .inl rfl⟩ nofun) ?_
  · unfold passage passageBody
    dsimp only [Option.getD_some]
    rw [hopen, hclose]
    simp only [fill, Matrix.cons_val_zero, List.append_assoc, List.cons_append, List.nil_append]
  · exact .append (q := start) (reads_passageHead hp) (by decide +kernel)
  · refine .append (q := start) (.append (q := start) (.append (q := inQuotes)
      (.append (q := inQuotes) (.append (q := start) (.append (q := start) ?_ ?_) ?_) hneighbour)
      ?_) ?_) ?_
    all_goals decide +kernel

/-- **Every file and entry quotes the texts it is written from.** Of a passage only the file of
a screen has a title; without one it is written as with the empty one. -/
theorem quotes_shown {place : Text} {link : Option Text} (hid : id.isId = true)
    (hplace : place.isId = true) (hp : p.IsValid) (hlink : ∀ l ∈ link, l.isId = true) :
    (Quotes fun t : Fin 1 → Text => character id (t 0)) ∧
    (Quotes fun t : Fin 1 → Text => sideCharacter id (t 0)) ∧
    (Quotes fun t : Fin 1 → Text => location id (t 0)) ∧
    (Quotes fun t : Fin 4 → Text => event
      { id, title := t 0, description := t 1, start := t 2, stop := t 3, location := place }) ∧
    (Quotes fun t : Fin 2 → Text => race id (t 0) (t 1)) ∧
    (Quotes fun t : Fin 1 → Text => passage .screen p (some (t 0)) link) ∧
    passage .screen p none link = passage .screen p (some []) link ∧
    ∀ kind title, kind ≠ .screen → passage kind p title link = passage kind p none link := by
  refine ⟨quotes_character hid, quotes_sideCharacter hid, quotes_location hid,
    quotes_event hid hplace, quotes_race hid, quotes_screen hp hlink, rfl, fun kind title hkind => ?_⟩
  cases kind with
  | screen => exact absurd rfl hkind
  | linear => rfl
  | transition => rfl
  | linearDescriber => rfl

/-- Double quotes and dollar signs are characters like others. -/
theorem quotes_shown_event :
    erased start (event
      { id := "trip".toList, title := "\"Trip\"".toList, description := "costs $".toList,
        start := "1.1 8:0".toList, stop := "$".toList, location := "shore".toList }) =
    erased start (event
      { id := "trip".toList, title := [], description := [], start := [], stop := [],
        location := "shore".toList }) := by
  have h := @quotes_shown "trip".toList ⟨"trip".toList, "ann".toList, "one".toList⟩ "shore".toList none
    (by decide) (by decide) (by decide)
    nofun
  exact h.2.2.2.1.erased_eq ![_, _, _, _] ![_, _, _, _] (areAccepted_iff.2 (by decide))
    (areAccepted_iff.2 (by decide))

end Template

end Fabula
