import Fabula.Project.Settings
import Fabula.Proofs.Toml.Document

/-!
# The fields of a configuration

All fields of a configuration but one hold texts, and what is done to one of them is done to
all: it is looked up under its key, replaced by its default where it is blank, and written
behind its key. So they are one list of keys (`Config.textFields`), and what is said of a
configuration is said of every member of it.

There are three things to say. A configuration that was filled has no blank field, and filling
it again does nothing (`Config.isFilled_filled`, `Config.filled_eq_self`), since no default is
blank. What is written is read back (`Config.read?_render`). And what is read is what the file
gives, completed by the defaults (`Config.takes_filled`).

## Written and read

A configuration is written one pair a line, each with a bare key and a quoted text, or a flag.
Documents of this form are known to be read as the table of their pairs when no key is there
twice (`Config.nodup_lines`). The fields are then taken out of the table by their keys, and what
is found is the text that was written, because quoted texts are read back. So nothing about the
reader of documents is looked at here, and a further field would be one more member of the list.

## What a file gives

A file may be any document, with other keys and tables in it. It gives a text for a key when
there is one that is not blank (`Config.given?`). A configuration takes a file when each of its
fields is the text given for the key, or else the default (`Config.Takes`). That says what is
read without saying how, also for a file which a user has written.
-/

namespace Fabula

/-- **A field that holds a text**: its key, and the text that a configuration has there. -/
structure TextField where
  key : String
  get : Config → Text
  isBareKey : Toml.IsBareKey key.toList := by decide

namespace Config

variable {c : Config} {table : Toml.Table} {t : Text}

/-- **The fields that hold texts**, in the order in which they are written. -/
def textFields : List TextField :=
  [{ key := "data_dir", get := dataDir },
    { key := "register_file", get := registerFile },
    { key := "world_state_file", get := worldStateFile },
    { key := "characters_dir", get := charactersDir },
    { key := "side_characters_dir", get := sideCharactersDir },
    { key := "locations_dir", get := locationsDir },
    { key := "events_dir", get := eventsDir },
    { key := "races_file", get := racesFile }]

/-! ## Blank fields -/

/-- **No field is blank.** -/
def IsFilled (c : Config) : Prop :=
  ∀ f ∈ textFields, (f.get c).isBlankText = false

theorem isFilled_default : IsFilled {} := by
  unfold IsFilled
  decide

theorem get_filled (c : Config) :
    ∀ f ∈ textFields, f.get c.filled = orDefault (f.get c) (f.get {}) := by
  simp [textFields, filled]

@[simp] theorem showDiff_filled (c : Config) : c.filled.showDiff = c.showDiff := rfl

/-- **Blank fields are filled.** -/
theorem isFilled_filled (c : Config) : c.filled.IsFilled := by
  intro f hf
  rw [get_filled c f hf, orDefault]
  split
  · exact isFilled_default f hf
  · rename_i hblank
    exact Bool.eq_false_iff.2 hblank

/-- What is filled is not filled again. -/
theorem filled_eq_self (h : c.IsFilled) : c.filled = c := by
  simp only [IsFilled, textFields, List.forall_mem_cons] at h
  obtain ⟨h₁, h₂, h₃, h₄, h₅, h₆, h₇, h₈, _⟩ := h
  simp [filled, orDefault, h₁, h₂, h₃, h₄, h₅, h₆, h₇, h₈]

/-! ## The text of a configuration -/

/-- **The lines of a configuration.** -/
def lines (c : Config) : List Toml.PairLine :=
  textFields.map (fun f => ⟨f.key.toList, Toml.quote (f.get c), .text (f.get c), f.isBareKey,
    Toml.writes_quote (f.get c)⟩) ++
  [⟨"show_diff".toList, _, .flag c.showDiff, by decide, Toml.writes_flag c.showDiff⟩]

theorem render_eq (c : Config) : c.render = c.lines.flatMap Toml.PairLine.text := by
  simp [render, lines, textFields, textLine, Toml.PairLine.text]

/-- **What makes up a configuration**: what its fields are in a table, or else their defaults. -/
theorem ofTable?_eq_some_iff : ofTable? table = some c ↔
    (∀ f ∈ textFields, text? table f.key (f.get {}) = some (f.get c)) ∧
      flag? table "show_diff" (showDiff {}) = some c.showDiff := by
  unfold ofTable?
  simp only [Option.bind_eq_bind, Option.bind_eq_some_iff, Option.pure_def, Option.some.injEq,
    textFields, List.forall_mem_cons]
  constructor
  · rintro ⟨_, h₁, _, h₂, _, h₃, _, h₄, _, h₅, _, h₆, _, h₇, _, h₈, _, h₉, rfl⟩
    exact ⟨⟨h₁, h₂, h₃, h₄, h₅, h₆, h₇, h₈, by simp⟩, h₉⟩
  · rintro ⟨⟨h₁, h₂, h₃, h₄, h₅, h₆, h₇, h₈, _⟩, h₉⟩
    exact ⟨_, h₁, _, h₂, _, h₃, _, h₄, _, h₅, _, h₆, _, h₇, _, h₈, _, h₉, rfl⟩

theorem nodup_lines (c : Config) : (c.lines.map Toml.PairLine.key).Nodup := by
  have hkeys : c.lines.map Toml.PairLine.key =
      textFields.map (fun f => f.key.toList) ++ ["show_diff".toList] := by
    simp [lines]
  rw [hkeys]
  decide

/-- **What is written is read back.** -/
theorem read?_render (c : Config) : read? c.render = some c := by
  unfold read?
  rw [render_eq, Toml.read?_lines (nodup_lines c), Option.bind_eq_bind, Option.bind_some,
    ofTable?_eq_some_iff]
  simp only [textFields, List.forall_mem_cons]
  exact ⟨⟨rfl, rfl, rfl, rfl, rfl, rfl, rfl, rfl, by simp⟩, rfl⟩

/-! ## What a file gives -/

/-- **What is given for the key of a text**: a text that is not blank. -/
def given? (table : Toml.Table) (key : String) : Option Text :=
  match table.get? key.toList with
  | some (.value (.text t)) => if t.isBlankText then none else some t
  | _ => none

/-- Whether reports are to show differences, if that is given. -/
def givenFlag? (table : Toml.Table) : Option Bool :=
  match table.get? "show_diff".toList with
  | some (.value (.flag b)) => some b
  | _ => none

/-- **A configuration takes what a text gives**: the text is a document, and each field is as it
is given there, or else has its default. -/
def Takes (c : Config) (t : Text) : Prop :=
  ∃ table, Toml.read? t = some table ∧
    (∀ f ∈ textFields, f.get c = (given? table f.key).getD (f.get {})) ∧
    c.showDiff = (givenFlag? table).getD (showDiff {})

theorem orDefault_of_text? {key : String} {default : Text} (h : text? table key default = some t) :
    orDefault t default = (given? table key).getD default := by
  unfold text? at h
  unfold given?
  split at h
  · rename_i hget
    obtain rfl := Option.some.inj h
    rw [hget, orDefault, ite_self]
    rfl
  · rename_i u hget
    obtain rfl := Option.some.inj h
    rw [hget, orDefault]
    dsimp only
    split <;> rfl
  · cases h

theorem eq_of_flag? {b : Bool} (h : flag? table "show_diff" (showDiff {}) = some b) :
    b = (givenFlag? table).getD (showDiff {}) := by
  unfold flag? at h
  unfold givenFlag?
  split at h
  · rename_i hget
    rw [hget, ← Option.some.inj h]
    rfl
  · rename_i u hget
    rw [hget, ← Option.some.inj h]
    rfl
  · cases h

/-- **What is read takes what the text gives.** -/
theorem takes_filled (h : read? t = some c) : c.filled.Takes t := by
  unfold read? at h
  obtain ⟨table, htable, h⟩ := Option.bind_eq_some_iff.1 h
  obtain ⟨hfields, hflag⟩ := ofTable?_eq_some_iff.1 h
  refine ⟨table, htable, fun f hf => ?_, eq_of_flag? hflag⟩
  rw [get_filled c f hf, orDefault_of_text? (hfields f hf)]

end Config

end Fabula
