import Fabula.Proofs.Registry.Passages

/-!
# What is read off a passage map

A passage map says three times which passages it lists. Each of the three can be read off its
text by itself: the variants of its union (`UnionDeclaration.variants`), the keys of its record
(`recordKeys`) and the modules imported at its top (`relativeImports`). The functions that do it
know nothing of passages. They read any text, line by line, as someone would who has never seen
the templates.

Of the text of a list of passages all three give that list (`PassageMap.variants_text`,
`PassageMap.recordKeys_text`, `PassageMap.relativeImports_text`). This is how it is stated that
the three stay together: not by comparing pieces of text with each other, but by reading each of
them and getting the same passages.

## Imports

They are the lines on top, down to the first line that does not read as an import. An import
that was written is read back, since its symbol has no blank or brace and its module no quote
(`importOf?_bareImport`). What ends them is an empty line or an indented one. Every
passage map also imports two types, from a module outside of the event's folder, so only the
modules that lie beside the map are passages.

## Keys and variants

The record has an entry on each line, and what a line assigns to stands in front of its first
colon. A literal has no colon, so the keys are the literals of the passages, in their order. The
variants of the union are read by the same parser that edits use, and are the literals for the
reason that none of them has a bar or a quote inside.
-/

namespace Fabula

open scoped Engine.Tireless

open Removal Registry Fabula.Union

/-! ## Reading a text -/

/-- **The symbol and the module of an import line.** -/
def importOf? (line : Text) : Option (Text × Text) := do
  let rest ← Text.after? "import \x7b ".toList line
  let (symbol, rest) ← Text.cut? " \x7d from '".toList rest
  let module ← Text.before? importEnd rest
  pure (symbol, module)

/-- The imports at the top of a text, down to the first line that is none. -/
def topImports (t : Text) : List (Text × Text) :=
  ((Text.split '\n' t).takeWhile fun line => (importOf? line).isSome).filterMap importOf?

/-- **The imports at the top of a text of which the module lies beside it.** -/
def relativeImports (t : Text) : List (Text × Text) :=
  (topImports t).filter fun i => i.2.startsWith "./".toList

/-- What a line assigns to: what stands in front of its first colon. -/
def keyOf? (line : Text) : Option Text :=
  (Text.cut? [':'] line).map fun x => x.1.trim

/-- **The keys of a record** whose entries stand on lines of their own. -/
def recordKeys (body : Text) : List Text :=
  (Text.split '\n' body).filterMap keyOf?

/-! ## Imports -/

/-- **An import line is read back.** -/
theorem importOf?_bareImport {symbol module : Text} (h : IsImportable symbol module) :
    importOf? (bareImport symbol module) = some (symbol, module) := by
  have hlead : bareImport symbol module = "import \x7b ".toList ++
      (symbol ++ (' ' :: "\x7d from '".toList ++ (module ++ importEnd))) := by
    have hopen : "import \x7b ".toList = importLead ++ ['{', ' '] := by
      decide
    have hclose : "\x7d from '".toList = '}' :: importFrom := by
      decide
    unfold bareImport
    rw [hopen, hclose]
    simp
  have hcut : Text.cut? " \x7d from '".toList
      (symbol ++ (' ' :: "\x7d from '".toList ++ (module ++ importEnd))) =
        some (symbol, module ++ importEnd) :=
    Text.cut?_eq_of_not_mem (h.not_mem (by decide)) _
  unfold importOf?
  rw [hlead, Text.after?_append]
  show (Text.cut? " \x7d from '".toList _).bind _ = _
  rw [hcut]
  show (Text.before? importEnd (module ++ importEnd)).bind _ = _
  rw [Text.before?_append]
  rfl

theorem topImports_append {symbol module t : Text} (h : IsImportable symbol module) :
    topImports (importLine symbol module ++ t) = (symbol, module) :: topImports t := by
  have hline := importOf?_bareImport h
  unfold topImports
  rw [importLine_eq, List.append_assoc, List.singleton_append, Text.split_append_cons,
    Text.split_of_not_mem h.one_line, List.singleton_append,
    List.takeWhile_cons_of_pos (by rw [hline]; rfl), List.filterMap_cons_some hline]

/-- An empty line ends the imports. -/
theorem topImports_newline (t : Text) : topImports ('\n' :: t) = [] := by
  unfold topImports
  rw [Text.split_cons_self]
  rfl

/-- **An indented line ends the imports**, so nothing is read on top but what stands in front
of it. -/
theorem topImports_tab (head rest : Text) :
    topImports (head ++ '\n' :: '\t' :: rest) = topImports head := by
  obtain ⟨line, lines, hlines, hline⟩ : ∃ line lines,
      Text.split '\n' ('\t' :: rest) = line :: lines ∧ importOf? line = none := by
    obtain ⟨line, lines, hrest⟩ := List.exists_cons_of_ne_nil (Text.split_ne_nil '\n' rest)
    exact ⟨'\t' :: line, lines, Text.split_cons_of_ne (by decide) hrest, rfl⟩
  unfold topImports
  rw [Text.split_append_cons, hlines, List.takeWhile_append]
  split_ifs with hall
  · rw [List.takeWhile_cons_of_neg (by simp [hline]), List.append_nil,
      (List.takeWhile_prefix _).eq_of_length hall]
  · rfl

/-- **The imports of a text are read back** from its top. -/
theorem topImports_importLines {is : List (Text × Text)} {t : Text}
    (h : ∀ i ∈ is, IsImportable i.1 i.2) :
    topImports (importLines is ++ t) = is ++ topImports t := by
  induction is with
  | nil => rfl
  | cons i is ih =>
    have hrest := ih fun j hj => h j (List.mem_cons_of_mem _ hj)
    rw [List.cons_append, ← hrest, ← topImports_append (h i List.mem_cons_self)]
    unfold importLines
    rw [List.flatMap_cons, List.append_assoc]

/-! ## Keys -/

/-- **The keys of entries on lines of their own**, below a first line. -/
theorem recordKeys_lines {entries keys : List Text} {first : Text} (hfirst : '\n' ∉ first)
    (h : List.Forall₂ (fun e k => '\n' ∉ e ∧ keyOf? ('\t' :: (e ++ [','])) = some k) entries keys) :
    recordKeys (first ++ (recordStyle.lines entries ++ ['\n'])) = (keyOf? first).toList ++ keys := by
  have hkeys : ∀ {line t : Text}, '\n' ∉ line →
      recordKeys (line ++ '\n' :: t) = (keyOf? line).toList ++ recordKeys t := by
    intro line t hline
    unfold recordKeys
    rw [Text.split_append_cons, Text.split_of_not_mem hline, List.singleton_append,
      List.filterMap_cons]
    cases keyOf? line <;> rfl
  induction h generalizing first with
  | nil =>
    show recordKeys (first ++ '\n' :: []) = _
    rw [hkeys hfirst]
    rfl
  | cons he _ ih =>
    rename_i e k entries keys _
    obtain ⟨hline, hkey⟩ := he
    have hnext : '\n' ∉ '\t' :: (e ++ [',']) := by
      simp [hline]
    have hgroup : recordStyle.lines (e :: entries) ++ ['\n'] =
        '\n' :: ('\t' :: (e ++ [',']) ++ (recordStyle.lines entries ++ ['\n'])) := by
      rw [EntryStyle.lines_cons]
      show '\n' :: (['\t'] ++ (e ++ ',' :: recordStyle.lines entries) ++ ['\n']) = _
      simp
    rw [hgroup, hkeys hfirst, ih hnext, hkey]
    rfl

namespace PassageMap

variable {event : Text} {present : PassageMap}

/-- **The variants of the union** are the literals of the passages. -/
theorem variants_text (h : IsListing event present) : ∃ u,
    UnionDeclaration.find (Template.passageIdType event) (text event present) = .ok u ∧
      u.variants = present.literals := by
  unfold text
  rw [sheet_eq_source]
  refine ⟨_, UnionDeclaration.find_rightSide h.isTypeless h.isLiteral,
    ?_⟩
  unfold UnionDeclaration.variants
  rw [UnionDeclaration.normalized_rightSide rfl h.isLiteral]
  by_cases hnone : present.literals = []
  · rw [hnone]
    decide
  · rw [alternatives_join h.isLiteral hnone, map_trim_pieces h.isLiteral (by simp) (by simp),
      List.filter_eq_self]
    intro l hl
    exact decide_eq_true (h.isLiteral l hl).ne_nil

/-- **The line of an entry** has the passage's literal as its key. -/
theorem keyOf?_entry {p : PassageRef} (h : p.IsValid) :
    '\n' ∉ p.entry ∧ keyOf? ('\t' :: (p.entry ++ [','])) = some p.literal := by
  have hliteral := h.isLiteral
  have hline : '\n' ∉ p.literal ++ ':' :: (' ' :: p.symbol) := by
    rw [List.mem_append, not_or, List.mem_cons, not_or]
    exact ⟨hliteral.not_mem (by decide) (by decide), by decide, (isPlainValue_symbol h).one_line⟩
  have hcolon : ':' ∉ '\t' :: p.literal := by
    rw [List.mem_cons, not_or]
    exact ⟨by decide, hliteral.not_mem (by decide) (by decide)⟩
  have hentry : '\t' :: (p.entry ++ [',']) =
      ('\t' :: p.literal) ++ ([':'] ++ (' ' :: p.symbol ++ [','])) := by
    rw [entry_eq]
    simp
  have htrim : Text.trim ('\t' :: p.literal) = p.literal := hliteral.trim
  refine ⟨entry_eq p ▸ hline, ?_⟩
  unfold keyOf?
  rw [hentry, Text.cut?_eq_of_not_mem hcolon, Option.map_some, htrim]

/-- **The keys of the record** are the literals of the passages. -/
theorem recordKeys_text (h : IsListing event present) : ∃ c,
    Container.locate .binding (Template.passageContainer event) (text event present) = .ok c ∧
      recordKeys c.body = present.literals := by
  have hfront : IsFront .binding (Template.passageRecord event ++ ':' :: recordType event) _ :=
    isFront_record (not_mem_passageRecord h.isId) (h.not_mem_front h.isLiteral)
  have hlines : List.Forall₂ (fun e k => '\n' ∉ e ∧ keyOf? ('\t' :: (e ++ [','])) = some k)
      present.entries present.literals := by
    show List.Forall₂ _ (present.map fun x => x.1.entry) (present.map fun x => x.1.literal)
    rw [List.forall₂_map_left_iff, List.forall₂_map_right_iff, List.forall₂_same]
    exact fun x hx => keyOf?_entry (h.valid x hx).1
  unfold text
  rw [sheet_eq_record, recordFile_eq, passageContainer_eq]
  exact ⟨_, locate_lined hfront fun e he => (h.isListed e he).balanced,
    recordKeys_lines (show '\n' ∉ [] from List.not_mem_nil) hlines⟩

/-- What every passage map imports, below its passages. -/
def fixedImports : List (Text × Text) :=
  [("Engine".toList, "code/Engine/ts/Engine".toList),
    ("TWorldState".toList, "data/TWorldState".toList),
    ("TEventPassage".toList, "types/TPassage".toList)]

theorem head_eq_importLines : head = importLines fixedImports ++ '\n' :: "export".toList := by
  decide +kernel

theorem isImportable_fixedImports : ∀ i ∈ fixedImports, IsImportable i.1 i.2 := by
  simp only [fixedImports, List.forall_mem_cons, List.not_mem_nil, false_implies, implies_true,
    and_true]
  exact ⟨by constructor <;> decide, by constructor <;> decide, by constructor <;> decide⟩

/-- **What a passage map imports**: its passages, the newest first, and what every map does. -/
theorem topImports_text (h : IsListing event present) :
    topImports (text event present) = present.imports ++ fixedImports := by
  have htext : ∃ t, text event present =
      importLines present.imports ++ (importLines fixedImports ++ '\n' :: t) := by
    unfold text sheet
    rw [head_eq_importLines]
    simp only [List.append_assoc, List.cons_append]
    exact ⟨_, rfl⟩
  obtain ⟨t, htext⟩ := htext
  rw [htext, topImports_importLines h.isImportable, topImports_importLines isImportable_fixedImports,
    topImports_newline, List.append_nil]

/-- **The imports from beside the map** are those of the passages, the newest first. -/
theorem relativeImports_text (h : IsListing event present) :
    relativeImports (text event present) = present.imports := by
  have hfixed : (fixedImports.filter fun i => i.2.startsWith "./".toList) = [] := by
    decide
  unfold relativeImports
  rw [topImports_text h, List.filter_append, hfixed, List.append_nil, List.filter_eq_self]
  intro i hi
  obtain ⟨x, _, rfl⟩ := List.mem_map.1 hi
  rfl

end PassageMap

end Fabula
