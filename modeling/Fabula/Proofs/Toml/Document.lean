import Mathlib.Data.List.Nodup
import Mathlib.Data.List.TakeWhile
import Fabula.Proofs.Toml.Quoting
import Fabula.Toml.Document

/-!
# Documents of one pair a line

A document may be written in many ways. The plainest is one pair a line, each with a key that
needs no quotes and a value that is known to be read back where a line ends behind it
(`Toml.PairLine`). Such a document is read as the table of its pairs, in their order, when no
key is there twice (`Toml.read?_lines`).

The reader of documents is a reader of statements, and behind that of keys and values. It takes
any document, so what has to be seen is that nothing else can be read of a line that was
written. A bare key begins with a character of a bare key, so it begins neither a comment nor a
table nor a quoted key (`Toml.IsBareKey.exists_head`), and it ends in front of a blank. A value
begins behind the sign of equality and a blank. There are two kinds of values to be written,
quoted texts and flags, and of each it is known that it is read as what it is, whatever stands
behind the line feed (`Toml.writes_quote`, `Toml.writes_flag`).

A line ends with a line feed, which is what the reader asks for behind a value. So each line is
read as one statement (`Toml.PairLine.readStatement?_text`), and by induction the lines are read
one by one. The statements are then put into a table. A key that is not there yet is put behind
the others, and so the table has the pairs in the order of the lines.
-/

namespace Fabula

namespace Toml

variable {key written rest : Text} {v : Value}

/-! ## What stands on a line -/

/-- **A key that needs no quotes.** -/
def IsBareKey (key : Text) : Prop :=
  key ≠ [] ∧ ∀ c ∈ key, isKeyChar c = true

instance (key : Text) : Decidable (IsBareKey key) :=
  inferInstanceAs (Decidable (key ≠ [] ∧ ∀ c ∈ key, isKeyChar c = true))

/-- **A text that a value is read from**, up to the end of the line. -/
structure Writes (written : Text) (v : Value) : Prop where
  /-- It does not begin with a blank. -/
  head : ∀ rest, dropBlanks (written ++ rest) = written ++ rest
  read : ∀ rest, readValue? maxDepth (written ++ '\n' :: rest) = some (v, '\n' :: rest)

/-- **A pair on a line of its own.** -/
structure PairLine where
  key : Text
  /-- The value as it is written. -/
  written : Text
  value : Value
  isBareKey : IsBareKey key
  writes : Writes written value

namespace PairLine

/-- The line, with the line feed that ends it. -/
def text (l : PairLine) : Text :=
  l.key ++ " = ".toList ++ l.written ++ ['\n']

/-- What the line adds to a table. -/
def node (l : PairLine) : Text × Node :=
  (l.key, .value l.value)

/-- What the line says. -/
def statement (l : PairLine) : Statement :=
  .pair [] l.key l.value

end PairLine

/-! ## Values -/

/-- A quoted text is a value. -/
theorem readValue?_of_readQuoted? {t u : Text} (h : readQuoted? t = some (u, rest)) (depth : ℕ) :
    readValue? depth t = some (.text u, rest) := by
  rw [readValue?.eq_def]
  dsimp only
  split
  · rename_i w
    rw [show readQuoted? ('[' :: w) = none from rfl] at h
    cases h
  · rename_i w
    rw [show readQuoted? ('\x7b' :: w) = none from rfl] at h
    cases h
  · rw [h]

theorem exists_quote (t : Text) : ∃ c u, quote t = c :: u ∧ isBlank c = false := by
  unfold quote
  cases Quotes.of t <;> exact ⟨_, _, rfl, rfl⟩

theorem writes_quote (t : Text) : Writes (quote t) (.text t) where
  head rest := by
    obtain ⟨c, u, hquote, hc⟩ := exists_quote t
    rw [hquote]
    exact List.dropWhile_cons_of_neg (by simp [hc])
  read rest := readValue?_of_readQuoted? (readQuoted?_quote t (by simp) (by simp)) maxDepth

theorem writes_flag (b : Bool) :
    Writes (if b then "true".toList else "false".toList) (.flag b) := by
  cases b with
  | true => exact ⟨fun rest => rfl, fun rest => rfl⟩
  | false => exact ⟨fun rest => rfl, fun rest => rfl⟩

/-! ## One line -/

/-- What begins a key that needs no quotes begins nothing else. -/
theorem IsBareKey.exists_head (h : IsBareKey key) :
    ∃ c u, key = c :: u ∧ c ≠ '[' ∧ c ≠ '#' ∧ c ≠ '"' ∧ c ≠ '\'' ∧ c ≠ '\n' ∧ c ≠ '\r' ∧
      isBlank c = false := by
  obtain ⟨hne, hall⟩ := h
  obtain ⟨c, u, rfl⟩ := List.exists_cons_of_ne_nil hne
  have hc := hall c List.mem_cons_self
  have hother : ∀ d, isKeyChar d = false → c ≠ d := by
    rintro d hd rfl
    rw [hc] at hd
    cases hd
  refine ⟨c, u, rfl, hother _ (by decide), hother _ (by decide), hother _ (by decide),
    hother _ (by decide), hother _ (by decide), hother _ (by decide), ?_⟩
  unfold isBlank
  rw [beq_eq_false_iff_ne.2 (hother ' ' (by decide)),
    beq_eq_false_iff_ne.2 (hother '\t' (by decide))]
  rfl

theorem IsBareKey.dropBlanks_eq (h : IsBareKey key) (rest : Text) :
    dropBlanks (key ++ rest) = key ++ rest := by
  obtain ⟨c, u, rfl, _, _, _, _, _, _, hc⟩ := h.exists_head
  exact List.dropWhile_cons_of_neg (by simp [hc])

theorem readKey?_bare (h : IsBareKey key) (rest : Text) :
    readKey? (key ++ ' ' :: rest) = some (key, ' ' :: rest) := by
  have hline : readLine? (key ++ ' ' :: rest) = none := by
    obtain ⟨c, u, rfl, _, _, hdouble, hsingle, _⟩ := h.exists_head
    unfold readLine?
    split
    · rename_i heq
      exact absurd (List.cons.inj heq).1 hdouble
    · rename_i heq
      exact absurd (List.cons.inj heq).1 hsingle
    · rfl
  have hblank : ¬isKeyChar ' ' = true := by decide
  have htake : (key ++ ' ' :: rest).takeWhile isKeyChar = key := by
    rw [List.takeWhile_append_of_pos h.2, List.takeWhile_cons_of_neg hblank, List.append_nil]
  have hdrop : (key ++ ' ' :: rest).dropWhile isKeyChar = ' ' :: rest := by
    rw [List.dropWhile_append_of_pos h.2, List.dropWhile_cons_of_neg hblank]
  unfold readKey?
  rw [hline, htake, hdrop]
  exact if_neg h.1

theorem readPath?_bare (h : IsBareKey key) (rest : Text) :
    readPath? (key ++ ' ' :: '=' :: rest) = some (([], key), '=' :: rest) := by
  rw [readPath?, h.dropBlanks_eq, readKey?_bare h]
  rfl

namespace PairLine

variable (l : PairLine)

theorem text_append (rest : Text) :
    l.text ++ rest = l.key ++ ' ' :: '=' :: ' ' :: (l.written ++ '\n' :: rest) := by
  unfold text
  simp

/-- **A line is read as what it says.** -/
theorem readStatement?_text (rest : Text) :
    readStatement? (l.text ++ rest) = some (some l.statement, '\n' :: rest) := by
  have hpair : readPair? (readValue? maxDepth) (l.text ++ rest) =
      some ((([], l.key), l.value), '\n' :: rest) := by
    have hvalue : dropBlanks (' ' :: (l.written ++ '\n' :: rest)) = l.written ++ '\n' :: rest :=
      l.writes.head ('\n' :: rest)
    rw [readPair?, text_append, readPath?_bare l.isBareKey]
    simp only [Option.bind_eq_bind, Option.bind_some, Text.after?, if_true, hvalue, l.writes.read]
    rfl
  have hblanks : dropBlanks (l.text ++ rest) = l.text ++ rest := by
    rw [text_append]
    exact l.isBareKey.dropBlanks_eq _
  obtain ⟨c, u, hc, hbracket, hcomment, _, _, hline, hreturn, _⟩ := l.isBareKey.exists_head
  have htext : ∃ w, l.text ++ rest = c :: w := ⟨_, by rw [text_append, hc, List.cons_append]⟩
  obtain ⟨w, hw⟩ := htext
  rw [hw] at hpair hblanks ⊢
  unfold readStatement?
  rw [hblanks]
  split
  · rename_i heq
    cases heq
  · rename_i heq
    exact absurd (List.cons.inj heq).1 hbracket
  · rename_i heq
    exact absurd (List.cons.inj heq).1 hbracket
  · rename_i heq
    obtain ⟨rfl, rfl⟩ := List.cons.inj heq
    rw [if_neg (by simp [hcomment, isLineEnd, hline, hreturn]), hpair]
    rfl

end PairLine

/-! ## All lines -/

/-- **The lines are read one by one.** -/
theorem readStatements?_lines (lines : List PairLine) :
    readStatements? (lines.flatMap PairLine.text) = some (lines.map PairLine.statement) := by
  induction lines with
  | nil =>
    rw [List.flatMap_nil, readStatements?]
    rfl
  | cons l lines ih =>
    have hne : l.text ++ lines.flatMap PairLine.text ≠ [] := by
      rw [PairLine.text_append]
      simp
    have hlength : (lines.flatMap PairLine.text).length <
        (l.text ++ lines.flatMap PairLine.text).length := by
      rw [PairLine.text_append]
      simp
      omega
    rw [List.flatMap_cons, readStatements?, if_neg hne, l.readStatement?_text]
    dsimp only
    rw [afterLine?, if_pos rfl]
    dsimp only
    rw [if_pos hlength, ih]
    rfl

/-- A pair with a new key is put behind the others. -/
theorem Table.insert?_of_not_mem {table : Table} (h : key ∉ table.map Prod.fst) (v : Value) :
    table.insert? key v [] = some (table ++ [(key, .value v)]) := by
  induction table with
  | nil => rfl
  | cons entry table ih =>
    rw [List.map_cons, List.mem_cons, not_or] at h
    have hrest := ih h.2
    rw [insert?] at hrest ⊢
    rw [alter?, if_neg (Ne.symm h.1), hrest]
    rfl

/-- **Pairs of different keys make up a table** in their order. -/
theorem foldlM_add? (lines : List PairLine) (table : Table)
    (h : (table.map Prod.fst ++ lines.map PairLine.key).Nodup) :
    (lines.map PairLine.statement).foldlM Draft.add? ⟨table, []⟩ =
      some ⟨table ++ lines.map PairLine.node, []⟩ := by
  induction lines generalizing table with
  | nil => simp
  | cons l lines ih =>
    have hnew : l.key ∉ table.map Prod.fst := by
      intro hmem
      rw [List.nodup_append] at h
      exact h.2.2 _ hmem _ (by simp) rfl
    have hadd : Draft.add? ⟨table, []⟩ l.statement = some ⟨table ++ [l.node], []⟩ := by
      rw [PairLine.statement, Draft.add?]
      rw [Table.within?, Table.insert?_of_not_mem hnew]
      rfl
    rw [List.map_cons, List.foldlM_cons, hadd]
    have hrest := ih (table ++ [l.node]) (by simpa [PairLine.node] using h)
    rw [List.append_assoc] at hrest
    exact hrest

/-- **A document of one pair a line** is read as the table of its pairs. -/
theorem read?_lines {lines : List PairLine} (h : (lines.map PairLine.key).Nodup) :
    read? (lines.flatMap PairLine.text) = some (lines.map PairLine.node) := by
  have hmark : Text.after? ['\ufeff'] (lines.flatMap PairLine.text) = none := by
    cases lines with
    | nil => rfl
    | cons l lines =>
      obtain ⟨c, u, hc, _⟩ := l.isBareKey.exists_head
      have hmark : c ≠ '\ufeff' := by
        rintro rfl
        exact absurd (l.isBareKey.2 '\ufeff' (hc ▸ List.mem_cons_self)) (by decide)
      rw [List.flatMap_cons, PairLine.text_append, hc, List.cons_append, Text.after?,
        if_neg (Ne.symm hmark)]
  unfold read?
  rw [hmark, Option.getD_none, readStatements?_lines]
  have hfold := foldlM_add? lines [] (by simpa using h)
  rw [List.nil_append] at hfold
  rw [Option.bind_eq_bind, Option.bind_some, hfold]
  rfl

end Toml

end Fabula
