import Mathlib.Data.List.Infix
import Fabula.Toml.Quoted
import Fabula.Toml.Quoting

/-!
# Quoted texts are read back

A text is quoted in one of four ways, between single or double quotes, on one line or in a
block. Which of them is chosen depends on the text, as a text between single quotes has no
escapes and must not need any. In whatever way a text is quoted, what is read is the text
(`Toml.readQuoted?_quote`).

## On one line

This is an induction on the text. Each character is written so that it is read as itself, a
control character by its number (`Toml.readBasic_escape`). Between double quotes a quote is
escaped, and between single quotes there is none. So the first quote that is read as a quote is
the closing one.

## In a block

In a block a quote may stand for itself, also directly in front of the closing three. What
closes the block is the quote that has exactly two behind it. A text in a block has no more than
two in a row, by choice or by escapes, so behind a quote of the text stand none, one, three or
four (`Toml.headRun_behind`): never two, which would end the block too early, and never five,
which are refused. The induction carries along how many quotes have been written in a row.

A line end that follows the opening quotes is not part of the text. So a block with lines is
written with one more, and a text that begins with a line end keeps its own
(`Toml.dropFirstLineEnd_front`).

## Which way it is

The reader sees quotes and decides by their number. A text on one line that is empty begins with
two of them, and a third must not follow, which is asked of what stands behind
(`Toml.readQuoted?_double`).
-/

namespace Fabula

namespace Toml

variable {block : Bool} {c q : Char} {t u rest : Text}

/-! ## Runs of a quote -/

/-- **How often a character stands at the head of a text**, one after the other. -/
def headRun (q : Char) : Text → ℕ
  | [] => 0
  | c :: t => if c = q then headRun q t + 1 else 0

@[simp] theorem headRun_nil (q : Char) : headRun q [] = 0 := rfl

@[simp] theorem headRun_cons_self (q : Char) (t : Text) : headRun q (q :: t) = headRun q t + 1 :=
  if_pos rfl

theorem headRun_cons_of_ne (h : c ≠ q) (t : Text) : headRun q (c :: t) = 0 :=
  if_neg h

theorem headRun_of_head? (h : t.head? ≠ some q) : headRun q t = 0 := by
  cases t with
  | nil => rfl
  | cons c t => exact headRun_cons_of_ne (fun hc => h (congrArg some hc)) t

theorem startsWith_replicate_iff {n : ℕ} :
    Text.startsWith t (List.replicate n q) = true ↔ n ≤ headRun q t := by
  unfold Text.startsWith
  induction n generalizing t with
  | zero => simp [Text.after?]
  | succ n ih =>
    rw [List.replicate_succ]
    cases t with
    | nil => simp [Text.after?]
    | cons c t =>
      by_cases hc : q = c
      · subst hc
        rw [Text.after?, if_pos rfl, ih, headRun_cons_self]
        omega
      · rw [Text.after?, if_neg hc, headRun_cons_of_ne (Ne.symm hc)]
        simp

/-- A quote closes a block when two follow it, and no more. -/
theorem closesBlock_iff : closesBlock q t = true ↔ headRun q t = 2 := by
  have htwo : Text.startsWith t [q, q] = true ↔ 2 ≤ headRun q t :=
    startsWith_replicate_iff (n := 2)
  have hthree : Text.startsWith t [q, q, q] = true ↔ 3 ≤ headRun q t :=
    startsWith_replicate_iff (n := 3)
  unfold closesBlock
  rw [Bool.and_eq_true, Bool.not_eq_true', ← Bool.not_eq_true, htwo, hthree]
  omega

/-- **Behind a quote of a text in a block** stand neither two quotes nor five: what is left of
the text begins with one at most, and when that is all of it, the closing three follow. -/
theorem headRun_behind (hu : headRun q u ≤ 1) (hrest : rest.head? ≠ some q) :
    headRun q (u ++ q :: q :: q :: rest) ≠ 2 ∧ headRun q (u ++ q :: q :: q :: rest) < 5 := by
  have hclose : ∀ v, headRun q v = 0 → headRun q (v ++ q :: q :: q :: rest) = 0 ∨
      headRun q (v ++ q :: q :: q :: rest) = 3 := by
    intro v hv
    cases v with
    | nil => simp [headRun_of_head? hrest]
    | cons c v =>
      have hc : c ≠ q := by
        rintro rfl
        simp at hv
      exact .inl (headRun_cons_of_ne hc _)
  cases u with
  | nil => rcases hclose [] rfl with h | h <;> omega
  | cons c u =>
    by_cases hc : c = q
    · subst hc
      rw [headRun_cons_self] at hu
      rw [List.cons_append, headRun_cons_self]
      rcases hclose u (by omega) with h | h <;> omega
    · rcases hclose (c :: u) (headRun_cons_of_ne hc u) with h | h <;> omega

theorem le_longestRun_go (q : Char) (longest run : ℕ) (t : Text) :
    longest ≤ longestRun.go q longest run t := by
  induction t generalizing longest run with
  | nil => exact le_rfl
  | cons c t ih =>
    rw [longestRun.go]
    split
    · exact (le_max_left _ _).trans (ih _ _)
    · exact ih _ _

theorem headRun_add_le_go {longest run : ℕ} (h : run ≤ longest) (t : Text) :
    headRun q t + run ≤ longestRun.go q longest run t := by
  induction t generalizing longest run with
  | nil => rwa [headRun_nil, Nat.zero_add]
  | cons c t ih =>
    rw [longestRun.go]
    split
    · rename_i hc
      have hstep := ih (le_max_right longest (run + 1))
      rw [hc, headRun_cons_self]
      omega
    · rename_i hc
      rw [headRun_cons_of_ne hc, Nat.zero_add]
      exact h.trans (le_longestRun_go q longest 0 t)

/-- **No run is longer than the longest.** -/
theorem headRun_le_longestRun (h : u <:+ t) : headRun q u ≤ longestRun q t := by
  have hgo : ∀ longest run, run ≤ longest → headRun q u ≤ longestRun.go q longest run t := by
    induction t with
    | nil =>
      intro longest run _
      rw [List.suffix_nil.1 h]
      exact Nat.zero_le _
    | cons c t ih =>
      intro longest run hrun
      rcases List.suffix_cons_iff.1 h with rfl | hsuffix
      · exact (Nat.le_add_right _ run).trans (headRun_add_le_go hrun _)
      · rw [longestRun.go]
        split
        · exact ih hsuffix _ _ (le_max_right _ _)
        · exact ih hsuffix _ _ (Nat.zero_le _)
  exact hgo 0 0 le_rfl

theorem not_mem_of_longestRun (h : longestRun q t = 0) : q ∉ t := by
  intro hmem
  obtain ⟨before, behind, rfl⟩ := List.append_of_mem hmem
  have hle := headRun_le_longestRun (q := q) (List.suffix_append before (q :: behind))
  rw [headRun_cons_self, h] at hle
  omega

/-! ## Between single quotes -/

theorem isPlain_of_not_isControl (hc : isControl c = false) (hline : c ≠ '\n') :
    isPlain c = true := by
  unfold isControl at hc
  unfold isPlain
  by_cases htab : c = '\t'
  · simp [htab]
  · simp [htab, hline] at hc ⊢
    omega

theorem readLiteral_of_ne (hq : c ≠ '\'') (hc : isControl c = false)
    (hline : block = true ∨ c ≠ '\n') (t : Text) :
    readLiteral block (c :: t) = following c (readLiteral block t) := by
  rw [readLiteral, if_neg hq]
  by_cases h : c = '\n'
  · rw [hline.resolve_right (not_not_intro h), h]
    rfl
  · rw [isPlain_of_not_isControl hc h]
    rfl

/-- A quote in a block stands for itself. -/
theorem readLiteral_quote (htwo : headRun '\'' t ≠ 2) (hfive : headRun '\'' t < 5) :
    readLiteral true ('\'' :: t) = following '\'' (readLiteral true t) := by
  have hmany : ¬Text.startsWith t "'''''".toList = true :=
    mt (startsWith_replicate_iff (q := '\'') (n := 5)).1 (Nat.not_le.2 hfive)
  rw [readLiteral, if_pos rfl, if_neg (by simp), if_neg hmany, if_neg (mt closesBlock_iff.1 htwo)]

theorem readLiteral_close (hrest : rest.head? ≠ some '\'') :
    readLiteral true ('\'' :: '\'' :: '\'' :: rest) = some ([], rest) := by
  have htwo : headRun '\'' ('\'' :: '\'' :: rest) = 2 := by
    rw [headRun_cons_self, headRun_cons_self, headRun_of_head? hrest]
  have hmany : ¬Text.startsWith ('\'' :: '\'' :: rest) "'''''".toList = true :=
    mt (startsWith_replicate_iff (q := '\'') (n := 5)).1 (by omega)
  rw [readLiteral, if_pos rfl, if_neg (by simp), if_neg hmany, if_pos (closesBlock_iff.2 htwo)]
  rfl

theorem readLiteral_line (hq : '\'' ∉ t) (hc : ∀ c ∈ t, isControl c = false) (hline : '\n' ∉ t)
    (rest : Text) : readLiteral false (t ++ '\'' :: rest) = some (t, rest) := by
  induction t with
  | nil => rfl
  | cons c t ih =>
    rw [List.mem_cons, not_or] at hq hline
    obtain ⟨hcontrol, ht⟩ := List.forall_mem_cons.1 hc
    rw [List.cons_append, readLiteral_of_ne (Ne.symm hq.1) hcontrol (.inr (Ne.symm hline.1)),
      ih hq.2 ht hline.2]
    rfl

theorem readLiteral_block (hrun : ∀ u, u <:+ t → headRun '\'' u ≤ 2)
    (hc : ∀ c ∈ t, isControl c = false) (hrest : rest.head? ≠ some '\'') :
    readLiteral true (t ++ '\'' :: '\'' :: '\'' :: rest) = some (t, rest) := by
  induction t with
  | nil => exact readLiteral_close hrest
  | cons c t ih =>
    obtain ⟨hcontrol, ht⟩ := List.forall_mem_cons.1 hc
    have hread := ih (fun u hu => hrun u (hu.trans (List.suffix_cons c t))) ht
    rw [List.cons_append]
    by_cases hq : c = '\''
    · subst hq
      have hhead := hrun _ List.suffix_rfl
      rw [headRun_cons_self] at hhead
      obtain ⟨htwo, hfive⟩ := headRun_behind (Nat.le_of_succ_le_succ hhead) hrest
      rw [readLiteral_quote htwo hfive, hread]
      rfl
    · rw [readLiteral_of_ne hq hcontrol (.inl rfl), hread]
      rfl

/-! ## Between double quotes -/

/-- **A character other than the quote, as it is written** between double quotes. -/
def escape (block : Bool) (c : Char) : Text :=
  match c with
  | '\x08' => "\\b".toList
  | '\t' => "\\t".toList
  | '\n' => if block then ['\n'] else "\\n".toList
  | '\x0c' => "\\f".toList
  | '\r' => "\\r".toList
  | '\\' => "\\\\".toList
  | c => if isControl c then numericEscape c else [c]

theorem escapeAll_of_ne (h : c ≠ '"') (run : ℕ) (t : Text) :
    escapeAll block run (c :: t) = escape block c ++ escapeAll block 0 t := by
  conv_lhs => unfold escapeAll
  rw [if_neg h]
  rfl

theorem escapeAll_quote_of_le {run : ℕ} (h : (if block then 2 else 0) ≤ run) (t : Text) :
    escapeAll block run ('"' :: t) = '\\' :: '"' :: escapeAll block 0 t := by
  conv_lhs => unfold escapeAll
  rw [if_pos rfl, if_pos h]
  rfl

theorem escapeAll_quote_of_lt {run : ℕ} (h : run < 2) (t : Text) :
    escapeAll true run ('"' :: t) = '"' :: escapeAll true (run + 1) t := by
  have hle : ¬(if true = true then 2 else 0) ≤ run := Nat.not_le.2 h
  conv_lhs => unfold escapeAll
  rw [if_pos rfl, if_neg hle]

/-- The digits that a control character is written with. -/
theorem numericEscape_eq : ∀ n < 128, numericEscape (Char.ofNat n) =
    ['\\', 'u', '0', '0', (Nat.digitChar (n / 16)).toUpper, (Nat.digitChar (n % 16)).toUpper] := by
  decide +kernel

theorem hexDigit?_digitChar : ∀ n < 16, hexDigit? (Nat.digitChar n).toUpper = some n := by
  decide

/-- A digit with further ones behind it. -/
theorem readBasic_digit {count value n : ℕ} (hn : n < 16) (hcount : 1 < count) (t : Text) :
    readBasic block (.digits count value) ((Nat.digitChar n).toUpper :: t) =
      readBasic block (.digits (count - 1) (value * 16 + n)) t := by
  simp only [readBasic, hexDigit?_digitChar n hn, if_pos hcount]

/-- The last digit of the number of a character. -/
theorem readBasic_lastDigit {value n : ℕ} (hn : n < 16) (hc : char? (value * 16 + n) = some c)
    (t : Text) : readBasic block (.digits 1 value) ((Nat.digitChar n).toUpper :: t) =
      following c (readBasic block .nothing t) := by
  simp only [readBasic, hexDigit?_digitChar n hn, if_neg (Nat.lt_irrefl 1), hc]

theorem readBasic_numericEscape (hc : isControl c = true) (t : Text) :
    readBasic block .nothing (numericEscape c ++ t) = following c (readBasic block .nothing t) := by
  have hlt : c.toNat < 128 := by
    unfold isControl at hc
    simp at hc
    omega
  have hwritten := numericEscape_eq c.toNat hlt
  rw [Char.ofNat_toNat] at hwritten
  have hvalue : (0 * 16 + c.toNat / 16) * 16 + c.toNat % 16 = c.toNat := by omega
  have hchar : char? ((0 * 16 + c.toNat / 16) * 16 + c.toNat % 16) = some c := by
    rw [hvalue, char?, if_pos (show c.toNat.isValidChar from c.valid), Char.ofNat_toNat]
  have hstart : ∀ u, readBasic block .nothing ('\\' :: 'u' :: '0' :: '0' :: u) =
      readBasic block (.digits 2 0) u := by
    intro u
    cases block <;> rfl
  rw [hwritten]
  show readBasic block .nothing ('\\' :: 'u' :: '0' :: '0' :: _ :: _ :: t) = _
  rw [hstart, readBasic_digit (by omega) (by decide)]
  exact readBasic_lastDigit (by omega) hchar t

/-- **What a character is written as is read as the character.** -/
theorem readBasic_escape (hq : c ≠ '"') (t : Text) :
    readBasic block .nothing (escape block c ++ t) = following c (readBasic block .nothing t) := by
  unfold escape
  split
  case h_7 hline _ _ hbackslash =>
    cases hc : isControl c with
    | true => exact readBasic_numericEscape hc t
    | false =>
      rw [if_neg (by simp), List.singleton_append, readBasic.eq_def]
      simp only [reduceCtorEq, decide_false, Bool.false_and, Bool.false_eq_true, if_false,
        if_neg hbackslash, if_neg hq, isPlain_of_not_isControl hc hline, Bool.true_or, if_true]
  all_goals cases block <;> rfl

/-- A quote with a backslash before it stands for itself. -/
theorem readBasic_escaped (t : Text) : readBasic block .nothing ('\\' :: '"' :: t) =
    following '"' (readBasic block .nothing t) := by
  cases block <;> rfl

theorem readBasic_line (t rest : Text) (run : ℕ) :
    readBasic false .nothing (escapeAll false run t ++ '"' :: rest) = some (t, rest) := by
  induction t generalizing run with
  | nil => rfl
  | cons c t ih =>
    by_cases hq : c = '"'
    · subst hq
      rw [escapeAll_quote_of_le (Nat.zero_le run), List.cons_append, List.cons_append,
        readBasic_escaped, ih]
      rfl
    · rw [escapeAll_of_ne hq, List.append_assoc, readBasic_escape hq, ih]
      rfl

/-- A quote in a block stands for itself. -/
theorem readBasic_quote (htwo : headRun '"' t ≠ 2) (hfive : headRun '"' t < 5) :
    readBasic true .nothing ('"' :: t) = following '"' (readBasic true .nothing t) := by
  have hmany : ¬Text.startsWith t "\"\"\"\"\"".toList = true :=
    mt (startsWith_replicate_iff (q := '"') (n := 5)).1 (Nat.not_le.2 hfive)
  have hclose := Bool.eq_false_iff.2 (mt closesBlock_iff.1 htwo)
  rw [readBasic.eq_def]
  simp only [reduceCtorEq, decide_false, Bool.false_and, Bool.false_eq_true, if_false,
    if_neg hmany, hclose]
  rfl

theorem readBasic_close (hrest : rest.head? ≠ some '"') :
    readBasic true .nothing ('"' :: '"' :: '"' :: rest) = some ([], rest) := by
  have htwo : headRun '"' ('"' :: '"' :: rest) = 2 := by
    rw [headRun_cons_self, headRun_cons_self, headRun_of_head? hrest]
  have hmany : ¬Text.startsWith ('"' :: '"' :: rest) "\"\"\"\"\"".toList = true :=
    mt (startsWith_replicate_iff (q := '"') (n := 5)).1 (by omega)
  rw [readBasic.eq_def]
  simp only [reduceCtorEq, decide_false, Bool.false_and, Bool.false_eq_true, if_false,
    if_neg hmany, closesBlock_iff.2 htwo]
  rfl

/-- What a character is written as begins with no quote, and with a line end only where the
character is one. -/
theorem exists_escape (block : Bool) (hq : c ≠ '"') :
    ∃ d v, escape block c = d :: v ∧ d ≠ '"' ∧ d ≠ '\r' ∧ (c ≠ '\n' → d ≠ '\n') := by
  unfold escape
  split
  case h_3 =>
    cases block with
    | true => exact ⟨'\n', [], rfl, by decide, by decide, fun h => absurd rfl h⟩
    | false => exact ⟨'\\', ['n'], rfl, by decide, by decide, fun _ => by decide⟩
  case h_7 hreturn _ =>
    split
    · exact ⟨'\\', _, rfl, by decide, by decide, fun _ => by decide⟩
    · exact ⟨c, [], rfl, hq, hreturn, id⟩
  all_goals exact ⟨'\\', _, rfl, by decide, by decide, fun _ => by decide⟩

/-- **No more than two quotes in a row** are written as they are. -/
theorem headRun_escapeAll {run : ℕ} (h : run ≤ 2) (t : Text) :
    headRun '"' (escapeAll true run t) + run ≤ 2 := by
  induction t generalizing run with
  | nil => simpa [escapeAll] using h
  | cons c t ih =>
    by_cases hq : c = '"'
    · subst hq
      by_cases hlt : run < 2
      · rw [escapeAll_quote_of_lt hlt, headRun_cons_self]
        have hnext : run + 1 ≤ 2 := hlt
        have hstep := ih hnext
        omega
      · rw [escapeAll_quote_of_le (Nat.not_lt.1 hlt), headRun_cons_of_ne (by decide)]
        omega
    · obtain ⟨d, v, hd, hdq, _⟩ := exists_escape true hq
      rw [escapeAll_of_ne hq, hd, List.cons_append, headRun_cons_of_ne hdq]
      omega

theorem readBasic_block (t : Text) {run : ℕ} (h : run ≤ 2) (hrest : rest.head? ≠ some '"') :
    readBasic true .nothing (escapeAll true run t ++ '"' :: '"' :: '"' :: rest) =
      some (t, rest) := by
  induction t generalizing run with
  | nil => exact readBasic_close hrest
  | cons c t ih =>
    by_cases hq : c = '"'
    · subst hq
      by_cases hlt : run < 2
      · have hnext : run + 1 ≤ 2 := hlt
        have hrun := headRun_escapeAll hnext t
        obtain ⟨htwo, hfive⟩ := headRun_behind (u := escapeAll true (run + 1) t) (by omega) hrest
        rw [escapeAll_quote_of_lt hlt, List.cons_append, readBasic_quote htwo hfive,
          ih hnext]
        rfl
      · rw [escapeAll_quote_of_le (Nat.not_lt.1 hlt), List.cons_append, List.cons_append,
          readBasic_escaped, ih (Nat.zero_le 2)]
        rfl
    · rw [escapeAll_of_ne hq, List.append_assoc, readBasic_escape hq, ih (Nat.zero_le 2)]
      rfl

/-! ## Between quotes of any kind -/

/-- What does not begin with a line end is a block as it stands. -/
theorem dropFirstLineEnd_of_head? (hline : t.head? ≠ some '\n') (hreturn : t.head? ≠ some '\r') :
    dropFirstLineEnd t = t := by
  unfold dropFirstLineEnd
  split
  · exact absurd rfl hline
  · exact absurd rfl hreturn
  · rfl

/-- A text between double quotes begins with a line end in a block only, and only where the text
does. -/
theorem head?_escapeAll (hline : '\n' ∉ t) (rest : Text) :
    (escapeAll true 0 t ++ '"' :: rest).head? ≠ some '\n' ∧
      (escapeAll true 0 t ++ '"' :: rest).head? ≠ some '\r' := by
  cases t with
  | nil => exact ⟨by simp [escapeAll], by simp [escapeAll]⟩
  | cons c t =>
    by_cases hq : c = '"'
    · rw [hq, escapeAll_quote_of_lt (by decide)]
      exact ⟨by simp, by simp⟩
    · have hc : c ≠ '\n' := fun h => hline (h ▸ List.mem_cons_self)
      obtain ⟨d, v, hd, _, hreturn, hdline⟩ := exists_escape true hq
      rw [escapeAll_of_ne hq, hd]
      exact ⟨by simp [hdline hc], by simp [hreturn]⟩

/-- Between single quotes, too. -/
theorem head?_literal (hline : '\n' ∉ t) (hcontrol : ∀ c ∈ t, isControl c = false) (rest : Text) :
    (t ++ '\'' :: rest).head? ≠ some '\n' ∧ (t ++ '\'' :: rest).head? ≠ some '\r' := by
  cases t with
  | nil => exact ⟨by simp, by simp⟩
  | cons c t =>
    rw [List.mem_cons, not_or] at hline
    have hreturn : c ≠ '\r' := by
      rintro rfl
      exact absurd (hcontrol '\r' List.mem_cons_self) (by decide)
    exact ⟨by simpa using Ne.symm hline.1, by simpa using hreturn⟩

/-- The line end that a block with lines begins with is left out. -/
theorem dropFirstLineEnd_front (h : '\n' ∉ t → u.head? ≠ some '\n' ∧ u.head? ≠ some '\r') :
    dropFirstLineEnd ((if List.contains t '\n' then ['\n'] else []) ++ u) = u := by
  by_cases hline : '\n' ∈ t
  · rw [if_pos (List.contains_iff_mem.2 hline)]
    rfl
  · rw [if_neg (mt List.contains_iff_mem.1 hline)]
    exact dropFirstLineEnd_of_head? (h hline).1 (h hline).2

/-- What is put between single quotes on a line needs no escape there. -/
theorem of_eq_single (h : Quotes.of t = .single) :
    t ≠ [] ∧ '\'' ∉ t ∧ '\n' ∉ t ∧ ∀ c ∈ t, isControl c = false := by
  unfold Quotes.of at h
  dsimp only at h
  split_ifs at h with hdouble hsingle
  simp only [Bool.and_eq_true, Bool.not_eq_true', List.any_eq_false, decide_eq_true_eq,
    Bool.not_eq_true] at hsingle
  obtain ⟨⟨hcontrol, hline⟩, hrun⟩ := hsingle
  refine ⟨?_, not_mem_of_longestRun hrun, by simpa using hline, hcontrol⟩
  rintro rfl
  exact hdouble rfl

/-- What is put between single quotes in a block needs no escape there. -/
theorem of_eq_singleBlock (h : Quotes.of t = .singleBlock) :
    longestRun '\'' t ≤ 2 ∧ ∀ c ∈ t, isControl c = false := by
  unfold Quotes.of at h
  dsimp only at h
  split_ifs at h with _ _ _ hblock
  simp only [Bool.and_eq_true, Bool.not_eq_true', List.any_eq_false, decide_eq_true_eq,
    Bool.not_eq_true] at hblock
  exact ⟨hblock.2, hblock.1⟩

theorem after?_replicate {n : ℕ} (h : headRun q t < n) :
    Text.after? (List.replicate n q) t = none := by
  rw [← Option.not_isSome_iff_eq_none]
  exact mt startsWith_replicate_iff.1 (Nat.not_le.2 h)

/-- A quote that no two others follow begins a text on one line. -/
theorem readQuoted?_double (h : headRun '"' u < 2) :
    readQuoted? ('"' :: u) = readBasic false .nothing u := by
  have hblock : Text.after? "\"\"\"".toList ('"' :: u) = none :=
    after?_replicate (q := '"') (n := 3) (by rw [headRun_cons_self]; omega)
  rw [readQuoted?, hblock]
  rfl

theorem readQuoted?_single (h : headRun '\'' u < 2) :
    readQuoted? ('\'' :: u) = readLiteral false u := by
  have hblock : Text.after? "'''".toList ('\'' :: u) = none :=
    after?_replicate (q := '\'') (n := 3) (by rw [headRun_cons_self]; omega)
  rw [readQuoted?, hblock]
  rfl

theorem headRun_line (t : Text) (hrest : rest.head? ≠ some '"') :
    headRun '"' (escapeAll false 0 t ++ '"' :: rest) < 2 := by
  cases t with
  | nil => simp [escapeAll, headRun_of_head? hrest]
  | cons c t =>
    by_cases hq : c = '"'
    · rw [hq, escapeAll_quote_of_le (Nat.zero_le 0), List.cons_append,
        headRun_cons_of_ne (by decide)]
      decide
    · obtain ⟨d, v, hd, hdq, _⟩ := exists_escape false hq
      rw [escapeAll_of_ne hq, hd, List.cons_append, List.cons_append, headRun_cons_of_ne hdq]
      decide

/-- **A quoted text is read back**, when no further quote follows it. -/
theorem readQuoted?_quote (t : Text) (hdouble : rest.head? ≠ some '"')
    (hsingle : rest.head? ≠ some '\'') : readQuoted? (quote t ++ rest) = some (t, rest) := by
  cases h : Quotes.of t
  case double =>
    have hquote : quote t ++ rest = '"' :: (escapeAll false 0 t ++ '"' :: rest) := by
      rw [quote, h]
      simp [Quotes.mark, Quotes.isBlock, Quotes.hasEscapes]
    rw [hquote, readQuoted?_double (headRun_line t hdouble), readBasic_line]
  case single =>
    obtain ⟨hne, hmem, hline, hcontrol⟩ := of_eq_single h
    have hquote : quote t ++ rest = '\'' :: (t ++ '\'' :: rest) := by
      rw [quote, h]
      simp [Quotes.mark, Quotes.isBlock, Quotes.hasEscapes]
    have hhead : headRun '\'' (t ++ '\'' :: rest) = 0 := by
      obtain ⟨c, u, rfl⟩ := List.exists_cons_of_ne_nil hne
      rw [List.mem_cons, not_or] at hmem
      exact headRun_cons_of_ne (Ne.symm hmem.1) _
    rw [hquote, readQuoted?_single (by omega), readLiteral_line hmem hcontrol hline]
  case doubleBlock =>
    have hquote : quote t ++ rest = '"' :: '"' :: '"' ::
        ((if List.contains t '\n' then ['\n'] else []) ++
          (escapeAll true 0 t ++ '"' :: '"' :: '"' :: rest)) := by
      rw [quote, h]
      simp [Quotes.mark, Quotes.isBlock, Quotes.hasEscapes]
    have hread : ∀ u, readQuoted? ('"' :: '"' :: '"' :: u) =
        readBasic true .nothing (dropFirstLineEnd u) := fun u => rfl
    rw [hquote, hread, dropFirstLineEnd_front fun hline => head?_escapeAll hline _,
      readBasic_block t (Nat.zero_le 2) hdouble]
  case singleBlock =>
    obtain ⟨hrun, hcontrol⟩ := of_eq_singleBlock h
    have hquote : quote t ++ rest = '\'' :: '\'' :: '\'' ::
        ((if List.contains t '\n' then ['\n'] else []) ++
          (t ++ '\'' :: '\'' :: '\'' :: rest)) := by
      rw [quote, h]
      simp [Quotes.mark, Quotes.isBlock, Quotes.hasEscapes]
    have hread : ∀ u, readQuoted? ('\'' :: '\'' :: '\'' :: u) =
        readLiteral true (dropFirstLineEnd u) := fun u => rfl
    rw [hquote, hread, dropFirstLineEnd_front fun hline => head?_literal hline hcontrol _,
      readLiteral_block (fun u hu => (headRun_le_longestRun hu).trans hrun) hcontrol hsingle]

end Toml

end Fabula
