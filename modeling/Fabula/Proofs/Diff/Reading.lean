import Fabula.Diff.Render
import Fabula.Proofs.Diff.Hunks
import Fabula.Proofs.Text.Pieces
import Mathlib.Data.List.Forall2

/-!
# What a shown comparison says

A reader takes a shown comparison line by line: a mark, a number and the text of a line
(`Row.read?`). What has been read should tell him all that was changed and nothing else. Every
quoted line is the line of that number, on the side of its mark, and the lines that are marked
on neither side are the same but for blanks, where a difference of blanks is seen too
(`Describes`).

This holds of any hunks that compare the lines of the two texts, however they were found
(`describes_showHunks`), and in particular of the ones that are found here (`render_describes`).

## Reading what was shown

A line is shown on a line of its own, since it has no line feed. A number has no colon, and the
mark is one character. So each line is read as it was shown (`Diff.read?_labelled`), whatever its
text is, be it that the text looks like a shown line itself. What stands between two hunks is no
shown line, and is not read.

## Part by part

A description is shown of each part alone. A stretch marks nothing, and its lines are the same
on both sides. A change marks its lines, with one exception: where a line differs from its
counterpart in blanks only it is shown as context, with the new line's text. Then a pair of
lines passes for one that is the same, because the new one is shown.

Two descriptions, one behind the other, are a description of all the lines (`Describes.append`),
as no number of the one is a number of the other. That needs the numbers of the parts to
increase, which is what it means for parts to compare two lists.
-/

namespace Fabula

/-! ## The lines of a text -/

namespace Text

theorem not_mem_withoutReturn {c : Char} {piece : Text} (h : c ∉ piece) :
    c ∉ withoutReturn piece := by
  unfold withoutReturn before?
  cases hback : after? ['\r'].reverse piece.reverse with
  | none => exact h
  | some front =>
    have hpiece := after?_eq_some_iff.1 hback
    intro hc
    refine h (List.mem_reverse.1 ?_)
    rw [hpiece]
    exact List.mem_append_right _ (List.mem_reverse.1 hc)

/-- **No line has a line feed.** -/
theorem not_mem_of_mem_lines {t line : Text} (h : line ∈ t.lines) : '\n' ∉ line := by
  have hgo : ∀ pieces : List Text, (∀ p ∈ pieces, '\n' ∉ p) → ∀ l ∈ lines.go pieces, '\n' ∉ l := by
    intro pieces
    induction pieces with
    | nil => exact fun _ l hl => absurd hl List.not_mem_nil
    | cons first rest ih =>
      intro hpieces l hl
      obtain ⟨hfirst, hrest⟩ := List.forall_mem_cons.1 hpieces
      cases rest with
      | nil =>
        rw [lines.go] at hl
        split at hl
        · exact absurd hl List.not_mem_nil
        · rwa [List.mem_singleton.1 hl]
      | cons second rest =>
        rw [lines.go, List.mem_cons] at hl
        · rcases hl with rfl | hl
          · exact not_mem_withoutReturn hfirst
          · exact ih hrest l hl
        · simp
  exact hgo _ (fun p hp => not_mem_of_mem_split hp) line h

end Text

namespace Diff

/-! ## Reading -/

/-- **A shown line**, as it is read. -/
structure Row where
  mark : Char
  number : ℕ
  text : Text
deriving DecidableEq, Repr

/-- **Reads a shown line**: its mark, its number behind blanks, and the line behind a colon and a
blank. What stands between two hunks is no such line. -/
def Row.read? : Text → Option Row
  | mark :: ' ' :: rest =>
    let label := rest.dropWhile (· == ' ')
    let digits := label.takeWhile Char.isDigit
    if digits = [] then none
    else (Text.after? ": ".toList (label.dropWhile Char.isDigit)).map fun text =>
      { mark, number := Nat.ofDigitChars 10 digits 0, text }
  | _ => none

/-- **What is read of a shown comparison.** -/
def reading (t : Text) : List Row :=
  (Text.split '\n' t).filterMap Row.read?

/-- The numbers that stand behind a mark. -/
def numbers (mark : Char) (rows : List Row) : List ℕ :=
  (rows.filter (·.mark = mark)).map Row.number

/-- The numbered lines whose number stands behind no such mark. -/
def unmarked (mark : Char) (rows : List Row) (lines : List (Text × ℕ)) : List (Text × ℕ) :=
  lines.filter (·.2 ∉ numbers mark rows)

/-- **An old line passes for a new one**: they differ in blanks at most, and if they do, the new
line is shown. -/
def Passes (rows : List Row) (old new : Text × ℕ) : Prop :=
  old.1.withoutBlanks = new.1.withoutBlanks ∧
    (old.1 ≠ new.1 → { mark := ' ', number := new.2, text := new.1 } ∈ rows)

/-- **Rows that describe how numbered lines became others.** -/
structure Describes (old new : List (Text × ℕ)) (rows : List Row) : Prop where
  /-- There are no other marks. -/
  marks : ∀ r ∈ rows, r.mark = '-' ∨ r.mark = '+' ∨ r.mark = ' '
  /-- A removed line is the old line of its number. -/
  removed : ∀ r ∈ rows, r.mark = '-' → (r.text, r.number) ∈ old
  /-- An added line is the new line of its number. -/
  added : ∀ r ∈ rows, r.mark = '+' → (r.text, r.number) ∈ new
  /-- A line of context is the new line of its number. -/
  context : ∀ r ∈ rows, r.mark = ' ' → (r.text, r.number) ∈ new
  /-- No line is removed twice. -/
  removedOnce : (numbers '-' rows).Nodup
  /-- No line is added twice. -/
  addedOnce : (numbers '+' rows).Nodup
  /-- The other lines are the same on both sides, but for blanks. -/
  others : List.Forall₂ (Passes rows) (unmarked '-' rows old) (unmarked '+' rows new)

/-! ### A line is read as it was shown -/

section Label

variable {mark : Char} {n : ℕ} {line : Text}

theorem isDigit_of_mem_ofNat {c : Char} (h : c ∈ Text.ofNat n) : c.isDigit = true :=
  Nat.isDigit_of_mem_toDigits (by decide) (by decide) h

/-- **A shown line is read again.** -/
theorem read?_labelled (mark : Char) (n : ℕ) (line : Text) :
    Row.read? (labelled mark n line) = some { mark, number := n + 1, text := line } := by
  have hne : Text.ofNat (n + 1) ≠ [] := Nat.toDigits_ne_nil
  have hdigits : ∀ c ∈ Text.ofNat (n + 1), c.isDigit = true := fun c => isDigit_of_mem_ofNat
  have hblanks : ∀ (k : ℕ) (rest : Text),
      (List.replicate k ' ' ++ (Text.ofNat (n + 1) ++ rest)).dropWhile (· == ' ') =
        Text.ofNat (n + 1) ++ rest := by
    intro k rest
    rw [List.dropWhile_append_of_pos fun c hc => by rw [List.eq_of_mem_replicate hc]; rfl]
    obtain ⟨c, cs, hcs⟩ := List.exists_cons_of_ne_nil hne
    rw [hcs, List.cons_append, List.dropWhile_cons_of_neg]
    intro hc
    have hdigit := hdigits c (by rw [hcs]; exact List.mem_cons_self)
    rw [beq_iff_eq.1 hc] at hdigit
    exact absurd hdigit (by decide)
  have hlabel : labelled mark n line =
      mark :: ' ' :: (List.replicate (4 - (Text.ofNat (n + 1)).length) ' ' ++
        (Text.ofNat (n + 1) ++ (": ".toList ++ line))) := by
    simp only [labelled, Text.padLeft, List.cons_append, List.append_assoc]
  have htake : (Text.ofNat (n + 1) ++ (": ".toList ++ line)).takeWhile Char.isDigit =
      Text.ofNat (n + 1) := by
    rw [List.takeWhile_append_of_pos hdigits]
    exact List.append_nil _
  have hdrop : (Text.ofNat (n + 1) ++ (": ".toList ++ line)).dropWhile Char.isDigit =
      ": ".toList ++ line := List.dropWhile_append_of_pos hdigits
  rw [hlabel, Row.read?]
  simp only [hblanks, htake, hdrop, if_neg hne, Text.after?_append, Option.map_some]
  rw [Text.ofNat, Nat.ofDigitChars_toDigits (by decide) (by decide)]

theorem not_mem_labelled (hmark : mark ≠ '\n') (hline : '\n' ∉ line) :
    '\n' ∉ labelled mark n line := by
  have hdigits : '\n' ∉ Text.ofNat (n + 1) := fun h => absurd (isDigit_of_mem_ofNat h) (by decide)
  have hblanks : '\n' ∉ List.replicate (4 - (Text.ofNat (n + 1)).length) ' ' := fun h =>
    absurd (List.eq_of_mem_replicate h) (by decide)
  simp [labelled, Text.padLeft, hmark.symm, hline, hdigits, hblanks]

end Label

/-- The row of a numbered line, with a mark. -/
def Row.of (mark : Char) (line : Text × ℕ) : Row :=
  { mark, number := line.2, text := line.1 }

theorem numbered_cons (mark : Char) (n : ℕ) (line : Text) (lines : List Text) :
    numbered mark n (line :: lines) = labelled mark n line :: numbered mark (n + 1) lines := by
  simp only [numbered, List.mapIdx_cons, Nat.add_zero, Nat.add_assoc, Nat.add_comm 1]

theorem filterMap_read?_numbered (mark : Char) (n : ℕ) (lines : List Text) :
    (numbered mark n lines).filterMap Row.read? = (lines.zipIdx (n + 1)).map (Row.of mark) := by
  induction lines generalizing n with
  | nil => rfl
  | cons line lines ih =>
    rw [numbered_cons, List.filterMap_cons_some (read?_labelled mark n line), ih, List.zipIdx_cons,
      List.map_cons]
    rfl

theorem not_mem_of_mem_numbered {mark : Char} {n : ℕ} {lines : List Text} {t : Text}
    (hmark : mark ≠ '\n') (hlines : ∀ l ∈ lines, '\n' ∉ l) (h : t ∈ numbered mark n lines) :
    '\n' ∉ t := by
  obtain ⟨i, hi, rfl⟩ := List.mem_mapIdx.1 h
  exact not_mem_labelled hmark (hlines _ (List.getElem_mem hi))

/-! ## Descriptions one behind the other -/

section Describes

variable {old new old' new' : List (Text × ℕ)} {rows rows' : List Row}

/-- **Numbered lines that are apart**: no number is on both sides. -/
def Apart (xs ys : List (Text × ℕ)) : Prop :=
  ∀ x ∈ xs, ∀ y ∈ ys, x.2 ≠ y.2

theorem apart_zipIdx (xs ys : List Text) (i : ℕ) :
    Apart (xs.zipIdx i) (ys.zipIdx (i + xs.length)) := by
  intro x hx y hy heq
  have hlt := List.snd_lt_add_of_mem_zipIdx hx
  have hle := List.le_snd_of_mem_zipIdx hy
  omega

theorem Apart.symm {xs ys : List (Text × ℕ)} (h : Apart xs ys) : Apart ys xs :=
  fun y hy x hx heq => h x hx y hy heq.symm

theorem numbers_append (mark : Char) (rows rows' : List Row) :
    numbers mark (rows ++ rows') = numbers mark rows ++ numbers mark rows' := by
  rw [numbers, List.filter_append, List.map_append]
  rfl

/-- A number behind a mark is that of a line. -/
theorem exists_of_mem_numbers {mark : Char} {lines : List (Text × ℕ)} {n : ℕ}
    (h : ∀ r ∈ rows, r.mark = mark → (r.text, r.number) ∈ lines) (hn : n ∈ numbers mark rows) :
    ∃ line ∈ lines, line.2 = n := by
  obtain ⟨r, hr, rfl⟩ := List.mem_map.1 hn
  obtain ⟨hmem, hmark⟩ := List.mem_filter.1 hr
  exact ⟨_, h r hmem (of_decide_eq_true hmark), rfl⟩

/-- Rows of other lines mark none of these. -/
theorem not_mem_numbers {mark : Char} {lines others : List (Text × ℕ)} (hapart : Apart lines others)
    (h : ∀ r ∈ rows, r.mark = mark → (r.text, r.number) ∈ others) :
    ∀ line ∈ lines, line.2 ∉ numbers mark rows := by
  intro line hline hn
  obtain ⟨other, hother, heq⟩ := exists_of_mem_numbers h hn
  exact hapart line hline other hother heq.symm

/-- Each side's lines are left unmarked as by its own rows. -/
theorem unmarked_append {mark : Char} {xs ys : List (Text × ℕ)} (hapart : Apart xs ys)
    (hx : ∀ r ∈ rows, r.mark = mark → (r.text, r.number) ∈ xs)
    (hy : ∀ r ∈ rows', r.mark = mark → (r.text, r.number) ∈ ys) :
    unmarked mark (rows ++ rows') (xs ++ ys) = unmarked mark rows xs ++ unmarked mark rows' ys := by
  have hxs := not_mem_numbers hapart hy
  have hys := not_mem_numbers hapart.symm hx
  unfold unmarked
  rw [List.filter_append, numbers_append]
  congr 1
  · refine List.filter_congr fun line hline => ?_
    simp [hxs line hline]
  · refine List.filter_congr fun line hline => ?_
    simp [hys line hline]

theorem nodup_numbers_append {mark : Char} {xs ys : List (Text × ℕ)} (hapart : Apart xs ys)
    (hx : ∀ r ∈ rows, r.mark = mark → (r.text, r.number) ∈ xs)
    (hy : ∀ r ∈ rows', r.mark = mark → (r.text, r.number) ∈ ys)
    (h : (numbers mark rows).Nodup) (h' : (numbers mark rows').Nodup) :
    (numbers mark (rows ++ rows')).Nodup := by
  rw [numbers_append, List.nodup_append]
  refine ⟨h, h', fun a ha b hb heq => ?_⟩
  obtain ⟨x, hxmem, rfl⟩ := exists_of_mem_numbers hx ha
  obtain ⟨y, hymem, rfl⟩ := exists_of_mem_numbers hy hb
  exact hapart x hxmem y hymem heq

/-- **Two descriptions, one behind the other.** -/
theorem Describes.append (h : Describes old new rows) (h' : Describes old' new' rows')
    (hold : Apart old old') (hnew : Apart new new') :
    Describes (old ++ old') (new ++ new') (rows ++ rows') where
  marks := List.forall_mem_append.2 ⟨h.marks, h'.marks⟩
  removed := List.forall_mem_append.2
    ⟨fun r hr hm => List.mem_append_left _ (h.removed r hr hm),
      fun r hr hm => List.mem_append_right _ (h'.removed r hr hm)⟩
  added := List.forall_mem_append.2
    ⟨fun r hr hm => List.mem_append_left _ (h.added r hr hm),
      fun r hr hm => List.mem_append_right _ (h'.added r hr hm)⟩
  context := List.forall_mem_append.2
    ⟨fun r hr hm => List.mem_append_left _ (h.context r hr hm),
      fun r hr hm => List.mem_append_right _ (h'.context r hr hm)⟩
  removedOnce := nodup_numbers_append hold h.removed h'.removed h.removedOnce h'.removedOnce
  addedOnce := nodup_numbers_append hnew h.added h'.added h.addedOnce h'.addedOnce
  others := by
    rw [unmarked_append hold h.removed h'.removed, unmarked_append hnew h.added h'.added]
    refine List.rel_append (h.others.imp fun x y hxy => ?_) (h'.others.imp fun x y hxy => ?_)
    · exact ⟨hxy.1, fun hne => List.mem_append_left _ (hxy.2 hne)⟩
    · exact ⟨hxy.1, fun hne => List.mem_append_right _ (hxy.2 hne)⟩

/-! ### One part -/

/-- **Lines of context alone** describe sides that are the same but for blanks. -/
theorem describes_of_context (hrows : ∀ r ∈ rows, r.mark = ' ' ∧ (r.text, r.number) ∈ new)
    (h : List.Forall₂ (Passes rows) old new) : Describes old new rows := by
  have hnumbers : ∀ mark, mark ≠ ' ' → numbers mark rows = [] := by
    intro mark hmark
    rw [numbers, List.map_eq_nil_iff, List.filter_eq_nil_iff]
    intro r hr heq
    exact hmark ((of_decide_eq_true heq).symm.trans (hrows r hr).1)
  have hunmarked : ∀ mark, mark ≠ ' ' → ∀ lines, unmarked mark rows lines = lines := by
    intro mark hmark lines
    rw [unmarked, List.filter_eq_self]
    intro line _
    rw [hnumbers mark hmark]
    rfl
  refine ⟨fun r hr => .inr (.inr (hrows r hr).1), fun r hr hm => ?_, fun r hr hm => ?_,
    fun r hr _ => (hrows r hr).2, ?_, ?_, ?_⟩
  · rw [(hrows r hr).1] at hm
    exact absurd hm (by decide)
  · rw [(hrows r hr).1] at hm
    exact absurd hm (by decide)
  · rw [hnumbers _ (by decide)]
    exact List.nodup_nil
  · rw [hnumbers _ (by decide)]
    exact List.nodup_nil
  · rwa [hunmarked _ (by decide), hunmarked _ (by decide)]

/-- Lines pass for themselves, whatever is shown. -/
theorem passes_zipIdx (rows : List Row) (lines : List Text) (i j : ℕ) :
    List.Forall₂ (Passes rows) (lines.zipIdx i) (lines.zipIdx j) := by
  induction lines generalizing i j with
  | nil => exact .nil
  | cons line lines ih => exact .cons ⟨rfl, fun hne => absurd rfl hne⟩ (ih (i + 1) (j + 1))

theorem describes_skip (lines : List Text) (i j : ℕ) :
    Describes (lines.zipIdx i) (lines.zipIdx j) [] :=
  describes_of_context (fun _ hr => absurd hr List.not_mem_nil) (passes_zipIdx [] lines i j)

theorem describes_same (lines : List Text) (i j : ℕ) :
    Describes (lines.zipIdx i) (lines.zipIdx j) ((lines.zipIdx j).map (Row.of ' ')) := by
  refine describes_of_context (List.forall_mem_map.2 fun line hline => ⟨rfl, hline⟩) ?_
  exact passes_zipIdx _ lines i j

/-- A line that differs in blanks only is shown as context. -/
theorem describes_neutral {before after : Text} (i j : ℕ)
    (h : before.withoutBlanks = after.withoutBlanks) :
    Describes ([before].zipIdx i) ([after].zipIdx j) (([after].zipIdx j).map (Row.of ' ')) := by
  refine describes_of_context (List.forall_mem_map.2 fun line hline => ⟨rfl, hline⟩) ?_
  exact .cons ⟨h, fun _ => List.mem_singleton_self _⟩ .nil

theorem numbers_map_of (mark : Char) (lines : List (Text × ℕ)) :
    numbers mark (lines.map (Row.of mark)) = lines.map Prod.snd := by
  have hall : (lines.map (Row.of mark)).filter (·.mark = mark) = lines.map (Row.of mark) :=
    List.filter_eq_self.2 (List.forall_mem_map.2 fun _ _ => decide_eq_true rfl)
  rw [numbers, hall, List.map_map]
  rfl

theorem numbers_map_of_ne {mark other : Char} (h : other ≠ mark) (lines : List (Text × ℕ)) :
    numbers mark (lines.map (Row.of other)) = [] := by
  rw [numbers, List.map_eq_nil_iff, List.filter_eq_nil_iff]
  exact List.forall_mem_map.2 fun _ _ heq => h (of_decide_eq_true heq)

/-- Lines that are all marked leave none. -/
theorem unmarked_map_of (mark : Char) (lines : List (Text × ℕ)) :
    unmarked mark (lines.map (Row.of mark)) lines = [] := by
  rw [unmarked, List.filter_eq_nil_iff]
  intro line hline
  rw [numbers_map_of, decide_eq_true_eq, not_not]
  exact List.mem_map_of_mem hline

theorem nodup_zipIdx (lines : List Text) (i : ℕ) : ((lines.zipIdx i).map Prod.snd).Nodup := by
  rw [List.zipIdx_map_snd]
  exact List.nodup_range' _

theorem describes_removed (lines : List Text) (i : ℕ) :
    Describes (lines.zipIdx i) [] ((lines.zipIdx i).map (Row.of '-')) where
  marks := List.forall_mem_map.2 fun _ _ => .inl rfl
  removed := List.forall_mem_map.2 fun _ hline _ => hline
  added := List.forall_mem_map.2 fun _ _ hm => absurd hm (show '-' ≠ '+' by decide)
  context := List.forall_mem_map.2 fun _ _ hm => absurd hm (show '-' ≠ ' ' by decide)
  removedOnce := by
    rw [numbers_map_of]
    exact nodup_zipIdx lines i
  addedOnce := by
    rw [numbers_map_of_ne (by decide)]
    exact List.nodup_nil
  others := by
    rw [unmarked_map_of]
    exact .nil

theorem describes_added (lines : List Text) (j : ℕ) :
    Describes [] (lines.zipIdx j) ((lines.zipIdx j).map (Row.of '+')) where
  marks := List.forall_mem_map.2 fun _ _ => .inr (.inl rfl)
  removed := List.forall_mem_map.2 fun _ _ hm => absurd hm (show '+' ≠ '-' by decide)
  added := List.forall_mem_map.2 fun _ hline _ => hline
  context := List.forall_mem_map.2 fun _ _ hm => absurd hm (show '+' ≠ ' ' by decide)
  removedOnce := by
    rw [numbers_map_of_ne (by decide)]
    exact List.nodup_nil
  addedOnce := by
    rw [numbers_map_of]
    exact nodup_zipIdx lines j
  others := by
    rw [unmarked_map_of]
    exact .nil

/-- Lines that were removed and lines that were added, all of them marked. -/
theorem describes_changed (i j : ℕ) (removed added : List Text) :
    Describes (removed.zipIdx (i + 1)) (added.zipIdx (j + 1))
      ((shown.changed .plain i j removed added).filterMap Row.read?) := by
  have hpaint : ∀ r ts, List.map (Palette.plain.paint r) ts = ts := fun _ ts => List.map_id ts
  rw [shown.changed, hpaint, hpaint, List.filterMap_append, filterMap_read?_numbered,
    filterMap_read?_numbered]
  have hboth := (describes_removed removed (i + 1)).append (describes_added added (j + 1))
    (fun _ _ y hy => absurd hy List.not_mem_nil) (fun x hx => absurd hx List.not_mem_nil)
  rwa [List.append_nil, List.nil_append] at hboth

/-- **What is shown of a change describes it.** -/
theorem describes_change (i j : ℕ) (removed added : List Text) :
    Describes (removed.zipIdx (i + 1)) (added.zipIdx (j + 1))
      ((shown .plain (.change i j removed added)).filterMap Row.read?) := by
  unfold shown
  dsimp only
  split
  · split
    · rename_i hneutral
      rw [filterMap_read?_numbered]
      exact describes_neutral _ _ hneutral
    · exact describes_changed i j _ _
  · exact describes_changed i j removed added

end Describes

/-! ## All hunks -/

/-- **What is shown of the parts of a comparison describes it.** -/
theorem describes_compare {i j : ℕ} {old new : List Text} {ps : List Part}
    (h : Part.Compare i j old new ps) : Describes (old.zipIdx (i + 1)) (new.zipIdx (j + 1))
      ((ps.flatMap (shown .plain)).filterMap Row.read?) := by
  induction h with
  | done => exact describes_skip [] _ _
  | @skip i j old new ps lines _ ih =>
    rw [Nat.add_right_comm, Nat.add_right_comm j] at ih
    rw [List.zipIdx_append, List.zipIdx_append]
    exact (describes_skip lines _ _).append ih (apart_zipIdx _ _ _) (apart_zipIdx _ _ _)
  | @same i j old new ps lines _ ih =>
    rw [Nat.add_right_comm, Nat.add_right_comm j] at ih
    rw [List.zipIdx_append, List.zipIdx_append, List.flatMap_cons, List.filterMap_append, shown,
      filterMap_read?_numbered]
    exact (describes_same lines _ _).append ih (apart_zipIdx _ _ _) (apart_zipIdx _ _ _)
  | @change i j old new ps removed added _ ih =>
    rw [Nat.add_right_comm, Nat.add_right_comm j] at ih
    rw [List.zipIdx_append, List.zipIdx_append, List.flatMap_cons, List.filterMap_append]
    exact (describes_change i j removed added).append ih (apart_zipIdx _ _ _) (apart_zipIdx _ _ _)

/-- The lines that show a change number its lines. -/
theorem mem_shown_change {i j : ℕ} {removed added : List Text} {t : Text}
    (h : t ∈ shown .plain (.change i j removed added)) :
    t ∈ numbered '-' i removed ∨ t ∈ numbered '+' j added ∨ t ∈ numbered ' ' j added := by
  have hchanged : ∀ r a : List Text, t ∈ shown.changed .plain i j r a →
      t ∈ numbered '-' i r ∨ t ∈ numbered '+' j a := by
    intro r a ht
    have hpaint : ∀ c ts, List.map (Palette.plain.paint c) ts = ts := fun _ ts => List.map_id ts
    rwa [shown.changed, hpaint, hpaint, List.mem_append] at ht
  unfold shown at h
  dsimp only at h
  split at h
  · split at h
    · exact .inr (.inr h)
    · exact (hchanged _ _ h).imp_right .inl
  · exact (hchanged _ _ h).imp_right .inl

/-- What is shown has no line feed where the lines have none. -/
theorem not_mem_of_mem_shown {i j : ℕ} {old new : List Text} {ps : List Part}
    (h : Part.Compare i j old new ps) (hold : ∀ l ∈ old, '\n' ∉ l) (hnew : ∀ l ∈ new, '\n' ∉ l) :
    ∀ t ∈ ps.flatMap (shown .plain), '\n' ∉ t := by
  induction h with
  | done => exact fun t ht => absurd ht List.not_mem_nil
  | skip lines _ ih =>
    exact ih (List.forall_mem_append.1 hold).2 (List.forall_mem_append.1 hnew).2
  | same lines _ ih =>
    obtain ⟨hlines, hold⟩ := List.forall_mem_append.1 hold
    refine List.forall_mem_append.2 ⟨fun t ht => ?_, ih hold (List.forall_mem_append.1 hnew).2⟩
    exact not_mem_of_mem_numbered (by decide) hlines ht
  | change removed added _ ih =>
    obtain ⟨hremoved, hold⟩ := List.forall_mem_append.1 hold
    obtain ⟨hadded, hnew⟩ := List.forall_mem_append.1 hnew
    refine List.forall_mem_append.2 ⟨fun t ht => ?_, ih hold hnew⟩
    rcases mem_shown_change ht with ht | ht | ht
    · exact not_mem_of_mem_numbered (by decide) hremoved ht
    · exact not_mem_of_mem_numbered (by decide) hadded ht
    · exact not_mem_of_mem_numbered (by decide) hadded ht

/-- **Hunks as they are shown**: between any two of them stands a line that is none of a part. -/
def showHunks (palette : Palette) (hunks : List Hunk) : Text :=
  Text.join ['\n'] ((hunks.map (·.flatMap (shown palette))).intersperse ["...".toList]).flatten

theorem render_of_ne (palette : Palette) {old new : Text} (h : old ≠ new) :
    render palette old new = showHunks palette (Hunk.of 2 old.lines new.lines) :=
  if_neg h

/-- Pieces without a line feed are read one by one. -/
theorem reading_join {pieces : List Text} (h : ∀ p ∈ pieces, '\n' ∉ p) :
    reading (Text.join ['\n'] pieces) = pieces.filterMap Row.read? := by
  by_cases hne : pieces = []
  · subst hne
    rfl
  · rw [reading, Text.split_join hne h]

/-- What stands between two hunks is not read. -/
theorem filterMap_intersperse {α β : Type} {f : α → Option β} {x : α} (hx : f x = none)
    (ts : List (List α)) :
    ((ts.intersperse [x]).flatten).filterMap f = ts.flatten.filterMap f := by
  induction ts with
  | nil => rfl
  | cons t ts ih =>
    cases ts with
    | nil => rfl
    | cons u ts =>
      rw [List.intersperse_cons_cons, List.flatten_cons, List.flatten_cons, List.filterMap_append,
        List.filterMap_append, ih, List.filterMap_cons_none hx, List.filterMap_nil, List.nil_append,
        List.flatten_cons (l := t), List.filterMap_append]

theorem mem_intersperse {α : Type} {x y : α} {ts : List α} (h : y ∈ ts.intersperse x) :
    y = x ∨ y ∈ ts := by
  induction ts with
  | nil => exact .inr h
  | cons t ts ih =>
    cases ts with
    | nil => exact .inr h
    | cons u ts =>
      rw [List.intersperse_cons_cons, List.mem_cons, List.mem_cons] at h
      rcases h with rfl | rfl | h
      · exact .inr List.mem_cons_self
      · exact .inl rfl
      · exact (ih h).imp_right (List.mem_cons_of_mem _)

/-- **Shown hunks are read part by part.** -/
theorem reading_showHunks {hunks : List Hunk}
    (h : ∀ t ∈ hunks.flatten.flatMap (shown .plain), '\n' ∉ t) :
    reading (showHunks .plain hunks) =
      (hunks.flatten.flatMap (shown .plain)).filterMap Row.read? := by
  have hflat : (hunks.map (·.flatMap (shown .plain))).flatten =
      hunks.flatten.flatMap (shown .plain) := by
    induction hunks with
    | nil => rfl
    | cons hunk hunks ih =>
      rw [List.flatten_cons, List.flatMap_append] at h ⊢
      rw [List.map_cons, List.flatten_cons, ih (List.forall_mem_append.1 h).2]
  rw [showHunks, reading_join, filterMap_intersperse (by decide), hflat]
  intro t ht
  obtain ⟨ts, hts, hmem⟩ := List.mem_flatten.1 ht
  rcases mem_intersperse hts with rfl | hts
  · rw [List.mem_singleton.1 hmem]
    decide
  · exact h t (hflat ▸ List.mem_flatten.2 ⟨ts, hts, hmem⟩)

theorem describes_showHunks {old new : Text} {hunks : List Hunk}
    (h : Part.Compare 0 0 old.lines new.lines hunks.flatten) :
    Describes (old.lines.zipIdx 1) (new.lines.zipIdx 1) (reading (showHunks .plain hunks)) := by
  rw [reading_showHunks (not_mem_of_mem_shown h (fun _ => Text.not_mem_of_mem_lines)
    fun _ => Text.not_mem_of_mem_lines)]
  exact describes_compare h

/-- **A shown comparison hides no change and misquotes no line**, for any two texts. It is read
as rows that describe how the lines of the one became those of the other; and so is what is shown
of any hunks that have all lines of both sides in order, but for stretches of lines that both
sides have. -/
theorem render_describes (old new : Text) :
    Describes (old.lines.zipIdx 1) (new.lines.zipIdx 1) (reading (render .plain old new)) ∧
      ∀ hunks : List Hunk, Part.Compare 0 0 old.lines new.lines hunks.flatten →
        Describes (old.lines.zipIdx 1) (new.lines.zipIdx 1) (reading (showHunks .plain hunks)) := by
  refine ⟨?_, fun hunks => describes_showHunks⟩
  by_cases heq : old = new
  · subst heq
    have hnone : reading (render .plain old old) = [] := by
      rw [render, if_pos rfl]
      decide
    rw [hnone]
    exact describes_skip _ _ _
  · rw [render_of_ne _ heq]
    exact describes_showHunks (Hunk.compare_of 2 old.lines new.lines)

/-- A line replaced, one that stays and is left out, and a line added in another hunk. -/
theorem render_describes_two_hunks :
    Part.Compare 0 0 (Text.lines "a\nb".toList) (Text.lines "x\nb\nc".toList)
        (List.flatten [[.change 0 0 ["a".toList] ["x".toList]], [.change 2 2 [] ["c".toList]]]) ∧
      Describes ((Text.lines "a\nb".toList).zipIdx 1) ((Text.lines "x\nb\nc".toList).zipIdx 1)
        (reading (showHunks .plain
          [[.change 0 0 ["a".toList] ["x".toList]], [.change 2 2 [] ["c".toList]]])) := by
  have hcompare : Part.Compare 0 0 (Text.lines "a\nb".toList) (Text.lines "x\nb\nc".toList)
      (List.flatten [[.change 0 0 ["a".toList] ["x".toList]], [.change 2 2 [] ["c".toList]]]) :=
    .change ["a".toList] ["x".toList] (.skip ["b".toList] (.change [] ["c".toList] .done))
  exact ⟨hcompare, (render_describes "a\nb".toList "x\nb\nc".toList).2 _ hcompare⟩

example : showHunks .plain
    [[.change 0 0 ["a".toList] ["x".toList]], [.change 2 2 [] ["c".toList]]] =
      "-    1: a\n+    1: x\n...\n+    3: c".toList := by
  decide

end Diff

end Fabula
