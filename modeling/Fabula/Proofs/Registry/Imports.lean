import Fabula.Proofs.Text.Scan
import Fabula.Registry.Listing

/-!
# Import lines

The import lines of a registry file stand on top of it, one below the other, and a removal takes
out the first occurrence of a line in the whole text. This is right if the first occurrence is
the line, and there are two ways in which it might not be: the text of the line could begin
within another line, or it could reach over the end of one.

The second is impossible for a text that ends with its only line feed. An occurrence of it ends
where a line ends, and begins behind the end of the line before, so that some line ends with it.
The first would then mean that a line of the imports ends with another one. But an import line
has one opening brace, in front of its symbol, and what stands before that brace is the same in
all of them. If one line ends with another their braces are the same brace, and so the lines are
the same (`eq_of_isSuffix_bareImport`).

Both together say that the first occurrence of an import line among others is the first line
that reads the same, and that this line goes, with its line feed, and nothing else
(`withoutImport_eq`, `withoutImport_importLines`). It is not said that there is only one such
line. Whether two things are imported alike depends on their modules, which is a question about
ledgers and passage maps.
-/

namespace Fabula

namespace Text

/-! ## The first occurrence -/

/-- **The leftmost occurrence** is the one no other is in front of. -/
theorem cut?_eq_of_first {needle t front rest : Text} (ht : t = front ++ (needle ++ rest))
    (hfirst : ∀ x y, t = x ++ (needle ++ y) → front.length ≤ x.length) :
    cut? needle t = some (front, rest) := by
  induction front generalizing t with
  | nil =>
    rw [List.nil_append] at ht
    subst ht
    cases needle with
    | nil =>
      cases rest with
      | nil => rfl
      | cons c rest => rfl
    | cons c needle =>
      rw [List.cons_append, cut?, ← List.cons_append, after?_append]
  | cons c front ih =>
    obtain rfl : t = c :: (front ++ (needle ++ rest)) := ht
    have hnone : after? needle (c :: (front ++ (needle ++ rest))) = none := by
      by_contra hsome
      obtain ⟨y, hy⟩ := Option.ne_none_iff_exists'.1 hsome
      rw [after?_eq_some_iff] at hy
      have hlen := hfirst [] y hy
      simp at hlen
    rw [cut?, hnone]
    have hcut := ih rfl fun x y hx => by
      have hlen := hfirst (c :: x) y (by rw [hx]; rfl)
      simpa using hlen
    dsimp only
    rw [hcut]
    rfl

/-- **What begins with a character that is missing in front** occurs first behind it. -/
theorem cut?_eq_of_not_mem {c : Char} {needle front : Text} (hc : c ∉ front) (rest : Text) :
    cut? (c :: needle) (front ++ (c :: needle ++ rest)) = some (front, rest) := by
  refine cut?_eq_of_first rfl fun x y heq => ?_
  by_contra hlt
  have htake := congrArg (fun t => t[x.length]?) heq
  rw [List.getElem?_append_left (by omega), List.getElem?_append_right (le_refl _), Nat.sub_self]
    at htake
  exact hc (List.mem_of_getElem? htake)

/-- The end of a text is told from what it ends with. -/
theorem before?_append (s t : Text) : before? t (s ++ t) = some s := by
  unfold before?
  rw [List.reverse_append, after?_append]
  simp

/-- What does not occur is not contained. -/
theorem contains_eq_false {needle t : Text} (h : ∀ x y, t ≠ x ++ (needle ++ y)) :
    contains t needle = false := by
  unfold contains
  cases hcut : cut? needle t with
  | none => rfl
  | some parts =>
    obtain ⟨front, rest⟩ := parts
    exact absurd (by rw [eq_of_cut? hcut, List.append_assoc]) (h front rest)

/-- What occurs is contained. -/
theorem contains_append (x needle y : Text) : contains (x ++ (needle ++ y)) needle = true := by
  unfold contains
  induction x with
  | nil =>
    rw [List.nil_append]
    cases h : needle ++ y with
    | nil =>
      obtain ⟨rfl, rfl⟩ := List.append_eq_nil_iff.1 h
      rfl
    | cons c cs =>
      rw [cut?, after?_eq_some_iff.2 h.symm]
      rfl
  | cons c x ih =>
    rw [List.cons_append, cut?]
    split
    · rfl
    · rw [Option.isSome_map, ih]

/-- **A text is contained** where it occurs as it is. -/
theorem contains_iff {needle t : Text} : contains t needle = true ↔ needle <:+: t := by
  constructor
  · intro h
    obtain ⟨⟨front, rest⟩, hcut⟩ := Option.isSome_iff_exists.1 h
    exact ⟨front, rest, (eq_of_cut? hcut).symm⟩
  · rintro ⟨x, y, rfl⟩
    rw [List.append_assoc]
    exact contains_append x needle y

/-- Lines, each with the line break that ends it. -/
def unlines (lines : List Text) : Text :=
  lines.flatMap fun line => line ++ ['\n']

/-- **A line among lines** is no occurrence before itself, when no line before it
ends with it. -/
theorem length_le_of_unlines {before : List Text} {line rest x y : Text} (hline : '\n' ∉ line)
    (hbefore : ∀ b ∈ before, '\n' ∉ b ∧ ¬line <:+ b)
    (h : unlines before ++ rest = x ++ (line ++ '\n' :: y)) :
    (unlines before).length ≤ x.length := by
  induction before generalizing x with
  | nil => exact Nat.zero_le _
  | cons b before ih =>
    obtain ⟨hb, hsuffix⟩ := hbefore b List.mem_cons_self
    have heq : b ++ '\n' :: (unlines before ++ rest) = x ++ (line ++ '\n' :: y) := by
      rw [← h]
      simp [unlines]
    rcases split_occurrence hline heq with ⟨z, hz, hrest⟩ | ⟨z, rfl, hz⟩
    · cases z with
      | nil =>
        rw [List.append_nil] at hz
        exact absurd ⟨x, hz.symm⟩ hsuffix
      | cons d z =>
        obtain ⟨rfl, _⟩ := List.cons.inj hrest
        exact absurd (by rw [hz]; simp) hb
    · have hlen := ih (fun b' hb' => hbefore b' (List.mem_cons_of_mem _ hb')) hz
      simp only [unlines, List.flatMap_cons, List.length_append, List.length_cons,
        List.length_nil] at hlen ⊢
      omega

end Text

/-- **An import is taken out** from where it is first. -/
theorem withoutImport_eq {before : List Text} {line rest : Text} (hline : '\n' ∉ line)
    (hbefore : ∀ b ∈ before, '\n' ∉ b ∧ ¬line <:+ b) :
    withoutImport (line ++ ['\n']) (Text.unlines before ++ (line ++ '\n' :: rest)) =
      Text.unlines before ++ rest := by
  have hcut : Text.cut? (line ++ ['\n']) (Text.unlines before ++ (line ++ '\n' :: rest)) =
      some (Text.unlines before, rest) := by
    refine Text.cut?_eq_of_first (by simp) fun x y hx => ?_
    have hlines : Text.unlines before ++ (line ++ '\n' :: rest) = x ++ (line ++ '\n' :: y) := by
      rw [hx]
      simp
    exact Text.length_le_of_unlines hline hbefore hlines
  unfold withoutImport Text.removeFirst?
  rw [if_neg (by simp), hcut]
  rfl

/-- **An import that comes first is taken out.** -/
theorem withoutImport_append {line : Text} (hline : line ≠ []) (t : Text) :
    withoutImport line (line ++ t) = t := by
  have hcut : Text.cut? line (line ++ t) = some ([], t) :=
    Text.cut?_eq_of_first rfl fun x y _ => Nat.zero_le _
  unfold withoutImport Text.removeFirst?
  rw [if_neg (by simp [hline]), hcut]
  rfl

/-! ## Lines that import -/

/-- What an import line begins with, in front of its brace. -/
def importLead : Text :=
  "import ".toList

/-- What stands between the symbol and the module. -/
def importFrom : Text :=
  " from '".toList

/-- What an import line ends with. -/
def importEnd : Text :=
  "';".toList

/-- An import line without its line break. -/
def bareImport (symbol module : Text) : Text :=
  importLead ++ '{' :: (' ' :: (symbol ++ ' ' :: '}' :: (importFrom ++ (module ++ importEnd))))

theorem importLine_eq (symbol module : Text) :
    importLine symbol module = bareImport symbol module ++ ['\n'] := by
  have hlead : "import \x7b ".toList = importLead ++ ['{', ' '] := by decide
  have hfrom : " \x7d from '".toList = [' ', '}'] ++ importFrom := by decide
  have hend : "';\n".toList = importEnd ++ ['\n'] := by decide
  unfold importLine bareImport
  rw [hlead, hfrom, hend]
  simp

/-- **What may stand in an import**: a symbol that is a name, and a module that
ends neither the line nor the braces. -/
structure IsImportable (symbol module : Text) : Prop where
  symbol_name : ∀ c ∈ symbol, isNameChar c = true
  module_line : '\n' ∉ module
  module_open : '{' ∉ module
  module_close : '}' ∉ module

variable {symbol module symbol' module' : Text}

theorem IsImportable.not_mem (h : IsImportable symbol module) {c : Char}
    (hc : isNameChar c = false) : c ∉ symbol := by
  intro hm
  rw [h.symbol_name c hm] at hc
  cases hc

theorem IsImportable.one_line (h : IsImportable symbol module) :
    '\n' ∉ bareImport symbol module := by
  have hlead : '\n' ∉ importLead := by decide
  have hfrom : '\n' ∉ importFrom := by decide
  have hend : '\n' ∉ importEnd := by decide
  simp [bareImport, h.not_mem (c := '\n') (by decide), h.module_line, hlead, hfrom, hend]

/-- **An import that another one ends with is that one.** -/
theorem eq_of_isSuffix_bareImport (h : IsImportable symbol module)
    (hsuffix : bareImport symbol' module' <:+ bareImport symbol module) :
    symbol' = symbol ∧ module' = module := by
  obtain ⟨x, hx⟩ := hsuffix
  have hlead : '{' ∉ importLead := by decide
  have hbehind : '{' ∉ ' ' :: (symbol ++ ' ' :: '}' :: (importFrom ++ (module ++ importEnd))) := by
    have hfrom : '{' ∉ importFrom := by decide
    have hend : '{' ∉ importEnd := by decide
    simp [h.not_mem (c := '{') (by decide), h.module_open, hfrom, hend]
  rw [bareImport, bareImport, ← List.append_assoc] at hx
  obtain ⟨_, _, hbraces⟩ := (List.append_cons_inj_of_notMem hlead hbehind).1 hx.symm
  -- behind the brace, the symbol ends at the closing one
  have hsymbol : '}' ∉ symbol ++ [' '] := by
    simp [h.not_mem (c := '}') (by decide)]
  have hmodule : '}' ∉ importFrom ++ (module ++ importEnd) := by
    have hfrom : '}' ∉ importFrom := by decide
    have hend : '}' ∉ importEnd := by decide
    simp [h.module_close, hfrom, hend]
  have hparts := (List.cons.inj hbraces).2
  rw [List.append_cons symbol, List.append_cons symbol'] at hparts
  obtain ⟨heq, _, hrest⟩ := (List.append_cons_inj_of_notMem hsymbol hmodule).1 hparts
  rw [List.append_cancel_left_eq, List.append_cancel_right_eq] at hrest
  exact ⟨(List.append_cancel_right heq).symm, hrest.symm⟩

/-- Lines that import symbols from their modules. -/
def importLines (imports : List (Text × Text)) : Text :=
  imports.flatMap fun i => importLine i.1 i.2

theorem importLines_append (xs ys : List (Text × Text)) :
    importLines (xs ++ ys) = importLines xs ++ importLines ys :=
  List.flatMap_append

/-- **The import of a module goes** from below the imports of others. -/
theorem withoutImport_importLines {before : List (Text × Text)} {rest : Text}
    (h : IsImportable symbol module)
    (hbefore : ∀ i ∈ before, IsImportable i.1 i.2 ∧ i.2 ≠ module) :
    withoutImport (importLine symbol module)
        (importLines before ++ (importLine symbol module ++ rest)) =
      importLines before ++ rest := by
  have hlines : importLines before = Text.unlines (before.map fun i => bareImport i.1 i.2) := by
    unfold importLines Text.unlines
    rw [List.flatMap_map]
    exact List.flatMap_congr fun i _ => importLine_eq i.1 i.2
  rw [hlines, importLine_eq, List.append_assoc]
  refine withoutImport_eq h.one_line fun b hb => ?_
  obtain ⟨i, hi, rfl⟩ := List.mem_map.1 hb
  obtain ⟨himportable, hne⟩ := hbefore i hi
  refine ⟨himportable.one_line, fun hsuffix => hne ?_⟩
  exact (eq_of_isSuffix_bareImport himportable hsuffix).2.symm

/-- **What no import line holds**: a character that is neither of a name nor of the
words and marks around symbol and module. -/
theorem not_mem_importLine (h : IsImportable symbol module) {c : Char} (hc : isNameChar c = false)
    (hmark : c ∉ ['{', '}', ' ', '\'', ';', '\n']) (hmodule : c ∉ module) :
    c ∉ importLine symbol module := by
  have hwords : ∀ d ∈ importLead ++ importFrom ++ importEnd, isNameChar d = true ∨
      d ∈ ['{', '}', ' ', '\'', ';', '\n'] := by
    decide
  have hword : c ∉ importLead ++ importFrom ++ importEnd := by
    intro hmem
    rcases hwords c hmem with hname | hd
    · rw [hc] at hname
      cases hname
    · exact hmark hd
  rw [importLine_eq]
  simp only [List.mem_append, List.mem_cons, List.not_mem_nil, or_false, not_or] at hword hmark
  simp [bareImport, hword, hmark, hmodule, h.not_mem hc]

end Fabula
