import Fabula.Proofs.Registry.Passages
import Fabula.Proofs.Union.Strings

/-!
# Unions of quoted literals

Between its quotes a literal may hold bars, blanks, quotes of other kinds and also the word of
the placeholder, which is dropped there like anywhere else. It is not read across the quotes,
though, so what is left of a union of literals is again literals, one for one, with the quotes
they had (`Union.IsQuoted.stripped`). A literal in which the placeholder does not stand is kept
as it is, and only such a one (`extendUnion_quoted`).

What is assumed of the union is only how its alternatives look: each is a quoted text, or the
placeholder, or blank, as in front of a leading bar (`Union.IsPart`). All of these are settled,
and each is whole, so the general statement about extensions applies.

## Whether a variant is there

That is decided by occurrence in all of the text. For a text between quotes of the kind the
literals have this is the same as to be one of them
(`UnionDeclaration.infix_normalized_iff_mem`). An occurrence begins and ends with a quote and
has none in between. It does not reach over a bar of the union, as its own bars are between
quotes, so it lies in one literal. If it is not all of it, one of its quotes is inside that
literal.

For literals in other quotes that is not so. A text may occur between them as a part of what
they hold, quotes included. Then the variant is taken to be there and is not written
(`mentions_literal_iff`).
-/

namespace Fabula

open scoped Engine.Tireless

namespace Union

open ScanState

variable {q : Char} {l p : Text}

/-! ## Quoted literals -/

namespace IsQuoted

variable (h : IsQuoted q l) (hq : isQuote q = true)
include h hq

theorem isString : IsString l := by
  obtain ⟨inner, hquote, hescape, rfl⟩ := h
  exact ⟨q, inner, hq, .of_not_mem hquote hescape, rfl⟩

theorem isAlternative : IsAlternative l := by
  have hstring := h.isString hq
  refine ⟨hstring.isUncut, hstring.endsOutside_iff.2 ?_⟩
  obtain ⟨inner, _, hescape, rfl⟩ := h
  rw [EndsInBackslash, ← List.cons_append, List.dropLast_concat]
  intro hlast
  rcases List.mem_cons.1 (List.mem_of_getLast? hlast) with rfl | hmem
  · cases hq
  · exact hescape hmem

theorem isSealed : IsSealed l := by
  obtain ⟨inner, _, _, rfl⟩ := h
  exact ⟨q, inner, q, isWall_of_isQuote hq, isWall_of_isQuote hq, rfl⟩

/-- **What is left of a literal** has the quotes it had. -/
theorem stripped : IsQuoted q (stripped l) := by
  obtain ⟨inner, hquote, hescape, rfl⟩ := h
  obtain ⟨inner', hsub, heq⟩ :=
    exists_stripped_sealed (isWall_of_isQuote hq) (isWall_of_isQuote hq) inner
  exact ⟨inner', fun hmem => hquote (hsub.subset hmem), fun hmem => hescape (hsub.subset hmem), heq⟩

end IsQuoted

/-- **What a union of literals is put together from**, blanks aside: literals, the
placeholder, and nothing at all, as in front of a leading bar. -/
def IsPart (p : Text) : Prop :=
  p.trim = [] ∨ p.trim = neverWord ∨ ∃ q, isQuote q = true ∧ IsQuoted q p.trim

namespace IsPart

/-- With quotes of one kind. -/
theorem of_quoted (hq : isQuote q = true) (h : p.trim = [] ∨ p.trim = neverWord ∨ IsQuoted q p.trim) :
    IsPart p :=
  h.imp_right fun h => h.imp_right fun h => ⟨q, hq, h⟩

variable (h : IsPart p)
include h

theorem isSettled : IsSettled p := by
  intro hholds
  rcases h with hnil | hnever | ⟨q, hq, hquoted⟩
  · rw [← holdsNever_trim, hnil] at hholds
    exact absurd hholds (by decide)
  · exact .inl hnever
  · exact .inr (hquoted.isSealed hq)

theorem isAlternative : IsAlternative p := by
  rw [← isAlternative_trim]
  rcases h with hnil | hnever | ⟨q, hq, hquoted⟩
  · rw [hnil]
    exact ⟨by decide, by decide⟩
  · rw [hnever]
    exact ⟨by decide, by decide⟩
  · exact hquoted.isAlternative hq

/-- What is left of it, unless it is the placeholder. -/
theorem isAlternative_left (hne : p.trim ≠ neverWord) : IsAlternative (stripped p.trim) := by
  rcases h with hnil | hnever | ⟨q, hq, hquoted⟩
  · rw [hnil, stripped_nil]
    exact ⟨by decide, by decide⟩
  · exact absurd hnever hne
  · exact (hquoted.stripped hq).isAlternative hq

end IsPart

/-- What is changed one by one begins with what there was if nothing is changed. -/
theorem prefix_map_concat_iff {f : Text → Text} {ls : List Text} {v : Text} :
    ls <+: ls.map f ++ [v] ↔ ∀ l ∈ ls, f l = l := by
  have hmap : ls.map f = ls ↔ ∀ l ∈ ls, f l = l := by
    conv_lhs => rhs; rw [← List.map_id ls]
    exact List.map_inj_left
  rw [← hmap]
  constructor
  · intro h
    have hshort : ls <+: ls.map f :=
      List.prefix_of_prefix_length_le h (List.prefix_append _ _) (by simp)
    exact (hshort.eq_of_length (by simp)).symm
  · intro h
    rw [h]
    exact List.prefix_append _ _

end Union

namespace UnionDeclaration

open Fabula.Union ScanState

variable {d : UnionDeclaration} {q : Char} {w l : Text} {pieces : List Text}

theorem mem_kept_iff : l ∈ d.kept ↔
    ∃ p ∈ alternatives d.rhs, p.trim ≠ neverWord ∧ stripped p.trim = l := by
  simp [kept, others, and_assoc]

/-- A right-hand side put together from parts has these alternatives. -/
theorem alternatives_of_parts (hne : pieces ≠ []) (hrhs : d.rhs = Text.join ['|'] pieces)
    (h : ∀ p ∈ pieces, IsPart p) : alternatives d.rhs = pieces := by
  rw [hrhs]
  exact (alternatives_of_join hne fun p hp => (h p hp).isAlternative).1

section Parts

variable (h : ∀ p ∈ alternatives d.rhs, IsPart p)
include h

theorem isAlternative_of_mem_kept : ∀ l ∈ d.kept, IsAlternative l := by
  intro l hl
  obtain ⟨p, hp, hne, rfl⟩ := mem_kept_iff.1 hl
  exact (h p hp).isAlternative_left hne

theorem variants_of_parts : d.variants = d.kept.filter (· ≠ []) :=
  variants_of_settled (fun p hp => (h p hp).isSettled) (.of_forall (isAlternative_of_mem_kept h))

theorem endsOutside_of_parts : EndsOutside d.normalized :=
  endsOutside_normalized (fun p hp => (h p hp).isSettled) fun l hl =>
    (isAlternative_of_mem_kept h l hl).closed

end Parts

/-- **A literal occurs where it is a variant**, and nowhere else, if all literals have its
quotes. -/
theorem infix_normalized_iff_mem (hq : isQuote q = true)
    (h : ∀ p ∈ alternatives d.rhs, p.trim = [] ∨ p.trim = neverWord ∨ IsQuoted q p.trim)
    (hw : IsQuoted q w) (hbar : '|' ∉ w) : w <:+: d.normalized ↔ w ∈ d.variants := by
  have hpart : ∀ p ∈ alternatives d.rhs, IsPart p := fun p hp => .of_quoted hq (h p hp)
  have hstring := hw.isString hq
  rw [infix_normalized_iff (fun p hp => (hpart p hp).isSettled) hstring.ne_nil hstring.trim_eq hbar,
    variants_of_parts hpart, List.mem_filter, and_iff_left (decide_eq_true hstring.ne_nil)]
  constructor
  · rintro ⟨l, hl, hinfix⟩
    obtain ⟨p, hp, hne, rfl⟩ := mem_kept_iff.1 hl
    rcases h p hp with hnil | hnever | hquoted
    · rw [hnil, stripped_nil] at hinfix
      exact absurd (List.infix_nil.1 hinfix) hstring.ne_nil
    · exact absurd hnever hne
    · obtain ⟨x, y, heq⟩ := hinfix
      rwa [hw.eq_of_occurrence (hquoted.stripped hq) (by rw [← heq, List.append_assoc])]
  · exact fun hmem => ⟨w, hmem, List.infix_rfl⟩

end UnionDeclaration

/-! ## Whether a passage is there -/

open Fabula.Union

/-- **A passage's literal occurs in a union of literals exactly when it is one of the
variants**, whatever else the literals hold, so a passage that is not listed is written into
the union, behind those that are, and then into the record. -/
theorem mentions_literal_iff [Engine] {p : PassageRef} {typeName source : Text} {d : UnionDeclaration}
    (pieces : List Text) (hp : p.IsValid) (hd : UnionDeclaration.find typeName source = .ok d)
    (hne : pieces ≠ []) (hrhs : d.rhs = Text.join ['|'] pieces)
    (hpieces : ∀ t ∈ pieces, t.trim = [] ∨ t.trim = neverWord ∨ IsQuoted '\'' t.trim) :
    (d.mentions p.literal = true ↔ p.literal ∈ d.variants) ∧
    (p.literal ∉ d.variants → ∃ extended e, extendUnion typeName p.literal source = .ok extended ∧
      (Completes (UnionDeclaration.find typeName extended) →
        UnionDeclaration.find typeName extended = .ok e) ∧ extended = d.front ++ e.rhs ++ d.rest ∧
      e.variants = d.variants ++ [p.literal] ∧
      ∀ module text, typeName = Template.passageIdType p.event → source = p.importLine module ++ text →
        p.addTo module text = .within (.addingPassage p) (.ofEdit
          (insertEntry .binding (Template.passageContainer p.event) p.entry .comma extended))) := by
  have hl := hp.isLiteral
  have hstring := hl.isQuoted.isString rfl
  have hbar : '|' ∉ p.literal := hl.not_mem (by decide) (by decide)
  have hpart : ∀ t ∈ pieces, IsPart t := fun t ht => .of_quoted rfl (hpieces t ht)
  have halternatives := UnionDeclaration.alternatives_of_parts hne hrhs hpart
  rw [← halternatives] at hpieces hpart
  have hoccurs : p.literal <:+: d.normalized ↔ p.literal ∈ d.variants :=
    UnionDeclaration.infix_normalized_iff_mem rfl hpieces hl.isQuoted hbar
  refine ⟨UnionDeclaration.mentions_iff.trans hoccurs, fun hnew => ?_⟩
  obtain ⟨extended, e, hextended, hfound, hframe, _, _, _, hvariants, _⟩ :=
    UnionDeclaration.exists_extendUnion hstring.ne_nil hstring.trim_eq
      (hl.not_mem (by decide) (by decide)) (IsGuarded.of_literal hl).not_holdsNever hstring.isUncut hd
      (UnionDeclaration.endsOutside_of_parts hpart) (hoccurs.not.2 hnew)
  refine ⟨extended, e, hextended, hfound, hframe, hvariants, ?_⟩
  rintro module text rfl rfl
  unfold PassageRef.addTo
  rw [hextended]
  rfl

/-- A passage whose literal stands in a longer one and, in other quotes, in a second one. -/
def palace : PassageRef :=
  ⟨"kingdom".toList, "annie".toList, "palace".toList⟩

/-- The union with these two, where the second one also holds a bar and the placeholder. -/
def palaceUnion : Text :=
  "type TKingdomPassageId =\n\t".toList ++
    "| 'kingdom-annie-palaces' | never |\n\t'\"kingdom-annie-palace\" | never '".toList ++ " ;\n".toList

theorem mentions_literal_iff_palace :
    ∃ d extended e, UnionDeclaration.find "TKingdomPassageId".toList
        (palace.importLine "./palace".toList ++ palaceUnion) = .ok d ∧
      d.mentions palace.literal = false ∧
      extendUnion "TKingdomPassageId".toList palace.literal
        (palace.importLine "./palace".toList ++ palaceUnion) = .ok extended ∧
      UnionDeclaration.find "TKingdomPassageId".toList extended = .ok e ∧
      e.variants = ["'kingdom-annie-palaces'".toList, "'\"kingdom-annie-palace\" '".toList,
        "'kingdom-annie-palace'".toList] ∧
      palace.addTo "./palace".toList palaceUnion =
        .within (.addingPassage palace) (.ofEdit (insertEntry .binding
          (Template.passageContainer "kingdom".toList) palace.entry .comma extended)) := by
  have hd : UnionDeclaration.find "TKingdomPassageId".toList
      (palace.importLine "./palace".toList ++ palaceUnion) =
      .ok ⟨"TKingdomPassageId".toList,
        palace.importLine "./palace".toList ++ "type TKingdomPassageId =\n\t".toList,
        "| 'kingdom-annie-palaces' | never |\n\t'\"kingdom-annie-palace\" | never '".toList,
        " ;\n".toList⟩ := by
    decide +kernel
  obtain ⟨hiff, hwritten⟩ := mentions_literal_iff (p := palace) [[],
    " 'kingdom-annie-palaces' ".toList, " never ".toList,
    "\n\t'\"kingdom-annie-palace\" | never '".toList] (by decide) hd (by decide) (by decide) (by decide)
  have hnew := hiff.not.2 (by decide +kernel)
  obtain ⟨extended, e, hextended, hfound, _, hvariants, hadd⟩ := hwritten (by decide +kernel)
  exact ⟨_, extended, e, hd, Bool.eq_false_iff.2 hnew, hextended,
    hfound (UnionDeclaration.completes_find_tireless _ _), hvariants.trans (by decide +kernel), hadd _ _ rfl rfl⟩

/-! ## What an extension keeps -/

/-- **An extension keeps a literal if and only if the placeholder does not stand in it.** All
the literals stay where they were, with the new one behind them, and of each one is left what
is left of it alone. -/
theorem extendUnion_quoted [Engine] {typeName source v : Text} {d : UnionDeclaration}
    (pieces ls : List Text) (hne : ls ≠ []) (hd : UnionDeclaration.find typeName source = .ok d)
    (hrhs : d.rhs = Text.join ['|'] pieces) (hpieces : pieces.map Text.trim = ls)
    (hls : ∀ l ∈ ls, ∃ q, ScanState.isQuote q = true ∧ IsQuoted q l) (hv : IsString v) :
    (v <:+: d.normalized → extendUnion typeName v source = .ok source) ∧
    (¬v <:+: d.normalized → ∃ rhs, extendUnion typeName v source = .ok (d.front ++ rhs ++ d.rest) ∧
      source = d.front ++ d.rhs ++ d.rest ∧
      (';' ∉ v → Completes (UnionDeclaration.find typeName (d.front ++ rhs ++ d.rest)) →
        UnionDeclaration.find typeName (d.front ++ rhs ++ d.rest) = .ok { d with rhs }) ∧
      listed rhs = ls.map stripped ++ [v] ∧
      (ls <+: listed rhs ↔ ∀ l ∈ ls, ¬HoldsNever l)) := by
  have hmem : ∀ p ∈ pieces, p.trim ∈ ls := fun p hp => hpieces ▸ List.mem_map_of_mem hp
  have hpart : ∀ p ∈ pieces, IsPart p := fun p hp => .inr (.inr (hls _ (hmem p hp)))
  have hnil : pieces ≠ [] := by
    rintro rfl
    exact hne hpieces.symm
  have halternatives := UnionDeclaration.alternatives_of_parts hnil hrhs hpart
  rw [← halternatives] at hpart
  have hothers : others (alternatives d.rhs) = ls := by
    rw [others, halternatives, hpieces, List.filter_eq_self]
    intro l hl
    obtain ⟨q, hq, hquoted⟩ := hls l hl
    exact decide_eq_true (hquoted.isString hq).ne_neverWord
  have hkept : d.kept = ls.map stripped := congrArg (List.map stripped) hothers
  have hvariants : d.variants = ls.map stripped := by
    rw [UnionDeclaration.variants_of_parts hpart, hkept, List.filter_eq_self, List.forall_mem_map]
    intro l hl
    obtain ⟨q, hq, hquoted⟩ := hls l hl
    exact decide_eq_true ((hquoted.stripped hq).isString hq).ne_nil
  refine ⟨fun hinfix => ?_, fun hnew => ?_⟩
  · rw [UnionDeclaration.extendUnion_eq hd, if_pos (UnionDeclaration.mentions_iff.2 hinfix)]
  · have hlisted : listed (d.extended v) = ls.map stripped ++ [v] := by
      rw [← hvariants]
      exact UnionDeclaration.variants_extended hv.ne_nil hv.trim_eq hv.isUncut
        (UnionDeclaration.endsOutside_of_parts hpart)
    refine ⟨d.extended v, ?_, (UnionDeclaration.eq_of_find hd).1,
      UnionDeclaration.find_extended hd hv.ne_nil hv.trim_eq, hlisted, ?_⟩
    · rw [UnionDeclaration.extendUnion_eq hd, if_neg (UnionDeclaration.mentions_iff.not.2 hnew)]
      rfl
    · rw [hlisted, prefix_map_concat_iff]
      refine forall₂_congr fun l hl => ?_
      obtain ⟨q, hq, hquoted⟩ := hls l hl
      exact stripped_eq_self_iff (hquoted.isString hq).trim_eq

/-- Literals of two kinds with a bar, a blank and other quotes between them: the one that holds
the placeholder is shortened, and the other ones are not. -/
theorem extendUnion_quoted_shortened :
    ∃ rhs, extendUnion "T".toList "'b'".toList
        "type T = \"it's 'never'\"\n| 'x | never ' | '|never';".toList =
        .ok ("type T = ".toList ++ rhs ++ ";".toList) ∧
      listed rhs = ["\"it's 'never'\"".toList, "'x '".toList, "'|never'".toList, "'b'".toList] ∧
      ¬["\"it's 'never'\"".toList, "'x | never '".toList, "'|never'".toList] <+: listed rhs := by
  have hd : UnionDeclaration.find "T".toList
      "type T = \"it's 'never'\"\n| 'x | never ' | '|never';".toList =
        .ok ⟨"T".toList, "type T = ".toList, "\"it's 'never'\"\n| 'x | never ' | '|never'".toList,
          ";".toList⟩ := by
    decide +kernel
  have hquoted : ∀ l ∈ ["\"it's 'never'\"".toList, "'x | never '".toList, "'|never'".toList],
      ∃ q, ScanState.isQuote q = true ∧ IsQuoted q l := by
    rw [List.forall_mem_cons, List.forall_mem_cons, List.forall_mem_singleton]
    exact ⟨⟨'"', by decide, by decide⟩, ⟨'\'', by decide, by decide⟩, ⟨'\'', by decide, by decide⟩⟩
  obtain ⟨rhs, hextended, _, _, hlisted, hkept⟩ := (extendUnion_quoted
    ["\"it's 'never'\"\n".toList, " 'x | never ' ".toList, " '|never'".toList]
    ["\"it's 'never'\"".toList, "'x | never '".toList, "'|never'".toList] (v := "'b'".toList)
    (by decide) hd (by decide) (by decide) hquoted (by decide)).2 (by decide +kernel)
  exact ⟨rhs, hextended, hlisted.trans (by decide +kernel), hkept.not.2 (by decide +kernel)⟩

/-- **A placeholder inside a literal is dropped** when the union is extended. -/
theorem extendUnion_of_never_inside :
    extendUnion "T".toList "'b'".toList "type T = 'now or never again';".toList =
      .ok "type T = 'now or  again' |\n\t'b';".toList ∧
    ¬"'b'".toList <:+: "type T = 'now or never again';".toList ∧
    IsQuoted '\'' "'now or never again'".toList ∧
    "'now or never again'".toList ∉ listed "'now or  again' |\n\t'b'".toList := by
  decide +kernel

end Fabula
