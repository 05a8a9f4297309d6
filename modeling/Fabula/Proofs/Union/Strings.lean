import Fabula.Proofs.Union.Shrinking

/-!
# A union of strings is read as it is written

A string is written between two quotes of one kind, and a backslash in it takes the next
character with it (`Union.IsString`). So whether a quote closes its string depends on how many
backslashes stand before it. The scan that cuts a union remembers one character only, and takes
each quote behind a backslash for one that does not close. This module says when the two
readings agree.

## One string

Inside a string they agree, because every quote of its kind there is escaped, and so has a
backslash before it. The rest of its text, be it bars, brackets or other quotes, is passed over
by both (`Union.IsBody.after_eq`, `Union.IsString.isUncut`). They part at the closing quote of a
string that ends in an escaped backslash: there the scan goes on into what follows
(`Union.IsString.endsOutside_iff`).

## A union of them

So every string but the last has to end otherwise. If it does, all of them are alternatives, and
a union of alternatives is cut into them, whatever blanks stand around them. If it does not,
then the strings are not the alternatives, because alternatives with another one behind them end
outside (`Union.areAlternatives_strings`). Therefore a union of strings is read as it
is written if and only if no string but the last one ends in an escaped backslash
(`variants_of_strings`). The placeholder plays no part in this, and is excluded
by assumption.

A union that is not read as it is written has variants that cannot be removed, since what is
taken out is an alternative (`variants_of_escaped_backslash`).
-/

namespace Fabula

open scoped Engine.Tireless

namespace Union

open ScanState

variable {q c : Char} {l body : Text} {ls pieces : List Text}

/-! ## Strings -/

/-- **What stands between two quotes**: a backslash takes the next character with it, and
apart from that there is no quote of this kind. -/
inductive IsBody (q : Char) : Text → Prop
  | nil : IsBody q []
  | plain {c : Char} {t : Text} : c ≠ q → c ≠ '\\' → IsBody q t → IsBody q (c :: t)
  | escape {c : Char} {t : Text} : IsBody q t → IsBody q ('\\' :: c :: t)

/-- **A string**, between quotes of any of the three kinds. What else is asked of it, such
as which characters may be escaped, is of no account here. -/
def IsString (l : Text) : Prop :=
  ∃ q body, isQuote q = true ∧ IsBody q body ∧ l = q :: (body ++ [q])

/-- **A text with a backslash before its last character.** Of a string this says that it
ends in an escaped backslash. -/
def EndsInBackslash (l : Text) : Prop :=
  l.dropLast.getLast? = some '\\'

instance (l : Text) : Decidable (EndsInBackslash l) :=
  inferInstanceAs (Decidable (_ = _))

instance decidableIsBody (q : Char) : (t : Text) → Decidable (IsBody q t)
  | [] => isTrue .nil
  | [c] => decidable_of_iff (c ≠ q ∧ c ≠ '\\') <| by
    constructor
    · exact fun h => .plain h.1 h.2 .nil
    · intro h
      cases h with
      | plain hquote hescape _ => exact ⟨hquote, hescape⟩
  | c :: d :: t =>
    have := decidableIsBody q t
    have := decidableIsBody q (d :: t)
    decidable_of_iff (if c = '\\' then IsBody q t else c ≠ q ∧ IsBody q (d :: t)) <| by
      constructor
      · intro h
        split_ifs at h with hc
        · exact hc ▸ .escape h
        · exact .plain h.1 hc h.2
      · intro h
        cases h with
        | plain hquote hescape ht => rw [if_neg hescape]; exact ⟨hquote, ht⟩
        | escape ht => rw [if_pos rfl]; exact ht

instance : (l : Text) → Decidable (IsString l)
  | [] => isFalse <| by
    rintro ⟨q, body, _, _, h⟩
    cases h
  | q :: t => decidable_of_iff (isQuote q = true ∧ IsBody q t.dropLast ∧ t.getLast? = some q) <| by
    constructor
    · rintro ⟨hq, hbody, hlast⟩
      exact ⟨q, t.dropLast, hq, hbody, by rw [List.dropLast_append_getLast? q hlast]⟩
    · rintro ⟨q', body, hq, hbody, h⟩
      obtain ⟨rfl, rfl⟩ := List.cons.inj h
      rw [List.dropLast_concat, List.getLast?_concat]
      exact ⟨hq, hbody, rfl⟩

/-- Without quotes and backslashes, any text is one. -/
theorem IsBody.of_not_mem {t : Text} (hquote : q ∉ t) (hescape : '\\' ∉ t) : IsBody q t := by
  induction t with
  | nil => exact .nil
  | cons c t ih =>
    rw [List.mem_cons, not_or] at hquote hescape
    exact .plain (Ne.symm hquote.1) (Ne.symm hescape.1) (ih hquote.2 hescape.2)

/-! ## Reading a string -/

theorem ne_backslash_of_isQuote (hq : isQuote q = true) : q ≠ '\\' := by
  rintro rfl
  cases hq

/-- A quote opens a string. -/
theorem next_quote (hq : isQuote q = true) : ScanState.start.next q = ⟨some q, 0, q⟩ := by
  simp [next, ScanState.start, hq]

/-- A character in a string that does not close it. -/
theorem next_inside {depth : Nat} {previous : Char} (h : c ≠ q ∨ previous = '\\') :
    (ScanState.mk (some q) depth previous).next c = ⟨some q, depth, c⟩ := by
  unfold next
  rcases h with hc | rfl
  · simp [hc]
  · simp

namespace IsBody

variable (h : IsBody q body) (hq : q ≠ '\\')
include h hq

/-- **Inside a string** the scan stays in it, whatever it has read before. -/
theorem after_eq (depth : Nat) (previous : Char) :
    (ScanState.mk (some q) depth previous).after body = ⟨some q, depth, body.getLastD previous⟩ := by
  induction h generalizing previous with
  | nil => rfl
  | plain hc _ _ ih => rw [after_cons, next_inside (.inl hc), ih, List.getLastD_cons]
  | escape _ ih =>
    rw [after_cons, after_cons, next_inside (.inl (Ne.symm hq)), next_inside (.inr rfl), ih,
      List.getLastD_cons, List.getLastD_cons]

/-- It cuts nothing there, and nothing at the quote behind. -/
theorem isUncut (depth : Nat) (previous : Char) :
    IsUncut ⟨some q, depth, previous⟩ (body ++ [q]) := by
  have hinside : ∀ (c previous : Char),
      (c == '|' && (ScanState.mk (some q) depth previous).atTop) = false :=
    fun c previous => Bool.and_false _
  induction h generalizing previous with
  | nil => exact isUncut_cons_iff.2 ⟨hinside q previous, isUncut_nil _⟩
  | @plain c t hc _ _ ih =>
    refine isUncut_cons_iff.2 ⟨hinside c previous, ?_⟩
    rw [next_inside (.inl hc)]
    exact ih c
  | @escape c t _ ih =>
    refine isUncut_cons_iff.2 ⟨hinside '\\' previous, ?_⟩
    rw [next_inside (.inl (Ne.symm hq))]
    refine isUncut_cons_iff.2 ⟨hinside c '\\', ?_⟩
    rw [next_inside (.inr rfl)]
    exact ih c

end IsBody

namespace IsString

variable (h : IsString l)
include h

theorem ne_nil : l ≠ [] := by
  obtain ⟨q, body, _, _, rfl⟩ := h
  exact List.cons_ne_nil _ _

theorem ne_neverWord : l ≠ neverWord := by
  obtain ⟨q, body, hq, _, rfl⟩ := h
  intro heq
  exact (isWall_of_isQuote hq).not_word (heq ▸ List.mem_cons_self)

theorem trim_eq : l.trim = l := by
  obtain ⟨q, body, hq, _, rfl⟩ := h
  exact trim_sealed (isWall_of_isQuote hq) (isWall_of_isQuote hq) body

theorem isUncut : IsUncut .start l := by
  obtain ⟨q, body, hq, hbody, rfl⟩ := h
  refine isUncut_cons_iff.2 ⟨?_, ?_⟩
  · rw [beq_eq_false_iff_ne.2 (isWall_of_isQuote hq).not_bar, Bool.false_and]
  · rw [next_quote hq]
    exact hbody.isUncut (ne_backslash_of_isQuote hq) 0 q

/-- **A string is read to its end unless that is escaped.** -/
theorem endsOutside_iff : EndsOutside l ↔ ¬EndsInBackslash l := by
  obtain ⟨q, body, hq, hbody, rfl⟩ := h
  have hlast : (q :: (body ++ [q])).dropLast.getLast? = some (body.getLastD q) := by
    rw [← List.cons_append, List.dropLast_concat, List.getLast?_cons, List.getLastD_eq_getLast?]
  unfold EndsOutside EndsInBackslash
  rw [after_cons, next_quote hq, after_append, hbody.after_eq (ne_backslash_of_isQuote hq), hlast,
    Option.some_inj]
  simp [next, atTop]

end IsString

/-- **Which strings may be the alternatives of a union.** -/
theorem areAlternatives_strings (hls : ∀ l ∈ ls, IsString l) :
    AreAlternatives ls ↔ ∀ l ∈ ls.dropLast, ¬EndsInBackslash l := by
  rw [areAlternatives_iff, and_iff_right fun l hl => (hls l hl).isUncut]
  exact forall₂_congr fun l hl => (hls l (List.dropLast_subset ls hl)).endsOutside_iff

end Union

namespace UnionDeclaration

open Fabula.Union

variable {d : UnionDeclaration} {typeName source rest l : Text} {pieces ls : List Text}

/-- **A declaration with nothing in front of it**, its alternatives written with the blanks
around them. -/
def written (typeName : Text) (pieces : List Text) (rest : Text) : Text :=
  typeWord ++ ' ' :: (typeName ++ (equalsSign ++ (Text.join ['|'] pieces ++ ';' :: rest)))

/-- It is found. -/
theorem find_written (typeName rest : Text) (hne : (Text.join ['|'] pieces).trim ≠ [])
    (hend : ∀ p ∈ pieces, ';' ∉ p) : ∃ d, find typeName (written typeName pieces rest) = .ok d ∧
      d.rhs = (Text.join ['|'] pieces).trim := by
  obtain ⟨before, behind, hbefore, hbehind, heq⟩ := Text.exists_trim (Text.join ['|'] pieces)
  have hhead : IsHead typeName (typeWord ++ ' ' :: (typeName ++ (equalsSign ++ before))) :=
    ⟨[' '], [' '], ' ' :: before, by decide, by decide, by decide,
      List.forall_mem_cons.2 ⟨by decide, hbefore⟩, by simp [equalsSign]⟩
  have hrhs : ';' ∉ (Text.join ['|'] pieces).trim := by
    rw [Text.mem_trim_iff (by decide)]
    exact Text.not_mem_join (by decide) hend
  obtain ⟨c, t, hc⟩ := List.exists_cons_of_ne_nil hne
  have hblank : isBlank c = false :=
    Text.isBlank_of_dropWhile_eq (hc ▸ (Text.trim_eq_self (Text.trim_trim _)).1)
  refine ⟨⟨typeName, _, (Text.join ['|'] pieces).trim, behind ++ ';' :: rest⟩,
    find_eq_ok_iff.2 ⟨rfl, [], _, behind, rest, hhead, rfl, hbehind, rfl, rfl, hrhs,
      Text.trim_trim _, ?_, ?_, trivial⟩, rfl⟩
  · rw [hc]
    exact List.dropWhile_cons_of_neg (by simp [hblank])
  · rw [written]
    conv_lhs => rw [heq]
    simp

/-- Whatever is listed may be alternatives. -/
theorem areAlternatives_variants (d : UnionDeclaration) : AreAlternatives d.variants :=
  (areAlternatives_map_trim.2 (areAlternatives_alternatives d.normalized)).sublist List.filter_sublist

/-! ## Alternatives that are not the placeholder -/

section Plain

variable (hmap : (alternatives d.rhs).map Text.trim = ls) (hsay : ∀ l ∈ ls, l ≠ [])
  (hnever : ∀ l ∈ ls, ¬HoldsNever l)

include hmap hsay in
theorem listed_of_map_trim : listed d.rhs = ls := by
  rw [listed, hmap, List.filter_eq_self]
  exact fun l hl => decide_eq_true (hsay l hl)

include hmap hnever in
theorem alone_of_map_trim : ∀ p ∈ alternatives d.rhs, HoldsNever p → p.trim = neverWord := by
  intro p hp hholds
  exact absurd (holdsNever_trim.2 hholds) (hnever _ (hmap ▸ List.mem_map_of_mem hp))

include hmap hsay hnever

/-- They are the variants. -/
theorem variants_of_map_trim : d.variants = ls := by
  rw [variants_eq_listed (alone_of_map_trim hmap hnever), listed_of_map_trim hmap hsay,
    List.filter_eq_self]
  intro l hl
  refine decide_eq_true ?_
  rintro rfl
  exact hnever neverWord hl (by decide)

/-- Each one can be removed. -/
theorem exists_shrinkUnion_of_map_trim [Engine] (hd : find typeName source = .ok d)
    (hl : l ∈ ls) : ∃ shrunk e, shrinkUnion typeName l source = .ok shrunk ∧
      (Completes (find typeName shrunk) → find typeName shrunk = .ok e) ∧
      e = { d with rhs := e.rhs } ∧ shrunk = d.front ++ e.rhs ++ d.rest ∧
      e.variants = ls.erase l := by
  have hmem : ∃ p ∈ alternatives d.rhs, p.trim = l := List.mem_map.1 (hmap.symm ▸ hl)
  have htrim : l.trim = l := by
    obtain ⟨p, _, rfl⟩ := hmem
    exact Text.trim_trim p
  have hblank : ∀ p ∈ (alternatives d.rhs).tail, p.trim ≠ [] := fun p hp =>
    hsay _ (hmap ▸ List.mem_map_of_mem (List.mem_of_mem_tail hp))
  obtain ⟨left, hsub, hleft, hshrunk, hfound⟩ := exists_shrinkUnion htrim hd hmem
  refine ⟨_, _, hshrunk, hfound, rfl, rfl, ?_⟩
  rw [variants_rejoined hsub hblank (alone_of_map_trim hmap hnever), hleft, ← List.erase_filter,
    ← variants_eq_listed (alone_of_map_trim hmap hnever), variants_of_map_trim hmap hsay hnever]

end Plain

end UnionDeclaration

/-! ## Reading and shrinking -/

open Fabula.Union UnionDeclaration

/-- **A union of strings without the placeholder is read as it is written, if and only if no
string but the last ends in a backslash.** Then each of its strings can be removed, and the
others are left, without the first one that is equal to it, for all that the engine does not
give up. -/
theorem variants_of_strings [Engine] (typeName rest : Text) (pieces ls : List Text) (hne : ls ≠ [])
    (hpieces : pieces.map Text.trim = ls) (hls : ∀ l ∈ ls, IsString l) (hend : ∀ l ∈ ls, ';' ∉ l)
    (hnever : ∀ l ∈ ls, ¬HoldsNever l)
    (hsearch : Completes (find typeName (written typeName pieces rest))) :
    ∃ d, find typeName (written typeName pieces rest) = .ok d ∧
      (d.variants = ls ↔ ∀ l ∈ ls.dropLast, ¬EndsInBackslash l) ∧
      ((∀ l ∈ ls.dropLast, ¬EndsInBackslash l) → ∀ l ∈ ls, ∃ shrunk e,
        shrinkUnion typeName l (written typeName pieces rest) = .ok shrunk ∧
        (Completes (find typeName shrunk) → find typeName shrunk = .ok e) ∧
        e = { d with rhs := e.rhs } ∧
        written typeName pieces rest = d.front ++ d.rhs ++ d.rest ∧
        shrunk = d.front ++ e.rhs ++ d.rest ∧ e.variants = ls.erase l) := by
  have hmem : ∀ p ∈ pieces, p.trim ∈ ls := fun p hp => hpieces ▸ List.mem_map_of_mem hp
  have hsay : ∀ l ∈ ls, l ≠ [] := fun l hl => (hls l hl).ne_nil
  have hjoin : (Text.join ['|'] pieces).trim ≠ [] := by
    intro hnil
    obtain ⟨l, hl⟩ := List.exists_mem_of_ne_nil ls hne
    obtain ⟨p, hp, rfl⟩ := List.mem_map.1 (hpieces.symm ▸ hl)
    exact hsay _ hl (trim_eq_nil_of_join hnil p hp)
  obtain ⟨d, htireless, hrhs⟩ := find_written typeName rest hjoin fun p hp hp' =>
    hend _ (hmem p hp) ((Text.mem_trim_iff (by decide)).2 hp')
  have hd := ((isSteady_find _ _).eq hsearch).trans htireless
  have hread : (∀ l ∈ ls.dropLast, ¬EndsInBackslash l) →
      (alternatives d.rhs).map Text.trim = ls := by
    intro hclosed
    have hwhole : AreAlternatives (pieces.map Text.trim) :=
      hpieces.symm ▸ (areAlternatives_strings hls).2 hclosed
    have hnil : pieces ≠ [] := by
      rintro rfl
      exact hne hpieces.symm
    rw [hrhs, (areAlternatives_map_trim.1 hwhole).map_trim_join hnil, hpieces]
  refine ⟨d, hd, ⟨fun h => ?_, fun h => ?_⟩, fun h l hl => ?_⟩
  · exact (areAlternatives_strings hls).1 (h ▸ areAlternatives_variants d)
  · exact variants_of_map_trim (hread h) hsay hnever
  · obtain ⟨shrunk, e, hshrunk, hfound, he, hframe, hvariants⟩ :=
      exists_shrinkUnion_of_map_trim (hread h) hsay hnever hd hl
    exact ⟨shrunk, e, hshrunk, hfound, he, (eq_of_find hd).1, hframe, hvariants⟩

/-- Strings with bars, brackets, an arrow and quotes in them, one of them twice, and a
backslash at the end of the last one. -/
theorem variants_of_strings_escaped :
    ∃ d, find "T<A = B>".toList
        "type T<A = B> = 'a|\\'(' |\n\t\"=>'\" | 'a|\\'(' | 'b\\\\';\n".toList = .ok d ∧
      d.variants = ["'a|\\'('".toList, "\"=>'\"".toList, "'a|\\'('".toList, "'b\\\\'".toList] ∧
      ∃ shrunk e, shrinkUnion "T<A = B>".toList "'a|\\'('".toList
          "type T<A = B> = 'a|\\'(' |\n\t\"=>'\" | 'a|\\'(' | 'b\\\\';\n".toList = .ok shrunk ∧
        find "T<A = B>".toList shrunk = .ok e ∧
        e.variants = ["\"=>'\"".toList, "'a|\\'('".toList, "'b\\\\'".toList] := by
  have hsource : "type T<A = B> = 'a|\\'(' |\n\t\"=>'\" | 'a|\\'(' | 'b\\\\';\n".toList =
      written "T<A = B>".toList ["'a|\\'(' ".toList, "\n\t\"=>'\" ".toList, " 'a|\\'(' ".toList,
        " 'b\\\\'".toList] "\n".toList := by
    decide
  obtain ⟨d, hd, hvariants, hshrink⟩ := variants_of_strings "T<A = B>".toList "\n".toList
    ["'a|\\'(' ".toList, "\n\t\"=>'\" ".toList, " 'a|\\'(' ".toList, " 'b\\\\'".toList] _
    (by decide) rfl (by decide) (by decide) (by decide) (completes_find_tireless _ _)
  obtain ⟨shrunk, e, hshrunk, he, _, _, _, hleft⟩ := hshrink (by decide) "'a|\\'('".toList (by decide)
  rw [hsource]
  exact ⟨d, hd, (hvariants.2 (by decide)).trans (by decide), shrunk, e, hshrunk,
    he (completes_find_tireless _ _), hleft.trans (by decide)⟩

/-- **Behind an escaped backslash a closing quote is passed over**: the two strings are read as
one variant, and the second one cannot be removed. -/
theorem variants_of_escaped_backslash :
    (∀ l ∈ ["'a\\\\'".toList, "'b'".toList], IsString l ∧ ';' ∉ l ∧ ¬HoldsNever l) ∧
    (find "T".toList "type T = 'a\\\\' | 'b';".toList).map variants = .ok ["'a\\\\' | 'b'".toList] ∧
    shrinkUnion "T".toList "'b'".toList "type T = 'a\\\\' | 'b';".toList =
      .error (.variantNotFound "T".toList "'b'".toList) := by
  decide +kernel

end Fabula
