import Fabula.Proofs.Union.Dropping

/-!
# An extension appends one variant, once

An extension drops the placeholder and writes the variant behind a bar. What the union lists
afterwards is read by another scan, which looks for quotes and brackets, so the two must agree
on where an alternative ends. They do where the alternatives are settled: what is appended to is
then put together from what is left of each of them (`UnionDeclaration.exists_normalized`), and
where all of that ends outside quotes and brackets, the new bar is at the top
(`UnionDeclaration.variants_extended`). If each placeholder is an alternative by itself, the
others are left as they are (`UnionDeclaration.kept_eq_others`).

The name of the type is any text, and the variant may leave a quote or a bracket open, since
nothing is read behind it.

## Once

Whether the variant is there already is decided by occurrence. A variant that occurs in the
right-hand side without its placeholders changes nothing, even if it occurs in another variant
only. One that was just written does occur, and there is no placeholder any more
(`UnionDeclaration.infix_extended`, `UnionDeclaration.not_holdsNever_extended`). So a second
extension changes nothing, once the declaration is found again.

It is found again because only its right-hand side was rewritten, and what is in it now has no
`;` (`UnionDeclaration.find_extended`). That search, and the two by which the placeholder is
dropped, may be given up, in the new text as well as in the old one. So what is said of the
declaration that was written is said of it as a decomposition of the text, and that it is found
is claimed where the search for it is completed (`extendUnion_appends`).
-/

namespace Fabula

open scoped Engine.Tireless

open Fabula.Union

namespace UnionDeclaration

variable {d : UnionDeclaration} {typeName source v : Text}

/-! ## The right-hand side without the placeholder -/

theorem trim_normalized (d : UnionDeclaration) : d.normalized.trim = d.normalized :=
  Text.trim_trim _

theorem not_holdsNever_normalized (d : UnionDeclaration) : ¬HoldsNever d.normalized :=
  not_holdsNever_stripped d.rhs

/-- What a right-hand side lacks, it lacks without its placeholders. -/
theorem not_mem_normalized {c : Char} (hc : c ∉ d.rhs) : c ∉ d.normalized :=
  fun hmem => hc ((stripped_sublist d.rhs).subset hmem)

/-- **What is left of the alternatives** that are not the placeholder. -/
def kept (d : UnionDeclaration) : List Text :=
  (others (alternatives d.rhs)).map stripped

/-- **A right-hand side of settled alternatives** is put together from what is left of them. -/
theorem exists_normalized (h : ∀ p ∈ alternatives d.rhs, IsSettled p) :
    ∃ pieces, pieces.map Text.trim = d.kept ∧ d.normalized = (Text.join ['|'] pieces).trim := by
  obtain ⟨pieces, hpieces, hjoin⟩ := exists_stripped (go_ne_nil .start d.rhs) h
  refine ⟨pieces, hpieces, ?_⟩
  rw [normalized, ← hjoin]
  exact congrArg stripped (join_alternatives d.rhs).symm

/-- It ends outside quotes and brackets when all that is left of them does. -/
theorem endsOutside_normalized (h : ∀ p ∈ alternatives d.rhs, IsSettled p)
    (hclosed : ∀ l ∈ d.kept, EndsOutside l) : EndsOutside d.normalized := by
  obtain ⟨pieces, hpieces, hnormalized⟩ := exists_normalized h
  rw [hnormalized, endsOutside_trim]
  refine endsOutside_join fun p hp => endsOutside_trim.1 (hclosed _ ?_)
  exact hpieces ▸ List.mem_map_of_mem hp

/-- **A text without a bar occurs in it where it occurs in one of them.** -/
theorem infix_normalized_iff (h : ∀ p ∈ alternatives d.rhs, IsSettled p) (hv : v ≠ [])
    (htrim : v.trim = v) (hbar : '|' ∉ v) : v <:+: d.normalized ↔ ∃ l ∈ d.kept, v <:+: l := by
  obtain ⟨pieces, hpieces, hnormalized⟩ := exists_normalized h
  rw [hnormalized, Text.infix_trim_iff htrim, Text.infix_join_iff hv hbar, ← hpieces]
  simp [Text.infix_trim_iff htrim]

/-- **The variants are what is left of the alternatives**, when that may be alternatives
again. -/
theorem variants_of_settled (h : ∀ p ∈ alternatives d.rhs, IsSettled p)
    (hwhole : AreAlternatives d.kept) : d.variants = d.kept.filter (· ≠ []) := by
  obtain ⟨pieces, hpieces, hnormalized⟩ := exists_normalized h
  rw [variants, hnormalized, ← hpieces]
  rw [← hpieces, areAlternatives_map_trim] at hwhole
  by_cases hnil : pieces = []
  · rw [hnil]
    rfl
  · rw [hwhole.map_trim_join hnil]

/-- Where each placeholder is an alternative, the others are left as they are. -/
theorem kept_eq_others (halone : ∀ p ∈ alternatives d.rhs, HoldsNever p → p.trim = neverWord) :
    d.kept = others (alternatives d.rhs) :=
  map_stripped_others halone

/-- **The variants are the alternatives** without the placeholder, where each placeholder is
one of them. -/
theorem variants_eq (halone : ∀ p ∈ alternatives d.rhs, HoldsNever p → p.trim = neverWord) :
    d.variants = ((alternatives d.rhs).map Text.trim).filter fun p => p ≠ neverWord ∧ p ≠ [] := by
  have hkept := kept_eq_others halone
  have hwhole : AreAlternatives (others (alternatives d.rhs)) :=
    (areAlternatives_map_trim.2 (areAlternatives_alternatives d.rhs)).sublist List.filter_sublist
  rw [variants_of_settled (fun p hp hholds => .inl (halone p hp hholds)) (hkept.symm ▸ hwhole), hkept,
    others, List.filter_filter]
  congr 1
  funext p
  rw [Bool.and_comm, ← Bool.decide_and]

/-! ## The extended right-hand side -/

theorem mentions_iff : d.mentions v = true ↔ v <:+: d.normalized :=
  Text.contains_iff

/-- What an extension writes is a right-hand side again. -/
theorem extended_spec (hv : v ≠ []) (htrim : v.trim = v) (hend : ';' ∉ v) (hrhs : ';' ∉ d.rhs) :
    d.extended v ≠ [] ∧ (d.extended v).trim = d.extended v ∧ ';' ∉ d.extended v := by
  unfold extended
  split
  · exact ⟨hv, htrim, hend⟩
  · rename_i hne
    have hseparator : ';' ∉ separator := by decide
    refine ⟨by simp [hne], trim_extended hne d.trim_normalized hv htrim, ?_⟩
    show ';' ∉ d.normalized ++ separator ++ v
    simp [not_mem_normalized hrhs, hseparator, hend]

theorem infix_extended : v <:+: d.extended v := by
  unfold extended
  split
  · exact List.infix_rfl
  · exact (List.suffix_append _ _).isInfix

/-- It holds the placeholder only where the variant does. -/
theorem not_holdsNever_extended (hnever : ¬HoldsNever v) : ¬HoldsNever (d.extended v) := by
  unfold extended
  split
  · exact hnever
  · have hbetween := holdsNever_between (t := v) (show ∀ c ∈ lead, isBlank c = true from
      fun _ => isBlank_of_mem_lead) (List.forall_mem_nil _)
    rw [List.append_nil] at hbetween
    have hsplit : d.normalized ++ separator ++ v = d.normalized ++ ' ' :: ([] ++ '|' :: (lead ++ v)) := by
      rw [separator_eq]
      simp
    show ¬HoldsNever (d.normalized ++ separator ++ v)
    rw [hsplit, holdsNever_append_cons (by decide), holdsNever_append_cons (by decide), hbetween]
    exact not_or.2 ⟨d.not_holdsNever_normalized, not_or.2 ⟨by decide, hnever⟩⟩

/-- **What is written**, in a declaration that is found. -/
theorem extendUnion_eq [Engine] (hd : find typeName source = .ok d) (v : Text) :
    extendUnion typeName v source =
      .ok (if d.mentions v then source else d.replace (d.extended v)) := by
  unfold extendUnion
  rw [hd]
  rfl

/-- It is found again. -/
theorem find_extended [Engine] (hd : find typeName source = .ok d) (hv : v ≠ [])
    (htrim : v.trim = v) (hend : ';' ∉ v)
    (hsearch : Completes (find typeName (d.replace (d.extended v)))) :
    find typeName (d.replace (d.extended v)) = .ok { d with rhs := d.extended v } := by
  obtain ⟨hne, hnew, hnewEnd⟩ := extended_spec hv htrim hend (eq_of_find hd).2
  exact find_replaced hd hne hnew hnewEnd hsearch

/-- **The variant is listed last**, behind those there were. -/
theorem variants_extended (hv : v ≠ []) (htrim : v.trim = v) (hcut : IsUncut .start v)
    (houtside : EndsOutside d.normalized) :
    ((alternatives (d.extended v)).map Text.trim).filter (· ≠ []) = d.variants ++ [v] := by
  have hlisted : [v].filter (· ≠ []) = [v] := by
    rw [List.filter_cons_of_pos (by simpa using hv), List.filter_nil]
  unfold extended variants
  split
  · rename_i hnil
    rw [alternatives_uncut hcut, hnil, List.map_singleton, htrim, hlisted]
    rfl
  · have hlead : Text.trim (lead ++ v) = v := by
      have hblanks := Text.trim_between (t := v) (show ∀ c ∈ lead, isBlank c = true from
        fun _ => isBlank_of_mem_lead) (List.forall_mem_nil _)
      rwa [List.append_nil, htrim] at hblanks
    have hspace : (alternatives (d.normalized ++ [' '])).map Text.trim =
        (alternatives d.normalized).map Text.trim :=
      map_trim_between (t := d.normalized) (List.forall_mem_nil _) (by decide)
    show ((alternatives (d.normalized ++ separator ++ v)).map Text.trim).filter _ = _
    rw [alternatives_extended houtside hcut, List.map_append, List.filter_append, hspace,
      List.map_singleton, hlead, hlisted]

/-- **What an extension by a new variant leaves**: a declaration that is found again, without
the placeholder, and lists the variant behind those there were. -/
theorem exists_extendUnion [Engine] (hv : v ≠ []) (htrim : v.trim = v) (hend : ';' ∉ v)
    (hnever : ¬HoldsNever v) (hcut : IsUncut .start v) (hd : find typeName source = .ok d)
    (houtside : EndsOutside d.normalized) (hnew : ¬v <:+: d.normalized) :
    ∃ extended e, extendUnion typeName v source = .ok extended ∧
      (Completes (find typeName extended) → find typeName extended = .ok e) ∧
      extended = d.front ++ e.rhs ++ d.rest ∧ e = { d with rhs := e.rhs } ∧
      e.normalized = e.rhs ∧ v <:+: e.rhs ∧ e.variants = d.variants ++ [v] ∧ e.hasNever = false := by
  have hplain : ¬HoldsNever (d.extended v) := not_holdsNever_extended hnever
  have hnormalized : stripped (d.extended v) = d.extended v :=
    (stripped_eq_self_iff (extended_spec hv htrim hend (eq_of_find hd).2).2.1).2 hplain
  refine ⟨d.replace (d.extended v), { d with rhs := d.extended v }, ?_,
    find_extended hd hv htrim hend, rfl, rfl, hnormalized, infix_extended, ?_, ?_⟩
  · rw [extendUnion_eq hd, if_neg (mentions_iff.not.2 hnew)]
  · rw [variants, normalized, hnormalized]
    exact variants_extended hv htrim hcut houtside
  · exact Bool.eq_false_iff.2 fun h => hplain (hasNever_iff.1 h)

end UnionDeclaration

/-! ## One variant, once -/

/-- **Extending a union appends exactly one variant, once.** A variant that occurs in the
right-hand side without its placeholders changes nothing. Any other is listed behind those
there were and no placeholder is left; only the right-hand side is rewritten, and unless the
search for it is given up the declaration is found again, and a second extension changes
nothing. What ends outside quotes and brackets is told by the scan that cuts a union, which
takes the quote behind an escaped backslash for an escaped one. -/
theorem extendUnion_appends [Engine] {typeName source v : Text} {d : UnionDeclaration}
    (hv : v ≠ []) (htrim : v.trim = v) (hend : ';' ∉ v) (hnever : ¬HoldsNever v)
    (hcut : IsUncut .start v) (hd : UnionDeclaration.find typeName source = .ok d)
    (houtside : EndsOutside d.rhs)
    (halone : ∀ p ∈ alternatives d.rhs, HoldsNever p → p.trim = neverWord) :
    (v <:+: d.normalized → extendUnion typeName v source = .ok source) ∧
    (¬v <:+: d.normalized → ∃ extended e, extendUnion typeName v source = .ok extended ∧
      source = d.front ++ d.rhs ++ d.rest ∧ extended = d.front ++ e.rhs ++ d.rest ∧
      e = { d with rhs := e.rhs } ∧ e.variants = d.variants ++ [v] ∧ e.hasNever = false ∧
      (Completes (UnionDeclaration.find typeName extended) →
        UnionDeclaration.find typeName extended = .ok e ∧
          extendUnion typeName v extended = .ok extended)) := by
  constructor
  · intro hinfix
    rw [UnionDeclaration.extendUnion_eq hd, if_pos (UnionDeclaration.mentions_iff.2 hinfix)]
  · intro hnew
    have hclosed : ∀ l ∈ d.kept, EndsOutside l := by
      intro l hl
      rw [UnionDeclaration.kept_eq_others halone] at hl
      obtain ⟨p, hp, rfl⟩ := List.mem_map.1 (List.mem_filter.1 hl).1
      exact endsOutside_trim.2 (isAlternative_of_mem houtside p hp).closed
    obtain ⟨extended, e, hextended, hfound, hframe, he, hnormalized, hinfix, hvariants, hplain⟩ :=
      UnionDeclaration.exists_extendUnion hv htrim hend hnever hcut hd
        (UnionDeclaration.endsOutside_normalized (fun p hp hholds => .inl (halone p hp hholds)) hclosed)
        hnew
    refine ⟨extended, e, hextended, (UnionDeclaration.eq_of_find hd).1, hframe, he, hvariants, hplain,
      fun hsearch => ⟨hfound hsearch, ?_⟩⟩
    have hagain : e.mentions v = true := UnionDeclaration.mentions_iff.2 (hnormalized.symm ▸ hinfix)
    rw [UnionDeclaration.extendUnion_eq (hfound hsearch), if_pos hagain]

/-- An extension of a union with placeholders at its start, between alternatives and in a
literal, whose name is looked up with a blank and an `=`. -/
theorem extendUnion_appends_between : ∃ extended e,
    extendUnion "T<A = B>".toList "'b'".toList
      "type T<A = B> =\n\tnever | 'a' | never | Map<'x' | 'never'> ;\n".toList = .ok extended ∧
    UnionDeclaration.find "T<A = B>".toList extended = .ok e ∧
    extended = "type T<A = B> =\n\t".toList ++ e.rhs ++ " ;\n".toList ∧
    e.variants = ["'a'".toList, "Map<'x' | 'never'>".toList, "'b'".toList] ∧ e.hasNever = false ∧
    extendUnion "T<A = B>".toList "'b'".toList extended = .ok extended := by
  have hd : UnionDeclaration.find "T<A = B>".toList
      "type T<A = B> =\n\tnever | 'a' | never | Map<'x' | 'never'> ;\n".toList =
        .ok ⟨"T<A = B>".toList, "type T<A = B> =\n\t".toList,
          "never | 'a' | never | Map<'x' | 'never'>".toList, " ;\n".toList⟩ := by
    decide +kernel
  obtain ⟨extended, e, hextended, _, hframe, _, hvariants, hnever, hfound⟩ :=
    (extendUnion_appends (v := "'b'".toList) (by decide) (by decide) (by decide) (by decide)
      (by decide) hd (by decide) (by decide +kernel)).2 (by decide +kernel)
  obtain ⟨hagain, hsame⟩ := hfound (UnionDeclaration.completes_find_tireless _ _)
  exact ⟨extended, e, hextended, hagain, hframe, hvariants.trans (by decide +kernel), hnever, hsame⟩

end Fabula
