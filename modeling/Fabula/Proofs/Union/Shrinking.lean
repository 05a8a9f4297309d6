import Fabula.Proofs.Union.Appending

/-!
# A removal takes out one alternative

A variant is taken out of the right-hand side as it is written, while the variants of a union
are read from the right-hand side without its placeholders. So two readings have to agree, and
what is left has to be cut in the same places as before.

## What is left

It is cut in the same places, whatever the quotes and brackets are: a bar was a cut because the
scan stood outside there, and what a removal leaves in front of a bar is alternatives that end
outside (`Union.AreAlternatives.sublist`). Only the last alternative may be left open, and it
stays the last one or goes. The blanks at the ends of what is left are taken off, and no scan
reads them. Where nothing is left but blanks the placeholder is written, since a right-hand side
must not be empty (`UnionDeclaration.listed_rejoined`).

## What is taken out

It is the first alternative that reads like the variant, and nothing if there is none, and then
the removal fails (`UnionDeclaration.exists_shrunk?`, `UnionDeclaration.shrunk?_eq_none`). A
placeholder may be taken out, too, if it is an alternative.

The variants are what the other reading finds. Where each placeholder is an alternative of its
own, the two readings find the same but for these (`UnionDeclaration.variants_eq_listed`). Then
what can be removed is what is listed, and what is listed afterwards is what was listed, without
the first one that is equal to the variant (`shrinkUnion_exact`). What counts
as a quote or a bracket is what the scan takes for one, in both readings.
-/

namespace Fabula

open scoped Engine.Tireless

namespace Union

/-- **The alternatives that say something**, without the blanks around them. -/
def listed (t : Text) : List Text :=
  ((alternatives t).map Text.trim).filter (· ≠ [])

variable {t v : Text}

theorem mem_listed_iff (hv : v ≠ []) : v ∈ listed t ↔ ∃ p ∈ alternatives t, p.trim = v := by
  rw [listed, List.mem_filter, List.mem_map]
  exact and_iff_left (decide_eq_true hv)

theorem listed_neverWord : listed neverWord = [neverWord] := by
  decide

/-- Texts that say nothing together say nothing each. -/
theorem trim_eq_nil_of_join {pieces : List Text} (h : (Text.join ['|'] pieces).trim = []) :
    ∀ p ∈ pieces, p.trim = [] := by
  intro p hp
  obtain ⟨x, y, heq⟩ := Text.exists_of_mem_join ['|'] hp
  refine Text.trim_eq_nil_of_blank fun c hc => Text.isBlank_of_trim_eq_nil h c ?_
  rw [heq]
  simp [hc]

/-- Where each placeholder is an alternative, told by the alternatives that say something. -/
theorem alone_iff : (∀ p ∈ alternatives t, HoldsNever p → p.trim = neverWord) ↔
    ∀ q ∈ listed t, HoldsNever q → q = neverWord := by
  have hnil : ¬HoldsNever [] := by decide
  constructor
  · intro h q hq hholds
    obtain ⟨p, hp, rfl⟩ := List.mem_map.1 (List.mem_filter.1 hq).1
    exact h p hp (holdsNever_trim.1 hholds)
  · intro h p hp hholds
    rw [← holdsNever_trim] at hholds
    refine h p.trim (List.mem_filter.2 ⟨List.mem_map_of_mem hp, decide_eq_true ?_⟩) hholds
    intro hempty
    exact hnil (hempty ▸ hholds)

end Union

namespace UnionDeclaration

open Fabula.Union

variable {d : UnionDeclaration} {typeName source v rhs : Text} {left : List Text}

/-! ## What is taken out -/

/-- Nothing is taken out where no alternative reads like the variant. -/
theorem shrunk?_eq_none (htrim : v.trim = v) (h : ¬∃ p ∈ alternatives d.rhs, p.trim = v) :
    d.shrunk? v = none := by
  have hindex : (alternatives d.rhs).findIdx? (fun p => p.trim == v.trim) = none := by
    rw [List.findIdx?_eq_none_iff]
    intro p hp
    rw [htrim]
    exact beq_eq_false_iff_ne.2 fun heq => h ⟨p, hp, heq⟩
  unfold shrunk?
  simp only [hindex]

/-- The right-hand side that some alternatives leave. -/
def rejoined (left : List Text) : Text :=
  if (Text.join ['|'] left).trim = [] then neverWord else (Text.join ['|'] left).trim

/-- **The first alternative that reads like the variant is taken out.** -/
theorem exists_shrunk? (htrim : v.trim = v) (h : ∃ p ∈ alternatives d.rhs, p.trim = v) :
    ∃ left : List Text, left.Sublist (alternatives d.rhs) ∧
      left.map Text.trim = ((alternatives d.rhs).map Text.trim).erase v ∧
      d.shrunk? v = some (rejoined left) := by
  have hmem : v ∈ (alternatives d.rhs).map Text.trim := List.mem_map.2 h
  obtain ⟨as, bs, hfirst, hmap, herase⟩ := List.exists_erase_eq hmem
  obtain ⟨before, rest, hpieces, rfl, hrest⟩ := List.map_eq_append_iff.1 hmap
  obtain ⟨piece, behind, rfl, hpiece, rfl⟩ := List.map_eq_cons_iff.1 hrest
  refine ⟨before ++ behind, ?_, by rw [herase, List.map_append], ?_⟩
  · rw [hpieces]
    exact (List.sublist_cons_self piece behind).append_left before
  · refine shrunk?_eq hpieces (hpiece.trans htrim.symm) fun p hp heq => hfirst ?_
    rw [← htrim, ← heq]
    exact List.mem_map_of_mem hp

/-! ## What is left -/

/-- What is left is a right-hand side again. -/
theorem rejoined_spec (hsub : left.Sublist (alternatives d.rhs)) (hend : ';' ∉ d.rhs) :
    rejoined left ≠ [] ∧ (rejoined left).trim = rejoined left ∧ ';' ∉ rejoined left := by
  have hpieces : ∀ p ∈ left, ';' ∉ p := by
    intro p hp hmem
    obtain ⟨x, y, heq⟩ := exists_of_mem_alternatives (hsub.subset hp)
    exact hend (by rw [heq]; simp [hmem])
  unfold rejoined
  split
  · exact ⟨by decide, by decide, by decide⟩
  · rename_i hne
    refine ⟨hne, Text.trim_trim _, ?_⟩
    rw [Text.mem_trim_iff (by decide)]
    exact Text.not_mem_join (by decide) hpieces

/-- **What is left is cut where it was cut before.** -/
theorem map_trim_alternatives_rejoined (hpieces : AreAlternatives left) (hne : left ≠ [])
    (hjoin : (Text.join ['|'] left).trim ≠ []) :
    (alternatives (rejoined left)).map Text.trim = left.map Text.trim := by
  rw [rejoined, if_neg hjoin, hpieces.map_trim_join hne]

/-- Where only the first alternative may say nothing, blanks put together with bars are at most
that one. -/
theorem trim_join_eq_nil_iff (hsub : left.Sublist (alternatives d.rhs))
    (hblank : ∀ p ∈ (alternatives d.rhs).tail, p.trim ≠ []) :
    (Text.join ['|'] left).trim = [] ↔ ∀ p ∈ left, p.trim = [] := by
  refine ⟨trim_eq_nil_of_join, fun hall => ?_⟩
  obtain ⟨first, others, hfirst⟩ := List.exists_cons_of_ne_nil (go_ne_nil .start d.rhs)
  rw [alternatives, hfirst] at hsub hblank
  -- none of the others is left
  have hnone : ∀ some : List Text, some.Sublist others → (∀ p ∈ some, p.trim = []) → some = [] := by
    intro some hsome hsaid
    refine List.eq_nil_iff_forall_not_mem.2 fun p hp => ?_
    exact hblank p (hsome.subset hp) (hsaid p hp)
  rcases List.sublist_cons_iff.1 hsub with hothers | ⟨others', rfl, hothers⟩
  · rw [hnone left hothers hall]
    rfl
  · obtain ⟨hempty, hrest⟩ := List.forall_mem_cons.1 hall
    rw [hnone others' hothers hrest, Text.join_singleton, hempty]

/-- **What is left lists the alternatives that are left**, or is the placeholder when there
are none. -/
theorem listed_rejoined (hsub : left.Sublist (alternatives d.rhs))
    (hblank : ∀ p ∈ (alternatives d.rhs).tail, p.trim ≠ []) :
    if (left.map Text.trim).filter (· ≠ []) = [] then rejoined left = neverWord
    else listed (rejoined left) = (left.map Text.trim).filter (· ≠ []) := by
  have hnil : (left.map Text.trim).filter (· ≠ []) = [] ↔ (Text.join ['|'] left).trim = [] := by
    rw [trim_join_eq_nil_iff hsub hblank, List.filter_eq_nil_iff, List.forall_mem_map]
    simp
  split
  · rename_i hnone
    rw [rejoined, if_pos (hnil.1 hnone)]
  · rename_i hsome
    have hne : left ≠ [] := by
      rintro rfl
      exact hsome rfl
    have hpieces := (areAlternatives_alternatives d.rhs).sublist hsub
    rw [listed, map_trim_alternatives_rejoined hpieces hne (mt hnil.2 hsome)]

/-- The variants are the alternatives that say something else than the placeholder. -/
theorem variants_eq_listed (halone : ∀ p ∈ alternatives d.rhs, HoldsNever p → p.trim = neverWord) :
    d.variants = (listed d.rhs).filter (· ≠ neverWord) := by
  rw [variants_eq halone, listed, List.filter_filter]
  congr 1
  funext p
  rw [← Bool.decide_and]

/-- **The variants of what is left** are the alternatives that are left and not the
placeholder. -/
theorem variants_rejoined (hsub : left.Sublist (alternatives d.rhs))
    (hblank : ∀ p ∈ (alternatives d.rhs).tail, p.trim ≠ [])
    (halone : ∀ p ∈ alternatives d.rhs, HoldsNever p → p.trim = neverWord) :
    UnionDeclaration.variants { d with rhs := rejoined left } =
      ((left.map Text.trim).filter (· ≠ [])).filter (· ≠ neverWord) := by
  have hlisted := listed_rejoined hsub hblank
  have halone' : ∀ q ∈ listed (rejoined left), HoldsNever q → q = neverWord := by
    split_ifs at hlisted with hnone
    · rw [hlisted, listed_neverWord]
      exact fun q hq _ => List.mem_singleton.1 hq
    · rw [hlisted]
      intro q hq
      have hsublist := (hsub.map Text.trim).filter (· ≠ [])
      exact alone_iff.1 halone q (hsublist.subset hq)
  rw [variants_eq_listed (alone_iff.2 halone')]
  dsimp only
  split_ifs at hlisted with hnone
  · rw [hlisted, hnone, listed_neverWord]
    rfl
  · rw [hlisted]

/-- **A removal leaves the other alternatives**, put together again in the declaration. -/
theorem exists_shrinkUnion [Engine] (htrim : v.trim = v) (hd : find typeName source = .ok d)
    (h : ∃ p ∈ alternatives d.rhs, p.trim = v) :
    ∃ left : List Text, left.Sublist (alternatives d.rhs) ∧
      (left.map Text.trim).filter (· ≠ []) = (listed d.rhs).erase v ∧
      shrinkUnion typeName v source = .ok (d.replace (rejoined left)) ∧
      (Completes (find typeName (d.replace (rejoined left))) →
        find typeName (d.replace (rejoined left)) = .ok { d with rhs := rejoined left }) := by
  obtain ⟨left, hsub, hleft, hshrunk⟩ := exists_shrunk? htrim h
  obtain ⟨hne, htrimmed, hend⟩ := rejoined_spec hsub (eq_of_find hd).2
  refine ⟨left, hsub, ?_, ?_, find_replaced hd hne htrimmed hend⟩
  · rw [hleft, listed, List.erase_filter]
  · unfold shrinkUnion
    rw [hd]
    dsimp only [bind, Except.bind]
    rw [hshrunk]
    rfl

theorem shrinkUnion_eq_error [Engine] (htrim : v.trim = v) (hd : find typeName source = .ok d)
    (h : ¬∃ p ∈ alternatives d.rhs, p.trim = v) :
    shrinkUnion typeName v source = .error (.variantNotFound typeName v) := by
  unfold shrinkUnion
  rw [hd]
  dsimp only [bind, Except.bind]
  rw [shrunk?_eq_none htrim h]
  rfl

end UnionDeclaration

/-! ## Removing a variant -/

open Fabula.Union

/-- **A removal takes out exactly the first alternative that reads like the variant**, and
fails when there is none. Only the right-hand side is rewritten: it lists the alternatives
there were without that one, or is the placeholder when none is left. Where each placeholder
is an alternative of its own, what can be removed is what is listed as a variant, and the
variants are those there were without the first one that is equal to it. Where an alternative
ends is told by the scan that cuts a union, which takes the quote behind an escaped backslash
for an escaped one; and what is left is found again unless the search for it is given up. -/
theorem shrinkUnion_exact [Engine] {typeName source v : Text} {d : UnionDeclaration} (hv : v ≠ [])
    (htrim : v.trim = v) (hd : UnionDeclaration.find typeName source = .ok d)
    (hblank : ∀ p ∈ (alternatives d.rhs).tail, p.trim ≠ []) :
    ((∃ p ∈ alternatives d.rhs, p.trim = v) → ∃ shrunk e, shrinkUnion typeName v source = .ok shrunk ∧
      (Completes (UnionDeclaration.find typeName shrunk) →
        UnionDeclaration.find typeName shrunk = .ok e) ∧ e = { d with rhs := e.rhs } ∧
      source = d.front ++ d.rhs ++ d.rest ∧ shrunk = d.front ++ e.rhs ++ d.rest ∧
      if (listed d.rhs).erase v = [] then e.rhs = neverWord
      else listed e.rhs = (listed d.rhs).erase v) ∧
    ((¬∃ p ∈ alternatives d.rhs, p.trim = v) →
      shrinkUnion typeName v source = .error (.variantNotFound typeName v)) ∧
    ((∀ p ∈ alternatives d.rhs, HoldsNever p → p.trim = neverWord) → v ≠ neverWord →
      ((∃ shrunk, shrinkUnion typeName v source = .ok shrunk) ↔ v ∈ d.variants) ∧
      ∀ shrunk, shrinkUnion typeName v source = .ok shrunk →
        ∃ e, (Completes (UnionDeclaration.find typeName shrunk) →
          UnionDeclaration.find typeName shrunk = .ok e) ∧ e.variants = d.variants.erase v) := by
  refine ⟨fun h => ?_, UnionDeclaration.shrinkUnion_eq_error htrim hd, fun halone hnever => ?_⟩
  · obtain ⟨left, hsub, hleft, hshrunk, hfound⟩ := UnionDeclaration.exists_shrinkUnion htrim hd h
    have hlisted := UnionDeclaration.listed_rejoined hsub hblank
    rw [hleft] at hlisted
    exact ⟨_, _, hshrunk, hfound, rfl, (UnionDeclaration.eq_of_find hd).1, rfl, hlisted⟩
  · have hvariant : v ∈ d.variants ↔ ∃ p ∈ alternatives d.rhs, p.trim = v := by
      rw [UnionDeclaration.variants_eq_listed halone, List.mem_filter, mem_listed_iff hv]
      exact and_iff_left (decide_eq_true hnever)
    rw [hvariant]
    by_cases h : ∃ p ∈ alternatives d.rhs, p.trim = v
    · obtain ⟨left, hsub, hleft, hshrunk, hfound⟩ := UnionDeclaration.exists_shrinkUnion htrim hd h
      refine ⟨iff_of_true ⟨_, hshrunk⟩ h, fun shrunk hok => ?_⟩
      obtain rfl := Except.ok.inj (hshrunk.symm.trans hok)
      refine ⟨_, hfound, ?_⟩
      rw [UnionDeclaration.variants_rejoined hsub hblank halone, hleft,
        UnionDeclaration.variants_eq_listed halone, List.erase_filter]
    · have herror := UnionDeclaration.shrinkUnion_eq_error htrim hd h
      have hnot : ∀ shrunk, shrinkUnion typeName v source ≠ .ok shrunk := by
        intro shrunk hok
        rw [herror] at hok
        cases hok
      exact ⟨iff_of_false (fun ⟨shrunk, hok⟩ => hnot shrunk hok) h,
        fun shrunk hok => absurd hok (hnot shrunk)⟩

/-- Of two equal literals behind a leading bar, one with a bar and a placeholder's name in it,
the first goes. -/
theorem shrinkUnion_exact_first :
    (∃ shrunk, shrinkUnion "T".toList "'a|nevermore'".toList
      "type T =\n\t| 'a|nevermore' | never | Map<'x' | 'y'> | 'a|nevermore' ;\n".toList = .ok shrunk) ∧
    (∃ shrunk e, shrinkUnion "T".toList "'a|nevermore'".toList
      "type T =\n\t| 'a|nevermore' | never | Map<'x' | 'y'> | 'a|nevermore' ;\n".toList = .ok shrunk ∧
      UnionDeclaration.find "T".toList shrunk = .ok e ∧
      shrunk = "type T =\n\t".toList ++ e.rhs ++ " ;\n".toList ∧
      listed e.rhs = ["never".toList, "Map<'x' | 'y'>".toList, "'a|nevermore'".toList]) ∧
    (∀ shrunk, shrinkUnion "T".toList "'a|nevermore'".toList
      "type T =\n\t| 'a|nevermore' | never | Map<'x' | 'y'> | 'a|nevermore' ;\n".toList = .ok shrunk →
      ∃ e, UnionDeclaration.find "T".toList shrunk = .ok e ∧
        e.variants = ["Map<'x' | 'y'>".toList, "'a|nevermore'".toList]) ∧
    shrinkUnion "T".toList "'x'".toList
      "type T =\n\t| 'a|nevermore' | never | Map<'x' | 'y'> | 'a|nevermore' ;\n".toList =
        .error (.variantNotFound "T".toList "'x'".toList) := by
  have hd : UnionDeclaration.find "T".toList
      "type T =\n\t| 'a|nevermore' | never | Map<'x' | 'y'> | 'a|nevermore' ;\n".toList =
        .ok ⟨"T".toList, "type T =\n\t".toList,
          "| 'a|nevermore' | never | Map<'x' | 'y'> | 'a|nevermore'".toList, " ;\n".toList⟩ := by
    decide +kernel
  obtain ⟨hfound, -, hlisted⟩ := shrinkUnion_exact (v := "'a|nevermore'".toList) (by decide) (by decide)
    hd (by decide +kernel)
  obtain ⟨hiff, hvariants⟩ := hlisted (by decide +kernel) (by decide)
  obtain ⟨shrunk, e, hshrunk, he, _, _, hframe, hleft⟩ := hfound (by decide +kernel)
  have herase : (listed "| 'a|nevermore' | never | Map<'x' | 'y'> | 'a|nevermore'".toList).erase
      "'a|nevermore'".toList =
        ["never".toList, "Map<'x' | 'y'>".toList, "'a|nevermore'".toList] := by
    decide +kernel
  rw [herase, if_neg (by decide)] at hleft
  refine ⟨hiff.2 (by decide +kernel),
    ⟨shrunk, e, hshrunk, he (UnionDeclaration.completes_find_tireless _ _), hframe, hleft⟩,
    fun other hother => ?_,
    (shrinkUnion_exact (v := "'x'".toList) (by decide) (by decide) hd (by decide +kernel)).2.1
      (by decide +kernel)⟩
  obtain ⟨e', he', heq⟩ := hvariants other hother
  exact ⟨e', he' (UnionDeclaration.completes_find_tireless _ _), heq.trans (by decide +kernel)⟩

end Fabula
