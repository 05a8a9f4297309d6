import Fabula.Proofs.Patch.Removal
import Fabula.Proofs.Text.Trim
import Fabula.Union.Declaration

/-!
# Where a union type is declared

A declaration begins with a head, which runs from the keyword through the `=`
(`UnionDeclaration.IsHead`), and its right-hand side ends at the first `;` behind it.
`UnionDeclaration.find` answers with the first of them, as a decomposition of the source
(`UnionDeclaration.find_eq_ok_iff`). All later statements about unions begin with a declaration
that is found, and go through this equivalence.

## Reading a head

The name is looked up as it is, and it may be any text, one with blanks or an `=` in it too. The
pattern allows for blanks around the name, so where the name begins or ends with blanks there
may be several ways to read them. They all read the same `=`, because the blanks are followed by
something that is none, and so the right-hand side is the same
(`UnionDeclaration.declares?_eq_some_iff`).

## Finding it again

An edit rewrites the right-hand side and must find the declaration again. In front of it the
text is the same as before, but a head that begins there might reach into what was rewritten. A
head has one `=` more than its name. If a head of the name began in front of another one and
reached over its `=`, it would hold that one's stem and its `=`, and thus have as many `=` in
its own stem as it has altogether (`UnionDeclaration.IsStem.ne_append`). So what a search passes
over in front of a declaration lies in front of the `=` of its head, whatever is written behind
it (`UnionDeclaration.misses_replaced`), and the declaration is found in the same place
(`UnionDeclaration.find_replaced`).

The search for it is the one place at which an engine has a part in this. Under any engine it
finds what it finds under the tireless one, or it is given up.
-/

namespace Fabula

open scoped Engine.Tireless

/-- The word a declaration begins with. -/
def typeWord : Text :=
  "type".toList

namespace UnionDeclaration

/-- **The head of a declaration**: the keyword, the name and `=`, with blanks between
them, and the blanks behind. -/
def IsHead (typeName head : Text) : Prop :=
  ∃ gap before behind, gap ≠ [] ∧ (∀ c ∈ gap, isBlank c = true) ∧
    (∀ c ∈ before, isBlank c = true) ∧ (∀ c ∈ behind, isBlank c = true) ∧
    head = typeWord ++ (gap ++ (typeName ++ (before ++ '=' :: behind)))

variable {typeName t tail head : Text} {previous : Option Char}

/-- **What is read behind the name**: `=` between blanks, and a text with a `;`. -/
theorem equals?_eq_some_iff :
    equals? t = some tail ↔ ∃ before behind, (∀ c ∈ before, isBlank c = true) ∧
      (∀ c ∈ behind, isBlank c = true) ∧ t = before ++ '=' :: (behind ++ tail) ∧
      tail.trimLeft = tail ∧ ';' ∈ tail := by
  have heq : isBlank '=' = false := by decide
  unfold equals?
  constructor
  · intro h
    split at h
    · rename_i u hu
      dsimp only at h
      split_ifs at h with hend
      obtain rfl := Option.some.inj h
      obtain ⟨before, hbefore, ht⟩ := Text.eq_blanks_append t
      obtain ⟨behind, hbehind, hu'⟩ := Text.eq_blanks_append u
      refine ⟨before, behind, hbefore, hbehind, ?_, Text.trimLeft_trimLeft u, by simpa using hend⟩
      rw [← hu', ← hu, ← ht]
    · cases h
  · rintro ⟨before, behind, hbefore, hbehind, rfl, htail, hend⟩
    have hdrop : (behind ++ tail).dropWhile isBlank = tail := by
      rw [List.dropWhile_append_of_pos hbehind]
      exact htail
    rw [Text.dropWhile_blanks _ hbefore heq]
    simp [hdrop, hend]

/-! ## Reading a declaration -/

/-- **The stem of a declaration**: the keyword and the name, with blanks behind each. -/
def IsStem (typeName stem : Text) : Prop :=
  ∃ gap before, gap ≠ [] ∧ (∀ c ∈ gap, isBlank c = true) ∧ (∀ c ∈ before, isBlank c = true) ∧
    stem = typeWord ++ (gap ++ (typeName ++ before))

/-- A head is a stem with its `=`. -/
theorem isHead_iff : IsHead typeName head ↔
    ∃ stem behind, IsStem typeName stem ∧ (∀ c ∈ behind, isBlank c = true) ∧
      head = stem ++ '=' :: behind := by
  constructor
  · rintro ⟨gap, before, behind, hne, hgap, hbefore, hbehind, rfl⟩
    exact ⟨_, behind, ⟨gap, before, hne, hgap, hbefore, rfl⟩, hbehind, by simp⟩
  · rintro ⟨_, behind, ⟨gap, before, hne, hgap, hbefore, rfl⟩, hbehind, rfl⟩
    exact ⟨gap, before, behind, hne, hgap, hbefore, hbehind, by simp⟩

namespace IsStem

variable {stem stem' x w w' : Text}

/-- The name has all the `=` of a stem. -/
theorem count_eq (h : IsStem typeName stem) : stem.count '=' = typeName.count '=' := by
  obtain ⟨gap, before, _, hgap, hbefore, rfl⟩ := h
  have hword : '=' ∉ typeWord := by decide
  simp [List.count_eq_zero_of_not_mem hword,
    List.count_eq_zero_of_not_mem (Text.not_mem_of_blank hgap (c := '=') (by decide)),
    List.count_eq_zero_of_not_mem (Text.not_mem_of_blank hbefore (c := '=') (by decide))]

/-- **A stem does not hold another one with its `=`**: it would have an `=` too many. -/
theorem ne_append (h : IsStem typeName stem) (h' : IsStem typeName stem') :
    stem' ≠ x ++ (stem ++ '=' :: w) := by
  intro heq
  have hcount := congrArg (List.count '=') heq
  rw [h'.count_eq, List.count_append, List.count_append, h.count_eq, List.count_cons_self] at hcount
  omega

/-- **Of two stems in a text, the one that begins first ends first.** -/
theorem exists_append (h : IsStem typeName stem) (h' : IsStem typeName stem')
    (heq : x ++ (stem ++ '=' :: w) = stem' ++ '=' :: w') :
    ∃ z, ∀ u, x ++ (stem ++ '=' :: u) = stem' ++ '=' :: (z ++ u) := by
  rw [← List.append_assoc] at heq
  rcases List.append_eq_append_iff.1 heq with ⟨z, hstem', hw⟩ | ⟨z, hstem, hw'⟩
  · cases z with
    | nil => exact ⟨[], fun u => by rw [hstem', List.append_nil, List.nil_append, List.append_assoc]⟩
    | cons d z =>
      obtain ⟨rfl, _⟩ := List.cons.inj hw
      exact absurd (hstem'.trans (List.append_assoc x stem _)) (h.ne_append h')
  · cases z with
    | nil => exact ⟨[], fun u => by rw [← List.append_assoc, hstem, List.append_nil, List.nil_append]⟩
    | cons d z =>
      obtain ⟨rfl, _⟩ := List.cons.inj hw'
      exact ⟨z ++ ['='], fun u => by rw [← List.append_assoc, hstem]; simp⟩

/-- A text begins with one stem and its `=` at most. -/
theorem unique (h : IsStem typeName stem) (h' : IsStem typeName stem')
    (heq : stem ++ '=' :: w = stem' ++ '=' :: w') : stem = stem' := by
  obtain ⟨z, hz⟩ := h.exists_append h' (x := []) heq
  obtain ⟨z', hz'⟩ := h'.exists_append h (x := []) heq.symm
  have hlength := congrArg List.length (hz [])
  have hlength' := congrArg List.length (hz' [])
  simp only [List.length_append, List.length_cons, List.length_nil] at hlength hlength'
  exact List.append_inj_left heq (by omega)

end IsStem

/-- What is read as a declaration begins with a head. -/
theorem isHead_of_declares? (h : declares? typeName previous t = some tail) :
    continuesName previous = false ∧
      ∃ head, IsHead typeName head ∧ t = head ++ tail ∧ tail.trimLeft = tail ∧ ';' ∈ tail := by
  unfold declares? at h
  split_ifs at h with hprevious
  split at h
  · rename_i c cs hafter
    split_ifs at h with hc
    obtain ⟨gap, u, hgap, rfl, hread⟩ := Text.exists_of_skipBlanks? h
    obtain ⟨v, hv, htail⟩ := Option.bind_eq_some_iff.1 hread
    obtain ⟨before, behind, hbefore, hbehind, rfl, htrim, hend⟩ := equals?_eq_some_iff.1 htail
    refine ⟨Bool.eq_false_iff.2 hprevious, _, ⟨c :: gap, before, behind, List.cons_ne_nil _ _,
      List.forall_mem_cons.2 ⟨hc, hgap⟩, hbefore, hbehind, rfl⟩, ?_, htrim, hend⟩
    rw [Text.after?_eq_some_iff.1 hafter, Text.after?_eq_some_iff.1 hv]
    simp [typeWord]
  · cases h

/-- **A declaration is read where its head stands.** Where the blanks in front of the
name could be split in several ways, all of them read the same `=`. -/
theorem declares?_eq_some_iff :
    declares? typeName previous t = some tail ↔ continuesName previous = false ∧
      ∃ head, IsHead typeName head ∧ t = head ++ tail ∧ tail.trimLeft = tail ∧ ';' ∈ tail := by
  refine ⟨isHead_of_declares?, ?_⟩
  rintro ⟨hprevious, head, hhead, rfl, htrim, hend⟩
  have hread : ∃ found, declares? typeName previous (head ++ tail) = some found := by
    obtain ⟨gap, before, behind, hne, hgap, hbefore, hbehind, rfl⟩ := hhead
    obtain ⟨c, gap, rfl⟩ := List.exists_cons_of_ne_nil hne
    obtain ⟨hc, hgap⟩ := List.forall_mem_cons.1 hgap
    have hsource : typeWord ++ (c :: gap ++ (typeName ++ (before ++ '=' :: behind))) ++ tail =
        typeWord ++ c :: (gap ++ (typeName ++ (before ++ '=' :: (behind ++ tail)))) := by
      simp
    unfold declares?
    rw [hsource, show "type".toList = typeWord from rfl, Text.after?_append,
      if_neg (by rw [hprevious]; exact Bool.false_ne_true)]
    dsimp only
    rw [if_pos hc]
    refine Text.exists_skipBlanks? hgap (a := tail) ?_
    rw [Text.after?_append]
    exact equals?_eq_some_iff.2 ⟨before, behind, hbefore, hbehind, rfl, htrim, hend⟩
  obtain ⟨found, hfound⟩ := hread
  obtain ⟨_, head', hhead', heq, htrim', _⟩ := isHead_of_declares? hfound
  obtain ⟨stem, behind, hstem, hbehind, rfl⟩ := isHead_iff.1 hhead
  obtain ⟨stem', behind', hstem', hbehind', rfl⟩ := isHead_iff.1 hhead'
  simp only [List.append_assoc, List.cons_append] at heq
  obtain rfl := hstem.unique hstem' heq
  have hrest : behind ++ tail = behind' ++ found :=
    (List.cons.inj (List.append_cancel_left heq)).2
  have htail : tail = found := by
    have hdrop := congrArg (List.dropWhile isBlank) hrest
    rw [List.dropWhile_append_of_pos hbehind, List.dropWhile_append_of_pos hbehind'] at hdrop
    exact htrim.symm.trans (hdrop.trans htrim')
  rw [hfound, htail]

/-- **A search for declarations does not look behind an `=`**: what it passes over in
front of a declaration, it passes over whatever its right-hand side is. -/
theorem misses_replaced {front new : Text} (hhead : IsHead typeName head) (hend : ';' ∈ tail)
    (h : Text.Misses (declares? typeName) none front (head ++ tail)) :
    Text.Misses (declares? typeName) none front (head ++ new) := by
  rw [Text.misses_iff] at h ⊢
  intro x c y hfront
  by_contra hsome
  obtain ⟨found, hfound⟩ := Option.ne_none_iff_exists'.1 hsome
  obtain ⟨hprevious, head', hhead', ht, _, _⟩ := declares?_eq_some_iff.1 hfound
  obtain ⟨stem, behind, hstem, hbehind, rfl⟩ := isHead_iff.1 hhead
  obtain ⟨stem', behind', hstem', _, rfl⟩ := isHead_iff.1 hhead'
  -- the head found ends at an `=` in front of the declaration, or at the one of its head
  have heq : c :: y ++ (stem ++ '=' :: (behind ++ new)) = stem' ++ '=' :: (behind' ++ found) := by
    simpa using ht
  obtain ⟨z, hz⟩ := hstem.exists_append hstem' heq
  obtain ⟨gap, hgap, hblanks⟩ := Text.eq_blanks_append (z ++ (behind ++ tail))
  have hold : c :: y ++ (stem ++ '=' :: behind ++ tail) =
      stem' ++ '=' :: gap ++ (z ++ (behind ++ tail)).dropWhile isBlank := by
    rw [List.append_assoc stem, show ('=' :: behind) ++ tail = '=' :: (behind ++ tail) from rfl, hz,
      List.append_assoc stem', List.cons_append, ← hblanks]
  have hdeclares : declares? typeName (Text.lastOr none x)
      (c :: y ++ (stem ++ '=' :: behind ++ tail)) =
        some ((z ++ (behind ++ tail)).dropWhile isBlank) := by
    refine declares?_eq_some_iff.2 ⟨hprevious, _, isHead_iff.2 ⟨stem', gap, hstem', hgap, rfl⟩, hold,
      Text.trimLeft_trimLeft _, ?_⟩
    have hmem : ';' ∈ z ++ (behind ++ tail) := by simp [hend]
    rw [hblanks, List.mem_append] at hmem
    exact hmem.resolve_left (Text.not_mem_of_blank hgap (by decide))
  rw [h x c y hfront] at hdeclares
  cases hdeclares

/-! ## Finding -/

/-- A text runs to its first `;`. -/
theorem takeWhile_end {rest : Text} (h : ';' ∉ t) : (t ++ ';' :: rest).takeWhile (· != ';') = t := by
  have hkeep : ∀ c ∈ t, (c != ';') = true := by
    intro c hc
    exact bne_iff_ne.2 (by rintro rfl; exact h hc)
  rw [List.takeWhile_append_of_pos hkeep]
  simp

/-- What a text that does not begin with a blank begins with does not either. -/
theorem trimLeft_of_append {u : Text} (h : (t ++ u).trimLeft = t ++ u) : t.trimLeft = t := by
  cases t with
  | nil => rfl
  | cons c t => exact List.dropWhile_cons_of_neg (by simp [Text.isBlank_of_dropWhile_eq h])

/-- **Where a declaration is found**: at the first head of its name. Its right-hand side
is trimmed and ends, blanks aside, at the first `;`. -/
theorem find_eq_ok_iff {source : Text} {d : UnionDeclaration} :
    find typeName source = .ok d ↔ d.typeName = typeName ∧
      ∃ front head blanks rest, IsHead typeName head ∧ continuesName front.getLast? = false ∧
        (∀ c ∈ blanks, isBlank c = true) ∧ d.front = front ++ head ∧
        d.rest = blanks ++ ';' :: rest ∧ ';' ∉ d.rhs ∧ d.rhs.trim = d.rhs ∧
        (d.rhs ++ d.rest).trimLeft = d.rhs ++ d.rest ∧
        source = front ++ (head ++ (d.rhs ++ d.rest)) ∧
        Text.Misses (declares? typeName) none front (head ++ (d.rhs ++ d.rest)) := by
  rw [find_tireless]
  constructor
  · intro h
    split at h
    · cases h
    · rename_i front tail hsearch
      obtain ⟨t, hsource, hm, hmiss⟩ := Text.search?_eq_some_iff.1 hsearch
      rw [Text.lastOr_none] at hm
      obtain ⟨hprevious, head, hhead, rfl, htrim, hend⟩ := declares?_eq_some_iff.1 hm
      obtain ⟨u, rest, rfl, hu⟩ := List.eq_append_cons_of_mem hend
      obtain ⟨blanks, hblanks, hrhs⟩ := Text.exists_trimRight u
      have hleft : Text.trimLeft u = u := trimLeft_of_append htrim
      obtain rfl := Except.ok.inj h
      dsimp only
      rw [takeWhile_end hu]
      have htail : Text.trimRight u ++ (blanks ++ ';' :: rest) = u ++ ';' :: rest := by
        rw [← List.append_assoc, ← hrhs]
      have hrest : (u ++ ';' :: rest).drop (Text.trimRight u).length = blanks ++ ';' :: rest := by
        rw [← htail, List.drop_left]
      have hfront : source.take (source.length - (u ++ ';' :: rest).length) = front ++ head := by
        rw [hsource, ← List.append_assoc, List.length_append, Nat.add_sub_cancel, List.take_left]
      refine ⟨rfl, front, head, blanks, rest, hhead, hprevious, hblanks, hfront, hrest, ?_,
        Text.trim_trimRight hleft, ?_, ?_, ?_⟩
      · intro hmem
        exact hu (hrhs ▸ List.mem_append_left blanks hmem)
      all_goals rw [hrest, htail]
      · exact htrim
      · exact hsource
      · exact hmiss
  · rintro ⟨rfl, front, head, blanks, rest, hhead, hprevious, hblanks, hfront, hrest, hend, htrim,
      hleft, hsource, hmiss⟩
    have hsearch : Text.search? (declares? d.typeName) none source =
        some (front, d.rhs ++ d.rest) := by
      refine Text.search?_eq_some_iff.2 ⟨_, hsource, ?_, hmiss⟩
      rw [Text.lastOr_none]
      exact declares?_eq_some_iff.2 ⟨hprevious, head, hhead, rfl, hleft, by simp [hrest]⟩
    have hu : ';' ∉ d.rhs ++ blanks := by
      simp [hend, Text.not_mem_of_blank hblanks (c := ';') (by decide)]
    have hrhs : Text.trimRight ((d.rhs ++ d.rest).takeWhile (· != ';')) = d.rhs := by
      rw [hrest, ← List.append_assoc, takeWhile_end hu, Text.trimRight_append hblanks,
        (Text.trim_eq_self htrim).2]
    have htake : source.take (source.length - (d.rhs ++ d.rest).length) = d.front := by
      rw [hsource, hfront, ← List.append_assoc, List.length_append, Nat.add_sub_cancel,
        List.take_left]
    rw [hsearch]
    dsimp only
    rw [hrhs, htake, List.drop_left]

/-- A declaration is a decomposition of its source, and ends at the first `;`. -/
theorem eq_of_find [Engine] {source : Text} {d : UnionDeclaration}
    (h : find typeName source = .ok d) :
    source = d.front ++ d.rhs ++ d.rest ∧ ';' ∉ d.rhs := by
  obtain ⟨_, front, head, _, _, _, _, _, hfront, _, hend, _, _, hsource, _⟩ :=
    find_eq_ok_iff.1 ((isSteady_find typeName source).tireless_eq_ok h)
  exact ⟨by rw [hsource, hfront]; simp, hend⟩

/-- **A declaration is found again** when its right-hand side is rewritten, unless the search
is given up. -/
theorem find_replaced [Engine] {source new : Text} {d : UnionDeclaration}
    (h : find typeName source = .ok d) (hne : new ≠ []) (htrim : new.trim = new)
    (hend : ';' ∉ new) (hsearch : Completes (find typeName (d.replace new))) :
    find typeName (d.replace new) = .ok { d with rhs := new } := by
  obtain ⟨hd, front, head, blanks, rest, hhead, hprevious, hblanks, hfront, hrest, _, _, _, _,
    hmiss⟩ := find_eq_ok_iff.1 ((isSteady_find typeName source).tireless_eq_ok h)
  rw [(isSteady_find _ _).eq hsearch]
  obtain ⟨c, t, rfl⟩ := List.exists_cons_of_ne_nil hne
  have hc := Text.isBlank_of_dropWhile_eq (Text.trim_eq_self htrim).1
  refine find_eq_ok_iff.2 ⟨hd, front, head, blanks, rest, hhead, hprevious, hblanks, hfront,
    hrest, hend, htrim, ?_, ?_, misses_replaced hhead (by simp [hrest]) hmiss⟩
  · exact List.dropWhile_cons_of_neg (by simp [hc])
  · simp [replace, hfront]

end UnionDeclaration

end Fabula
