import Fabula.Proofs.Patch.RoundTrip

/-!
# What an insertion leaves in place

An insertion writes the container anew: the header in its plain spelling, the old entries
trimmed and moved, the new one behind them. For a container in the layout insertions write this
only adds text (`Container.withEntry_eq`). In general it does not, and then it is not plain that
the container can be found again. The new header might be read as part of one that begins
earlier, and the depth of the next insertion comes from what this one writes.

## Why the container is found again

A header ends at the first brace behind its name, so one that begins in front of the new header
does not reach beyond its brace (`ContainerKind.IsHeader.isPrefix`). If it ends in front of the
new header it was there already. And it cannot end with it
(`ContainerKind.not_isHeader_shifted`). If it did, both could be read from the brace backwards:
blanks, the mark of the kind, for a binding blanks again, and what stands in front of these is
the name in both of them, because a name does not end in a blank. So the name would be equal to
itself with more in front. This is why a container is edited by a name that is trimmed.

So the container is found where it was, with the new header and the new body
(`Container.insertEntry_step`).

## What the container is then

`Container.GrowsBy` says it of every part: kind, name and place are the same, so is the depth,
and the body is the old one, trimmed, with a comma added where one is missing, and the entry
behind it, moved one tab deeper than the container. Between these stand blanks. The depth has to
be in it. It is read off the closing brace, and if the insertion did not put the closing brace
where it was, the next entry would be moved differently.

The grown container is balanced if the old one and the entry are. So it may be inserted into
again, and by induction on the entries any number of insertions finds what the one before has
written (`Container.insertEntry_run`). The two together are `insertEntry_grows`, which also says
that an insertion fails as locating does. Engines are brought in there: an insertion makes no
searches but those for its container, so that it is the locating behind it that may be given up.
-/

namespace Fabula

open scoped Engine.Tireless

/-- **A name a container is edited by**: braces do not occur in it, and no blanks at its
ends. -/
structure IsContainerName (name : Text) : Prop where
  ne_nil : name ≠ []
  not_open : '{' ∉ name
  not_close : '}' ∉ name
  trimmed : name.trim = name

namespace IsContainerName

variable {name : Text}

theorem exists_last (h : IsContainerName name) :
    ∃ c, name.getLast? = some c ∧ isBlank c = false := by
  obtain ⟨c, hc⟩ := Option.isSome_iff_exists.1 (List.getLast?_isSome.2 h.ne_nil)
  exact ⟨c, hc, Text.isBlank_of_getLast? h.trimmed hc⟩

end IsContainerName

namespace ContainerKind

/-! ## Headers in front of a header -/

variable {kind : ContainerKind} {name header header' w r s t : Text}

/-- **A header does not reach beyond the brace of a later one.** -/
theorem IsHeader.isPrefix (h : kind.IsHeader name header) (h' : kind.IsHeader name header')
    (heq : w ++ (header' ++ t) = header ++ r) : header <+: w ++ header' := by
  obtain ⟨between, hbetween, rfl⟩ := h.exists_between
  obtain ⟨between', _, rfl⟩ := h'.exists_between
  have hbraces : w ++ (name ++ between') ++ '{' :: t = name ++ between ++ '{' :: r := by
    simpa using heq
  rcases List.append_eq_append_iff.1 hbraces with ⟨z, hz, hrest⟩ | ⟨z, hz, hrest⟩
  · cases z with
    | nil =>
      rw [List.append_nil] at hz
      refine ⟨[], ?_⟩
      rw [List.append_nil, ← List.append_assoc name, hz]
      simp
    | cons d z =>
      -- the later brace would stand between the name and the brace of the header
      obtain ⟨rfl, _⟩ := List.cons.inj hrest
      refine absurd ?_ hbetween
      have hdrop := congrArg (List.drop name.length) hz
      rw [List.drop_left, List.drop_append_of_le_length
        (by simp only [List.length_append]; omega)] at hdrop
      rw [hdrop]
      simp
  · cases z with
    | nil =>
      rw [List.append_nil] at hz
      refine ⟨[], ?_⟩
      rw [List.append_nil, ← List.append_assoc name, ← hz]
      simp
    | cons d z =>
      obtain ⟨rfl, _⟩ := List.cons.inj hrest
      refine ⟨z ++ ['{'], ?_⟩
      have hgroup : w ++ (name ++ (between' ++ ['{'])) = w ++ (name ++ between') ++ ['{'] := by simp
      rw [hgroup, hz]
      simp

/-- **A search for headers does not look behind a header**: what it passes over in front of
one it passes over in front of another, whatever follows, when no header that begins earlier
ends in the other. -/
theorem misses_behind {front : Text} {previous : Option Char} (hheader' : kind.IsHeader name header')
    (hends : ∀ w u, w ≠ [] → kind.IsHeader name u → u <+: w ++ header' → u <+: w ++ header)
    (h : Text.Misses (kind.headerAt? name) previous front (header ++ s)) :
    Text.Misses (kind.headerAt? name) previous front (header' ++ t) := by
  rw [Text.misses_iff] at h ⊢
  intro x c y hfront
  rw [Option.eq_none_iff_forall_ne_some]
  rintro ⟨u, r⟩ hsome
  obtain ⟨hprev, hu, heq⟩ := headerAt?_eq_some_iff.1 hsome
  obtain ⟨z, hz⟩ := hends (c :: y) u (List.cons_ne_nil c y) hu (hu.isPrefix hheader' heq)
  have hnone := h x c y hfront
  rw [← List.append_assoc, ← hz, List.append_assoc,
    headerAt?_eq_some_iff.2 ⟨hprev, hu, rfl⟩] at hnone
  cases hnone

/-- **No header ends with a later one** in its plain spelling. -/
theorem not_isHeader_shifted (hname : IsContainerName name) (hw : w ≠ []) :
    ¬kind.IsHeader name (w ++ kind.opening name) := by
  have hself : ∀ {x : Text}, x = w ++ x → False := by
    intro x hx
    have hlen := congrArg List.length hx
    have := List.length_pos_of_ne_nil hw
    rw [List.length_append] at hlen
    omega
  obtain ⟨c, hc, hblank⟩ := hname.exists_last
  have hspace : ∀ d ∈ [' '], isBlank d = true := by decide
  cases kind with
  | property =>
    rintro ⟨blanks, hb, heq⟩
    have hbrace : w ++ (name ++ [':']) ++ [' '] ++ ['{'] = name ++ [':'] ++ blanks ++ ['{'] := by
      simpa [opening] using heq
    have hcut := List.append_cancel_right hbrace
    refine hself (x := name ++ [':']) (Text.append_blanks_inj (c := ':') (d := ':') ?_ (by decide)
      ?_ (by decide) hb hspace hcut.symm)
    · exact List.getLast?_concat
    · rw [← List.append_assoc, List.getLast?_concat]
  | binding =>
    rintro ⟨before, behind, hbefore, hbehind, heq⟩
    have hbrace : w ++ (name ++ [' ', '=']) ++ [' '] ++ ['{'] =
        name ++ before ++ ['='] ++ behind ++ ['{'] := by
      simpa [opening] using heq
    have hcut := List.append_cancel_right hbrace
    -- the last characters that are not blank are the two `=`, so these fall together
    have hequal : w ++ (name ++ [' ', '=']) = name ++ before ++ ['='] := by
      refine Text.append_blanks_inj (c := '=') (d := '=') ?_ (by decide) ?_ (by decide) hspace hbehind
        hcut
      · simp
      · exact List.getLast?_concat
    have hequal' : name ++ before ++ ['='] = w ++ name ++ [' '] ++ ['='] := by
      simpa using hequal.symm
    have hnames := List.append_cancel_right hequal'
    refine hself (Text.append_blanks_inj hc hblank ?_ hblank hbefore hspace hnames)
    rw [List.getLast?_append, hc]
    rfl

/-- A header that begins before one in its plain spelling ends before that, too. -/
theorem IsHeader.isPrefix_of_opening (hname : IsContainerName name) (hw : w ≠ [])
    (h : kind.IsHeader name header) (hu : header <+: w ++ kind.opening name) : header <+: w := by
  obtain ⟨stem, _, hstem⟩ := h.eq_append_brace hname.not_open
  obtain ⟨plain, hplain, hopening⟩ := (kind.isHeader_opening name).eq_append_brace hname.not_open
  rw [hopening, ← List.append_assoc] at hu
  rcases List.prefix_concat_iff.1 hu with heq | ⟨z, hz⟩
  · rw [List.append_assoc, ← hopening] at heq
    exact absurd (heq ▸ h) (not_isHeader_shifted hname hw)
  · rcases List.append_eq_append_iff.1 hz with ⟨y, hy, _⟩ | ⟨y, hy, hbehind⟩
    · exact ⟨y, hy.symm⟩
    · -- what the header has behind `w` would end in its brace
      rcases List.eq_nil_or_concat y with rfl | ⟨y, d, rfl⟩
      · exact ⟨[], by rw [hy]; simp⟩
      · rw [hstem, List.concat_eq_append, ← List.append_assoc] at hy
        obtain rfl : '{' = d := by simpa using (List.append_inj_right' hy rfl)
        refine absurd ?_ hplain
        rw [hbehind]
        simp

end ContainerKind

namespace Container

/-! ## The container that is written -/

/-- **The container an insertion writes**, where the old one was. -/
def grown (c : Container) (entry : Text) (punctuation : Punctuation) : Container :=
  { c with
    header := c.kind.opening c.name
    body :=
      (if c.isEmpty then ['\n']
        else '\n' :: c.depth ++ '\t' :: c.keptEntries punctuation ++ ['\n']) ++
        Text.indent c.depth entry ++ [punctuation.char, '\n'] ++ c.depth }

/-- The container after any number of insertions. -/
def grownAll (c : Container) (entries : List (Text × Punctuation)) : Container :=
  entries.foldl (fun c e => c.grown e.1 e.2) c

/-- What an insertion ends the old entries with: a comma, where commas end the entries, there
is one, and it has none. -/
def addedComma (c : Container) (punctuation : Punctuation) : Text :=
  if punctuation = .comma ∧ ¬c.isEmpty ∧ c.body.trim.getLast? ≠ some ',' then [','] else []

/-- **A container grows by an entry**: it stays where it is and keeps its depth; its body is
the old one trimmed, with a comma added where one is missing, and the entry, one tab deeper
than the container, with its punctuation. Between these stand blanks. -/
structure GrowsBy (c : Container) (entry : Text) (punctuation : Punctuation) (c' : Container) :
    Prop where
  kind_eq : c'.kind = c.kind
  name_eq : c'.name = c.name
  front_eq : c'.front = c.front
  rest_eq : c'.rest = c.rest
  start_eq : c'.start = c.start
  depth_eq : c'.depth = c.depth
  body_eq : ∃ before between behind,
    (∀ x ∈ before, isBlank x = true) ∧ (∀ x ∈ between, isBlank x = true) ∧
    (∀ x ∈ behind, isBlank x = true) ∧
    c'.body = before ++ (c.body.trim ++ (c.addedComma punctuation ++
      (between ++ (Text.indent c.depth entry ++ punctuation.char :: behind))))

variable {c : Container} {entry : Text} {punctuation : Punctuation}

theorem isIndentChar_of_mem_depth {x : Char} (h : x ∈ c.depth) : Text.isIndentChar x = true :=
  List.mem_takeWhile_imp (List.mem_reverse.1 h)

theorem isBlank_of_mem_depth {x : Char} (h : x ∈ c.depth) : isBlank x = true :=
  Text.isBlank_of_isIndentChar (isIndentChar_of_mem_depth h)

theorem written_grown : (c.grown entry punctuation).written = c.withEntry entry punctuation := by
  simp [written, withEntry, grown]

theorem depth_grown : (c.grown entry punctuation).depth = c.depth := by
  refine depth_of_body (fun x hx => isIndentChar_of_mem_depth hx)
    (s := (if c.isEmpty then ['\n']
      else '\n' :: c.depth ++ '\t' :: c.keptEntries punctuation ++ ['\n']) ++
      Text.indent c.depth entry ++ [punctuation.char]) ?_
  simp [grown]

/-- The old entries are kept as they are, trimmed, but for the comma. -/
theorem keptEntries_of_not_isEmpty (h : ¬c.isEmpty) :
    c.keptEntries punctuation = c.body.trim ++ c.addedComma punctuation := by
  unfold keptEntries addedComma
  dsimp only
  by_cases hlast : c.body.trim.getLast? = some ','
  · simp [Text.endsWith_singleton_iff.2 hlast, hlast]
  · have hend : Text.endsWith c.body.trim [','] = false :=
      Bool.eq_false_iff.2 fun hend => hlast (Text.endsWith_singleton_iff.1 hend)
    cases punctuation <;> simp [hend, hlast, h]

/-- **What an insertion writes has grown by the entry.** -/
theorem growsBy_grown (c : Container) (entry : Text) (punctuation : Punctuation) :
    c.GrowsBy entry punctuation (c.grown entry punctuation) := by
  refine ⟨rfl, rfl, rfl, rfl, rfl, depth_grown, ?_⟩
  have hbehind : ∀ x ∈ '\n' :: c.depth, isBlank x = true := by
    intro x hx
    rcases List.mem_cons.1 hx with rfl | hx
    · decide
    · exact isBlank_of_mem_depth hx
  by_cases hempty : c.isEmpty
  · have htrim : c.body.trim = [] := Text.trim_eq_nil_of_blank (List.all_eq_true.1 hempty)
    refine ⟨['\n'], [], '\n' :: c.depth, by decide, by decide, hbehind, ?_⟩
    simp [grown, addedComma, hempty, htrim]
  · refine ⟨'\n' :: (c.depth ++ ['\t']), ['\n'], '\n' :: c.depth, ?_, by decide, hbehind, ?_⟩
    · intro x hx
      rw [← List.cons_append, List.mem_append, List.mem_singleton] at hx
      rcases hx with hx | rfl
      · exact hbehind x hx
      · decide
    · simp [grown, hempty, keptEntries_of_not_isEmpty hempty]

/-- Trimming takes no braces away. -/
theorem isBalanced_trim {t : Text} (h : Brace.IsBalanced t) : Brace.IsBalanced t.trim := by
  obtain ⟨before, behind, hbefore, hbehind, ht⟩ := Text.exists_trim t
  unfold Brace.IsBalanced at h
  rw [ht, Brace.after?_append, Brace.isBalanced_of_blank hbefore, Option.bind_some,
    Brace.after?_append] at h
  obtain ⟨inner, htrim, hend⟩ := Option.bind_eq_some_iff.1 h
  have hblank := Brace.after?_of_not_mem (Text.not_mem_of_blank hbehind (c := '{') (by decide))
    (Text.not_mem_of_blank hbehind (c := '}') (by decide)) inner
  obtain rfl := Option.some.inj (hblank.symm.trans hend)
  exact htrim

/-- **A container that has grown is balanced.** -/
theorem GrowsBy.isBalanced {c' : Container} (h : c.GrowsBy entry punctuation c')
    (hbody : Brace.IsBalanced c.body) (hentry : Brace.IsBalanced entry) :
    Brace.IsBalanced c'.body := by
  obtain ⟨before, between, behind, hbefore, hbetween, hbehind, heq⟩ := h.body_eq
  have hcomma : Brace.IsBalanced (c.addedComma punctuation) := by
    unfold addedComma
    split_ifs <;> decide
  have hindent : Brace.IsBalanced (Text.indent c.depth entry) := by
    rw [Text.indent_eq]
    refine (Brace.isBalanced_of_blank fun x hx => isBlank_of_mem_depth hx).append ?_
    unfold Brace.IsBalanced
    rw [Brace.after?_cons (by decide) (by decide),
      Brace.after?_deepen fun x hx => isBlank_of_mem_depth hx]
    exact hentry
  have hend : Brace.IsBalanced (punctuation.char :: behind) :=
    punctuation.isBalanced_char.append (Brace.isBalanced_of_blank hbehind)
  rw [heq]
  exact (Brace.isBalanced_of_blank hbefore).append ((isBalanced_trim hbody).append
    (hcomma.append ((Brace.isBalanced_of_blank hbetween).append (hindent.append hend))))

/-! ## Finding it again -/

/-- **A container is found again** when it is written anew behind another header, if no header
that begins earlier ends in that. -/
theorem locate_anew {kind : ContainerKind} {name source header body : Text}
    (h : locate kind name source = .ok c) (hheader : kind.IsHeader name header)
    (hends : ∀ w u, w ≠ [] → kind.IsHeader name u → u <+: w ++ header → u <+: w ++ c.header)
    (hbody : Brace.IsBalanced body) :
    locate kind name (c.front ++ (header ++ (body ++ '}' :: c.rest))) =
      .ok { c with header := header, body := body } := by
  obtain ⟨hc, _, _, hprev, _, hmiss⟩ := locate_eq_ok_iff.1 h
  exact locate_eq_ok_iff.2
    ⟨hc, rfl, hheader, hprev, hbody, ContainerKind.misses_behind hheader hends hmiss⟩

/-- **An insertion goes on in the container** that is found. -/
theorem insertEntry_of_locate {kind : ContainerKind} {name source : Text}
    (hc : locate kind name source = .ok c) (entry : Text) (punctuation : Punctuation) :
    insertEntry kind name entry punctuation source =
      .ok (c.front ++ (c.withEntry entry punctuation ++ c.rest)) := by
  unfold insertEntry
  rw [hc]
  show Except.ok (c.replace (c.withEntry entry punctuation)) = _
  rw [replace, List.append_assoc]

/-- **One insertion**: the container is found again, grown by the entry. -/
theorem insertEntry_step {kind : ContainerKind} {name source : Text} (hname : IsContainerName name)
    (hc : locate kind name source = .ok c) (hentry : Brace.IsBalanced entry)
    (punctuation : Punctuation) :
    insertEntry kind name entry punctuation source =
        .ok (c.front ++ ((c.grown entry punctuation).written ++ c.rest)) ∧
      locate kind name (c.front ++ ((c.grown entry punctuation).written ++ c.rest)) =
        .ok (c.grown entry punctuation) := by
  constructor
  · rw [insertEntry_of_locate hc, written_grown]
  · obtain ⟨⟨hkind, hcname⟩, _, _, _, hbalanced, _⟩ := locate_eq_ok_iff.1 hc
    subst hkind hcname
    have hanew := locate_anew hc (c.kind.isHeader_opening c.name)
      (fun w u hw hheader hu =>
        (hheader.isPrefix_of_opening hname hw hu).trans (List.prefix_append w c.header))
      ((growsBy_grown c entry punctuation).isBalanced hbalanced hentry)
    have hwritten : c.front ++ ((c.grown entry punctuation).written ++ c.rest) =
        c.front ++ (c.kind.opening c.name ++ ((c.grown entry punctuation).body ++ '}' :: c.rest)) := by
      simp [written, grown]
    rw [hwritten, hanew]
    rfl

/-- **Any number of insertions**: by induction on them, each finds what the one before wrote. -/
theorem insertEntry_run {kind : ContainerKind} {name source : Text} (hname : IsContainerName name)
    (hc : locate kind name source = .ok c) (entries : List (Text × Punctuation))
    (hentries : ∀ e ∈ entries, Brace.IsBalanced e.1) :
    entries.foldlM (fun text e => insertEntry kind name e.1 e.2 text) source =
        .ok (c.front ++ ((c.grownAll entries).written ++ c.rest)) ∧
      locate kind name (c.front ++ ((c.grownAll entries).written ++ c.rest)) =
        .ok (c.grownAll entries) := by
  induction entries generalizing c source with
  | nil =>
    have hsource : source = c.front ++ (c.written ++ c.rest) := by
      simpa [written] using (locate_eq_ok_iff.1 hc).2.1
    exact ⟨congrArg Except.ok hsource, hsource ▸ hc⟩
  | cons e entries ih =>
    obtain ⟨hinsert, hlocate⟩ := insertEntry_step hname hc (hentries e List.mem_cons_self) e.2
    rw [List.foldlM_cons, hinsert]
    exact ih hlocate fun x hx => hentries x (List.mem_cons_of_mem _ hx)

end Container

open Container

/-- **What is above a property is kept**: an insertion changes nothing in front of the first
colon. -/
theorem insertEntry_front {name entry front source t : Text} {punctuation : Punctuation}
    (hcolon : ':' ∉ front) (hfront : front <+: source)
    (h : insertEntry .property name entry punctuation source = .ok t) : front <+: t := by
  cases hlocate : locate .property name source with
  | error e =>
    unfold insertEntry at h
    rw [hlocate] at h
    cases h
  | ok c =>
    obtain ⟨⟨hkind, hname⟩, hsource, ⟨blanks, _, hheader⟩, _⟩ := locate_eq_ok_iff.1 hlocate
    obtain ⟨rest, hrest⟩ := hfront
    have habove : front <+: c.front ++ name := by
      have heq : front ++ rest =
          (c.front ++ name) ++ ':' :: (blanks ++ '{' :: (c.body ++ '}' :: c.rest)) := by
        rw [hrest, hsource, hheader]
        simp
      rcases List.append_eq_append_iff.1 heq with ⟨z, hz, _⟩ | ⟨z, hz, hcons⟩
      · exact ⟨z, hz.symm⟩
      · cases z with
        | nil => exact ⟨[], by rw [List.append_nil, hz, List.append_nil]⟩
        | cons d z =>
          obtain ⟨rfl, _⟩ := List.cons.inj hcons
          exact absurd (by rw [hz]; simp) hcolon
    rw [insertEntry_of_locate hlocate] at h
    obtain rfl := Except.ok.inj h
    refine habove.trans ?_
    rw [withEntry, hkind, hname, ContainerKind.opening]
    simp only [List.append_assoc]
    rw [List.prefix_append_right_inj]
    exact List.prefix_append name _

/-- **Insertion is local and keeps the container patchable.** Where no container is found, the
insertion fails as locating does. Otherwise it replaces the container by one that is grown by
the entry and is found again there, and so do any further insertions, when no search is given
up. -/
theorem insertEntry_grows [Engine] {kind : ContainerKind} {name source : Text}
    (hname : IsContainerName name) :
    (∀ error entry punctuation, locate kind name source = .error error →
      insertEntry kind name entry punctuation source = .error error) ∧
    ∀ c, locate kind name source = .ok c →
      source = c.front ++ (c.written ++ c.rest) ∧
      (∀ entry punctuation, Brace.IsBalanced entry →
        ∃ c', c.GrowsBy entry punctuation c' ∧
          insertEntry kind name entry punctuation source =
            .ok (c.front ++ (c'.written ++ c.rest)) ∧
          (Completes (locate kind name (c.front ++ (c'.written ++ c.rest))) →
            locate kind name (c.front ++ (c'.written ++ c.rest)) = .ok c')) ∧
      ∀ entries : List (Text × Punctuation), (∀ e ∈ entries, Brace.IsBalanced e.1) →
        Completes (entries.foldlM (fun text e => insertEntry kind name e.1 e.2 text) source >>=
          locate kind name) →
        entries.foldlM (fun text e => insertEntry kind name e.1 e.2 text) source =
            .ok (c.front ++ ((c.grownAll entries).written ++ c.rest)) ∧
          locate kind name (c.front ++ ((c.grownAll entries).written ++ c.rest)) =
            .ok (c.grownAll entries) := by
  refine ⟨fun error entry punctuation herror => ?_, fun c hc => ?_⟩
  · unfold insertEntry
    rw [herror]
    rfl
  have hfound := (isSteady_locate _ _ _).tireless_eq_ok hc
  refine ⟨?_, fun entry punctuation hentry => ?_, fun entries hentries => ?_⟩
  · exact Except.ok.inj (insertEntry_run hname hfound [] (by simp)).1
  · obtain ⟨hinserted, hagain⟩ := insertEntry_step hname hfound hentry punctuation
    have hsearch : Completes (insertEntry kind name entry punctuation source) :=
      completes_insertEntry_iff.2 (completes_of_eq_ok hc)
    exact ⟨c.grown entry punctuation, growsBy_grown c entry punctuation,
      ((isSteady_insertEntry _ _ _ _ _).eq hsearch).trans hinserted,
      fun hsearch' => ((isSteady_locate _ _ _).eq hsearch').trans hagain⟩
  · intro hsearch
    obtain ⟨hinserted, hagain⟩ := insertEntry_run hname hfound entries hentries
    have hrun : IsSteady fun _ : Engine =>
        entries.foldlM (fun text e => insertEntry kind name e.1 e.2 text) source := by
      refine .foldlM (fun text e => ?_) entries source
      exact isSteady_insertEntry kind name e.1 e.2 text
    exact hrun.bind_eq_ok (isSteady_locate kind name) hinserted hagain hsearch

/-- Two insertions into a container on one line. -/
theorem insertEntry_grows_twice :
    ∃ c, locate .binding "x".toList "max = 1; x= \x7ba: 1\x7d;".toList = .ok c ∧
      [("b: \x7b y \x7d".toList, Punctuation.comma), ("c: 2".toList, .comma)].foldlM
          (fun text e => insertEntry .binding "x".toList e.1 e.2 text)
          "max = 1; x= \x7ba: 1\x7d;".toList =
        .ok "max = 1; x = \x7b\n\ta: 1,\n\tb: \x7b y \x7d,\n\tc: 2,\n\x7d;".toList ∧
      ∃ c', locate .binding "x".toList
          "max = 1; x = \x7b\n\ta: 1,\n\tb: \x7b y \x7d,\n\tc: 2,\n\x7d;".toList = .ok c' := by
  have hname : IsContainerName "x".toList := ⟨by decide, by decide, by decide, by decide⟩
  obtain ⟨_, hfound⟩ :=
    @insertEntry_grows _ .binding "x".toList "max = 1; x= \x7ba: 1\x7d;".toList hname
  let c : Container := ⟨.binding, "x".toList, "max = 1; ".toList, "x= \x7b".toList, "a: 1".toList,
    ";".toList⟩
  have hc : locate .binding "x".toList "max = 1; x= \x7ba: 1\x7d;".toList = .ok c := by decide +kernel
  obtain ⟨_, _, hrun⟩ := hfound c hc
  obtain ⟨hinserted, hagain⟩ := hrun
    [("b: \x7b y \x7d".toList, .comma), ("c: 2".toList, .comma)] (by decide) (by decide +kernel)
  have htext : c.front ++ ((c.grownAll
      [("b: \x7b y \x7d".toList, .comma), ("c: 2".toList, .comma)]).written ++ c.rest) =
      "max = 1; x = \x7b\n\ta: 1,\n\tb: \x7b y \x7d,\n\tc: 2,\n\x7d;".toList := by decide +kernel
  rw [htext] at hinserted hagain
  exact ⟨c, hc, hinserted, _, hagain⟩

end Fabula
