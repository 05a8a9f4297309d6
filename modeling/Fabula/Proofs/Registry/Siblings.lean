import Mathlib.Data.Nat.Find
import Fabula.Proofs.Registry.Formats

/-!
# The containers of the other kinds

An entity is added to the world state in the container of its kind, and the containers of the
other kinds should stay as they are. They do, but they may no longer be found. A container is
found by the first text that reads as its header, and the members are written like headers: when
an entity is called like the container of a later kind, what is found from then on is its member
(`Registry.exists_locate_hidden`), and the next entity of that kind is written there.

## What is found

So the question is what is found by the name of a container, in the file of any list of
entities. It is the container of the kind when no entity hides it. Otherwise it is a member, and
of all members that hide the container it is the first one in the order of the file, which is
not the order in which they were added: members of an earlier kind are in front of those of a
later kind (`Registry.exists_first_hides`). In both cases the body that is found is known
(`Registry.exists_locate_body`).

The body of a member tells its kind and its id (`Registry.memberFields_eq_iff`), and it does not
look like entries on lines (`Registry.memberFields_ne_body`). Therefore two bodies are the same
exactly when they are found in the same place.

## Adding an entity

An addition changes what is found when the entity hides the container and no entity in front of
it did so before, and in no other case (`Registry.addToWorldState_siblings`). In front means, of
an earlier kind, or of its own, since a new entity is the last of its kind. Under an engine that
gives up nothing may be found at all, so that is said of the searches which are completed.
-/

namespace Fabula

open scoped Engine.Tireless

open Removal Registry NamedEntity

namespace Registry

variable {head front : Text} {listed added : List NamedEntity} {kind : EntityKind}

/-! ## Members that read as headers -/

/-- The reference of a member tells the kind. -/
theorem refType_injective {kind kind' : EntityKind} (h : refType kind = refType kind') :
    kind = kind' := by
  revert h
  cases kind <;> cases kind' <;> decide

/-- **What a member holds is told by kind and id.** -/
theorem memberFields_eq_iff {x y : Entity} (hid : x.id = y.id) :
    memberFields x = memberFields y ↔ x.kind = y.kind := by
  unfold memberFields memberRef
  rw [hid]
  constructor
  · intro h
    have hrefs := (List.cons.inj (List.append_cancel_left (List.cons.inj h).2)).2
    exact refType_injective (List.append_cancel_right (List.cons.inj hrefs).2)
  · intro h
    rw [h]

/-- What a member holds does not look like the entries of a container. -/
theorem memberFields_ne_body (e : Entity) (p : Punctuation) (entries : List Text) :
    memberFields e ≠ body p entries := by
  intro h
  exact absurd (List.cons.inj h).1 (by decide)

/-- **The first entity that hides a container**, in the order of the file: no kind before its
own has one, and of its own kind it is the first. -/
theorem exists_first_hides (h : ∃ x ∈ listed, x.Hides kind) :
    ∃ x ∈ listed, x.Hides kind ∧ (∀ y ∈ listed, y.Hides kind → x.kind.rank ≤ y.kind.rank) ∧
      ∃ xs ys, ofKind listed x.kind = xs ++ x :: ys ∧ ∀ y ∈ xs, ¬y.Hides kind := by
  classical
  have hrank : ∃ n, ∃ x ∈ listed, x.Hides kind ∧ x.kind.rank = n := by
    obtain ⟨x, hx, hhides⟩ := h
    exact ⟨_, x, hx, hhides, rfl⟩
  obtain ⟨y, hy, hyhides, hleast⟩ := Nat.find_spec hrank
  obtain ⟨x, hfind⟩ : ∃ x, (ofKind listed y.kind).find? (fun z => z.Hides kind) = some x :=
    Option.isSome_iff_exists.1
      (List.find?_isSome.2 ⟨y, mem_ofKind.2 ⟨hy, rfl⟩, decide_eq_true hyhides⟩)
  obtain ⟨hx, hkind⟩ := mem_ofKind.1 (List.mem_of_find?_eq_some hfind)
  obtain ⟨hhides, xs, ys, hsplit, hxs⟩ := List.find?_eq_some_iff_append.1 hfind
  refine ⟨x, hx, of_decide_eq_true hhides, fun z hz hzhides => ?_, xs, ys, by rw [hkind, hsplit],
    fun z hz hzhides => ?_⟩
  · rw [hkind, hleast]
    exact Nat.find_min' hrank ⟨z, hz, hzhides, rfl⟩
  · have hfree := hxs z hz
    rw [decide_eq_true hzhides] at hfree
    cases hfree

/-- **A hidden container is not found**: what is found is the member of the first entity that
hides it. -/
theorem exists_locate_hidden (h : ∃ x ∈ listed, x.Hides kind) :
    ∃ x ∈ listed, x.Hides kind ∧ (∀ y ∈ listed, y.Hides kind → x.kind.rank ≤ y.kind.rank) ∧
      ∃ mid rest, ∀ front, Lacks kind.container MayOpen front →
        Container.locate .property kind.container (Format.worldState.sheet front listed) =
          .ok ⟨.property, kind.container, front ++ mid,
            ContainerKind.property.opening kind.container, memberFields x.toEntity, rest⟩ := by
  obtain ⟨x, hx, hhides, hleast, xs, ys, hsplit, hxs⟩ := exists_first_hides h
  obtain ⟨before, after, hall, hbefore, _⟩ := x.kind.exists_all_eq
  have hmember : x.worldStateMember = ContainerKind.property.opening kind.container ++
      (memberFields x.toEntity ++ '}' :: (memberAnd ++ memberData x.toEntity)) := by
    have hopen : ": \x7b".toList = [':', ' ', '{'] := by decide
    rw [worldStateMember_eq, hhides.2, ContainerKind.opening, hopen]
    simp
  -- the entities in front of it do not hide the container
  have hfront : ∀ b ∈ Format.worldState.containers listed before, PassesOver kind.container b :=
    Format.worldState.passesOver_containers (fun k hk => (hbefore k hk).trans hhides.1)
      fun y hy hk hyhides => ((hleast y hy hyhides).trans_lt (hbefore _ hk)).false
  have hbeside : PassesOver kind.container (x.kind.container, xs.map fun e => e.worldStateMember) :=
    Format.worldState.passesOver_entries hhides.1 fun y hy =>
      ⟨(mem_ofKind.1 (hsplit ▸ List.mem_append_left _ hy)).2, hxs y hy⟩
  refine ⟨x, hx, hhides, hleast,
    entryFront .semicolon [] (Format.worldState.containers listed before) x.kind.container
      (xs.map fun e => e.worldStateMember),
    memberAnd ++ memberData x.toEntity ++ entryRest .semicolon
      (ys.map fun e => e.worldStateMember)
      (Format.worldState.containers listed after ++ Format.worldState.more),
    fun front hlines => ?_⟩
  have hsheet := Format.worldState.sheet_eq_entry hall hsplit front
  rw [show Format.worldState.entryOf x.toEntity = _ from hmember] at hsheet
  rw [hsheet, ← entryFront_eq]
  simp only [List.append_assoc, List.cons_append]
  exact locate_of_front (isFront_entryFront hlines kind.isWord_container hfront hbeside)
    (isBalanced_memberFields x.isWord.isNameText) _

/-! ## Adding an entity -/

/-- **An entity is added to the world state** behind the others of its kind, when none hides the
container. -/
theorem addToWorldState_text (hhead : ':' ∉ head) {e : NamedEntity}
    (hclear : ∀ x ∈ listed, ¬x.Hides e.kind) :
    e.addToWorldState (Format.worldState.text head listed) =
      .ok (Format.worldState.text head (listed ++ [e])) :=
  Format.worldState.add_text hhead hclear

/-- Any number of entities, none of which hides the container of a later one. -/
theorem addAllToWorldState_text (hhead : ':' ∉ head)
    (hclear : added.Pairwise fun x y => ¬x.Hides y.kind) :
    added.foldlM (fun text x => x.addToWorldState text) (Format.worldState.text head []) =
      .ok (Format.worldState.text head added) :=
  Format.worldState.addAll_text hhead hclear

/-- **What is found by the name of a container**: the container of the kind, or the first member
that hides it. -/
theorem exists_locate_body (hhead : ':' ∉ head) (listed : List NamedEntity) (kind : EntityKind) :
    ∃ c, Container.locate .property kind.container (Format.worldState.text head listed) = .ok c ∧
      ((∀ x ∈ listed, ¬x.Hides kind) →
        c.body = body .semicolon (Format.worldState.entries listed kind)) ∧
      ((∃ x ∈ listed, x.Hides kind) → ∃ x ∈ listed, x.Hides kind ∧
        (∀ y ∈ listed, y.Hides kind → x.kind.rank ≤ y.kind.rank) ∧
        c.body = memberFields x.toEntity) := by
  have hlines := Format.worldState.lacks_top hhead listed kind
  by_cases hhidden : ∃ x ∈ listed, x.Hides kind
  · obtain ⟨x, hx, hhides, hleast, mid, rest, hfound⟩ := exists_locate_hidden hhidden
    refine ⟨_, hfound _ hlines, fun hclear => ?_, fun _ => ⟨x, hx, hhides, hleast, rfl⟩⟩
    exact absurd hhides (hclear x hx)
  · have hclear : ∀ x ∈ listed, ¬x.Hides kind := fun x hx hhides => hhidden ⟨x, hx, hhides⟩
    obtain ⟨c, hc, hbody⟩ := Format.worldState.locate_sheet hlines hclear
    exact ⟨c, hc, fun _ => hbody, fun h => absurd h hhidden⟩

/-- Registering an entity and the containers of the other kinds under the tireless engine. -/
theorem addToWorldState_siblings_tireless {source : Text} {e : NamedEntity} (hhead : ':' ∉ head)
    (hclear : (added ++ [e]).Pairwise fun x y => ¬x.Hides y.kind)
    (hsource : added.foldlM (fun text x => x.addToWorldState text)
      (Format.worldState.text head []) = .ok source) :
    ∃ grown, e.addToWorldState source = .ok grown ∧ ∀ kind, kind ≠ e.kind → ∃ c c',
      Container.locate .property kind.container source = .ok c ∧
      Container.locate .property kind.container grown = .ok c' ∧
      (c'.body = c.body ↔
        ¬e.Hides kind ∨ ∃ x ∈ added, x.Hides kind ∧ x.kind.rank ≤ e.kind.rank) ∧
      ((∀ x ∈ added ++ [e], ¬x.Hides kind) →
        c.body = body .semicolon (Format.worldState.entries added kind) ∧
        ∀ later : NamedEntity, later.kind = kind →
          later.addToWorldState grown =
            .ok (Format.worldState.text head (added ++ [e] ++ [later]))) := by
  obtain ⟨hadded, _, hlast⟩ := List.pairwise_append.1 hclear
  obtain rfl : Format.worldState.text head added = source :=
    Except.ok.inj ((addAllToWorldState_text hhead hadded).symm.trans hsource)
  refine ⟨_, addToWorldState_text hhead fun x hx =>
    hlast x hx e (List.mem_singleton_self e), fun kind hkind => ?_⟩
  obtain ⟨c, hc, hown, hhidden⟩ := exists_locate_body hhead added kind
  obtain ⟨c', hc', hown', hhidden'⟩ := exists_locate_body hhead (added ++ [e]) kind
  have hentries : Format.worldState.entries (added ++ [e]) kind =
      Format.worldState.entries added kind :=
    Format.worldState.entries_concat_of_ne added hkind.symm
  refine ⟨c, c', hc, hc', ?_, fun hfree => ⟨hown fun x hx => hfree x (by simp [hx]), ?_⟩⟩
  · by_cases hbefore : ∃ x ∈ added, x.Hides kind
    · -- the first member that hides the container stays the first, or the entity's is
      obtain ⟨x, hx, hhides, hleast, hbody⟩ := hhidden hbefore
      obtain ⟨x', hx', hhides', hleast', hbody'⟩ := hhidden' ⟨x, by simp [hx], hhides⟩
      rw [hbody, hbody', memberFields_eq_iff (hhides'.2.trans hhides.2.symm)]
      have hxx' := hleast' x (by simp [hx]) hhides
      constructor
      · intro hsame
        by_contra hnot
        obtain ⟨hehides, hothers⟩ := not_or.1 hnot
        have hxe := hleast' e (by simp) (not_not.1 hehides)
        rw [hsame] at hxe
        exact hothers ⟨x, hx, hhides, hxe⟩
      · intro hcase
        refine EntityKind.rank_injective (hxx'.antisymm ?_)
        rcases List.mem_append.1 hx' with hmem | hmem
        · exact hleast x' hmem hhides'
        · obtain rfl := List.mem_singleton.1 hmem
          obtain ⟨y, hy, hyhides, hrank⟩ := hcase.resolve_left (not_not.2 hhides')
          exact (hleast y hy hyhides).trans hrank
    · have hclear : ∀ x ∈ added, ¬x.Hides kind := fun x hx hhides => hbefore ⟨x, hx, hhides⟩
      rw [hown hclear]
      constructor
      · intro hsame
        refine .inl fun hehides => ?_
        obtain ⟨x, _, _, _, hbody⟩ := hhidden' ⟨e, by simp, hehides⟩
        exact memberFields_ne_body _ _ _ (hbody.symm.trans hsame)
      · rintro (hfree | ⟨x, hx, hhides, _⟩)
        · rw [hown' fun x hx => ?_, hentries]
          rcases List.mem_append.1 hx with hx | hx
          · exact hclear x hx
          · rw [List.mem_singleton.1 hx]
            exact hfree
        · exact absurd hhides (hclear x hx)
  · rintro later rfl
    exact addToWorldState_text hhead hfree

/-- **Registering an entity and the containers of the other kinds.** After any additions of which
none hides the container of a later one, an entity is added, and every other container's name is
found before and after, where the searches are not given up. The two bodies are the same if and
only if the entity does not hide the container, or another one in front of it did so before.
While no entity hides the container, it is the one of its kind, and the next entity of the kind
goes there. -/
theorem addToWorldState_siblings [Engine] {source : Text} {e : NamedEntity} (hhead : ':' ∉ head)
    (hclear : (added ++ [e]).Pairwise fun x y => ¬x.Hides y.kind)
    (hsource : added.foldlM (fun text x => x.addToWorldState text)
      (Format.worldState.text head []) = .ok source)
    (hsearch : Completes (e.addToWorldState source)) :
    ∃ grown, e.addToWorldState source = .ok grown ∧ ∀ kind, kind ≠ e.kind → ∃ c c',
      (Completes (Container.locate .property kind.container source) →
        Container.locate .property kind.container source = .ok c) ∧
      (Completes (Container.locate .property kind.container grown) →
        Container.locate .property kind.container grown = .ok c') ∧
      (c'.body = c.body ↔
        ¬e.Hides kind ∨ ∃ x ∈ added, x.Hides kind ∧ x.kind.rank ≤ e.kind.rank) ∧
      ((∀ x ∈ added ++ [e], ¬x.Hides kind) →
        c.body = body .semicolon (Format.worldState.entries added kind) ∧
        ∀ later : NamedEntity, later.kind = kind → Completes (later.addToWorldState grown) →
          later.addToWorldState grown =
            .ok (Format.worldState.text head (added ++ [e] ++ [later]))) := by
  have hadditions : IsSteady fun _ : Engine =>
      added.foldlM (fun text x => x.addToWorldState text) (Format.worldState.text head []) := by
    refine .foldlM (fun text x => ?_) added _
    exact x.isSteady_addToWorldState text
  have hlocating := fun kind : EntityKind =>
    Container.isSteady_locate .property kind.container
  obtain ⟨grown, hgrown, hsiblings⟩ := addToWorldState_siblings_tireless hhead hclear
    (hadditions.tireless_eq_ok hsource)
  refine ⟨grown, ((e.isSteady_addToWorldState source).eq hsearch).trans hgrown,
    fun kind hkind => ?_⟩
  obtain ⟨c, c', hc, hc', hsame, hfree⟩ := hsiblings kind hkind
  refine ⟨c, c', fun h => ((hlocating kind source).eq h).trans hc,
    fun h => ((hlocating kind grown).eq h).trans hc', hsame, fun hnone => ?_⟩
  obtain ⟨hbody, hlater⟩ := hfree hnone
  exact ⟨hbody, fun later hkind hcompletes =>
    ((later.isSteady_addToWorldState grown).eq hcompletes).trans (hlater later hkind)⟩

/-- A side character next to a character and a location that are called like a field and like a
container. -/
theorem addToWorldState_siblings_bob :
    ∃ first source grown c c',
      Entity.addToWorldState ⟨.character, "ref".toList, "./characters/ref".toList⟩
        (Format.worldState.text Ledger.worldStateHead []) = .ok first ∧
      Entity.addToWorldState
        ⟨.location, "characters".toList, "./locations/characters.location".toList⟩ first =
          .ok source ∧
      Entity.addToWorldState ⟨.sideCharacter, "bob".toList, "./sideCharacters/bob".toList⟩ source =
        .ok grown ∧
      Container.locate .property EntityKind.location.container source = .ok c ∧
      Container.locate .property EntityKind.location.container grown = .ok c' ∧
      c'.body = c.body := by
  let ref : NamedEntity := ⟨⟨.character, "ref".toList, "./characters/ref".toList⟩, by decide,
    fun _ => lacks_object_of_not_mem (by decide)⟩
  let characters : NamedEntity :=
    ⟨⟨.location, "characters".toList, "./locations/characters.location".toList⟩, by decide,
      fun _ => lacks_object_of_not_mem (by decide)⟩
  let bob : NamedEntity := ⟨⟨.sideCharacter, "bob".toList, "./sideCharacters/bob".toList⟩,
    by decide, fun _ => lacks_object_of_not_mem (by decide)⟩
  have hhead := Ledger.not_mem_worldStateHead
  have hclear : ([ref, characters] ++ [bob]).Pairwise fun x y => ¬x.Hides y.kind := by decide
  have hnone : ∀ x ∈ ([] : List NamedEntity), ¬x.Hides ref.kind := by decide
  have hfree : ∀ x ∈ [ref], ¬x.Hides characters.kind := by decide
  have hfirst := addToWorldState_text hhead (e := ref) hnone
  have hsource := addToWorldState_text hhead (e := characters) hfree
  have hadded := addAllToWorldState_text hhead (List.pairwise_append.1 hclear).1
  have hsearch : Completes (bob.addToWorldState (Format.worldState.text Ledger.worldStateHead
      [ref, characters])) := by
    decide +kernel
  obtain ⟨grown, hgrown, hsiblings⟩ := addToWorldState_siblings hhead hclear hadded hsearch
  obtain ⟨c, c', hc, hc', hsame, _⟩ := hsiblings .location (by decide)
  exact ⟨_, _, grown, c, c', hfirst, hsource, hgrown,
    hc (Container.completes_locate_tireless _ _ _), hc' (Container.completes_locate_tireless _ _ _),
    hsame.2 (.inl (by decide))⟩

/-- **A character called `locations` takes the place of the locations**: its member is found for
their container. -/
theorem addToWorldState_of_hiding :
    ∃ grown c c',
      Text.isId "locations".toList = true ∧
      Entity.addToWorldState ⟨.character, "locations".toList, "./characters/locations".toList⟩
        (Format.worldState.text Ledger.worldStateHead []) = .ok grown ∧
      Container.locate .property EntityKind.location.container
        (Format.worldState.text Ledger.worldStateHead []) = .ok c ∧
      Container.locate .property EntityKind.location.container grown = .ok c' ∧
      c.body = "\n\t".toList ∧ c'.body = " ref: TCharacter<'locations'> ".toList := by
  let locations : NamedEntity := ⟨⟨.character, "locations".toList, "./characters/locations".toList⟩,
    by decide, fun _ => lacks_object_of_not_mem (by decide)⟩
  have hhead := Ledger.not_mem_worldStateHead
  have hnone : ∀ x ∈ ([] : List NamedEntity), ¬x.Hides locations.kind := by decide
  have hadded := addToWorldState_text hhead (e := locations) hnone
  obtain ⟨c, hc, hown, _⟩ := exists_locate_body hhead [] .location
  obtain ⟨c', hc', _, hhidden⟩ := exists_locate_body hhead [locations] .location
  obtain ⟨x, hx, _, _, hbody⟩ := hhidden ⟨locations, by simp, by decide⟩
  obtain rfl := List.mem_singleton.1 hx
  exact ⟨_, c, c', by decide, hadded, hc, hc', hown (by simp), hbody.trans (by decide)⟩

end Registry

end Fabula
