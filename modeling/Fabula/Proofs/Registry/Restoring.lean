import Fabula.Proofs.Registry.Siblings

/-!
# Adding an entity and removing it again

A removal takes out the first line that reads like the import, and the entries of the id from
the first container of the kind. After an addition to a registry file these are what was just
written, when the id was not listed before, and the file is restored byte for byte
(`Registry.Format.remove_text`). This is about all files that come from additions, of any ids,
and not only of free ones.

## Entries that stand apart

What a removal does to a list of entries is known when the entries of the key stand apart in
their container (`KeyedEntry.StandApart`). A new id has one entry, so there are no two of them
in a row. Whether its key occurs elsewhere is different in the two files.

In the register the entries are lines. The key is looked for from the header of the container
on, as a line, and the header is such a line when the id is the name of the container. So an
entity called like its own container takes the header with it. Another entry has no second
colon, and hence no key but its own.

In the world state the entries are objects. An object that begins at the brace of the header
ends where the container does, and behind that there is no line break for the pattern to match.
So an entity called like its container does no harm there. But a container may be hidden by a
member of its name. The entity is then written into that member, on a new line, and the member
had none. When the entity is removed a line break is left (`Registry.removeEntry_withEntry_ne`).

## No other ids

In each of the two cases the file does not come back, and otherwise it does. So the condition is
exact, for each of the files by itself (`Registry.removal_restores`). Proving the negative part
asks for more than an example: whatever else is listed, the header is gone, or the line break is
there.
-/

namespace Fabula

open scoped Engine.Tireless

open Removal Registry NamedEntity

namespace Registry

namespace Format

variable (F : Format) {head : Text} {listed : List NamedEntity} {e : NamedEntity}

/-! ## Entries as a removal reads them -/

theorem importOf_ne_nil (e : NamedEntity) : F.importOf e.toEntity ≠ [] := by
  obtain ⟨symbol, _, himport⟩ := F.importing e.toEntity e.isWord.isNameText
  rw [himport, importLine_eq]
  simp

/-- The import of the last entity goes first. -/
theorem withoutImport_text (head : Text) (listed : List NamedEntity) (e : NamedEntity) :
    withoutImport (F.importOf e.toEntity) (F.text head (listed ++ [e])) =
      F.sheet (F.top head listed) (listed ++ [e]) := by
  rw [text, top_concat, ← append_sheet, withoutImport_append (F.importOf_ne_nil e)]

/-- The entry of an entity on its lines. -/
def keyed (e : NamedEntity) : KeyedEntry where
  indent := ['\t', '\t']
  key := e.id
  value := F.valueOf e.toEntity
  shape := F.shape
  ends := F.punctuation
  indent_blank := by decide
  key_open := e.isWord.not_mem (by decide)
  key_close := e.isWord.not_mem (by decide)
  fits := F.fits _ e.isWord.isNameText

/-- A container of a file lists entries. -/
theorem body_entries (xs : List NamedEntity) :
    body F.punctuation (xs.map fun e => F.entryOf e.toEntity) =
      KeyedEntry.body (xs.map F.keyed) ['\t'] := by
  unfold body KeyedEntry.body
  rw [List.flatMap_map, List.flatMap_map]
  congr 2
  refine List.flatMap_congr fun e _ => ?_
  rw [line, F.entry_eq, KeyedEntry.text]
  simp [keyed]

/-- The container of a kind lists entries. -/
theorem container_body (listed : List NamedEntity) (kind : EntityKind) (front rest : Text) :
    ((style F.punctuation).container .property kind.container front (F.entries listed kind)
      rest).body = KeyedEntry.body ((ofKind listed kind).map F.keyed) ['\t'] := by
  rw [← F.body_entries, body_eq]
  rfl

/-- **The container to which an entity was added** is found, and with the other entries alone it
makes the file without the entity. -/
theorem exists_locate_concat {front : Text} (hfront : Lacks e.kind.container MayOpen front)
    (hclear : ∀ x ∈ listed, ¬F.hides x.toEntity e.kind) : ∃ front' rest,
      Container.locate .property e.kind.container (F.sheet front (listed ++ [e])) =
        .ok ((style F.punctuation).container .property e.kind.container front'
          (F.entries (listed ++ [e]) e.kind) rest) ∧
      F.sheet front listed = front' ++ ((style F.punctuation).written .property e.kind.container
        (F.entries listed e.kind) ++ rest) := by
  obtain ⟨before, after, hall, hbefore, hafter⟩ := e.kind.exists_all_eq
  rw [F.sheet_concat hall hbefore hafter, F.sheet_eq hall, ← entries_concat]
  exact ⟨_, _, Registry.locate_sheet hfront e.kind.isWord_container
    (F.passesOver_containers hbefore fun x hx _ => hclear x hx) fun _ => F.isFit_entries,
    sheet_append _ _ _ _ _ _⟩

section

variable (hnew : ∀ x ∈ listed, x.kind = e.kind → x.id ≠ e.id)

include hnew in
/-- The other entries of the container have other keys. -/
theorem key_ne_of_mem {x : KeyedEntry} (hx : x ∈ (ofKind listed e.kind).map F.keyed) :
    x.key ≠ e.id := by
  obtain ⟨y, hy, rfl⟩ := List.mem_map.1 hx
  obtain ⟨hlisted, hkind⟩ := mem_ofKind.1 hy
  exact hnew y hlisted hkind

include hnew in
/-- A new id has one entry, so that no two of them follow each other. -/
theorem isChain_keyed : ((ofKind (listed ++ [e]) e.kind).map F.keyed).IsChain
    fun x y => ¬(x.key = e.id ∧ y.key = e.id) := by
  rw [ofKind_concat, List.map_append]
  refine (List.pairwise_append.2 ⟨?_, List.pairwise_singleton _ _, ?_⟩).isChain
  · exact List.pairwise_of_forall_mem_list fun x hx y _ hboth => F.key_ne_of_mem hnew hx hboth.1
  · exact fun x hx y _ hboth => F.key_ne_of_mem hnew hx hboth.1

include hnew in
/-- What is left without the entries of a new id. -/
theorem filter_keyed :
    ((ofKind (listed ++ [e]) e.kind).map F.keyed).filter (fun x => x.key ≠ e.id) =
      (ofKind listed e.kind).map F.keyed := by
  have hkeep : ((ofKind listed e.kind).map F.keyed).filter (fun x => x.key ≠ e.id) =
      (ofKind listed e.kind).map F.keyed :=
    List.filter_eq_self.2 fun x hx => decide_eq_true (F.key_ne_of_mem hnew hx)
  rw [ofKind_concat, List.map_append, List.filter_append, hkeep]
  simp [keyed]

include hnew in
/-- **Removing an entity** from a file to which it was added restores the file, when its entry
stands apart in the container. -/
theorem remove_text (hhead : ':' ∉ head) (hclear : ∀ x ∈ listed, ¬F.hides x.toEntity e.kind)
    (hapart : KeyedEntry.StandApart e.id F.shape
      (ContainerKind.property.opening e.kind.container)
      ((ofKind (listed ++ [e]) e.kind).map F.keyed)) :
    F.remove e.toEntity (F.text head (listed ++ [e])) = .ok (F.text head listed) := by
  obtain ⟨front, rest, hc, hold⟩ := F.exists_locate_concat (F.lacks_top hhead listed _) hclear
  have hheader := ContainerKind.property.isHeader_opening e.kind.container
  have hfound : ∃ x ∈ (ofKind (listed ++ [e]) e.kind).map F.keyed, x.key = e.id :=
    ⟨F.keyed e, List.mem_map_of_mem (mem_ofKind.2 ⟨by simp, rfl⟩), rfl⟩
  rw [F.remove_eq_ok, F.withoutImport_text, removeEntry_of_locate hc,
    KeyedEntry.withoutEntry_eq e.isWord hheader (F.container_body _ _ _ _) (by decide) hapart,
    if_pos hfound, F.filter_keyed hnew, ← F.body_entries, body_eq, text, hold]
  exact congrArg Except.ok (List.append_assoc _ _ _)

end

end Format

section Restored

variable {head head' : Text} {listed present : List NamedEntity} {e : NamedEntity}

/-! ## The register -/

/-- **The entry of a new id stands apart** in the register when it is not called like its
container. -/
theorem standApart_register (hnew : ∀ x ∈ listed, x.kind = e.kind → x.id ≠ e.id)
    (hne : e.id ≠ e.kind.container) :
    KeyedEntry.StandApart e.id .line (ContainerKind.property.opening e.kind.container)
      ((ofKind (listed ++ [e]) e.kind).map Format.register.keyed) where
  alike := by
    intro x hx _
    obtain ⟨y, _, rfl⟩ := List.mem_map.1 hx
    rfl
  found := fun h => by cases h
  spaced := Format.register.isChain_keyed hnew
  header_lacks := by
    have hheader : (ContainerKind.property.opening e.kind.container).dropLast =
        e.kind.container ++ ':' :: [' '] := by
      cases e.kind <;> decide
    rw [hheader]
    exact .colon e.isWord e.kind.isWord_container hne (lacks_of_not_mem (by decide))
  others_lack := by
    intro x hx hkey
    obtain ⟨y, _, rfl⟩ := List.mem_map.1 hx
    have hsymbol : ':' ∉ y.kind.symbol y.id :=
      (y.kind.isNameText_symbol y.isWord.isNameText).not_mem (by decide) (by decide)
    have hvalue : ':' ∉ (' ' :: y.kind.symbol y.id) ++ [','] := by
      simp [hsymbol]
    exact .blanks e.isWord (Format.register.keyed y).indent_blank
      (.colon e.isWord y.isWord (Ne.symm hkey) (lacks_of_not_mem hvalue))

/-- **An entity that is called like its container** takes the header with it. -/
theorem removeFromRegister_of_own_name (hhead : ':' ∉ head) (hid : e.id = e.kind.container) :
    e.removeFromRegister (Format.register.text head (listed ++ [e])) ≠
      .ok (Format.register.text head listed) := by
  intro hremoved
  have hname : IsWord e.kind.container := e.kind.isWord_container
  obtain ⟨front, rest, hc, hold⟩ := Format.register.exists_locate_concat
    (Format.register.lacks_top hhead listed e.kind) fun _ _ h => h
  have hlines : ∀ x ∈ (ofKind (listed ++ [e]) e.kind).map Format.register.keyed,
      x.shape = .line := by
    intro x hx
    obtain ⟨y, _, rfl⟩ := List.mem_map.1 hx
    rfl
  obtain ⟨w, hw⟩ := KeyedEntry.withoutEntry_name hname rfl
    (Format.register.container_body (listed ++ [e]) e.kind front rest) (by decide) hlines
  have hremove := (Format.register.remove_eq_ok _ _ _).1 hremoved
  rw [Format.withoutImport_text, removeEntry_of_locate hc, hid,
    show Container.withoutEntry _ e.kind.container = _ from hw] at hremove
  -- the file would begin with the name where there is a line break now
  have hboth : front ++ '\n' :: w ++ rest = front ++
      ((style .comma).written .property e.kind.container (Format.register.entries listed e.kind) ++
        rest) := (Except.ok.inj hremove).trans hold
  obtain ⟨d, cs, hd, hblank⟩ := hname.isKey.exists_cons
  rw [List.append_assoc, List.append_cancel_left_eq, EntryStyle.written, ContainerKind.opening,
    hd] at hboth
  rw [← (List.cons.inj hboth).1] at hblank
  exact absurd hblank (by decide)

/-! ## The world state -/

/-- A member has one object. -/
theorem count_member {e : Entity} (h : IsNameText e.id) :
    (Format.worldState.valueOf e).count '{' ≤ 1 := by
  have hfields : (memberFields e).count '{' = 0 :=
    List.count_eq_zero_of_not_mem (not_mem_memberFields h (by decide) (by decide))
  have hbehind : (memberAnd ++ memberData e).count '{' = 0 :=
    List.count_eq_zero_of_not_mem ((isSpelled_behindFields h).not_mem (by decide) (by decide))
  have hvalue : Format.worldState.valueOf e =
      [' ', '{'] ++ (memberFields e ++ (['}'] ++ (memberAnd ++ memberData e))) := by
    simp [Format.worldState]
  rw [hvalue, List.count_append, List.count_append, List.count_append, hfields, hbehind]
  decide

/-- **The members of an id stand apart** from everything else in their container, be they called
like it. -/
theorem standApart_worldState (hnew : ∀ x ∈ present, x.kind = e.kind → x.id ≠ e.id) :
    KeyedEntry.StandApart e.id .object (ContainerKind.property.opening e.kind.container)
      ((ofKind (present ++ [e]) e.kind).map Format.worldState.keyed) := by
  have hopen : ": \x7b".toList = [':', ' ', '{'] := by decide
  have hheader : ContainerKind.property.opening e.kind.container =
      (e.kind.container ++ [':', ' ']) ++ ['{'] := by
    rw [ContainerKind.opening, hopen, List.append_assoc]
    rfl
  have hstem : '{' ∉ e.kind.container ++ [':', ' '] := by
    simp [e.kind.isWord_container.not_mem (c := '{') (by decide)]
  have hmembers : ∀ x ∈ (ofKind (present ++ [e]) e.kind).map Format.worldState.keyed,
      ∃ y : NamedEntity, x = Format.worldState.keyed y := by
    intro x hx
    obtain ⟨y, _, rfl⟩ := List.mem_map.1 hx
    exact ⟨y, rfl⟩
  refine KeyedEntry.standApart_objects e.isWord hheader hstem (fun x hx => ?_) (fun x hx => ?_)
    (fun x hx _ => ?_) ⟨Format.worldState.keyed e, List.mem_map_of_mem
      (mem_ofKind.2 ⟨by simp, rfl⟩), rfl⟩ (Format.worldState.isChain_keyed hnew)
  · obtain ⟨y, rfl⟩ := hmembers x hx
    exact y.isWord
  · obtain ⟨y, rfl⟩ := hmembers x hx
    exact count_member y.isWord.isNameText
  · obtain ⟨y, rfl⟩ := hmembers x hx
    rfl

/-- **A container without line breaks does not come back** when an entry is added and taken out
again, because a removal leaves a line break. -/
theorem removeEntry_withEntry_ne {kind : ContainerKind} {name key source entry : Text}
    {c : Container} (hname : IsContainerName name) (hc : Container.locate kind name source = .ok c)
    (hentry : Brace.IsBalanced entry) (hfeed : '\n' ∉ c.written) (p : Punctuation) :
    removeEntry kind name key (c.front ++ (c.withEntry entry p ++ c.rest)) ≠ .ok source := by
  intro hremove
  have hsource : source = c.front ++ c.written ++ c.rest := by
    simpa [Container.written] using (Container.locate_eq_ok_iff.1 hc).2.1
  have hagain := (Container.insertEntry_step hname hc hentry p).2
  rw [Container.written_grown] at hagain
  rw [removeEntry_of_locate hagain] at hremove
  cases hwithout : (c.grown entry p).withoutEntry key with
  | error error =>
    rw [hwithout] at hremove
    cases hremove
  | ok w =>
    rw [hwithout] at hremove
    have hboth : c.front ++ w ++ c.rest = c.front ++ c.written ++ c.rest :=
      (Except.ok.inj hremove).trans hsource
    have hw := List.append_cancel_left (List.append_cancel_right hboth)
    exact hfeed (hw ▸ Container.feed_mem_of_withoutEntry hwithout)

/-- **An entity whose container is hidden** is written into a member, and that does not come back
when the entity is removed. -/
theorem removeFromWorldState_of_hidden (hhead : ':' ∉ head)
    (hhidden : ∃ x ∈ present, x.Hides e.kind) {added : Text}
    (hadd : e.addToWorldState (Format.worldState.text head present) = .ok added) :
    e.removeFromWorldState added ≠ .ok (Format.worldState.text head present) := by
  intro hremoved
  obtain ⟨x, _, _, _, mid, rest, hfound⟩ := exists_locate_hidden hhidden
  have hname : IsContainerName e.kind.container := by
    cases e.kind <;> exact ⟨by decide, by decide, by decide, by decide⟩
  -- the member that is found, in the file and below the new import
  have hold := hfound _ (Format.worldState.lacks_top hhead present e.kind)
  have hnew := hfound _ (Format.worldState.lacks_top hhead (present ++ [e]) e.kind)
  rw [Format.top_concat, ← Format.append_sheet] at hnew
  have hinsert := (Format.worldState.add_eq_ok _ _ _).1 hadd
  rw [Format.text, Container.insertEntry_of_locate hnew] at hinsert
  have hremove := (Format.worldState.remove_eq_ok _ _ _).1 hremoved
  rw [← Except.ok.inj hinsert] at hremove
  simp only [List.append_assoc] at hremove
  rw [withoutImport_append (Format.worldState.importOf_ne_nil e), ← List.append_assoc] at hremove
  have hfeed : '\n' ∉ ContainerKind.property.opening e.kind.container ++ memberFields x.toEntity ++
      ['}'] := by
    have hopening : '\n' ∉ ContainerKind.property.opening e.kind.container := by
      cases e.kind <;> decide
    simp [hopening, not_mem_memberFields x.isWord.isNameText (c := '\n') (by decide) (by decide)]
  exact removeEntry_withEntry_ne hname hold (isFit_worldStateMember e.isWord).balanced hfeed
    .semicolon hremove

/-! ## Both files -/

/-- **An entity is added to the register** behind the others of its kind. -/
theorem addToRegister_text (hhead : ':' ∉ head) (listed : List NamedEntity) (e : NamedEntity) :
    e.addToRegister (Format.register.text head listed) =
      .ok (Format.register.text head (listed ++ [e])) :=
  Format.register.add_text hhead fun _ _ h => h

/-- Any number of entities. -/
theorem addAllToRegister_text (hhead : ':' ∉ head) (listed : List NamedEntity) :
    listed.foldlM (fun text x => x.addToRegister text) (Format.register.text head []) =
      .ok (Format.register.text head listed) :=
  Format.register.addAll_text hhead (List.pairwise_of_forall_mem_list fun _ _ _ _ h => h)

/-- What restores the registry files under the tireless engine. -/
theorem removal_restores_tireless {register worldState : Text} (hhead : ':' ∉ head) (hhead' : ':' ∉ head')
    (hregister : listed.foldlM (fun text x => x.addToRegister text)
      (Format.register.text head []) = .ok register)
    (hworldState : present.foldlM (fun text x => x.addToWorldState text)
      (Format.worldState.text head' []) = .ok worldState)
    (hlisted : ∀ x ∈ listed, x.kind = e.kind → x.id ≠ e.id)
    (hpresent : ∀ x ∈ present, x.kind = e.kind → x.id ≠ e.id)
    (hclear : present.Pairwise fun x y => ¬x.Hides y.kind) :
    ((∃ added, e.addToRegister register = .ok added ∧
        e.removeFromRegister added = .ok register) ↔ e.id ≠ e.kind.container) ∧
      ((∃ added, e.addToWorldState worldState = .ok added ∧
        e.removeFromWorldState added = .ok worldState) ↔ ∀ x ∈ present, ¬x.Hides e.kind) := by
  obtain rfl : Format.register.text head listed = register :=
    Except.ok.inj ((addAllToRegister_text hhead listed).symm.trans hregister)
  obtain rfl : Format.worldState.text head' present = worldState :=
    Except.ok.inj ((addAllToWorldState_text hhead' hclear).symm.trans hworldState)
  refine ⟨⟨?_, fun hne => ?_⟩, ⟨?_, fun hfree => ?_⟩⟩
  · rintro ⟨added, hadded, hremoved⟩ hid
    obtain rfl := Except.ok.inj ((addToRegister_text hhead listed e).symm.trans hadded)
    exact removeFromRegister_of_own_name hhead hid hremoved
  · exact ⟨_, addToRegister_text hhead listed e, Format.register.remove_text hlisted hhead
      (fun _ _ h => h) (standApart_register hlisted hne)⟩
  · rintro ⟨added, hadded, hremoved⟩ x hx hhides
    exact removeFromWorldState_of_hidden hhead' ⟨x, hx, hhides⟩ hadded hremoved
  · exact ⟨_, addToWorldState_text hhead' hfree, Format.worldState.remove_text hpresent hhead' hfree
      (standApart_worldState hpresent)⟩

/-- **What restores the registry files.** After any additions to the register, and any to the
world state of which none hides the container of a later one, let an entity be added that its
kind does not list yet, and removed again, no search for it being given up. The register is as
it was if and only if the entity is not called like its container, and the world state if and
only if no entity hides that container. -/
theorem removal_restores [Engine] {register worldState : Text} (hhead : ':' ∉ head)
    (hhead' : ':' ∉ head')
    (hregister : listed.foldlM (fun text x => x.addToRegister text)
      (Format.register.text head []) = .ok register)
    (hworldState : present.foldlM (fun text x => x.addToWorldState text)
      (Format.worldState.text head' []) = .ok worldState)
    (hlisted : ∀ x ∈ listed, x.kind = e.kind → x.id ≠ e.id)
    (hpresent : ∀ x ∈ present, x.kind = e.kind → x.id ≠ e.id)
    (hclear : present.Pairwise fun x y => ¬x.Hides y.kind)
    (hsearch : Completes (e.addToRegister register >>= e.removeFromRegister))
    (hsearch' : Completes (e.addToWorldState worldState >>= e.removeFromWorldState)) :
    ((∃ added, e.addToRegister register = .ok added ∧
        e.removeFromRegister added = .ok register) ↔ e.id ≠ e.kind.container) ∧
      ((∃ added, e.addToWorldState worldState = .ok added ∧
        e.removeFromWorldState added = .ok worldState) ↔ ∀ x ∈ present, ¬x.Hides e.kind) := by
  have hregisters : IsSteady fun _ : Engine =>
      listed.foldlM (fun text x => x.addToRegister text) (Format.register.text head []) := by
    refine .foldlM (fun text x => ?_) listed _
    exact x.isSteady_addToRegister text
  have hworldStates : IsSteady fun _ : Engine =>
      present.foldlM (fun text x => x.addToWorldState text) (Format.worldState.text head' []) := by
    refine .foldlM (fun text x => ?_) present _
    exact x.isSteady_addToWorldState text
  obtain ⟨hinRegister, hinWorldState⟩ := removal_restores_tireless hhead hhead'
    (hregisters.tireless_eq_ok hregister) (hworldStates.tireless_eq_ok hworldState) hlisted
    hpresent hclear
  exact ⟨((e.isSteady_addToRegister register).exists_bind_eq_ok_iff
      e.isSteady_removeFromRegister hsearch).trans hinRegister,
    ((e.isSteady_addToWorldState worldState).exists_bind_eq_ok_iff
      e.isSteady_removeFromWorldState hsearch').trans hinWorldState⟩

/-- A character and a location, each called like the container of the other. -/
theorem removal_restores_locations :
    ∃ register worldState added added',
      Entity.addToRegister
        ⟨.location, "characters".toList, "./locations/characters.location".toList⟩
        (Format.register.text Ledger.registerHead []) = .ok register ∧
      Entity.addToWorldState
        ⟨.location, "characters".toList, "./locations/characters.location".toList⟩
        (Format.worldState.text Ledger.worldStateHead []) = .ok worldState ∧
      Entity.addToRegister ⟨.character, "locations".toList, "./characters/locations".toList⟩
        register = .ok added ∧
      Entity.removeFromRegister ⟨.character, "locations".toList, "./characters/locations".toList⟩
        added = .ok register ∧
      Entity.addToWorldState ⟨.character, "locations".toList, "./characters/locations".toList⟩
        worldState = .ok added' ∧
      Entity.removeFromWorldState ⟨.character, "locations".toList, "./characters/locations".toList⟩
        added' = .ok worldState := by
  let characters : NamedEntity :=
    ⟨⟨.location, "characters".toList, "./locations/characters.location".toList⟩, by decide,
      fun _ => lacks_object_of_not_mem (by decide)⟩
  let locations : NamedEntity := ⟨⟨.character, "locations".toList, "./characters/locations".toList⟩,
    by decide, fun _ => lacks_object_of_not_mem (by decide)⟩
  have hhead := Ledger.not_mem_registerHead
  have hhead' := Ledger.not_mem_worldStateHead
  have hfree : ∀ x ∈ ([] : List NamedEntity), ¬x.Hides characters.kind := by decide
  have hregister := addToRegister_text hhead [] characters
  have hworldState := addToWorldState_text hhead' (e := characters) hfree
  have hnew : ∀ x ∈ [characters], x.kind = locations.kind → x.id ≠ locations.id := by decide
  obtain ⟨hinRegister, hinWorldState⟩ := removal_restores (e := locations) hhead hhead'
    (addAllToRegister_text hhead [characters])
    (addAllToWorldState_text hhead' (List.pairwise_singleton _ characters)) hnew hnew
    (List.pairwise_singleton _ _) (by decide +kernel) (by decide +kernel)
  obtain ⟨added, hadded, hremoved⟩ := hinRegister.2 (by decide)
  obtain ⟨added', hadded', hremoved'⟩ := hinWorldState.2 (by decide)
  exact ⟨_, _, added, added', hregister, hworldState, hadded, hremoved, hadded', hremoved'⟩

/-- **A character called `characters` is not removed from the register** as it was added. -/
theorem removal_of_own_name :
    ∃ added, Text.isId "characters".toList = true ∧
      Entity.addToRegister ⟨.character, "characters".toList, "./characters/characters".toList⟩
        (Format.register.text Ledger.registerHead []) = .ok added ∧
      Entity.removeFromRegister ⟨.character, "characters".toList, "./characters/characters".toList⟩
        added ≠ .ok (Format.register.text Ledger.registerHead []) := by
  let characters : NamedEntity :=
    ⟨⟨.character, "characters".toList, "./characters/characters".toList⟩, by decide,
      fun _ => lacks_object_of_not_mem (by decide)⟩
  exact ⟨_, by decide, addToRegister_text Ledger.not_mem_registerHead [] characters,
    removeFromRegister_of_own_name (e := characters) Ledger.not_mem_registerHead rfl⟩

end Restored

end Registry

end Fabula
