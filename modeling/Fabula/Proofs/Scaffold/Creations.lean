import Fabula.Proofs.Registry.Symbols
import Fabula.Proofs.Scaffold.Generated
import Fabula.Proofs.Scaffold.NewEntities
import Fabula.Proofs.Template.Literals

/-!
# What the files of a project import

Creating something puts one import on top of a file: an entity into the register and into the
world state, a passage into the passage map of its event. Nothing is asked of the names, neither
here nor where a scaffold is planned, which looks for files alone. So after any creations that
succeed, in a fresh project, each of these files imports exactly what was created, the newest
first (`Creation.Listed`), and the names are pairwise different when no two of those that are
imported by one file clash (`Layout.imports_of_creations`).

They may clash. Any entities of which no two are one can be created one after the other
(`Creation.exists_applyAll`), and a character and a side character of one id have files in two
folders and one name in the register (`Layout.imports_of_twins`).

## What is known of the files

No id is ruled out here, those that are called like a container included. Such an entity may
send later entries of the world state to the wrong place. So the files are not known as texts.
What is known is their top, above the first colon: an insertion finds its place by a header, and
a header has a colon, so wherever it goes it is never above that
(`Registry.ImportsOnTop.insertEntry`). This is kept by every edit, and the imports are read off
the top.

## One creation

The three kinds of creations differ in what they do to the disk, and in what has to be known
before. For entities it is that the registry files import what was created, and an entity that
is created changes nothing at the place of another one. For passages it is the passage map of
the event, which is there from the creation of the event on, and the files of the passages. A
passage whose file is there is not created again, so the passages on the list are different from
each other. All of this is one invariant (`Creation.Listed`), and each kind of creation keeps it
(`Creation.Listed.step`).

The induction over the creations begins with a fresh project, whose files import what their
heads do. That the names are pairwise different is then said in terms of ids, by what is known
of the symbols.
-/

namespace Fabula

open Removal Registry Scaffold

open Disk (View)

/-- **Something that is created** in a project. -/
inductive Creation where
  | entity (kind : EntityKind) (name : Text) (id? : Option Text)
  | event (args : EventArgs)
  | passage (p : PassageRef) (kind : PassageKind) (title link : Option Text)

namespace Creation

/-- What is run, unless the arguments are refused. -/
def scaffold [Engine] : Creation → Outcome Scaffold
  | entity kind name id? => createEntity kind name id?
  | event args => createEvent args
  | passage p kind title link => do
    let p ← PassageRef.make p.event p.character p.passage
    pure (createPassage p kind title link)

/-- The entity that is created, if it is one. -/
def entity? : Creation → Option (EntityKind × Text)
  | entity kind name id? => some (kind, id?.getD name.idOfName)
  | event args => some (.event, args.id)
  | passage .. => none

/-- The passage that is created, with its kind, if it is one. -/
def passage? : Creation → Option (PassageRef × PassageKind)
  | passage p kind _ _ => some (p, kind)
  | _ => none

/-- **Applies creations one after the other**, as long as they succeed. -/
def applyAll [Engine] (l : Layout) : List Creation → Disk → Outcome Disk
  | [], d => .ok d
  | c :: cs, d => do
    let scaffold ← c.scaffold
    match l.run .apply scaffold d with
    | (.ok _, d) => applyAll l cs d
    | (.error f, _) => .error f

/-- The same, each committed at once. -/
def applyAllAtOnce [Engine] (l : Layout) : List Creation → Disk → Outcome Disk
  | [], d => .ok d
  | c :: cs, d => do
    let scaffold ← c.scaffold
    match l.runAtOnce scaffold d with
    | (.ok _, d) => applyAllAtOnce l cs d
    | (.error f, _) => .error f

/-- The plan of a creation makes calls of the transaction. -/
theorem exists_calls [Engine] {c : Creation} {s : Scaffold} (hs : c.scaffold = .ok s) :
    ∀ d tx tx', s.plan d tx = .ok tx' → ∃ cs, Calls d tx cs tx' := by
  intro d tx tx' hplan
  cases c with
  | entity kind name id? =>
    obtain ⟨_, _, rfl⟩ := of_createEntity hs
    exact ⟨_, (creatingEntity_spec.1 hplan).2⟩
  | event args =>
    obtain ⟨_, rfl⟩ := Layout.of_createEvent hs
    exact ⟨_, (creatingEvent_spec.1 hplan).2⟩
  | passage p kind title link =>
    obtain ⟨q, _, hs⟩ := Outcome.bind_eq_ok.1 hs
    obtain rfl := Outcome.pure_eq_ok.1 hs
    exact ⟨_, (createPassage_spec.1 hplan).2.2.2⟩

/-- **Nobody else writes**, so committing at once comes to the same. -/
theorem applyAll_eq_applyAllAtOnce [Engine] (l : Layout) (made : List Creation) (d : Disk) :
    applyAll l made d = applyAllAtOnce l made d := by
  induction made generalizing d with
  | nil => rfl
  | cons c made ih =>
    unfold applyAll applyAllAtOnce
    cases hs : c.scaffold with
    | error f => rfl
    | ok s =>
      show (match l.run .apply s d with | (.ok _, d) => applyAll l made d | (.error f, _) => .error f) =
        match l.runAtOnce s d with | (.ok _, d) => applyAllAtOnce l made d | (.error f, _) => .error f
      rw [l.run_eq_runAtOnce (exists_calls hs)]
      cases l.runAtOnce s d with
      | mk r d' =>
        cases r with
        | error f => rfl
        | ok r => exact ih d'

variable {made : List Creation} {c : Creation} {event : Text}

/-- **The entities that are created**, in their order. -/
def entities (made : List Creation) : Ledger :=
  made.filterMap entity?

/-- **The passages of an event that are created**, in their order. -/
def passages (made : List Creation) (event : Text) : PassageMap :=
  (made.filterMap passage?).filter fun x => x.1.event = event

theorem entities_concat (made : List Creation) (c : Creation) :
    entities (made ++ [c]) = entities made ++ c.entity?.toList := by
  rw [entities, List.filterMap_append]
  cases h : c.entity? <;> simp [entities, h]

theorem filterMap_passage?_concat (made : List Creation) (c : Creation) :
    (made ++ [c]).filterMap passage? = made.filterMap passage? ++ c.passage?.toList := by
  rw [List.filterMap_append]
  cases h : c.passage? <;> simp [h]

theorem mem_passages {x : PassageRef × PassageKind} :
    x ∈ passages made event ↔ x ∈ made.filterMap passage? ∧ x.1.event = event := by
  rw [passages, List.mem_filter, decide_eq_true_iff]

theorem passages_concat_of_none (h : c.passage? = none) (event : Text) :
    passages (made ++ [c]) event = passages made event := by
  rw [passages, filterMap_passage?_concat, h, Option.toList_none, List.append_nil, passages]

theorem passages_concat_self {p : PassageRef} {kind : PassageKind}
    (h : c.passage? = some (p, kind)) :
    passages (made ++ [c]) p.event = passages made p.event ++ [(p, kind)] := by
  rw [passages, filterMap_passage?_concat, h, List.filter_append]
  simp [passages]

theorem passages_concat_of_ne {p : PassageRef} {kind : PassageKind}
    (h : c.passage? = some (p, kind)) (hne : p.event ≠ event) : passages (made ++ [c]) event = passages made event := by
  rw [passages, filterMap_passage?_concat, h, List.filter_append]
  simp [passages, hne]

end Creation

namespace Ledger

variable {live : Ledger} {kind : EntityKind} {id : Text}

theorem symbols_concat (live : Ledger) (kind : EntityKind) (id : Text) :
    symbols (live ++ [(kind, id)]) = (kind.symbol id, kind.moduleOf id) :: live.symbols := by
  simp [symbols]

theorem dataTypes_concat (live : Ledger) (kind : EntityKind) (id : Text) :
    dataTypes (live ++ [(kind, id)]) = (kind.dataType id, kind.moduleOf id) :: live.dataTypes := by
  simp [dataTypes]

end Ledger

/-! ## The edits of the registry files -/

namespace Layout

variable [Engine] {l : Layout} {heads : Heads} {live : Ledger} {kind : EntityKind} {id t t' : Text}

variable (hl : l.IsDefault) (hdata : l.dataDir.text ≠ []) (hid : id.isId = true)

include hl hdata hid in
/-- **A new entity is imported by the register**, on top of the others. -/
theorem imports_addToRegister (h : ImportsOnTop live.symbols heads.register t)
    (ht : (entityOf l kind id).addToRegister t = .ok t') :
    ImportsOnTop (Ledger.symbols (live ++ [(kind, id)])) heads.register t' := by
  have hword := isWord_of_isId hid
  have hmodule := kind.isSpelled_moduleOf hword.isNameText
  rw [entityOf_eq hl hdata kind hword] at ht
  unfold Entity.addToRegister at ht
  rw [Outcome.within_eq_ok, Outcome.ofEdit_eq_ok] at ht
  rw [Ledger.symbols_concat]
  have hline := isImportable (kind.isNameText_symbol hword.isNameText) hmodule
  refine (h.importLine hline ?_).insertEntry ht
  exact hmodule.not_mem (by decide) (by decide)

include hl hdata hid in
/-- A new event is imported likewise; its loader comes below. -/
theorem imports_registerEvent (h : ImportsOnTop live.symbols heads.register t)
    (ht : registerEvent l id t = .ok t') :
    ImportsOnTop (Ledger.symbols (live ++ [(.event, id)])) heads.register t' := by
  obtain ⟨t₁, hadd, hload⟩ := Outcome.bind_eq_ok.1 ht
  unfold addLoader at hload
  rw [Outcome.within_eq_ok, Outcome.ofEdit_eq_ok] at hload
  exact (imports_addToRegister hl hdata hid h hadd).insertEntry hload

include hl hdata hid in
/-- **The data of a new entity are imported by the world state.** -/
theorem imports_addToWorldState (h : ImportsOnTop live.dataTypes heads.worldState t)
    (ht : (entityOf l kind id).addToWorldState t = .ok t') :
    ImportsOnTop (Ledger.dataTypes (live ++ [(kind, id)])) heads.worldState t' := by
  have hword := isWord_of_isId hid
  have hmodule := kind.isSpelled_moduleOf hword.isNameText
  rw [entityOf_eq hl hdata kind hword] at ht
  unfold Entity.addToWorldState at ht
  rw [Outcome.within_eq_ok, Outcome.ofEdit_eq_ok] at ht
  rw [Ledger.dataTypes_concat]
  have hline := isImportable (kind.isNameText_dataType hword.isNameText) hmodule
  refine (h.importLine hline ?_).insertEntry ht
  exact hmodule.not_mem (by decide) (by decide)

end Layout

/-! ## One creation -/

namespace Creation

open Layout

variable {l : Layout} {heads : Heads} {d d' : Disk} {made : List Creation} {c : Creation}
  {kind : EntityKind} {id event : Text}

/-- **A project lists what was created**: its files import it, and of each event and each
passage that is there it is known. -/
structure Listed (l : Layout) (heads : Heads) (d : Disk) (made : List Creation) : Prop where
  plain : d.IsPlain
  reaches : l.Reaches d
  ids : ∀ x ∈ entities made, x.2.isId = true
  register : ∃ t, d.get? (d.addressOf l.registerFile) = some (.file (.text t)) ∧
    ImportsOnTop (entities made).symbols heads.register t
  worldState : ∃ t, d.get? (d.addressOf l.worldStateFile) = some (.file (.text t)) ∧
    ImportsOnTop (entities made).dataTypes heads.worldState t
  /-- No event is there that was not created. -/
  event_mem : ∀ event, event.isId = true → d.get? (d.addressOf (l.eventDir event)) ≠ none →
    (.event, event) ∈ entities made
  listing : ∀ event, (.event, event) ∈ entities made →
    PassageMap.IsListing event (passages made event)
  map : ∀ event, (.event, event) ∈ entities made → d.get? (d.addressOf (l.passageMapFile event)) =
    some (.file (.text (PassageMap.text event (passages made event))))
  /-- The files of the passages are there. -/
  file : ∀ x ∈ made.filterMap passage?, x.1.IsValid ∧
    d.get? (d.addressOf (l.passageFile x.1 x.2)) ≠ none

/-- **A call stays at the place of an entity** or edits a registry file. -/
def StaysAt (l : Layout) (d : Disk) (kind : EntityKind) (id : Text) (c : Call) : Prop :=
  (∃ rest, d.addressOf c.path = d.addressOf l.dataDir ++ (kind.place id ++ rest)) ∨
    c.path = l.registerFile ∨ c.path = l.worldStateFile

variable {cs : List Call} {v v' : View}

/-- **What is at the place of another entity stays** as it is. -/
theorem eq_of_staysAt (hl : l.IsDefault) (hcs : ∀ c ∈ cs, StaysAt l d kind id c)
    (hgrows : Call.GrowsAll d.addressOf cs v v') {kind' : EntityKind} {id' : Text}
    (hne : ¬(kind' = kind ∧ id' = id)) (rest : Address) :
    v' (d.addressOf l.dataDir ++ (kind'.place id' ++ rest)) =
      v (d.addressOf l.dataDir ++ (kind'.place id' ++ rest)) := by
  refine hgrows.eq_of_not_prefix fun c hc hpre => ?_
  rcases hcs c hc with ⟨rest', hpath⟩ | hpath | hpath
  · rw [hpath] at hpre
    refine hne (place_eq_of_comparable (.inl (List.IsPrefix.trans ?_ hpre)))
    rw [← List.append_assoc]
    exact List.prefix_append _ rest
  · rw [hpath, hl.addressOf_registerFile] at hpre
    exact not_place_prefix _ _ _ _ _ hpre
  · rw [hpath, hl.addressOf_worldStateFile] at hpre
    exact not_place_prefix _ _ _ _ _ hpre

namespace Listed

section Others

variable (h : Listed l heads d made) (hl : l.IsDefault) (hcs : ∀ c ∈ cs, StaysAt l d kind id c)
  (hgrows : Call.GrowsAll d.addressOf cs d.get? d'.get?)
  (hne : ¬(EntityKind.event = kind ∧ event = id))

include h hl hcs hgrows hne in
/-- **No other event has come to be there.** -/
theorem event_mem_of_other (hevent : event.isId = true)
    (hthere : d'.get? (d.addressOf (l.eventDir event)) ≠ none) :
    (.event, event) ∈ entities made := by
  have hdir : d.addressOf (l.eventDir event) =
      d.addressOf l.dataDir ++ (EntityKind.event.place event ++ []) := by
    rw [List.append_nil]
    exact hl.addressOf_placeOf d .event (isWord_of_isId hevent)
  rw [hdir, eq_of_staysAt hl hcs hgrows hne, ← hdir] at hthere
  exact h.event_mem event hevent hthere

include h hl hcs hgrows hne in
/-- **The passage maps of other events** are as they were. -/
theorem map_of_other (hmem : (.event, event) ∈ entities made) :
    d'.get? (d.addressOf (l.passageMapFile event)) =
      some (.file (.text (PassageMap.text event (passages made event)))) := by
  obtain ⟨rest, hrest⟩ := hl.addressOf_passageMapFile d (isWord_of_isId (h.ids _ hmem))
  rw [← h.map event hmem, hrest]
  exact eq_of_staysAt hl hcs hgrows hne rest

end Others

section Entity

variable {front : List Call} {register worldState : Text → Outcome Text}

/-- **A created entity is listed**, whatever is created at its place, when it is imported by the
registry files and the passage map of a new event is there. -/
theorem of_calls (h : Listed l heads d made) (hl : l.IsDefault) (hid : id.isId = true)
    (hentity : c.entity? = some (kind, id)) (hpassage : c.passage? = none)
    (hfront : ∀ x ∈ front, ∃ rest,
      d.addressOf x.path = d.addressOf l.dataDir ++ (kind.place id ++ rest))
    (hregister : ∀ t t', register t = .ok t' →
      ImportsOnTop (entities made).symbols heads.register t →
        ImportsOnTop (Ledger.symbols (entities made ++ [(kind, id)])) heads.register t')
    (hworldState : ∀ t t', worldState t = .ok t' →
      ImportsOnTop (entities made).dataTypes heads.worldState t →
        ImportsOnTop (Ledger.dataTypes (entities made ++ [(kind, id)])) heads.worldState t')
    (hmap : kind = .event → passages made id = [] ∧ d'.get? (d.addressOf (l.passageMapFile id)) =
      some (.file (.text (Template.passageMap id))))
    (hextends : d'.Extends d) (hgrows : Call.GrowsAll d.addressOf
      (front ++ [.update l.registerFile register, .update l.worldStateFile worldState])
      d.get? d'.get?) : Listed l heads d' (made ++ [c]) := by
  have hentities : entities (made ++ [c]) = entities made ++ [(kind, id)] := by
    rw [entities_concat, hentity]
    rfl
  have hstays : ∀ x ∈ front ++ [.update l.registerFile register, .update l.worldStateFile worldState],
      StaysAt l d kind id x := by
    intro x hx
    rcases List.mem_append.1 hx with hx | hx
    · exact .inl (hfront x hx)
    · rcases List.mem_cons.1 hx with rfl | hx
      · exact .inr (.inl rfl)
      · rw [List.mem_singleton.1 hx]
        exact .inr (.inr rfl)
  have hpassages : ∀ event, passages (made ++ [c]) event = passages made event :=
    passages_concat_of_none hpassage
  have hold : ∀ event, (.event, event) ∈ entities (made ++ [c]) →
      ¬(EntityKind.event = kind ∧ event = id) → (.event, event) ∈ entities made := by
    intro event hmem hne
    rw [hentities, List.mem_append, List.mem_singleton, Prod.mk.injEq] at hmem
    exact hmem.resolve_right hne
  obtain ⟨t, htext, himports⟩ := h.register
  obtain ⟨t', htext', himports'⟩ := h.worldState
  obtain ⟨⟨s, hedit, hnew⟩, s', hedit', hnew'⟩ := texts_of_growsAll hl hfront hgrows htext htext'
  refine ⟨hextends.plain, h.reaches.of_extends h.plain hextends, ?_, ?_, ?_, ?_, ?_, ?_, ?_⟩
  · rw [hentities]
    intro x hx
    rcases List.mem_append.1 hx with hx | hx
    · exact h.ids x hx
    · rw [List.mem_singleton.1 hx]
      exact hid
  · rw [hextends.addressOf_eq, hentities]
    exact ⟨s, hnew, hregister t s hedit himports⟩
  · rw [hextends.addressOf_eq, hentities]
    exact ⟨s', hnew', hworldState t' s' hedit' himports'⟩
  · intro event hevent hthere
    rw [hextends.addressOf_eq] at hthere
    rw [hentities, List.mem_append, List.mem_singleton]
    by_cases hsame : EntityKind.event = kind ∧ event = id
    · exact .inr (Prod.ext hsame.1 hsame.2)
    · exact .inl (h.event_mem_of_other hl hstays hgrows hsame hevent hthere)
  -- a new event has no passages, and every other one has those it had
  · intro event hmem
    rw [hpassages]
    by_cases hsame : EntityKind.event = kind ∧ event = id
    · rw [hsame.2, (hmap hsame.1.symm).1]
      exact ⟨hid, fun _ hx => absurd hx List.not_mem_nil, List.nodup_nil⟩
    · exact h.listing event (hold event hmem hsame)
  · intro event hmem
    rw [hpassages, hextends.addressOf_eq]
    by_cases hsame : EntityKind.event = kind ∧ event = id
    · obtain ⟨hnone, hcreated⟩ := hmap hsame.1.symm
      rw [hsame.2, hnone, PassageMap.text_nil]
      exact hcreated
    · exact h.map_of_other hl hstays hgrows hsame (hold event hmem hsame)
  · rw [filterMap_passage?_concat, hpassage, Option.toList_none, List.append_nil,
      hextends.addressOf_eq]
    exact fun x hx => ⟨(h.file x hx).1, hextends.ne_none _ (h.file x hx).2⟩

end Entity

section Passage

variable {p : PassageRef} {kind : PassageKind}

/-- **A passage that has no file** is not listed yet. -/
theorem listing_concat (h : Listed l heads d made) (hp : p.IsValid)
    (hlive : (.event, p.event) ∈ entities made)
    (hnone : ∀ n e, isPassageFile p.passage (n, e) = true →
      d.get? (d.addressOf (l.passageFolder p.event p.character) ++ [n]) ≠ some e) :
    PassageMap.IsListing p.event (passages made p.event ++ [(p, kind)]) := by
  refine (h.listing p.event hlive).concat hp rfl (fun hmem => ?_) kind
  obtain ⟨⟨q, kind'⟩, hx, rfl⟩ := List.mem_map.1 hmem
  obtain ⟨e, he⟩ := Option.ne_none_iff_exists'.1 (h.file _ (mem_passages.1 hx).1).2
  rw [passageFile_eq, Disk.addressOf_join _ (isName_passageFileName hp.passage kind'),
    ← passageFolder_eq] at he
  refine hnone _ e ?_ he
  rw [isPassageFile, startsWith_passageFileName, Bool.true_and]
  exact endsWith_passageFileName q.passage kind'

/-- Where the file of a passage is. -/
theorem addressOf_passageFile_place (hl : l.IsDefault) (hp : p.IsValid) :
    d.addressOf (l.passageFile p kind) =
      d.addressOf l.dataDir ++ (EntityKind.event.place p.event ++ p.place kind) := by
  have hdir : d.addressOf (l.eventDir p.event) = _ :=
    hl.addressOf_placeOf d .event (isWord_of_isId hp.event)
  rw [addressOf_passageFile hp, hdir, List.append_assoc]

/-- Where the passage map of an event is. -/
theorem addressOf_passageMapFile_place (hl : l.IsDefault) (hevent : event.isId = true) :
    d.addressOf (l.passageMapFile event) =
      d.addressOf l.dataDir ++ (EntityKind.event.place event ++ [passageMapName event]) := by
  have hdir : d.addressOf (l.eventDir event) = _ :=
    hl.addressOf_placeOf d .event (isWord_of_isId hevent)
  rw [addressOf_passageMapFile hevent, hdir, List.append_assoc]

section Calls

variable [Engine] {x : Text} (hl : l.IsDefault) (hp : p.IsValid) (hgrows : Call.GrowsAll d.addressOf
  ([.create (l.passageFile p kind) x] ++ .update (l.passageMapFile p.event)
    (p.addTo (l.passageModule p.event (l.passageFile p kind))) :: []) d.get? d'.get?)

include hl hp hgrows in
/-- **The file of a created passage** is there. -/
theorem file_of_passage_calls : d'.get? (d.addressOf (l.passageFile p kind)) ≠ none := by
  have hgrows : Call.GrowsAll d.addressOf ([] ++ .create (l.passageFile p kind) x :: _) d.get? d'.get? :=
    hgrows
  rw [hgrows.text_of_create fun c hc hpre => ?_]
  · simp
  · rw [List.mem_singleton.1 hc, Call.path, addressOf_passageFile_place hl hp,
      addressOf_passageMapFile_place hl hp.event, List.prefix_append_right_inj,
      List.prefix_append_right_inj] at hpre
    exact absurd hpre.length_le (by simp [PassageRef.place])

include hl hp hgrows in
/-- **The passage map of its event** has it on the list. -/
theorem map_of_passage_calls {present : PassageMap}
    (hlisting : PassageMap.IsListing p.event (present ++ [(p, kind)]))
    (hold : d.get? (d.addressOf (l.passageMapFile p.event)) =
      some (.file (.text (PassageMap.text p.event present)))) :
    d'.get? (d.addressOf (l.passageMapFile p.event)) =
      some (.file (.text (PassageMap.text p.event (present ++ [(p, kind)])))) := by
  have hpassage : ∀ c ∈ [Call.create (l.passageFile p kind) x],
      ¬d.addressOf (l.passageMapFile p.event) <+: d.addressOf c.path := by
    intro c hc hpre
    rw [List.mem_singleton.1 hc, Call.path, addressOf_passageFile_place hl hp,
      addressOf_passageMapFile_place hl hp.event, List.prefix_append_right_inj,
      List.prefix_append_right_inj] at hpre
    exact passageMapName_ne hp.event hp.character (List.cons_prefix_cons.1 hpre).1
  obtain ⟨t, hedit, hnew⟩ := hgrows.text_of_update hpassage
    (fun c hc => absurd hc List.not_mem_nil) hold
  rw [passageModule_passageFile hp] at hedit
  rw [hnew, (PassageRef.isSteady_addTo _ _ _).result_eq (PassageMap.addTo_text hlisting) hedit]

include hl hp hgrows in
/-- **A created passage is listed** by the passage map of its event, and nothing else has
changed. -/
theorem of_passage_calls {title link : Option Text} (h : Listed l heads d made)
    (hlive : (.event, p.event) ∈ entities made)
    (hlisting : PassageMap.IsListing p.event (passages made p.event ++ [(p, kind)]))
    (hextends : d'.Extends d) : Listed l heads d' (made ++ [.passage p kind title link]) := by
  have hentities : entities (made ++ [.passage p kind title link]) = entities made := by
    rw [entities_concat]
    exact List.append_nil _
  have hself : passages (made ++ [.passage p kind title link]) p.event =
      passages made p.event ++ [(p, kind)] := passages_concat_self rfl
  have hat : ∀ c ∈ [Call.create (l.passageFile p kind) x] ++ .update (l.passageMapFile p.event)
      (p.addTo (l.passageModule p.event (l.passageFile p kind))) :: [], ∃ rest,
        d.addressOf c.path = d.addressOf l.dataDir ++ (EntityKind.event.place p.event ++ rest) := by
    intro c hc
    rcases List.mem_cons.1 hc with rfl | hc
    · exact ⟨_, addressOf_passageFile_place hl hp⟩
    · rw [List.mem_singleton.1 hc]
      exact ⟨_, addressOf_passageMapFile_place hl hp.event⟩
  have hstays : ∀ c ∈ _, StaysAt l d .event p.event c := fun c hc => .inl (hat c hc)
  -- no call reaches the registry files, and only the map of this event is edited
  refine ⟨hextends.plain, h.reaches.of_extends h.plain hextends, ?_, ?_, ?_, ?_, ?_, ?_, ?_⟩
  · rw [hentities]
    exact h.ids
  · rw [hextends.addressOf_eq, hentities,
      hgrows.eq_of_not_prefix fun c hc => (registry_not_above hl (hat c hc).choose_spec).1]
    exact h.register
  · rw [hextends.addressOf_eq, hentities,
      hgrows.eq_of_not_prefix fun c hc => (registry_not_above hl (hat c hc).choose_spec).2]
    exact h.worldState
  · intro event hevent hthere
    rw [hextends.addressOf_eq] at hthere
    rw [hentities]
    by_cases hsame : EntityKind.event = .event ∧ event = p.event
    · rw [hsame.2]
      exact hlive
    · exact h.event_mem_of_other hl hstays hgrows hsame hevent hthere
  · intro event hmem
    rw [hentities] at hmem
    by_cases hsame : p.event = event
    · rw [← hsame, hself]
      exact hlisting
    · rw [passages_concat_of_ne rfl hsame]
      exact h.listing event hmem
  · intro event hmem
    rw [hentities] at hmem
    rw [hextends.addressOf_eq]
    by_cases hsame : p.event = event
    · rw [← hsame, hself]
      exact map_of_passage_calls hl hp hgrows hlisting (h.map p.event hlive)
    · rw [passages_concat_of_ne rfl hsame]
      exact h.map_of_other hl hstays hgrows (fun heq => hsame heq.2.symm) hmem
  · rw [filterMap_passage?_concat, hextends.addressOf_eq]
    intro y hy
    rcases List.mem_append.1 hy with hy | hy
    · exact ⟨(h.file y hy).1, hextends.ne_none _ (h.file y hy).2⟩
    · obtain rfl : y = (p, kind) := List.mem_singleton.1 hy
      exact ⟨hp, file_of_passage_calls hl hp hgrows⟩

end Calls

end Passage

section Step

variable [Engine] {r : Report} {s : Scaffold} (h : Listed l heads d made) (hl : l.IsDefault)
  (hrun : l.run .apply s d = (.ok r, d'))

section Entity

variable (hdata : l.dataDir.text ≠ [])

include h hl hdata hrun in
/-- **An entity that is no event** is listed. -/
theorem add_entity {name : Text} {id? : Option Text} (hs : createEntity kind name id? = .ok s) :
    Listed l heads d' (made ++ [.entity kind name id?]) := by
  obtain ⟨hkind, hid, rfl⟩ := of_createEntity hs
  have hword := isWord_of_isId hid
  obtain ⟨hextends, -, hgrows⟩ := Growth.of_run h.reaches h.plain
    (isFor_entityGrowth hl hkind hword) (.refl h.plain) hrun
  have hgrows : Call.GrowsAll d.addressOf
      ([.create (l.entityFile kind _) (Template.entity kind _ name.trim)] ++
        [.update l.registerFile _, .update l.worldStateFile _]) d.get? d'.get? := hgrows
  refine h.of_calls hl hid rfl rfl (fun x hx => ?_)
    (fun t t' ht himports => imports_addToRegister hl hdata hid himports ht)
    (fun t t' ht himports => imports_addToWorldState hl hdata hid himports ht)
    (fun hevent => absurd hevent hkind) hextends hgrows
  rw [List.mem_singleton.1 hx]
  exact hl.place_prefix_entityFile d kind hword

include h hl hdata hrun in
/-- **An event** is listed, with no passages. -/
theorem add_event {args : EventArgs} (hs : createEvent args = .ok s) :
    Listed l heads d' (made ++ [.event args]) := by
  obtain ⟨hid, rfl⟩ := of_createEvent hs
  have hword := isWord_of_isId hid
  obtain ⟨hextends, hnone, hgrows⟩ := Growth.of_run h.reaches h.plain
    (isFor_eventGrowth hl h.reaches h.plain hword) (.refl h.plain) hrun
  have hnone : d.get? (d.addressOf (l.eventDir args.id)) = none := hnone
  have hgrows : Call.GrowsAll d.addressOf
      ([.create (l.eventFile args.id) (Template.event args),
        .create (l.passageMapFile args.id) (Template.passageMap args.id)] ++
        [.update l.registerFile _, .update l.worldStateFile _]) d.get? d'.get? := hgrows
  obtain ⟨rest, hmap⟩ := hl.addressOf_passageMapFile d hword
  refine h.of_calls hl hid rfl rfl (fun x hx => ?_)
    (fun t t' ht himports => imports_registerEvent hl hdata hid himports ht)
    (fun t t' ht himports => imports_addToWorldState hl hdata hid himports ht)
    (fun _ => ⟨?_, ?_⟩) hextends hgrows
  · rcases List.mem_cons.1 hx with rfl | hx
    · exact hl.place_prefix_entityFile d .event hword
    · rw [List.mem_singleton.1 hx]
      exact ⟨rest, hmap⟩
  · -- a passage would be in the folder of the event
    refine List.eq_nil_iff_forall_not_mem.2 fun x hx => ?_
    obtain ⟨hx, hevent⟩ := mem_passages.1 hx
    obtain ⟨hvalid, hfile⟩ := h.file x hx
    rw [addressOf_passageFile hvalid, hevent] at hfile
    exact hfile (h.plain.get?_none_below (List.prefix_append _ _) hnone)
  · refine (show Call.GrowsAll d.addressOf ([.create (l.eventFile args.id) _] ++
      .create (l.passageMapFile args.id) _ :: _) d.get? d'.get? from hgrows).text_of_create ?_
    intro x hx
    rw [hmap]
    rcases List.mem_cons.1 hx with rfl | hx
    · rw [Call.path, hl.addressOf_registerFile]
      exact not_place_prefix _ _ _ _ _
    · rw [List.mem_singleton.1 hx, Call.path, hl.addressOf_worldStateFile]
      exact not_place_prefix _ _ _ _ _

end Entity

include h hl hrun in
/-- **A passage** is listed by its event. -/
theorem add_passage {p : PassageRef} {kind : PassageKind} {title link : Option Text}
    (hp : p.IsValid) (hs : s = createPassage p kind title link) :
    Listed l heads d' (made ++ [.passage p kind title link]) := by
  subst hs
  have hword := isWord_of_isId hp.event
  -- the event and the character are there
  obtain ⟨tx, hplan⟩ := exists_plan_of_run h.plain
    (fun _ _ _ hplan => ⟨_, (createPassage_spec.1 hplan).2.2.2⟩) hrun
  obtain ⟨-, ⟨hfolder, hcharacter⟩, -⟩ := createPassage_spec.1 hplan
  have hevent : d.get? (d.addressOf (l.eventDir p.event)) = some .folder := by
    have hfolder : d.isFolder (l.eventDir p.event) = true := hfolder
    rwa [Disk.isFolder_iff, hl.eventDir_eq, Disk.entryOf?_join h.plain
      (Disk.goesUp_join hl.goesUp (by decide)) (isName_of_isWord hword),
      ← Disk.addressOf_join _ (isName_of_isWord hword), ← hl.eventDir_eq] at hfolder
  have hcharacter : d.get? (d.addressOf (l.characterFile p.character)) ≠ none := by
    have hcharacter : d.pathExists (l.placeOf .character p.character) = true := hcharacter
    have hat := hl.addressOf_placeOf d .character (isWord_of_isId hp.character)
    rw [hl.pathExists_placeOf h.plain .character (isWord_of_isId hp.character), ← hat] at hcharacter
    exact hcharacter
  obtain ⟨hextends, ⟨-, hasks⟩, hgrows⟩ := Growth.of_run h.reaches h.plain
    (isFor_passageGrowth hl hp hevent hcharacter) (.refl h.plain) hrun
  have hgrows : Call.GrowsAll d.addressOf
      ([.create (l.passageFile p kind) (Template.passage kind p title link)] ++
        .update (l.passageMapFile p.event) _ :: []) d.get? d'.get? := hgrows
  have hlive : (.event, p.event) ∈ entities made :=
    h.event_mem p.event hp.event (by rw [hevent]; simp)
  exact of_passage_calls hl hp hgrows h hlive (h.listing_concat hp hlive hasks) hextends

end Step

/-- **One creation that succeeds** is listed with those before it. -/
theorem step [Engine] {s : Scaffold} {r : Report} (h : Listed l heads d made) (hl : l.IsDefault)
    (hdata : l.dataDir.text ≠ []) (hs : c.scaffold = .ok s)
    (hrun : l.run .apply s d = (.ok r, d')) : Listed l heads d' (made ++ [c]) := by
  cases c with
  | entity kind name id? => exact h.add_entity hl hrun hdata hs
  | event args => exact h.add_event hl hrun hdata hs
  | passage p kind title link =>
    obtain ⟨q, hq, hs⟩ := Outcome.bind_eq_ok.1 hs
    obtain ⟨rfl, hp⟩ := PassageRef.make_eq_ok_iff.1 hq
    exact h.add_passage hl hrun hp (Outcome.pure_eq_ok.1 hs).symm

/-- **Any creations that succeed** are listed with those before them. -/
theorem applyAll [Engine] {more : List Creation} (h : Listed l heads d made) (hl : l.IsDefault)
    (hdata : l.dataDir.text ≠ []) (hall : Creation.applyAll l more d = .ok d') :
    Listed l heads d' (made ++ more) := by
  induction more generalizing d made with
  | nil =>
    obtain rfl := Except.ok.inj hall
    rwa [List.append_nil]
  | cons c more ih =>
    obtain ⟨s, hs, hall⟩ := Outcome.bind_eq_ok.1 hall
    cases hrun : l.run .apply s d with
    | mk outcome d₁ =>
      rw [hrun] at hall
      cases outcome with
      | error f => cases hall
      | ok r =>
        rw [List.append_cons]
        exact ih (h.step hl hdata hs hrun) hall

/-- **A fresh project** lists nothing. -/
theorem of_isFresh (hl : l.IsDefault) (hdata : l.dataDir.text ≠ [])
    (hfresh : l.IsFresh heads d) : Listed l heads d [] := by
  have hshows := hfresh.shows hl
  have hregister := hshows.register
  have hworldState := hshows.worldState
  rw [← hl.addressOf_registerFile] at hregister
  rw [← hl.addressOf_worldStateFile] at hworldState
  have hnone : ∀ event, event.isId = true → d.get? (d.addressOf (l.eventDir event)) ≠ none →
      (.event, event) ∈ entities [] := by
    intro event hevent hthere
    have hat : d.addressOf (l.eventDir event) = _ :=
      hl.addressOf_placeOf d .event (isWord_of_isId hevent)
    rw [hat] at hthere
    exact absurd ((hshows.places .event event hevent).1 hthere) List.not_mem_nil
  exact
    { plain := hfresh.plain
      reaches := hshows.reaches hl hdata
      ids := fun _ hx => absurd hx List.not_mem_nil
      register := ⟨_, hregister, .nil heads.register_colon (prefix_sheet _ _ _ _)⟩
      worldState := ⟨_, hworldState, .nil heads.worldState_colon (prefix_sheet _ _ _ _)⟩
      event_mem := hnone
      listing := fun _ hx => absurd hx List.not_mem_nil
      map := fun _ hx => absurd hx List.not_mem_nil
      file := fun _ hx => absurd hx List.not_mem_nil }

end Listed

/-! ## Entities that are not there yet -/

section New

open scoped Engine.Tireless

/-- **An id and a name that can be shown** are not refused. -/
theorem isOk_createEntity {name : Text} (hkind : kind ≠ .event) (hid : id.isId = true)
    (hname : name.isShown = true) : (createEntity kind name (some id)).isOk = true := by
  have hok : createEntity kind name (some id) = .ok (creatingEntity kind id name.trim) := by
    unfold createEntity
    rw [if_neg hkind]
    exact Outcome.bind_eq_ok.2 ⟨(), checkId_eq_ok_iff.2 hid,
      Outcome.bind_eq_ok.2 ⟨(), Template.checkShown_eq_ok_iff.2 hname, rfl⟩⟩
  rw [hok]
  rfl

/-- **A creation of a new entity succeeds**, when its arguments are not refused. -/
theorem exists_run {live : Ledger} {s : Scaffold} (hl : l.IsDefault) (hdata : l.dataDir.text ≠ [])
    (h : l.Shows heads d live) (hroom : l.HasRoom d) (hs : c.scaffold = .ok s)
    (hentity : c.entity? = some (kind, id)) (hvalid : Ledger.IsValid (live ++ [(kind, id)])) :
    ∃ r d', l.run .apply s d = (.ok r, d') ∧ l.Shows heads d' (live ++ [(kind, id)]) ∧ l.HasRoom d' := by
  cases c with
  | entity kind' name id? =>
    obtain ⟨rfl, rfl⟩ := Prod.mk.inj (Option.some.inj hentity)
    obtain ⟨hkind, _, rfl⟩ := of_createEntity hs
    exact exists_run_creatingEntity hl hdata h hroom hkind hvalid
  | event args =>
    obtain ⟨rfl, rfl⟩ := Prod.mk.inj (Option.some.inj hentity)
    obtain ⟨_, rfl⟩ := of_createEvent hs
    exact exists_run_creatingEvent hl hdata h hroom hvalid
  | passage => cases hentity

/-- **Any entities of which no two are one can be created** one after the other. -/
theorem exists_applyAll {live : Ledger} (hl : l.IsDefault) (hdata : l.dataDir.text ≠ [])
    (h : l.Shows heads d live) (hroom : l.HasRoom d)
    (hmade : ∀ c ∈ made, c.entity? ≠ none ∧ c.scaffold.isOk = true)
    (hvalid : Ledger.IsValid (live ++ entities made)) :
    ∃ d', Creation.applyAll l made d = .ok d' := by
  induction made generalizing d live with
  | nil => exact ⟨d, rfl⟩
  | cons c made ih =>
    obtain ⟨hentity, hs⟩ := hmade c List.mem_cons_self
    obtain ⟨⟨kind, id⟩, hentity⟩ := Option.ne_none_iff_exists'.1 hentity
    obtain ⟨s, hs⟩ := Outcome.exists_of_isOk hs
    have hcons : live ++ entities (c :: made) = (live ++ [(kind, id)]) ++ entities made := by
      rw [entities, List.filterMap_cons_some hentity, List.append_cons]
      rfl
    rw [hcons] at hvalid
    have hfirst : Ledger.IsValid (live ++ [(kind, id)]) :=
      ⟨(List.nodup_append.1 hvalid.nodup).1, fun x hx => hvalid.free x (List.mem_append_left _ hx)⟩
    obtain ⟨r, d₁, hrun, hshows, hroom'⟩ := exists_run hl hdata h hroom hs hentity hfirst
    obtain ⟨d', hrest⟩ := ih hshows hroom'
      (fun c' hc' => hmade c' (List.mem_cons_of_mem _ hc')) hvalid
    refine ⟨d', Outcome.bind_eq_ok.2 ⟨s, hs, ?_⟩⟩
    rw [hrun]
    exact hrest

end New

end Creation

/-! ## Any creations in a fresh project -/

namespace Layout

open Creation

variable {l : Layout} {heads : Heads} {d d' : Disk} {made : List Creation} {p : Path}
  {event : Text}

/-- The passage map of an event is read where it is. -/
theorem read_passageMapFile (hl : l.IsDefault) (hd : d.IsPlain) (hevent : event.isId = true)
    {t : Text} : d.read (l.passageMapFile event) = .ok t ↔
      d.get? (d.addressOf (l.passageMapFile event)) = some (.file (.text t)) := by
  have hup : (l.eventDir event).goesUp = false := by
    rw [hl.eventDir_eq]
    exact Disk.goesUp_join (Disk.goesUp_join hl.goesUp (by decide))
      (isName_of_isWord (isWord_of_isId hevent))
  have hname := isName_passageMapName hevent
  rw [Disk.read_eq_ok_iff, passageMapFile_eq, Disk.entryOf?_join hd hup hname,
    Disk.addressOf_join _ hname]

/-- **A file imports** at its top certain names from certain modules. -/
def Imports (d : Disk) (p : Path) (is : List (Text × Text)) : Prop :=
  ∃ t, d.read p = .ok t ∧ topImports t = is

/-- **The register imports** what was created. -/
theorem Imports.register (hl : l.IsDefault) (h : Listed l heads d made) :
    Imports d l.registerFile ((entities made).symbols ++ topImports heads.register) := by
  obtain ⟨t, ht, htop⟩ := h.register
  rw [hl.addressOf_registerFile, ← hl.read_registerFile h.plain] at ht
  exact ⟨t, ht, htop.topImports_eq⟩

/-- **What is created is imported, under names that may clash.** After any creations that
succeed in a fresh project, the register and the world state import, above what they always do,
all entities that were created, and the passage map of each event its passages. The names are
pairwise different exactly when no two entities clash, for a passage map when no two passages
have one stem and none has that of the type every map imports. -/
theorem imports_of_creations [Engine] (hl : l.IsDefault) (hdata : l.dataDir.text ≠ [])
    (hfresh : l.IsFresh heads d) (h : applyAll l made d = .ok d') :
    (Imports d' l.registerFile ((entities made).symbols ++ topImports heads.register) ∧
      (((entities made).symbols.map Prod.fst).Nodup ↔
        (entities made).Pairwise fun x y => ¬EntityKind.SymbolClash x y)) ∧
    (Imports d' l.worldStateFile ((entities made).dataTypes ++ topImports heads.worldState) ∧
      (((entities made).dataTypes.map Prod.fst).Nodup ↔
        (entities made).Pairwise fun x y => ¬EntityKind.DataTypeClash x y)) ∧
    ∀ event, (.event, event) ∈ entities made →
      Imports d' (l.passageMapFile event)
          ((passages made event).imports ++ PassageMap.fixedImports) ∧
        ((((passages made event).imports ++ PassageMap.fixedImports).map Prod.fst).Nodup ↔
          ((passages made event).Pairwise fun x y => x.1.stem ≠ y.1.stem) ∧
            ∀ x ∈ passages made event, x.1.stem ≠ "TEvent".toList) := by
  have hlisted : Listed l heads d' made := (Listed.of_isFresh hl hdata hfresh).applyAll hl hdata h
  refine ⟨⟨.register hl hlisted, Ledger.nodup_symbols_iff hlisted.ids⟩,
    ⟨?_, Ledger.nodup_dataTypes_iff hlisted.ids⟩,
    fun event hevent => ⟨?_, PassageMap.nodup_imports_iff _⟩⟩
  · obtain ⟨t, ht, htop⟩ := hlisted.worldState
    rw [hl.addressOf_worldStateFile, ← hl.read_worldStateFile hlisted.plain] at ht
    exact ⟨t, ht, htop.topImports_eq⟩
  · exact ⟨_, (read_passageMapFile hl hlisted.plain (hlisted.ids _ hevent)).2
      (hlisted.map event hevent), PassageMap.topImports_text (hlisted.listing event hevent)⟩

section Ball

open scoped Engine.Tireless

/-- A character, an event and a passage of both. -/
def ballCreations : List Creation :=
  [.entity .character "Ann".toList none, .event annBall,
    .passage ⟨"ball".toList, "ann".toList, "in".toList⟩ .screen none none]

theorem imports_of_creations_ball : ∃ d,
    (smallLayout.IsDefault ∧ smallLayout.dataDir.text ≠ [] ∧
      smallLayout.IsFresh Ledger.bareHeads (freshDisk Ledger.bareHeads) ∧
      applyAll smallLayout ballCreations (freshDisk Ledger.bareHeads) = .ok d) ∧
    (.event, "ball".toList) ∈ entities ballCreations ∧
    (Imports d smallLayout.registerFile [("ballEvent".toList, "./events/ball/ball.event".toList),
        ("Ann".toList, "./characters/ann".toList)] ∧
      (((entities ballCreations).symbols.map Prod.fst).Nodup ↔
        (entities ballCreations).Pairwise fun x y => ¬EntityKind.SymbolClash x y)) ∧
    (Imports d smallLayout.worldStateFile
        [("TBallEventData".toList, "./events/ball/ball.event".toList),
          ("TAnnCharacterData".toList, "./characters/ann".toList)] ∧
      (((entities ballCreations).dataTypes.map Prod.fst).Nodup ↔
        (entities ballCreations).Pairwise fun x y => ¬EntityKind.DataTypeClash x y)) ∧
    Imports d (smallLayout.passageMapFile "ball".toList)
      (("annInPassage".toList, "./ann.passages/in.screen".toList) :: PassageMap.fixedImports) ∧
    ((((passages ballCreations "ball".toList).imports ++ PassageMap.fixedImports).map
        Prod.fst).Nodup ↔
      ((passages ballCreations "ball".toList).Pairwise fun x y => x.1.stem ≠ y.1.stem) ∧
        ∀ x ∈ passages ballCreations "ball".toList, x.1.stem ≠ "TEvent".toList) := by
  have hdata : smallLayout.dataDir.text ≠ [] := by
    decide +kernel
  have hfresh := isFresh_freshDisk Ledger.bareHeads
  have hevent : (.event, "ball".toList) ∈ entities ballCreations := by
    decide +kernel
  have happlied : (applyAllAtOnce smallLayout ballCreations
      (freshDisk Ledger.bareHeads)).isOk = true := by
    decide +kernel
  rw [← applyAll_eq_applyAllAtOnce] at happlied
  obtain ⟨d, hd⟩ := Outcome.exists_of_isOk happlied
  obtain ⟨hregister, hworldState, hmaps⟩ :=
    imports_of_creations isDefault_smallLayout hdata hfresh hd
  obtain ⟨hmap, hstems⟩ := hmaps _ hevent
  exact ⟨d, ⟨isDefault_smallLayout, hdata, hfresh, hd⟩, hevent, hregister, hworldState, hmap,
    hstems⟩

end Ball

section Twins

open scoped Engine.Tireless

/-- There is room in the fresh project. -/
theorem hasRoom_freshDisk (heads : Heads) : smallLayout.HasRoom (freshDisk heads) := by
  refine ((isFresh_freshDisk heads).shows isDefault_smallLayout).hasRoom fun kind => ?_
  cases kind <;> rfl

/-- A character and a side character of one name. -/
def twins (name id : Text) : List Creation :=
  [.entity .character name (some id), .entity .sideCharacter name (some id)]

/-- **Two of one name.** In a fresh project a character and a side character of one id can be
created one after the other, and then the register imports both by the same name. -/
theorem imports_of_twins {name id : Text} (hl : l.IsDefault) (hdata : l.dataDir.text ≠ [])
    (hfresh : l.IsFresh heads d) (hroom : l.HasRoom d) (hname : name.isShown = true)
    (hid : IsFreeId id) :
    ∃ d', applyAll l (twins name id) d = .ok d' ∧ Imports d' l.registerFile
      ([(id.capitalize, EntityKind.sideCharacter.moduleOf id),
        (id.capitalize, EntityKind.character.moduleOf id)] ++ topImports heads.register) := by
  have hmade : ∀ c ∈ twins name id, c.entity? ≠ none ∧ c.scaffold.isOk = true := by
    intro c hc
    rcases List.mem_cons.1 hc with rfl | hc
    · exact ⟨by simp [entity?], isOk_createEntity (by decide) hid.1 hname⟩
    · rw [List.mem_singleton.1 hc]
      exact ⟨by simp [entity?], isOk_createEntity (by decide) hid.1 hname⟩
  have hvalid : Ledger.IsValid ([] ++ entities (twins name id)) := by
    refine ⟨by simp [twins, entities, entity?], fun x hx => ?_⟩
    rcases List.mem_cons.1 hx with rfl | hx
    · exact hid
    · rw [List.mem_singleton.1 hx]
      exact hid
  obtain ⟨d', h⟩ := exists_applyAll hl hdata (hfresh.shows hl) hroom hmade hvalid
  exact ⟨d', h, .register hl ((Listed.of_isFresh hl hdata hfresh).applyAll hl hdata h)⟩

theorem imports_of_twins_bob : ∃ d is,
    applyAll smallLayout (twins "Bob".toList "bob".toList) (freshDisk Ledger.usualHeads) = .ok d ∧
      Imports d smallLayout.registerFile (is ++ Ledger.registerImports) ∧
      is = [("Bob".toList, "./sideCharacters/bob".toList),
        ("Bob".toList, "./characters/bob".toList)] ∧
      ¬(is.map Prod.fst).Nodup := by
  have hdata : smallLayout.dataDir.text ≠ [] := by
    decide +kernel
  have hfresh := isFresh_freshDisk Ledger.usualHeads
  obtain ⟨d, hd, himports⟩ := imports_of_twins isDefault_smallLayout hdata hfresh
    (hasRoom_freshDisk _) (show Text.isShown "Bob".toList = true by decide +kernel)
    (show IsFreeId "bob".toList by decide +kernel)
  rw [show Ledger.usualHeads.register = Ledger.registerHead from rfl,
    Ledger.topImports_registerHead] at himports
  exact ⟨d, _, hd, himports, by decide +kernel, by decide +kernel⟩

end Twins

end Layout

end Fabula
