import Fabula.Proofs.Registry.Edits
import Fabula.Proofs.Scaffold.Listing
import Fabula.Proofs.Scaffold.Plans

/-!
# A project and its ledger

A project shows a ledger when both registry files are those of the ledger, byte for byte, and
exactly its entities are there (`Layout.Shows`). Each operation on entities keeps a project
showing a ledger: one that succeeds changes the ledger as it says, one that fails leaves it
(`Step.shows_apply`). So after any number of operations, whatever became of each, the project
shows the ledger of what succeeded (`Step.shows_runAll`).

## One operation

An operation that fails leaves the disk as it was, whatever the reason, so there is nothing to
be shown but that it is planned by calls. An operation that succeeds has found its entity
missing, or there, and because the project shows a ledger the entity is missing on the ledger,
or there. Then the edits of the two registry files are those of the ledger. This is where the
ids that are names of containers are excluded, as the ledger would not be valid with them.

The four plans have one shape, so what a plan leaves behind is followed through the registry
files and the places of the entities once (`Layout.Shows.of_listing`). The plans differ in what
they do to a ledger and to the place of their entity.

Under an engine that gives up searches the edits of the registry files may fail, and then the
operation does. What they answer if they do not is the same under all engines.

## Any number of operations

By induction over the operations, the disk and the ledger are kept together (`Step.runAll`). A
fresh project shows the empty ledger. Its registry files begin with any heads without a colon,
and hold the empty containers. One more thing is asked of the head of the register, that it
spreads nothing, since removing an event removes the lines that spread its passages, wherever
they are (`Layout.registry_of_history`).
-/

namespace Fabula

open Removal Registry Scaffold

namespace Layout

/-- **A project shows a ledger**: its registry files are those of the ledger, and what is
listed is what is there. -/
structure Shows (l : Layout) (heads : Heads) (d : Disk) (live : Ledger) : Prop where
  plain : d.IsPlain
  valid : live.IsValid
  register : d.get? (d.addressOf l.dataDir ++ [registerName]) =
    some (.file (.text (Ledger.register heads live)))
  worldState : d.get? (d.addressOf l.dataDir ++ [worldStateName]) =
    some (.file (.text (Ledger.worldState heads live)))
  places : ∀ (kind : EntityKind) (id : Text), id.isId = true →
    (d.get? (d.addressOf l.dataDir ++ kind.place id) ≠ none ↔ (kind, id) ∈ live)

namespace Shows

variable {l : Layout} {heads : Heads} {d d' : Disk} {live live' : Ledger} {kind : EntityKind}
  {id : Text} {front : List Call} {register worldState : Text → Outcome Text} {tx : Transaction}

/-- What a project shows depends on what the disk holds. -/
theorem of_same (h : l.Shows heads d live) (hplain : d'.IsPlain) (hsame : d'.Same d) :
    l.Shows heads d' live := by
  have hbase : d'.addressOf l.dataDir = d.addressOf l.dataDir :=
    Disk.addressOf_of_cwd_eq hsame.cwd_eq _
  refine ⟨hplain, h.valid, ?_, ?_, fun kind id hid => ?_⟩
  · rw [hbase, hsame.get?_eq]
    exact h.register
  · rw [hbase, hsame.get?_eq]
    exact h.worldState
  · rw [hbase, hsame.get?_eq]
    exact h.places kind id hid

/-- **A plan that lists an entity** takes the project from one ledger to another, when
its edits do if they succeed, and the place of the entity goes with them. -/
theorem of_listing (h : l.Shows heads d live) (hl : Listing l d kind id front register worldState tx)
    (hvalid : live'.IsValid)
    (hregister : ∀ t, register (Ledger.register heads live) = .ok t →
      t = Ledger.register heads live')
    (hworldState : ∀ t, worldState (Ledger.worldState heads live) = .ok t →
      t = Ledger.worldState heads live')
    (hplace : tx.effect d (d.addressOf l.dataDir ++ kind.place id) ≠ none ↔ (kind, id) ∈ live')
    (hothers : ∀ x, x ≠ (kind, id) → (x ∈ live' ↔ x ∈ live))
    (hplain : d'.IsPlain) (hcwd : d'.cwd = d.cwd) (hview : d'.get? = tx.effect d) :
    l.Shows heads d' live' := by
  have hbase : d'.addressOf l.dataDir = d.addressOf l.dataDir := Disk.addressOf_of_cwd_eq hcwd _
  refine ⟨hplain, hvalid, ?_, ?_, fun kind' id' hid' => ?_⟩
  · obtain ⟨t, t', hold, hedit, hnew⟩ := hl.effect_register
    rw [h.register] at hold
    obtain rfl : Ledger.register heads live = t := by simpa using hold
    obtain rfl := hregister t' hedit
    rw [hbase, hview]
    exact hnew
  · obtain ⟨t, t', hold, hedit, hnew⟩ := hl.effect_worldState
    rw [h.worldState] at hold
    obtain rfl : Ledger.worldState heads live = t := by simpa using hold
    obtain rfl := hworldState t' hedit
    rw [hbase, hview]
    exact hnew
  · rw [hbase, hview]
    by_cases hsame : kind' = kind ∧ id' = id
    · obtain ⟨rfl, rfl⟩ := hsame
      exact hplace
    · have hne : (kind', id') ≠ (kind, id) := fun heq => hsame (Prod.mk.inj heq)
      rw [hl.effect_other hsame, hothers _ hne]
      exact h.places kind' id' hid'

end Shows

end Layout

namespace Scaffold

open Layout

variable {l : Layout} {heads : Heads} {d d' : Disk} {live : Ledger} {kind : EntityKind}
  {id name : Text} {tx : Transaction} {targets : List Path}

/-- The entity of a layout is the one of a ledger. -/
theorem entityOf_eq (hl : l.IsDefault) (hdata : l.dataDir.text ≠ []) (kind : EntityKind)
    (hid : IsWord id) : entityOf l kind id = Ledger.entity (kind, id) := by
  unfold entityOf Ledger.entity
  rw [hl.dataModule_entityFile hdata kind hid]

/-- A transaction that has planned nothing sees what is on the disk. -/
theorem pathExists_init (l : Layout) (targets : List Path) (d : Disk) (p : Path) :
    Transaction.pathExists { layout := l, targets } d p = d.pathExists p := by
  show (false || (d.pathExists p && !false)) = _
  simp

section Edits

open scoped Engine.Tireless

variable (hl : l.IsDefault) (hdata : l.dataDir.text ≠ [])
  (hvalid : Ledger.IsValid (live ++ [(kind, id)]))

include hl hdata hvalid in
/-- **A new entity is added to the register of a ledger.** -/
theorem addToRegister_ledger (hkind : kind ≠ .event) :
    (entityOf l kind id).addToRegister (Ledger.register heads live) =
      .ok (Ledger.register heads (live ++ [(kind, id)])) := by
  have hword : IsWord id := hvalid.isWord (List.mem_append_right _ List.mem_cons_self)
  have hevents : (live ++ [(kind, id)]).ids .event = live.ids .event := by
    rw [Ledger.ids_insert_of_ne live [] id hkind, List.append_nil]
  rw [entityOf_eq hl hdata kind hword]
  unfold Ledger.register
  rw [hevents]
  exact Ledger.addToRegister_eq hvalid _

include hl hdata in
/-- A new event is added to it with its loader. -/
theorem registerEvent_ledger (hvalid : Ledger.IsValid (live ++ [(.event, id)])) :
    registerEvent l id (Ledger.register heads live) =
      .ok (Ledger.register heads (live ++ [(.event, id)])) := by
  have hword : IsWord id := hvalid.isWord (List.mem_append_right _ List.mem_cons_self)
  have hevents : (live ++ [(EntityKind.event, id)]).ids .event = live.ids .event ++ [id] :=
    Ledger.ids_insert live [] .event id
  unfold registerEvent
  rw [entityOf_eq hl hdata .event hword, hl.dataModule_passageMapFile hdata hword,
    Outcome.bind_eq_ok]
  refine ⟨_, Ledger.addToRegister_eq hvalid _, ?_⟩
  unfold Ledger.register
  rw [hevents]
  exact Ledger.addLoader_eq hvalid (fun event hevent => hvalid.isWord
    (List.mem_append_left _ (Ledger.mem_ids.1 hevent))) hword

include hl hdata hvalid in
/-- **A new entity is added to the world state of a ledger.** -/
theorem addToWorldState_ledger : (entityOf l kind id).addToWorldState (Ledger.worldState heads live) =
    .ok (Ledger.worldState heads (live ++ [(kind, id)])) := by
  have hword : IsWord id := hvalid.isWord (List.mem_append_right _ List.mem_cons_self)
  rw [entityOf_eq hl hdata kind hword]
  exact Ledger.addToWorldState_eq hvalid

include hl hdata in
/-- **An entity of a ledger is taken out of its register**, unless it is an event. -/
theorem removeFromRegister_ledger {xs ys : Ledger} (hkind : kind ≠ .event)
    (hvalid : Ledger.IsValid (xs ++ (kind, id) :: ys)) :
    (entityOf l kind id).removeFromRegister (Ledger.register heads (xs ++ (kind, id) :: ys)) =
      .ok (Ledger.register heads (xs ++ ys)) := by
  rw [entityOf_eq hl hdata kind (hvalid.of_insert rfl).2.1.isWord]
  unfold Ledger.register
  rw [Ledger.ids_insert_of_ne xs ys id hkind]
  exact Ledger.removeFromRegister_eq hvalid _

include hl hdata in
/-- An event is taken out of it with its loader. -/
theorem unregisterEvent_ledger {xs ys : Ledger} (hspread : Ledger.IsSparse heads.register)
    (hvalid : Ledger.IsValid (xs ++ (.event, id) :: ys)) :
    unregisterEvent l id (Ledger.register heads (xs ++ (.event, id) :: ys)) =
      .ok (Ledger.register heads (xs ++ ys)) := by
  obtain ⟨hrest, hid, hnew⟩ := hvalid.of_insert rfl
  have hothers : ∀ event ∈ Ledger.ids xs .event ++ Ledger.ids ys .event,
      IsWord event ∧ id ≠ event := by
    intro event hevent
    rw [← Ledger.ids_append, Ledger.mem_ids] at hevent
    exact ⟨hrest.isWord hevent, fun heq => hnew (heq ▸ hevent)⟩
  unfold unregisterEvent
  rw [entityOf_eq hl hdata .event hid.isWord, Outcome.bind_eq_ok]
  refine ⟨_, Ledger.removeFromRegister_eq hvalid _, ?_⟩
  unfold Ledger.register
  rw [Ledger.ids_insert, Ledger.ids_append]
  exact Ledger.removeLoader_eq hspread hrest hid hothers

include hl hdata in
/-- **An entity of a ledger is taken out of its world state.** -/
theorem removeFromWorldState_ledger {xs ys : Ledger}
    (hvalid : Ledger.IsValid (xs ++ (kind, id) :: ys)) :
    (entityOf l kind id).removeFromWorldState (Ledger.worldState heads (xs ++ (kind, id) :: ys)) =
      .ok (Ledger.worldState heads (xs ++ ys)) := by
  rw [entityOf_eq hl hdata kind (hvalid.of_insert rfl).2.1.isWord]
  exact Ledger.removeFromWorldState_eq hvalid

end Edits

variable (hl : l.IsDefault) (hdata : l.dataDir.text ≠ []) (h : l.Shows heads d live)
  (hid : IsFreeId id) (hplain : d'.IsPlain) (hcwd : d'.cwd = d.cwd) (hview : d'.get? = tx.effect d)

include hl h hid in
/-- What is not there is not listed. -/
theorem not_mem_of_not_exists (hnone : d.pathExists (l.placeOf kind id) = false) :
    (kind, id) ∉ live := by
  intro hmem
  have hplace := (h.places kind id hid.1).2 hmem
  rw [← hl.pathExists_placeOf h.plain kind hid.isWord, hnone] at hplace
  cases hplace

include hl h hid in
theorem mem_of_exists (hsome : d.pathExists (l.placeOf kind id) = true) : (kind, id) ∈ live :=
  (h.places kind id hid.1).1 ((hl.pathExists_placeOf h.plain kind hid.isWord).1 hsome)

/-- An entity is taken out of a ledger where it stands. -/
theorem erase_insert {xs ys : Ledger} (hnew : (kind, id) ∉ xs ++ ys) :
    (xs ++ (kind, id) :: ys).erase (kind, id) = xs ++ ys := by
  rw [List.erase_append_right _ fun hx => hnew (List.mem_append_left _ hx), List.erase_cons_head]

/-- The files of a new event lie in its folder. -/
theorem addressOf_eventFile (hl : l.IsDefault) (d : Disk) (hid : IsWord id) {ending : Text}
    (hending : '/' ∉ ending) : d.addressOf ((l.eventDir id).join (id ++ ending)) =
      d.addressOf l.dataDir ++ (EntityKind.event.place id ++ [id ++ ending]) := by
  rw [Disk.addressOf_join _ (isName_append hid hending), ← List.append_assoc]
  exact congrArg (· ++ _) (hl.addressOf_placeOf d .event hid)

variable [Engine]

include hl hdata h hid hplain hcwd hview in
/-- **A created entity is shown.** -/
theorem shows_creatingEntity (hkind : kind ≠ .event)
    (hplan : (creatingEntity kind id name).plan d { layout := l, targets } = .ok tx) :
    l.Shows heads d' (live ++ [(kind, id)]) := by
  obtain ⟨hexists, hcalls⟩ := creatingEntity_spec.1 hplan
  have hfile : l.entityFile kind id = l.placeOf kind id := IsDefault.entityFile_eq hkind
  have haddress : d.addressOf (l.entityFile kind id) = d.addressOf l.dataDir ++ kind.place id := by
    rw [hfile, hl.addressOf_placeOf d kind hid.isWord]
  rw [pathExists_init, hfile] at hexists
  have hvalid := h.valid.concat hid (not_mem_of_not_exists hl h hid hexists)
  have hlisting : Listing l d kind id [.create (l.entityFile kind id) (Template.entity kind id name)]
      (entityOf l kind id).addToRegister (entityOf l kind id).addToWorldState tx := by
    refine ⟨hl, h.plain, hid.isWord, fun c hc => ?_, targets, hcalls⟩
    obtain rfl := List.mem_singleton.1 hc
    exact ⟨rfl, [], by rw [List.append_nil]; exact haddress⟩
  have hplace := hlisting.effect_of_create List.mem_cons_self fun q t hq => by
    cases List.mem_singleton.1 hq
    exact haddress
  obtain ⟨t, hplace⟩ := hplace
  refine h.of_listing hlisting hvalid
    (fun _ => (Entity.isSteady_addToRegister _ _).result_eq
      (addToRegister_ledger hl hdata hvalid hkind))
    (fun _ => (Entity.isSteady_addToWorldState _ _).result_eq
      (addToWorldState_ledger hl hdata hvalid)) ?_ (fun x hne => ?_) hplain hcwd hview
  · rw [hplace]
    simp
  · simp [hne]

include hl hdata h hid hplain hcwd hview in
/-- **A removed entity is not shown.** -/
theorem shows_removingEntity (hkind : kind ≠ .event)
    (hplan : (removingEntity kind id).plan d { layout := l, targets } = .ok tx) :
    l.Shows heads d' (live.erase (kind, id)) := by
  obtain ⟨hexists, hcalls⟩ := removingEntity_spec hplan
  have hfile : l.entityFile kind id = l.placeOf kind id := IsDefault.entityFile_eq hkind
  have haddress : d.addressOf (l.entityFile kind id) = d.addressOf l.dataDir ++ kind.place id := by
    rw [hfile, hl.addressOf_placeOf d kind hid.isWord]
  rw [pathExists_init, hfile] at hexists
  obtain ⟨xs, ys, rfl⟩ := List.append_of_mem (mem_of_exists hl h hid hexists)
  obtain ⟨hvalid, _, hnew⟩ := h.valid.of_insert rfl
  have hlisting : Listing l d kind id [.deleteFile (l.entityFile kind id)]
      (entityOf l kind id).removeFromRegister (entityOf l kind id).removeFromWorldState tx := by
    refine ⟨hl, h.plain, hid.isWord, fun c hc => ?_, targets, hcalls⟩
    obtain rfl := List.mem_singleton.1 hc
    exact ⟨rfl, [], by rw [List.append_nil]; exact haddress⟩
  have hremoved : l.entityFile kind id ∈ tx.removals := by
    rw [hcalls.removals_eq]
    exact List.mem_append_right _ List.mem_cons_self
  have hplace := hlisting.effect_of_remove hremoved haddress fun q t hq => by
    cases List.mem_singleton.1 hq
  rw [erase_insert hnew]
  refine h.of_listing hlisting hvalid
    (fun _ => (Entity.isSteady_removeFromRegister _ _).result_eq
      (removeFromRegister_ledger hl hdata hkind h.valid))
    (fun _ => (Entity.isSteady_removeFromWorldState _ _).result_eq
      (removeFromWorldState_ledger hl hdata h.valid)) ?_ (fun x hne => ?_) hplain hcwd hview
  · rw [hplace]
    exact iff_of_false (fun hne => hne rfl) hnew
  · simp [hne]

/-- **The plan of a new event** creates two files in the folder of the event. -/
theorem listing_creatingEvent {args : EventArgs} (hl : l.IsDefault) (hd : d.IsPlain)
    (hid : IsWord args.id)
    (hplan : (creatingEvent args).plan d { layout := l, targets } = .ok tx) :
    Listing l d .event args.id [.create (l.eventFile args.id) (Template.event args),
        .create (l.passageMapFile args.id) (Template.passageMap args.id)]
      (registerEvent l args.id) (entityOf l .event args.id).addToWorldState tx := by
  refine ⟨hl, hd, hid, fun c hc => ?_, targets, (creatingEvent_spec.1 hplan).2⟩
  rcases List.mem_cons.1 hc with rfl | hc
  · exact ⟨rfl, _, addressOf_eventFile hl d hid (by decide)⟩
  · obtain rfl := List.mem_singleton.1 hc
    exact ⟨rfl, _, addressOf_eventFile hl d hid (by decide)⟩

include hl hdata h hid hplain hcwd hview in
/-- **A created event is shown.** -/
theorem shows_creatingEvent {args : EventArgs} (hargs : args.id = id)
    (hplan : (creatingEvent args).plan d { layout := l, targets } = .ok tx) :
    l.Shows heads d' (live ++ [(.event, id)]) := by
  subst hargs
  have hexists := (creatingEvent_spec.1 hplan).1
  have hword := hid.isWord
  rw [pathExists_init] at hexists
  have hvalid := h.valid.concat hid (not_mem_of_not_exists hl h hid (show d.pathExists (l.placeOf .event args.id) = false from hexists))
  have hlisting := listing_creatingEvent hl h.plain hword hplan
  have hplace := hlisting.effect_above_create List.mem_cons_self fun q t hq heq => by
    have hlength := congrArg List.length heq
    rcases List.mem_cons.1 hq with hq | hq
    · cases hq
      rw [show l.eventFile args.id = (l.eventDir args.id).join _ from rfl,
        addressOf_eventFile hl d hword (by decide)] at hlength
      simp at hlength
    · cases List.mem_singleton.1 hq
      rw [show l.passageMapFile args.id = (l.eventDir args.id).join _ from rfl,
        addressOf_eventFile hl d hword (by decide)] at hlength
      simp at hlength
  refine h.of_listing hlisting hvalid
    (fun _ => (isSteady_registerEvent _ _ _).result_eq (registerEvent_ledger hl hdata hvalid))
    (fun _ => (Entity.isSteady_addToWorldState _ _).result_eq
      (addToWorldState_ledger hl hdata hvalid)) ?_ (fun x hne => ?_) hplain hcwd hview
  · rw [hplace]
    simp
  · simp [hne]

include hl hdata h hid hplain hcwd hview in
/-- **A removed event is not shown.** -/
theorem shows_removingEvent (hspread : Ledger.IsSparse heads.register) {force : Bool}
    (hplan : (removingEvent id force).plan d { layout := l, targets } = .ok tx) :
    l.Shows heads d' (live.erase (.event, id)) := by
  obtain ⟨hfolder, hcalls⟩ := removingEvent_spec hplan
  have hword := hid.isWord
  have haddress : d.addressOf (l.eventDir id) = d.addressOf l.dataDir ++ EntityKind.event.place id :=
    hl.addressOf_placeOf d .event hword
  have hexists : d.pathExists (l.placeOf .event id) = true := by
    have hentry : d.entryOf? (l.placeOf .event id) = some .folder := beq_iff_eq.1 hfolder
    unfold Disk.pathExists
    rw [hentry]
    rfl
  obtain ⟨xs, ys, rfl⟩ := List.append_of_mem (mem_of_exists hl h hid hexists)
  obtain ⟨hvalid, _, hnew⟩ := h.valid.of_insert rfl
  have hlisting : Listing l d .event id [.deleteFolder (l.eventDir id)]
      (unregisterEvent l id) (entityOf l .event id).removeFromWorldState tx := by
    refine ⟨hl, h.plain, hword, fun c hc => ?_, targets, hcalls⟩
    obtain rfl := List.mem_singleton.1 hc
    exact ⟨rfl, [], by rw [List.append_nil]; exact haddress⟩
  have hremoved : l.eventDir id ∈ tx.removals := by
    rw [hcalls.removals_eq]
    exact List.mem_append_right _ List.mem_cons_self
  have hplace := hlisting.effect_of_remove hremoved haddress fun q t hq => by
    cases List.mem_singleton.1 hq
  rw [erase_insert hnew]
  refine h.of_listing hlisting hvalid
    (fun _ => (isSteady_unregisterEvent _ _ _).result_eq
      (unregisterEvent_ledger hl hdata hspread h.valid))
    (fun _ => (Entity.isSteady_removeFromWorldState _ _).result_eq
      (removeFromWorldState_ledger hl hdata h.valid)) ?_ (fun x hne => ?_) hplain hcwd hview
  · rw [hplace]
    exact iff_of_false (fun hne => hne rfl) hnew
  · simp [hne]

end Scaffold

/-! ## Any number of operations -/

/-- **An operation on the entities of a project.** -/
inductive Step where
  | createEntity (kind : EntityKind) (name : Text) (id? : Option Text)
  | removeEntity (kind : EntityKind) (id : Text)
  | createEvent (args : EventArgs)
  | removeEvent (id : Text) (force : Bool)

namespace Step

/-- What is run, unless the arguments are refused. -/
def scaffold [Engine] : Step → Outcome Scaffold
  | createEntity kind name id? => Scaffold.createEntity kind name id?
  | removeEntity kind id => Scaffold.removeEntity kind id
  | createEvent args => Scaffold.createEvent args
  | removeEvent id force => Scaffold.removeEvent id force

/-- **The entity it is about.** -/
def subject : Step → EntityKind × Text
  | createEntity kind name id? => (kind, id?.getD name.idOfName)
  | removeEntity kind id => (kind, id)
  | createEvent args => (.event, args.id)
  | removeEvent id _ => (.event, id)

/-- **What it makes of a ledger**, when it succeeds. -/
def onLedger (s : Step) (live : Ledger) : Ledger :=
  match s with
  | createEntity .. | createEvent .. => live ++ [s.subject]
  | removeEntity .. | removeEvent .. => live.erase s.subject

/-- Applies it to a project. -/
def apply [Engine] (l : Layout) (s : Step) (d : Disk) : Outcome Report × Disk :=
  match s.scaffold with
  | .error f => (.error f, d)
  | .ok scaffold => l.run .apply scaffold d

variable [Engine] {l : Layout} {heads : Heads} {d : Disk} {live : Ledger} {s : Step}

/-- **What is run is one of the four plans**, about the entity of the step. -/
theorem scaffold_cases {scaffold : Scaffold} (hs : s.scaffold = .ok scaffold) :
    (∃ kind id name, kind ≠ .event ∧ s.subject = (kind, id) ∧
      s.onLedger = (· ++ [(kind, id)]) ∧ scaffold = Scaffold.creatingEntity kind id name) ∨
    (∃ kind id, kind ≠ .event ∧ s.subject = (kind, id) ∧
      s.onLedger = (·.erase (kind, id)) ∧ scaffold = Scaffold.removingEntity kind id) ∨
    (∃ args, s.subject = (.event, args.id) ∧
      s.onLedger = (· ++ [(.event, args.id)]) ∧ scaffold = Scaffold.creatingEvent args) ∨
    ∃ id force, s.subject = (.event, id) ∧
      s.onLedger = (·.erase (.event, id)) ∧ scaffold = Scaffold.removingEvent id force := by
  cases s with
  | createEntity kind name id? =>
    change Scaffold.createEntity kind name id? = .ok scaffold at hs
    unfold Scaffold.createEntity at hs
    split at hs
    · exact absurd hs Outcome.fail_ne_ok
    · rename_i hkind
      obtain ⟨_, _, hs⟩ := Outcome.bind_eq_ok.1 hs
      obtain ⟨_, _, hs⟩ := Outcome.bind_eq_ok.1 hs
      exact .inl ⟨kind, _, name.trim, hkind, rfl, rfl, (Outcome.pure_eq_ok.1 hs).symm⟩
  | removeEntity kind id =>
    change Scaffold.removeEntity kind id = .ok scaffold at hs
    unfold Scaffold.removeEntity at hs
    split at hs
    · exact absurd hs Outcome.fail_ne_ok
    · rename_i hkind
      obtain ⟨_, _, hs⟩ := Outcome.bind_eq_ok.1 hs
      exact .inr (.inl ⟨kind, id, hkind, rfl, rfl, (Outcome.pure_eq_ok.1 hs).symm⟩)
  | createEvent args =>
    change Scaffold.createEvent args = .ok scaffold at hs
    unfold Scaffold.createEvent at hs
    simp only [Outcome.bind_eq_ok, Outcome.pure_eq_ok] at hs
    obtain ⟨_, _, _, _, _, _, _, _, _, _, _, _, rfl⟩ := hs
    exact .inr (.inr (.inl ⟨args, rfl, rfl, rfl⟩))
  | removeEvent id force =>
    change Scaffold.removeEvent id force = .ok scaffold at hs
    unfold Scaffold.removeEvent at hs
    obtain ⟨_, _, hs⟩ := Outcome.bind_eq_ok.1 hs
    exact .inr (.inr (.inr ⟨id, force, rfl, rfl, (Outcome.pure_eq_ok.1 hs).symm⟩))

/-- **Its plan makes calls** of the transaction. -/
theorem exists_calls {scaffold : Scaffold} (hs : s.scaffold = .ok scaffold) :
    ∀ d tx tx', scaffold.plan d tx = .ok tx' → ∃ cs, Calls d tx cs tx' := by
  intro d tx tx' hp
  obtain ⟨_, _, _, _, _, _, rfl⟩ | ⟨_, _, _, _, _, rfl⟩ | ⟨_, _, _, rfl⟩ | ⟨_, _, _, _, rfl⟩ :=
    scaffold_cases hs
  · exact ⟨_, (Scaffold.creatingEntity_spec.1 hp).2⟩
  · exact ⟨_, (Scaffold.removingEntity_spec hp).2⟩
  · exact ⟨_, (Scaffold.creatingEvent_spec.1 hp).2⟩
  · exact ⟨_, (Scaffold.removingEvent_spec hp).2⟩

/-- **One operation** keeps a project showing a ledger: the one it makes when it
succeeds, and the old one when it fails. -/
theorem shows_apply (hl : l.IsDefault) (hdata : l.dataDir.text ≠ [])
    (hspread : Ledger.IsSparse heads.register) (h : l.Shows heads d live)
    (hid : IsFreeId s.subject.2) :
    match s.apply l d with
    | (.ok _, d') => l.Shows heads d' (s.onLedger live)
    | (.error _, d') => d'.Same d ∧ l.Shows heads d' live := by
  unfold apply
  cases hs : s.scaffold with
  | error f => exact ⟨.refl d, h⟩
  | ok scaffold =>
    have hcases := scaffold_cases hs
    have hrun := l.run_cases h.plain (exists_calls hs)
    show match l.run .apply scaffold d with
      | (.ok _, d') => l.Shows heads d' (s.onLedger live)
      | (.error _, d') => d'.Same d ∧ l.Shows heads d' live
    cases hrun' : l.run .apply scaffold d with
    | mk r d' =>
      rw [hrun'] at hrun
      cases r with
      | error f => exact ⟨hrun.2, h.of_same hrun.1 hrun.2⟩
      | ok report =>
        obtain ⟨hplain, hcwd, tx, _, hp, hview⟩ := hrun
        show l.Shows heads d' (s.onLedger live)
        obtain ⟨kind, id, name, hkind, hsubject, honLedger, rfl⟩ |
          ⟨kind, id, hkind, hsubject, honLedger, rfl⟩ | ⟨args, hsubject, honLedger, rfl⟩ |
          ⟨id, force, hsubject, honLedger, rfl⟩ := hcases
        · rw [hsubject] at hid
          rw [honLedger]
          exact Scaffold.shows_creatingEntity hl hdata h hid hplain hcwd hview hkind hp
        · rw [hsubject] at hid
          rw [honLedger]
          exact Scaffold.shows_removingEntity hl hdata h hid hplain hcwd hview hkind hp
        · rw [hsubject] at hid
          rw [honLedger]
          exact Scaffold.shows_creatingEvent hl hdata h hid hplain hcwd hview rfl hp
        · rw [hsubject] at hid
          rw [honLedger]
          exact Scaffold.shows_removingEvent hl hdata h hid hplain hcwd hview hspread hp

/-- **Applies operations one after the other**, and keeps a ledger of those that
succeed. -/
def runAll (l : Layout) (steps : List Step) (d : Disk) (live : Ledger) : Disk × Ledger :=
  match steps with
  | [] => (d, live)
  | s :: steps =>
    match s.apply l d with
    | (.ok _, d') => runAll l steps d' (s.onLedger live)
    | (.error _, d') => runAll l steps d' live

/-- The same, each operation committed at once. -/
def runAllAtOnce (l : Layout) (steps : List Step) (d : Disk) (live : Ledger) : Disk × Ledger :=
  match steps with
  | [] => (d, live)
  | s :: steps =>
    match s.scaffold with
    | .error _ => runAllAtOnce l steps d live
    | .ok scaffold =>
      match l.runAtOnce scaffold d with
      | (.ok _, d') => runAllAtOnce l steps d' (s.onLedger live)
      | (.error _, d') => runAllAtOnce l steps d' live

/-- **Nobody else writes**, so committing at once comes to the same. -/
theorem runAll_eq_runAllAtOnce (l : Layout) (steps : List Step) (d : Disk) (live : Ledger) :
    runAll l steps d live = runAllAtOnce l steps d live := by
  induction steps generalizing d live with
  | nil => rfl
  | cons s steps ih =>
    unfold runAll runAllAtOnce apply
    cases hs : s.scaffold with
    | error f => exact ih d live
    | ok scaffold =>
      simp only [l.run_eq_runAtOnce (exists_calls hs)]
      cases l.runAtOnce scaffold d with
      | mk r d' => cases r <;> exact ih d' _

/-- **Any number of operations** keep a project showing the ledger. -/
theorem shows_runAll {steps : List Step} (hl : l.IsDefault) (hdata : l.dataDir.text ≠ [])
    (hspread : Ledger.IsSparse heads.register) (h : l.Shows heads d live)
    (hids : ∀ s ∈ steps, IsFreeId s.subject.2) : l.Shows heads (runAll l steps d live).1 (runAll l steps d live).2 := by
  induction steps generalizing d live with
  | nil => exact h
  | cons s steps ih =>
    have hstep := shows_apply hl hdata hspread h (hids s List.mem_cons_self)
    have hrest : ∀ s' ∈ steps, IsFreeId s'.subject.2 := fun s' hs' =>
      hids s' (List.mem_cons_of_mem _ hs')
    unfold runAll
    cases hs : s.apply l d with
    | mk r d' =>
      rw [hs] at hstep
      cases r with
      | ok report => exact ih hstep hrest
      | error f => exact ih hstep.2 hrest

end Step

namespace Layout

/-- **A fresh project**: nothing is listed in its registry files, and no entity is
there. -/
structure IsFresh (l : Layout) (heads : Heads) (d : Disk) : Prop where
  plain : d.IsPlain
  register : d.read l.registerFile = .ok (Ledger.register heads [])
  worldState : d.read l.worldStateFile = .ok (Ledger.worldState heads [])
  no_entity : ∀ (kind : EntityKind) (id : Text), id.isId = true →
    d.pathExists (l.placeOf kind id) = false

/-- A fresh project shows the empty ledger. -/
theorem IsFresh.shows {l : Layout} {heads : Heads} {d : Disk} (hfresh : l.IsFresh heads d)
    (hl : l.IsDefault) : l.Shows heads d [] := by
  refine ⟨hfresh.plain, ⟨List.nodup_nil, by simp⟩, ?_, ?_, fun kind id hid => ?_⟩
  · exact (hl.read_registerFile hfresh.plain).1 hfresh.register
  · exact (hl.read_worldStateFile hfresh.plain).1 hfresh.worldState
  · rw [← hl.pathExists_placeOf hfresh.plain kind (isWord_of_isId hid),
      hfresh.no_entity kind id hid]
    exact iff_of_false Bool.false_ne_true List.not_mem_nil

/-- **Every history of a fresh project is in its registry files.** After any operations,
each of which may have succeeded or failed, the registry files are those of the entities
created and not removed since, in the order of their creation, and these are the ones
that are there. What the register begins with must not spread anything, as removing an event
takes out every line that spreads its passages, and there might be one above the containers. -/
theorem registry_of_history [Engine] {l : Layout} {heads : Heads} {d : Disk} (hl : l.IsDefault)
    (hdata : l.dataDir.text ≠ []) (hspread : Ledger.IsSparse heads.register)
    (hfresh : l.IsFresh heads d) (steps : List Step) (hids : ∀ s ∈ steps, IsFreeId s.subject.2) :
    (Step.runAll l steps d []).1.read l.registerFile =
        .ok (Ledger.register heads (Step.runAll l steps d []).2) ∧
      (Step.runAll l steps d []).1.read l.worldStateFile =
        .ok (Ledger.worldState heads (Step.runAll l steps d []).2) ∧
      ∀ (kind : EntityKind) (id : Text), id.isId = true →
        ((Step.runAll l steps d []).1.pathExists (l.placeOf kind id) = true ↔
          id ∈ (Step.runAll l steps d []).2.ids kind) := by
  have hafter := Step.shows_runAll hl hdata hspread (hfresh.shows hl) hids
  refine ⟨(hl.read_registerFile hafter.plain).2 hafter.register,
    (hl.read_worldStateFile hafter.plain).2 hafter.worldState, fun kind id hid => ?_⟩
  rw [hl.pathExists_placeOf hafter.plain kind (isWord_of_isId hid), Ledger.mem_ids]
  exact hafter.places kind id hid

section Small

open scoped Engine.Tireless

/-- A project in a folder of the root, with the default names. -/
def smallLayout : Layout :=
  ⟨⟨"/w".toList⟩, {}⟩

/-- The disk of a fresh project whose registry files begin in a certain way. -/
def freshDisk (heads : Heads) : Disk where
  cwd := []
  entries := [(["w".toList], .folder), (["w".toList, "src".toList], .folder),
    (["w".toList, "src".toList, "data".toList], .folder),
    (["w".toList, "src".toList, "data".toList, registerName],
      .file (.text (Ledger.register heads []))),
    (["w".toList, "src".toList, "data".toList, worldStateName],
      .file (.text (Ledger.worldState heads [])))]

/-- Two ids of which one begins the other, in different kinds; one operation is refused,
and one entity goes. -/
def smallHistory : List Step :=
  [.createEntity .character "Ann".toList none, .createEntity .location "Anna".toList none,
    .createEntity .character "Ann".toList none, .removeEntity .character "ann".toList]

theorem isDefault_smallLayout : smallLayout.IsDefault := by
  constructor <;> decide

/-- **The project is fresh**, whatever its registry files begin with. -/
theorem isFresh_freshDisk (heads : Heads) : smallLayout.IsFresh heads (freshDisk heads) := by
  have hplain : (freshDisk heads).IsPlain := by
    refine Disk.isPlain_of_entries ?_ ?_ ?_
    · show [["w".toList], ["w".toList, "src".toList], ["w".toList, "src".toList, "data".toList],
        ["w".toList, "src".toList, "data".toList, registerName],
        ["w".toList, "src".toList, "data".toList, worldStateName]].Nodup
      decide +kernel
    · simp only [freshDisk, List.forall_mem_cons]
      exact ⟨⟨by simp, rfl, rfl⟩, ⟨by simp, rfl, rfl⟩, ⟨by simp, rfl, rfl⟩, ⟨by simp, rfl, rfl⟩,
        ⟨by simp, rfl, rfl⟩, by simp⟩
    · exact fun n hn => absurd hn List.not_mem_nil
  have haddress : (freshDisk heads).addressOf smallLayout.dataDir =
      ["w".toList, "src".toList, "data".toList] := by
    rfl
  refine ⟨hplain, rfl, rfl, fun kind id hid => ?_⟩
  have hnone : (freshDisk heads).get?
      ((freshDisk heads).addressOf smallLayout.dataDir ++ kind.place id) = none := by
    have hlength : ∀ x ∈ (freshDisk heads).entries, x.1.length ≤ 4 := by
      simp [freshDisk]
    rw [haddress]
    refine (Disk.get?_eq_none_iff (by simp)).2 fun x hx heq => ?_
    have hle := hlength x hx
    rw [heq] at hle
    simp [EntityKind.place] at hle
  rw [Bool.eq_false_iff]
  exact fun hexists => (isDefault_smallLayout.pathExists_placeOf hplain kind
    (isWord_of_isId hid)).1 hexists hnone

theorem registry_of_history_small :
    (smallLayout.IsDefault ∧ smallLayout.dataDir.text ≠ [] ∧
      Ledger.IsSparse Ledger.usualHeads.register ∧
      smallLayout.IsFresh Ledger.usualHeads (freshDisk Ledger.usualHeads) ∧
      ∀ s ∈ smallHistory, IsFreeId s.subject.2) ∧
    (Step.runAll smallLayout (smallHistory.take 3) (freshDisk Ledger.usualHeads) []).2 =
      [(.character, "ann".toList), (.location, "anna".toList)] ∧
    (Step.runAll smallLayout smallHistory (freshDisk Ledger.usualHeads) []).2 =
      [(.location, "anna".toList)] ∧
    (Step.runAll smallLayout smallHistory (freshDisk Ledger.usualHeads) []).1.read
      smallLayout.registerFile = .ok (Ledger.register Ledger.usualHeads [(.location, "anna".toList)]) ∧
    Text.isId "anna".toList = true ∧
    (Step.runAll smallLayout smallHistory (freshDisk Ledger.usualHeads) []).1.pathExists
        (smallLayout.placeOf .location "anna".toList) = true := by
  have hdata : smallLayout.dataDir.text ≠ [] := by decide +kernel
  have hspread : Ledger.IsSparse Ledger.usualHeads.register := .of_not_mem (by decide)
  have hfresh := isFresh_freshDisk Ledger.usualHeads
  have hids : ∀ s ∈ smallHistory, IsFreeId s.subject.2 := by decide +kernel
  have hhalf : (Step.runAll smallLayout (smallHistory.take 3) (freshDisk Ledger.usualHeads) []).2 =
      [(.character, "ann".toList), (.location, "anna".toList)] := by
    rw [Step.runAll_eq_runAllAtOnce]
    decide +kernel
  have hlive : (Step.runAll smallLayout smallHistory (freshDisk Ledger.usualHeads) []).2 =
      [(.location, "anna".toList)] := by
    rw [Step.runAll_eq_runAllAtOnce]
    decide +kernel
  obtain ⟨hregister, _, hplaces⟩ := registry_of_history isDefault_smallLayout hdata hspread hfresh
    smallHistory hids
  have hid : Text.isId "anna".toList = true := by decide
  rw [hlive] at hregister hplaces
  exact ⟨⟨isDefault_smallLayout, hdata, hspread, hfresh, hids⟩, hhalf, hlive, hregister, hid,
    (hplaces .location _ hid).2 (by decide)⟩

end Small

end Layout

end Fabula
