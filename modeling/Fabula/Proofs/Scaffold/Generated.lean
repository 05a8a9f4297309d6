import Fabula.Proofs.Scaffold.Growths

/-!
# A generated batch, in one transaction or one by one

The steps of a generated batch have ids that differ in their numbers, so no step changes what a
later one asks, and the batch does what its steps do one by one (`Scaffold.generate_iff_each`):
the one succeeds when the other does, both leave the same tree, and a batch that fails leaves
the tree as it was.

## What there is to pick from

The steps of a batch are made before any of them is run. An event picks a location, and a
passage an event and a character, from what is found in the folders of the project, by dice.
What is found is there (`Scaffold.get?_of_mem_candidates`), and it is still there when a step
comes to it, since no step removes anything. So the dice do not matter: whatever they show, the
steps are numbered, and each of them is one of the three kinds of creations (`Scaffold.IsStep`).

## The steps

For each kind it is known what a creation asks and which calls it makes. A step asks for its own
files not to be there, or asks nothing. The numbers of two steps are different, so are their
ids, and so are the names of their files (`Scaffold.generatedId_injective`). Hence no step
changes what another one asks (`Scaffold.IsStep.leaves`).

That comparison supposes a project whose data folder can be reached. Where it cannot, both ways
fail at the first step, as every step creates a file there (`Scaffold.IsStep.reaches`). A batch
without steps does nothing in either way.
-/

namespace Fabula

open Removal

open Disk (View)

namespace Text

theorem ofNat_injective : Function.Injective ofNat := by
  intro m n h
  have hread := congrArg (Nat.ofDigitChars 10 · 0) h
  simpa [ofNat] using hread

/-- **What a text with an ending is made of.** -/
theorem eq_append_of_before? {ending t s : Text} (h : before? ending t = some s) :
    t = s ++ ending := by
  obtain ⟨r, hr, rfl⟩ := Option.map_eq_some_iff.1 h
  have hsplit := congrArg List.reverse (after?_eq_some_iff.1 hr)
  simpa using hsplit

end Text

namespace Scaffold

open Growth Layout

variable {l : Layout} {d e : Disk} {kind : GenerateKind} {start : Text} {c : Candidates}

/-- **Two steps of a batch have two ids.** -/
theorem generatedId_injective {i j : ℕ} {idKind : String}
    (h : generatedId start i idKind = generatedId start j idKind) : i = j := by
  have hnumber := List.append_cancel_left (List.append_cancel_right h)
  exact Text.ofNat_injective (List.cons.inj hnumber).2

/-! ## What there is to pick from -/

section Candidates

variable {q : Path} {n id ending : Text} {ids : List Text}

/-- A folder is listed that is there. -/
theorem get?_of_mem_listFolderIds (hd : d.IsPlain) (hup : q.goesUp = false) (hn : IsName n)
    (h : listFolderIds d (q.join n) = .ok ids) (hid : id ∈ ids) :
    d.get? (d.addressOf q ++ [n] ++ [id]) = some .folder := by
  unfold listFolderIds at h
  rw [Disk.entriesOf_join hd hup hn] at h
  obtain rfl := Outcome.pure_eq_ok.1 h
  obtain ⟨⟨m, e⟩, hmem, rfl⟩ := List.mem_map.1 hid
  obtain ⟨hmem, hfolder⟩ := List.mem_filter.1 hmem
  obtain rfl : e = .folder := by simpa using hfolder
  split at hmem
  · exact (Disk.mem_list hd.toIsTree).1 hmem
  · exact absurd hmem List.not_mem_nil

/-- A file is listed that is there. -/
theorem get?_of_mem_listFileIds (hd : d.IsPlain) (hup : q.goesUp = false) (hn : IsName n)
    (h : listFileIds d (q.join n) ending = .ok ids) (hid : id ∈ ids) :
    d.get? (d.addressOf q ++ [n] ++ [id ++ ending]) ≠ none := by
  unfold listFileIds at h
  rw [Disk.entriesOf_join hd hup hn] at h
  obtain rfl := Outcome.pure_eq_ok.1 h
  obtain ⟨⟨m, e⟩, hmem, hname⟩ := List.mem_filterMap.1 (List.mem_mergeSort.1 hid)
  simp only at hname
  split at hname
  · cases hname
  · obtain rfl := Text.eq_append_of_before? hname
    split at hmem
    · rw [(Disk.mem_list hd.toIsTree).1 hmem]
      simp
    · exact absurd hmem List.not_mem_nil

/-- **What is picked** is one of the candidates. -/
theorem mem_of_pickOne {what : Text} {from' : List Text} {dice dice' : Dice}
    (h : pickOne what from' dice = .ok (id, dice')) : id ∈ from' := by
  unfold pickOne at h
  cases hpick : dice.pick from' with
  | mk picked dice₁ =>
    rw [hpick] at h
    cases picked with
    | none => exact absurd h Outcome.fail_ne_ok
    | some id' =>
      obtain ⟨rfl, rfl⟩ := Prod.mk.inj (Except.ok.inj h)
      unfold Dice.pick at hpick
      split at hpick
      · cases hpick
      · exact List.mem_of_getElem? (Prod.mk.inj hpick).1

end Candidates

/-- **What there is to pick from is there.** -/
theorem get?_of_mem_candidates (hl : l.IsDefault) (hd : d.IsPlain) (hc : candidates d l = .ok c) :
    (∀ event ∈ c.events, event.isId = true →
      d.get? (d.addressOf (l.eventDir event)) = some .folder) ∧
    ∀ character ∈ c.characters, character.isId = true →
      d.get? (d.addressOf (l.characterFile character)) ≠ none := by
  obtain ⟨_, _, hc⟩ := Outcome.bind_eq_ok.1 hc
  obtain ⟨events, hevents, hc⟩ := Outcome.bind_eq_ok.1 hc
  obtain ⟨characters, hcharacters, hc⟩ := Outcome.bind_eq_ok.1 hc
  obtain rfl := Outcome.pure_eq_ok.1 hc
  have heventsDir : l.eventsDir = l.dataDir.join EntityKind.event.container := by
    rw [eventsDir, hl.config_eq]
    rfl
  have hcharactersDir : l.charactersDir = l.dataDir.join EntityKind.character.container := by
    rw [charactersDir, hl.config_eq]
    rfl
  rw [heventsDir] at hevents
  rw [hcharactersDir] at hcharacters
  constructor
  · intro event hmem hid
    have hat := hl.addressOf_placeOf d .event (isWord_of_isId hid)
    have hthere := get?_of_mem_listFolderIds hd hl.goesUp
      (isName_of_isWord EntityKind.event.isWord_container) hevents hmem
    rw [List.append_assoc] at hthere
    exact (congrArg d.get? hat).trans hthere
  · intro character hmem hid
    have hat := hl.addressOf_placeOf d .character (isWord_of_isId hid)
    have hthere := get?_of_mem_listFileIds hd hl.goesUp
      (isName_of_isWord EntityKind.character.isWord_container) hcharacters hmem
    rw [List.append_assoc] at hthere
    exact fun hnone => hthere ((congrArg d.get? hat).symm.trans hnone)

/-! ## The steps -/

section EachStep

variable [Engine]

/-- **The `i`th step of a batch.** -/
inductive IsStep (d : Disk) (l : Layout) (start : Text) (c : Candidates) (i : ℕ) :
    GenerateKind → Growth → Prop
  | entity {kind : GenerateKind} {entityKind : EntityKind} {id name : Text}
      (hkind : kind ≠ .events ∧ kind ≠ .passages) (hevent : entityKind ≠ .event)
      (hid : id.isId = true) : IsStep d l start c i kind (entityGrowth l entityKind id name)
  | event {args : EventArgs} (hid : args.id.isId = true)
      (hargs : args.id = generatedId start i "event") :
      IsStep d l start c i .events (eventGrowth d l args)
  | passage {p : PassageRef} {passageKind : PassageKind} {title link : Option Text}
      (hp : p.IsValid) (hpassage : p.passage = generatedId start i "passage")
      (hevent : p.event ∈ c.events) (hcharacter : p.character ∈ c.characters) :
      IsStep d l start c i .passages (passageGrowth d l p passageKind title link)

/-- **A step is one of the three**, with the number of the step in its id. -/
theorem exists_isStep {i : ℕ} {dice dice' : Dice} {s : Scaffold}
    (h : generateStep d l kind start c i dice = .ok (s, dice')) :
    ∃ g : Growth, g.scaffold = s ∧ IsStep d l start c i kind g := by
  have hentity : ∀ {entityKind : EntityKind} {name id : Text},
      (kind ≠ .events ∧ kind ≠ .passages) →
      (createEntity entityKind name (some id) >>= fun s => pure (s, dice)) = .ok (s, dice') →
        ∃ g : Growth, g.scaffold = s ∧ IsStep d l start c i kind g := by
    intro entityKind name id hkind h
    obtain ⟨s', hs, h⟩ := Outcome.bind_eq_ok.1 h
    obtain ⟨rfl, _⟩ := Prod.mk.inj (Outcome.pure_eq_ok.1 h)
    obtain ⟨hevent, hid, rfl⟩ := of_createEntity hs
    exact ⟨entityGrowth l entityKind id name.trim, rfl, .entity hkind hevent hid⟩
  cases kind with
  | characters => exact hentity (by simp) h
  | sideCharacters => exact hentity (by simp) h
  | locations => exact hentity (by simp) h
  | events =>
    obtain ⟨s', hs, h⟩ := Outcome.bind_eq_ok.1 h
    obtain ⟨rfl, _⟩ := Prod.mk.inj (Outcome.pure_eq_ok.1 h)
    obtain ⟨hid, rfl⟩ := of_createEvent hs
    exact ⟨eventGrowth d l _, rfl, .event hid rfl⟩
  | passages =>
    obtain ⟨⟨event, dice₁⟩, hevent, h⟩ := Outcome.bind_eq_ok.1 h
    obtain ⟨⟨character, dice₂⟩, hcharacter, h⟩ := Outcome.bind_eq_ok.1 h
    obtain ⟨p, hp, h⟩ := Outcome.bind_eq_ok.1 h
    obtain ⟨existing, _, h⟩ := Outcome.bind_eq_ok.1 h
    obtain ⟨rfl, _⟩ := Prod.mk.inj (Outcome.pure_eq_ok.1 h)
    obtain ⟨rfl, hvalid⟩ := PassageRef.make_eq_ok_iff.1 hp
    exact ⟨passageGrowth d l _ _ _ _, rfl, .passage hvalid rfl (mem_of_pickOne hevent)
      (mem_of_pickOne hcharacter)⟩

/-- **The steps of a batch** are numbered, and no two have one number. -/
theorem exists_isStep_of_generateSteps {n i : ℕ} {dice : Dice} {steps : List Scaffold}
    (h : generateSteps d l kind start c n i dice = .ok steps) :
    ∃ gs : List Growth, gs.map scaffold = steps ∧ gs.length = n ∧
      (∀ g ∈ gs, ∃ j, i ≤ j ∧ IsStep d l start c j kind g) ∧
      gs.Pairwise fun g g' => ∃ j j', j ≠ j' ∧ IsStep d l start c j kind g ∧
        IsStep d l start c j' kind g' := by
  induction n generalizing i dice steps with
  | zero =>
    obtain rfl := Except.ok.inj h
    exact ⟨[], rfl, rfl, fun _ hg => absurd hg List.not_mem_nil, .nil⟩
  | succ n ih =>
    obtain ⟨⟨s, dice₁⟩, hs, h⟩ := Outcome.bind_eq_ok.1 h
    obtain ⟨rest, hrest, h⟩ := Outcome.bind_eq_ok.1 h
    obtain rfl := Outcome.pure_eq_ok.1 h
    obtain ⟨g, rfl, hg⟩ := exists_isStep hs
    obtain ⟨gs, rfl, hlen, hgs, hpairs⟩ := ih hrest
    refine ⟨g :: gs, rfl, by rw [List.length_cons, hlen], ?_, List.pairwise_cons.2 ⟨?_, hpairs⟩⟩
    · refine List.forall_mem_cons.2 ⟨⟨i, le_rfl, hg⟩, fun g' hg' => ?_⟩
      obtain ⟨j, hj, hg'⟩ := hgs g' hg'
      exact ⟨j, Nat.le_of_succ_le hj, hg'⟩
    · intro g' hg'
      obtain ⟨j, hj, hg'⟩ := hgs g' hg'
      exact ⟨i, j, (Nat.lt_of_succ_le hj).ne, hg, hg'⟩

namespace IsStep

variable {i j : ℕ} {g g' : Growth} {tx tx' : Transaction}

/-- **A step plans as it is told**, on every disk that has what there was before the
batch. -/
theorem isFor (h : IsStep d l start c i kind g) (hl : l.IsDefault) (hreach : l.Reaches d)
    (hd : d.IsPlain) (hc : candidates d l = .ok c) : g.IsFor l d := by
  obtain ⟨hevents, hcharacters⟩ := get?_of_mem_candidates hl hd hc
  cases h with
  | entity _ hevent hid => exact isFor_entityGrowth hl hevent (isWord_of_isId hid)
  | event hid _ => exact isFor_eventGrowth hl hreach hd (isWord_of_isId hid)
  | passage hp _ hevent hcharacter =>
    exact isFor_passageGrowth hl hp (hevents _ hevent hp.event)
      (hcharacters _ hcharacter hp.character)

/-- **No step changes what another one asks.** -/
theorem leaves (h : IsStep d l start c i kind g) (h' : IsStep d l start c j kind g')
    (hl : l.IsDefault) (hij : i ≠ j) : Leaves d.addressOf g g' := by
  cases h' with
  | entity => exact fun _ _ _ => Iff.rfl
  | event hid' hargs' =>
    cases h with
    | entity hkind => exact absurd rfl hkind.1
    | event hid hargs =>
      refine leaves_eventGrowth hl (isWord_of_isId hid) (isWord_of_isId hid') fun heq => hij ?_
      rw [hargs, hargs'] at heq
      exact generatedId_injective heq
  | passage hp' hpassage' =>
    cases h with
    | entity hkind => exact absurd rfl hkind.2
    | passage hp hpassage =>
      refine leaves_passageGrowth hl hp hp' fun heq => hij ?_
      rw [hpassage, hpassage'] at heq
      exact generatedId_injective heq

theorem exists_calls (h : IsStep d l start c i kind g) (hplan : g.scaffold.plan e tx = .ok tx') :
    ∃ cs, Calls e tx cs tx' := by
  cases h with
  | entity => exact ⟨_, (creatingEntity_spec.1 hplan).2⟩
  | event => exact ⟨_, (creatingEvent_spec.1 hplan).2⟩
  | passage => exact ⟨_, (createPassage_spec.1 hplan).2.2.2⟩

/-- **A step first creates a file** below the data folder. -/
theorem exists_create (h : IsStep d l start c i kind g)
    (hconfig : l.config = { dataDir := l.config.dataDir, showDiff := l.config.showDiff })
    (hlayout : tx.layout = l) (hplan : g.scaffold.plan e tx = .ok tx') :
    ∃ p t cs, Calls e tx (.create p t :: cs) tx' ∧ (p.goesUp = false → l.IsDefault) := by
  cases h with
  | entity _ hevent hid =>
    refine ⟨_, _, _, (creatingEntity_spec.1 hplan).2, fun hup => ?_⟩
    rw [hlayout, IsDefault.entityFile_eq hevent] at hup
    exact isDefault_of_goesUp hconfig (isWord_of_isId hid) hup
  | @event args hid _ =>
    refine ⟨_, _, _, (creatingEvent_spec.1 hplan).2, fun hup => ?_⟩
    have hname : IsName (args.id ++ ".event.ts".toList) :=
      isName_append (isWord_of_isId hid) (by decide)
    rw [hlayout, show l.eventFile args.id = (l.placeOf .event args.id).join _ from rfl,
      Path.goesUp_concat (Path.components_join _ hname)] at hup
    exact isDefault_of_goesUp hconfig (isWord_of_isId hid) hup
  | @passage p passageKind title link hp _ _ _ =>
    refine ⟨_, _, _, (createPassage_spec.1 hplan).2.2.2, fun hup => ?_⟩
    rw [hlayout, passageFile_eq,
      Path.goesUp_concat (Path.components_join _ (isName_passageFileName hp.passage passageKind)),
      Path.goesUp_concat (Path.components_join _ (isName_passageFolderName hp.character))] at hup
    have hup' : (l.placeOf .event p.event).goesUp = false := hup
    exact isDefault_of_goesUp hconfig (isWord_of_isId hp.event) hup'

/-- **A step that can be planned** found a data folder. -/
theorem reaches (h : IsStep d l start c i kind g)
    (hconfig : l.config = { dataDir := l.config.dataDir, showDiff := l.config.showDiff })
    (he : e.IsPlain) (hlayout : tx.layout = l) (hplan : g.scaffold.plan e tx = .ok tx') :
    l.Reaches e := by
  obtain ⟨p, t, cs, hcalls, hdefault⟩ := h.exists_create hconfig hlayout hplan
  cases hcalls with
  | cons hrun _ => cases Call.stages_of_run hrun with
    | create hcheck _ =>
      unfold Transaction.check at hcheck
      split at hcheck
      · obtain ⟨hup, folder, hfollow, _⟩ := Disk.of_ensureWithin he hcheck
        exact ⟨(hdefault hup).goesUp, folder, hlayout ▸ hfollow⟩
      · exact absurd hcheck Outcome.fail_ne_ok

end IsStep

end EachStep

/-! ## The batch -/

/-- **Planning a batch makes the calls of its steps.** -/
theorem exists_calls_of_batch {name : Text} {steps : List Scaffold}
    (hsteps : ∀ s ∈ steps, ∀ d tx tx', s.plan d tx = .ok tx' → ∃ cs, Calls d tx cs tx')
    {tx tx' : Transaction} (h : (batch name steps).plan d tx = .ok tx') :
    ∃ cs, Calls d tx cs tx' := by
  have hfold : steps.foldlM (fun tx s => Outcome.within (.step s.name) (s.plan d tx)) tx =
      .ok tx' := h
  clear h
  induction steps generalizing tx with
  | nil =>
    obtain rfl := Outcome.pure_eq_ok.1 hfold
    exact ⟨[], .nil tx⟩
  | cons s steps ih =>
    rw [List.foldlM_cons] at hfold
    obtain ⟨tx₁, hplan, hrest⟩ := Outcome.bind_eq_ok.1 hfold
    obtain ⟨cs, hcs⟩ := hsteps s List.mem_cons_self d tx tx₁ (Outcome.within_eq_ok.1 hplan)
    obtain ⟨cs', hcs'⟩ := ih (fun s' hs' => hsteps s' (List.mem_cons_of_mem _ hs')) hrest
    exact ⟨cs ++ cs', Calls.append_iff.2 ⟨tx₁, hcs, hcs'⟩⟩

/-- What could be applied could be planned. -/
theorem exists_plan_of_run {s : Scaffold} (hd : d.IsPlain)
    (hcalls : ∀ d tx tx', s.plan d tx = .ok tx' → ∃ cs, Calls d tx cs tx') {r : Report} {d' : Disk}
    (h : l.run .apply s d = (.ok r, d')) :
    ∃ tx, s.plan d { layout := l, targets := s.targets l } = .ok tx := by
  have hcases := l.run_cases hd hcalls
  rw [h] at hcases
  obtain ⟨_, _, tx, _, hplan, _⟩ := hcases
  exact ⟨tx, hplan⟩

section Together

variable [Engine] {gs : List Growth} {name : Text} {r : Report} {d' : Disk}

section Steps

variable (hconfig : l.config = { dataDir := l.config.dataDir, showDiff := l.config.showDiff })
  (hd : d.IsPlain) (hgs : ∀ g ∈ gs, ∃ j, IsStep d l start c j kind g) (hne : gs ≠ [])

include hgs in
/-- Planning the steps makes calls. -/
theorem exists_calls_of_steps : ∀ s ∈ gs.map Growth.scaffold, ∀ d tx tx',
    s.plan d tx = .ok tx' → ∃ cs, Calls d tx cs tx' := by
  intro s hs d tx tx' hplan
  obtain ⟨g, hg, rfl⟩ := List.mem_map.1 hs
  obtain ⟨_, hstep⟩ := hgs g hg
  exact hstep.exists_calls hplan

include hd hgs in
/-- **A batch that fails** leaves what there was. -/
theorem same_of_batch_failed {f : Failure}
    (h : l.run .apply (batch name (gs.map Growth.scaffold)) d = (.error f, d')) : d'.Same d := by
  have hcases := l.run_cases hd (s := batch name (gs.map Growth.scaffold)) fun _ _ _ =>
    exists_calls_of_batch (exists_calls_of_steps hgs)
  rw [h] at hcases
  exact hcases.2

include hconfig hd hgs hne in
/-- **A batch that can be applied** found a data folder. -/
theorem reaches_of_batch (h : l.run .apply (batch name (gs.map Growth.scaffold)) d = (.ok r, d')) :
    l.Reaches d := by
  obtain ⟨tx, hplan⟩ := exists_plan_of_run hd
    (fun _ _ _ => exists_calls_of_batch (exists_calls_of_steps hgs)) h
  obtain ⟨g, gs, rfl⟩ := List.exists_cons_of_ne_nil hne
  obtain ⟨j, hstep⟩ := hgs g List.mem_cons_self
  obtain ⟨tx₁, hfirst, _⟩ := Outcome.bind_eq_ok.1 hplan
  exact hstep.reaches hconfig hd rfl (Outcome.within_eq_ok.1 hfirst)

include hconfig hd hgs hne in
/-- **Steps that can be applied one by one** found a data folder. -/
theorem reaches_of_runEach (h : l.runEach (gs.map Growth.scaffold) d = (.ok (), d')) :
    l.Reaches d := by
  have hcalls := exists_calls_of_steps hgs
  obtain ⟨g, gs, rfl⟩ := List.exists_cons_of_ne_nil hne
  obtain ⟨j, hstep⟩ := hgs g List.mem_cons_self
  rw [List.map_cons, runEach] at h
  cases hrun : l.run .apply g.scaffold d with
  | mk r d₁ =>
    rw [hrun] at h
    cases r with
    | error f => cases h
    | ok r =>
      obtain ⟨tx, hplan⟩ := exists_plan_of_run hd (hcalls _ List.mem_cons_self) hrun
      exact hstep.reaches hconfig hd rfl hplan

end Steps

/-- **The steps of a batch.** -/
def generatedSteps (d : Disk) (l : Layout) (kind : GenerateKind) (count : Nat) (start : Text)
    (dice : Dice) : Outcome (List Scaffold) := do
  let c ← candidates d l
  generateSteps d l kind start c count 0 dice

/-- **Generating entities in one transaction equals generating them one by one.** In a
project with the default names, for any kind, number, beginning of the ids and dice: the
batch succeeds when applying its steps one after the other does, both ways leave the same
tree, and a batch that fails leaves the tree as it was. -/
theorem generate_iff_each {count : ℕ} {dice : Dice} {scaffold : Scaffold}
    (hconfig : l.config = { dataDir := l.config.dataDir, showDiff := l.config.showDiff })
    (hd : d.IsPlain) (hcount : 1 ≤ count) (h : generate d l kind count start dice = .ok scaffold) :
    ∃ steps, generatedSteps d l kind count start dice = .ok steps ∧ steps.length = count ∧
      scaffold = batch scaffold.name steps ∧
      ((∃ r d', l.run .apply scaffold d = (.ok r, d')) ↔
        ∃ d', l.runEach steps d = (.ok (), d')) ∧
      (∀ r d₁ d₂, l.run .apply scaffold d = (.ok r, d₁) → l.runEach steps d = (.ok (), d₂) →
        d₁.Same d₂) ∧
      ∀ f d', l.run .apply scaffold d = (.error f, d') → d'.Same d := by
  obtain ⟨_, _, h⟩ := Outcome.bind_eq_ok.1 h
  obtain ⟨c, hc, h⟩ := Outcome.bind_eq_ok.1 h
  obtain ⟨steps, hsteps, h⟩ := Outcome.bind_eq_ok.1 h
  obtain rfl := Outcome.pure_eq_ok.1 h
  obtain ⟨gs, rfl, hlen, hgs, hpairs⟩ := exists_isStep_of_generateSteps hsteps
  have hsteps' : ∀ g ∈ gs, ∃ j, IsStep d l start c j kind g := fun g hg =>
    (hgs g hg).imp fun _ hstep => hstep.2
  have hne : gs ≠ [] := List.ne_nil_of_length_pos (by omega)
  refine ⟨gs.map Growth.scaffold, Outcome.bind_eq_ok.2 ⟨c, hc, hsteps⟩,
    by rw [List.length_map, hlen], rfl, ?_⟩
  rw [← and_assoc]
  refine ⟨?_, fun f d' hrun => ?_⟩
  · by_cases hreach : l.Reaches d
    · have hl : l.IsDefault := ⟨hconfig, hreach.goesUp⟩
      have hfor : ∀ g ∈ gs, g.IsFor l d := fun g hg =>
        (hsteps' g hg).elim fun _ hstep => hstep.isFor hl hreach hd hc
      have hleaves : gs.Pairwise (Leaves d.addressOf) := hpairs.imp
        fun ⟨_, _, hij, hstep, hstep'⟩ => hstep.leaves hstep' hl hij
      exact ⟨together_iff_each hreach hd _ hfor hleaves,
        fun _ _ _ hrun hrun' => same_of_together_of_each hreach hd hfor hleaves hrun hrun'⟩
    · -- nothing can be created, in one transaction or one by one
      have hbatch : ∀ name r d', l.run .apply (batch name (gs.map Growth.scaffold)) d ≠ (.ok r, d') :=
        fun _ _ _ hrun => hreach (reaches_of_batch hconfig hd hsteps' hne hrun)
      have heach : ∀ d', l.runEach (gs.map Growth.scaffold) d ≠ (.ok (), d') :=
        fun _ hrun => hreach (reaches_of_runEach hconfig hd hsteps' hne hrun)
      exact ⟨iff_of_false (fun ⟨r, d', hrun⟩ => hbatch _ r d' hrun) fun ⟨d', hrun⟩ => heach d' hrun,
        fun r d₁ _ hrun => absurd hrun (hbatch _ r d₁)⟩
  · exact same_of_batch_failed hd hsteps' hrun

/-- What is generated makes calls of the transaction. -/
theorem exists_calls_of_generate {count : ℕ} {dice : Dice} {scaffold : Scaffold}
    (h : generate d l kind count start dice = .ok scaffold) :
    ∀ d tx tx', scaffold.plan d tx = .ok tx' → ∃ cs, Calls d tx cs tx' := by
  obtain ⟨_, _, h⟩ := Outcome.bind_eq_ok.1 h
  obtain ⟨c, _, h⟩ := Outcome.bind_eq_ok.1 h
  obtain ⟨steps, hsteps, h⟩ := Outcome.bind_eq_ok.1 h
  obtain rfl := Outcome.pure_eq_ok.1 h
  obtain ⟨gs, rfl, _, hgs, _⟩ := exists_isStep_of_generateSteps hsteps
  have hsteps' : ∀ g ∈ gs, ∃ j, IsStep d l start c j kind g := fun g hg =>
    (hgs g hg).imp fun _ hstep => hstep.2
  exact fun _ _ _ => exists_calls_of_batch (exists_calls_of_steps hsteps')

end Together

section Ball

open scoped Engine.Tireless

/-- A project in the root, with an event that has no passages yet. -/
def ballDisk : Disk where
  cwd := []
  entries := [(["src".toList], .folder), (["src".toList, "data".toList], .folder),
    (["src".toList, "data".toList, "characters".toList], .folder),
    (["src".toList, "data".toList, "characters".toList, "ann".toList ++ sourceEnding],
      .file (.text [])),
    (["src".toList, "data".toList, "events".toList], .folder),
    (["src".toList, "data".toList, "events".toList, "ball".toList], .folder),
    (["src".toList, "data".toList, "events".toList, "ball".toList, passageMapName "ball".toList],
      .file (.text (Template.passageMap "ball".toList)))]

theorem generate_iff_each_ball : ∃ scaffold steps r d₁ d₂,
    (annLayout.config =
        { dataDir := annLayout.config.dataDir, showDiff := annLayout.config.showDiff } ∧
      ballDisk.IsPlain ∧ 1 ≤ 2 ∧
      generate ballDisk annLayout .passages 2 "new".toList [] = .ok scaffold) ∧
    generatedSteps ballDisk annLayout .passages 2 "new".toList [] = .ok steps ∧
    steps.map Scaffold.name = ["create passage ball-ann-new_0_passage".toList,
      "create passage ball-ann-new_1_passage".toList] ∧
    annLayout.run .apply scaffold ballDisk = (.ok r, d₁) ∧
    annLayout.runEach steps ballDisk = (.ok (), d₂) ∧ d₁.Same d₂ := by
  have hplain : ballDisk.IsPlain :=
    Disk.isPlain_of_entries (by decide +kernel) (by decide +kernel) (by decide +kernel)
  have hruns : (match generate ballDisk annLayout .passages 2 "new".toList [] with
      | .ok scaffold => (annLayout.runAtOnce scaffold ballDisk).1.isOk
      | .error _ => false) = true := by
    decide +kernel
  have hnames : (match generatedSteps ballDisk annLayout .passages 2 "new".toList [] with
      | .ok steps => steps.map Scaffold.name
      | .error _ => []) = ["create passage ball-ann-new_0_passage".toList,
        "create passage ball-ann-new_1_passage".toList] := by
    decide +kernel
  have hgenerates : (generate ballDisk annLayout .passages 2 "new".toList []).isOk = true := by
    decide +kernel
  obtain ⟨scaffold, hscaffold⟩ := Outcome.exists_of_isOk hgenerates
  obtain ⟨steps, hsteps, _, _, hiff, hsame, _⟩ :=
    generate_iff_each rfl hplain (by decide) hscaffold
  rw [hscaffold] at hruns
  rw [hsteps] at hnames
  have hruns : (annLayout.runAtOnce scaffold ballDisk).1.isOk = true := hruns
  cases hrun : annLayout.runAtOnce scaffold ballDisk with
  | mk outcome d₁ =>
    rw [hrun] at hruns
    obtain ⟨r, rfl⟩ := Outcome.exists_of_isOk hruns
    rw [← annLayout.run_eq_runAtOnce (exists_calls_of_generate hscaffold)] at hrun
    obtain ⟨d₂, heach⟩ := hiff.1 ⟨r, d₁, hrun⟩
    exact ⟨scaffold, steps, r, d₁, d₂, ⟨rfl, hplain, by decide, hscaffold⟩, hsteps, hnames,
      hrun, heach, hsame r d₁ d₂ hrun heach⟩

end Ball

end Scaffold

end Fabula
