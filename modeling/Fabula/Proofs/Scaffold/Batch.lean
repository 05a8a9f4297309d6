import Fabula.Proofs.Project.Sources
import Fabula.Proofs.Scaffold.Plans
import Fabula.Scaffold.Generate

/-!
# Many scaffolds in one transaction, or one by one

Several scaffolds may be planned on one transaction, which is committed once, or each of them
may be run by itself. In the first case each of them sees what the ones before it have staged,
in the second what they have left on the disk. This module compares the two for scaffolds that
only edit and create.

Such a scaffold is told by what it asks of the disk and by the calls it makes when it gets the
answer it needs (`Scaffold.Growth`). Applied to a disk it succeeds exactly when the answer is
that one and its calls can be made of the view of the disk (`Scaffold.Growth.of_run`,
`Scaffold.Growth.exists_run`). A scaffold in a batch does not begin with an empty transaction,
so being told in this way is asked for on every transaction that has planned edits and creations
before (`Scaffold.Growth.IsFor`). Then several of them in one transaction are one more scaffold
of this kind, which asks what they ask and makes the calls they make
(`Scaffold.Growth.isFor_together`).

## What is asked, and when

So a batch and its steps one by one make the same calls of the same view. What is left is when
the scaffolds ask. In the batch they all ask the disk as it is before the batch, because a
transaction writes nothing while it is planned. One by one, each asks the disk the ones before
it left. When no step changes the answer to what a later one asks (`Scaffold.Growth.Leaves`),
both ways succeed on the same disks and leave the same behind
(`Scaffold.Growth.together_iff_each`).

The induction for the second way carries two things along: the disk has everything that was
there at the beginning, and its view is the one that the calls so far have made. A view is made
by calls in one way at most, so in the end the two ways agree at every address
(`Scaffold.Growth.same_of_together_of_each`).
-/

namespace Fabula

open Disk (View)

namespace Calls

variable {d : Disk} {tx tx' : Transaction} {cs cs' : List Call}

theorem append_iff :
    Calls d tx (cs ++ cs') tx' ↔ ∃ tx₁, Calls d tx cs tx₁ ∧ Calls d tx₁ cs' tx' := by
  induction cs generalizing tx with
  | nil =>
    constructor
    · exact fun h => ⟨tx, .nil tx, h⟩
    · rintro ⟨tx₁, h, h'⟩
      rwa [nil_iff.1 h]
  | cons c cs ih =>
    constructor
    · intro h
      cases h with
      | cons hc hs =>
        obtain ⟨tx₁, h, h'⟩ := ih.1 hs
        exact ⟨tx₁, .cons hc h, h'⟩
    · rintro ⟨tx₁, h, h'⟩
      cases h with
      | cons hc hs => exact .cons hc (ih.2 ⟨tx₁, hs, h'⟩)

end Calls

namespace Layout

/-- **Applies scaffolds one after the other**, up to the first that fails. -/
def runEach (l : Layout) : List Scaffold → Disk → Outcome Unit × Disk
  | [], d => (.ok (), d)
  | s :: rest, d =>
    match l.run .apply s d with
    | (.ok _, d) => runEach l rest d
    | (.error f, d) => (.error f, d)

end Layout

namespace Scaffold

/-- **A scaffold that only edits and creates**: what it asks of the disk, and the calls it
makes. -/
structure Growth where
  /-- The scaffold. -/
  scaffold : Scaffold
  /-- What has to be so on the disk. -/
  asks : View → Prop
  /-- What is edited and created. -/
  calls : List Call

namespace Growth

variable {l : Layout} {d e e' : Disk} {g : Growth} {gs : List Growth} {r : Report}

/-- **The scaffold plans as it is told**, on every disk that has what a disk has. -/
structure IsFor (l : Layout) (d : Disk) (g : Growth) : Prop where
  targets : ∀ p ∈ g.scaffold.targets l, ∃ ns, (∀ n ∈ ns, IsName n) ∧ p = l.dataDir.joinAll ns
  calls : ∀ c ∈ g.calls, c.isGrowth = true ∧ c.path ∈ l.sources ∧
    ∃ target ∈ g.scaffold.targets l, c.path.isWithin target = true
  plan_iff : ∀ e tx tx', e.Extends d → tx.layout = l → tx.Grown e l.sources →
    (g.scaffold.plan e tx = .ok tx' ↔ g.asks e.get? ∧ Calls e tx g.calls tx')

/-- A transaction that has planned nothing leaves the disk as it is. -/
theorem effect_init (l : Layout) (targets : List Path) (d : Disk) :
    Transaction.effect { layout := l, targets } d = d.get? := by
  funext c
  show (if ∃ a ∈ ([] : List Address), a <+: c then none else d.get? c) = d.get? c
  rw [if_neg (by simp)]

variable (hl : l.Reaches d) (hd : d.IsPlain) (hg : g.IsFor l d) (he : e.Extends d)

include hl hd hg he in
/-- The calls pass the check. -/
theorem check_calls : ∀ c ∈ g.calls, c.isGrowth = true ∧ c.path ∈ l.sources ∧
    Transaction.check { layout := l, targets := g.scaffold.targets l } e c.path = .ok () := by
  intro c hc
  obtain ⟨hgrowth, hp, htarget⟩ := hg.calls c hc
  obtain ⟨ns, hns, _, hpns⟩ := Layout.exists_of_mem_sources hp
  exact ⟨hgrowth, hp, (hl.of_extends hd he).check_eq_ok he.plain rfl hns hpns htarget⟩

include hl hd hg he in
/-- **A scaffold that succeeds** got its answer and made its calls. -/
theorem of_run (h : l.run .apply g.scaffold e = (.ok r, e')) :
    e'.Extends d ∧ g.asks e.get? ∧ Call.GrowsAll d.addressOf g.calls e.get? e'.get? := by
  have hspread := (hl.of_extends hd he).spread_sources he.plain
  have hgrown := Transaction.Grown.init e l.sources l (g.scaffold.targets l)
  rw [Layout.run, Layout.runPlan, (hl.of_extends hd he).checkTargets_eq_ok he.plain hg.targets] at h
  cases hplan : g.scaffold.plan e { layout := l, targets := g.scaffold.targets l } with
  | error f =>
    rw [hplan] at h
    cases h
  | ok tx =>
    rw [hplan] at h
    obtain ⟨hasks, hcalls⟩ := (hg.plan_iff e _ tx he rfl hgrown).1 hplan
    have hchecked := check_calls hl hd hg he
    have hgrown' := hgrown.calls hcalls fun c hc => ⟨(hchecked c hc).1, (hchecked c hc).2.1⟩
    have hopen := (hgrown'.commit_eq_ok_iff hspread he.plain g.scaffold.name).1 ⟨r, e', h⟩
    obtain ⟨_, hplain, hcwd, hview⟩ := hgrown'.sound.commit_effect he.plain h
    have hgrows := (hgrown.calls_iff hspread he.plain
      (Transaction.IsOpen.init e l.sources l _) hchecked).2 ⟨tx, hcalls, hopen, rfl⟩
    rw [effect_init, ← hview, he.addressOf_eq] at hgrows
    refine ⟨?_, hasks, hgrows⟩
    exact (Disk.Extends.of_growsAll hplain hcwd (he.addressOf_eq ▸ hgrows)).trans he

include hl hd hg he in
/-- **A scaffold succeeds** when it gets its answer and its calls can be made. -/
theorem exists_run {v : View} (hasks : g.asks e.get?)
    (hgrows : Call.GrowsAll d.addressOf g.calls e.get? v) :
    ∃ r e', l.run .apply g.scaffold e = (.ok r, e') := by
  have hspread := (hl.of_extends hd he).spread_sources he.plain
  have hgrown := Transaction.Grown.init e l.sources l (g.scaffold.targets l)
  have hchecked := check_calls hl hd hg he
  rw [← he.addressOf_eq, ← effect_init l (g.scaffold.targets l) e] at hgrows
  obtain ⟨tx, hcalls, hopen, _⟩ := (hgrown.calls_iff hspread he.plain
    (Transaction.IsOpen.init e l.sources l _) hchecked).1 hgrows
  have hplan := (hg.plan_iff e _ tx he rfl hgrown).2 ⟨hasks, hcalls⟩
  have hgrown' := hgrown.calls hcalls fun c hc => ⟨(hchecked c hc).1, (hchecked c hc).2.1⟩
  obtain ⟨r, e', hcommit⟩ := (hgrown'.commit_eq_ok_iff hspread he.plain g.scaffold.name).2 hopen
  refine ⟨r, e', ?_⟩
  rw [Layout.run, Layout.runPlan, (hl.of_extends hd he).checkTargets_eq_ok he.plain hg.targets]
  simp only [hplan]
  exact hcommit

/-! ## In one transaction -/

/-- **Several scaffolds in one transaction.** -/
def together (name : Text) (gs : List Growth) : Growth where
  scaffold := batch name (gs.map scaffold)
  asks v := ∀ g ∈ gs, g.asks v
  calls := gs.flatMap calls

/-- **Scaffolds planned on one transaction** all ask the disk as it is. -/
theorem foldlM_plan_iff (hgs : ∀ g ∈ gs, g.IsFor l d) (he : e.Extends d)
    {tx tx' : Transaction} (hlayout : tx.layout = l) (hgrown : tx.Grown e l.sources) :
    (gs.map scaffold).foldlM (fun tx s => Outcome.within (.step s.name) (s.plan e tx)) tx = .ok tx' ↔
      (∀ g ∈ gs, g.asks e.get?) ∧ Calls e tx (gs.flatMap calls) tx' := by
  induction gs generalizing tx with
  | nil =>
    rw [List.flatMap_nil, Calls.nil_iff]
    exact ⟨fun h => ⟨fun _ hg => absurd hg List.not_mem_nil, Outcome.pure_eq_ok.1 h⟩,
      fun h => Outcome.pure_eq_ok.2 h.2⟩
  | cons g gs ih =>
    have hg := hgs g List.mem_cons_self
    rw [List.map_cons, List.foldlM_cons, Outcome.bind_eq_ok, List.forall_mem_cons,
      List.flatMap_cons, Calls.append_iff]
    have hnext : ∀ tx₁, Calls e tx g.calls tx₁ → tx₁.layout = l ∧ tx₁.Grown e l.sources := by
      intro tx₁ hcalls
      exact ⟨hcalls.layout_eq.1.trans hlayout, hgrown.calls hcalls fun c hc =>
        ⟨(hg.calls c hc).1, (hg.calls c hc).2.1⟩⟩
    constructor
    · rintro ⟨tx₁, hplan, hrest⟩
      obtain ⟨hasks, hcalls⟩ :=
        (hg.plan_iff e tx tx₁ he hlayout hgrown).1 (Outcome.within_eq_ok.1 hplan)
      obtain ⟨hlayout₁, hgrown₁⟩ := hnext tx₁ hcalls
      obtain ⟨hasks', hcalls'⟩ := (ih (fun g' hg' => hgs g' (List.mem_cons_of_mem _ hg'))
        hlayout₁ hgrown₁).1 hrest
      exact ⟨⟨hasks, hasks'⟩, tx₁, hcalls, hcalls'⟩
    · rintro ⟨⟨hasks, hasks'⟩, tx₁, hcalls, hcalls'⟩
      obtain ⟨hlayout₁, hgrown₁⟩ := hnext tx₁ hcalls
      exact ⟨tx₁, Outcome.within_eq_ok.2 ((hg.plan_iff e tx tx₁ he hlayout hgrown).2 ⟨hasks, hcalls⟩),
        (ih (fun g' hg' => hgs g' (List.mem_cons_of_mem _ hg')) hlayout₁ hgrown₁).2
          ⟨hasks', hcalls'⟩⟩

/-- **Several scaffolds in one transaction** are one that asks what they ask and makes the
calls they make. -/
theorem isFor_together (name : Text) (hgs : ∀ g ∈ gs, g.IsFor l d) :
    (together name gs).IsFor l d where
  targets := by
    intro p hp
    obtain ⟨s, hs, hp⟩ := List.mem_flatMap.1 hp
    obtain ⟨g, hg, rfl⟩ := List.mem_map.1 hs
    exact (hgs g hg).targets p hp
  calls := by
    intro c hc
    obtain ⟨g, hg, hc⟩ := List.mem_flatMap.1 hc
    obtain ⟨hgrowth, hp, target, htarget, hwithin⟩ := (hgs g hg).calls c hc
    exact ⟨hgrowth, hp, target,
      List.mem_flatMap.2 ⟨g.scaffold, List.mem_map_of_mem hg, htarget⟩, hwithin⟩
  plan_iff := fun _ _ _ he hlayout hgrown => foldlM_plan_iff hgs he hlayout hgrown

/-! ## One by one -/

/-- **Making the calls of one leaves what another one asks** as it is. -/
def Leaves (address : Path → Address) (g g' : Growth) : Prop :=
  ∀ v v', Call.GrowsAll address g.calls v v' → (g'.asks v' ↔ g'.asks v)

include hl hd in
/-- **Scaffolds that succeed one after the other** got the answers they would have got at
the start, and made their calls. -/
theorem of_runEach (hgs : ∀ g ∈ gs, g.IsFor l d) (hleaves : gs.Pairwise (Leaves d.addressOf))
    (he : e.Extends d) (h : l.runEach (gs.map scaffold) e = (.ok (), e')) :
    e'.Extends d ∧ (∀ g ∈ gs, g.asks e.get?) ∧
      Call.GrowsAll d.addressOf (gs.flatMap calls) e.get? e'.get? := by
  induction gs generalizing e with
  | nil =>
    obtain ⟨_, rfl⟩ := Prod.mk.inj h
    exact ⟨he, fun _ hg => absurd hg List.not_mem_nil, .nil _⟩
  | cons g gs ih =>
    obtain ⟨hlater, hleaves⟩ := List.pairwise_cons.1 hleaves
    rw [List.map_cons, Layout.runEach] at h
    cases hrun : l.run .apply g.scaffold e with
    | mk r e₁ =>
      rw [hrun] at h
      cases r with
      | error f => cases h
      | ok r =>
        obtain ⟨he₁, hasks, hgrows⟩ := of_run hl hd (hgs g List.mem_cons_self) he hrun
        obtain ⟨he', hasks', hgrows'⟩ := ih (fun g' hg' => hgs g' (List.mem_cons_of_mem _ hg'))
          hleaves he₁ h
        refine ⟨he', List.forall_mem_cons.2 ⟨hasks, fun g' hg' => ?_⟩, ?_⟩
        · exact (hlater g' hg' _ _ hgrows).1 (hasks' g' hg')
        · exact Call.growsAll_append_iff.2 ⟨_, hgrows, hgrows'⟩

include hl hd in
/-- **Scaffolds succeed one after the other** when they all get their answers at the start
and their calls can be made. -/
theorem exists_runEach (hgs : ∀ g ∈ gs, g.IsFor l d) (hleaves : gs.Pairwise (Leaves d.addressOf))
    (he : e.Extends d) (hasks : ∀ g ∈ gs, g.asks e.get?) {v : View}
    (hgrows : Call.GrowsAll d.addressOf (gs.flatMap calls) e.get? v) :
    ∃ e', l.runEach (gs.map scaffold) e = (.ok (), e') := by
  induction gs generalizing e with
  | nil => exact ⟨e, rfl⟩
  | cons g gs ih =>
    obtain ⟨hlater, hleaves⟩ := List.pairwise_cons.1 hleaves
    obtain ⟨hask, hasks⟩ := List.forall_mem_cons.1 hasks
    obtain ⟨v₁, hfirst, hrest⟩ := Call.growsAll_append_iff.1 hgrows
    obtain ⟨r, e₁, hrun⟩ := exists_run hl hd (hgs g List.mem_cons_self) he hask hfirst
    obtain ⟨he₁, _, hgrows₁⟩ := of_run hl hd (hgs g List.mem_cons_self) he hrun
    obtain rfl := hfirst.unique hgrows₁
    obtain ⟨e', hrun'⟩ := ih (fun g' hg' => hgs g' (List.mem_cons_of_mem _ hg')) hleaves he₁
      (fun g' hg' => (hlater g' hg' _ _ hgrows₁).2 (hasks g' hg')) hrest
    refine ⟨e', ?_⟩
    rw [List.map_cons, Layout.runEach, hrun]
    exact hrun'

include hl hd in
/-- **In one transaction or one by one**: both ways succeed on the same disks, when no
scaffold changes what a later one asks. -/
theorem together_iff_each (name : Text) (hgs : ∀ g ∈ gs, g.IsFor l d)
    (hleaves : gs.Pairwise (Leaves d.addressOf)) :
    (∃ r d', l.run .apply (batch name (gs.map scaffold)) d = (.ok r, d')) ↔
      ∃ d', l.runEach (gs.map scaffold) d = (.ok (), d') := by
  have hfor := isFor_together name hgs
  constructor
  · rintro ⟨r, d', hrun⟩
    obtain ⟨_, hasks, hgrows⟩ := of_run hl hd hfor (.refl hd) hrun
    exact exists_runEach hl hd hgs hleaves (.refl hd) hasks hgrows
  · rintro ⟨d', hrun⟩
    obtain ⟨_, hasks, hgrows⟩ := of_runEach hl hd hgs hleaves (.refl hd) hrun
    exact exists_run hl hd hfor (.refl hd) hasks hgrows

include hl hd in
/-- **Both ways leave the same behind.** -/
theorem same_of_together_of_each {name : Text} (hgs : ∀ g ∈ gs, g.IsFor l d)
    (hleaves : gs.Pairwise (Leaves d.addressOf))
    (h : l.run .apply (batch name (gs.map scaffold)) d = (.ok r, e))
    (h' : l.runEach (gs.map scaffold) d = (.ok (), e')) : e.Same e' := by
  obtain ⟨he, _, hgrows⟩ := of_run hl hd (isFor_together name hgs) (.refl hd) h
  obtain ⟨he', _, hgrows'⟩ := of_runEach hl hd hgs hleaves (.refl hd) h'
  exact ⟨he.cwd_eq.trans he'.cwd_eq.symm, congrFun (hgrows.unique hgrows')⟩

end Growth

end Scaffold

end Fabula
