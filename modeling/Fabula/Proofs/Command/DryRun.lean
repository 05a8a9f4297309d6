import Fabula.Command.Run
import Fabula.Proofs.Project.Settings

/-!
# What a command writes that is only tried

A command that is only tried is to show what it would do. It stops at its report: neither its
scaffold nor what it looks up to make one touches the disk. But before that the configuration is
looked for, and looking for it may write the user's one, tried or not
(`Command.execute_of_dryRun`). So what such a command writes, and when it writes nothing, is
what is known of the configuration (`Config.load_touches`, `Config.load_eq_self_iff`).

The first part holds for every request. A scaffold in preview is planned, and a plan that makes
calls changes nothing. Its report is made from the transaction, and the transaction is dropped
(`Layout.runPlan_preview`). What a command looks up to make its scaffold, such as the folders
from which a batch picks, is only read. So the disk that the command leaves is the one that
looking for the configuration left, whether the request succeeds or not
(`Request.run_of_dryRun`).

The second part is therefore exact. At most the user's configuration is touched, with the
folders it is in, and nothing is if and only if a configuration is named, the project has one of
its own, or the user's one stands (`Command.dryRun_writes_settings`). That the first of these
can happen is shown by a project without any configuration (`Command.dryRun_leaves_settings`).
-/

namespace Fabula

/-- **A plan that is only tried** leaves the disk as the plan left it. -/
theorem Layout.runPlan_preview (l : Layout) (name : Text) (targets : List Path) {plan : LivePlan}
    {d : Disk} (hplan : ∀ tx, (plan d tx).2 = d) :
    (l.runPlan .preview name targets plan d).2 = d := by
  unfold runPlan
  cases l.checkTargets d targets with
  | error f => rfl
  | ok u =>
    have hleft := hplan { layout := l, targets }
    dsimp only
    cases hresult : plan d { layout := l, targets } with
    | mk result d' =>
      rw [hresult] at hleft
      obtain rfl : d' = d := hleft
      cases result <;> rfl

theorem Layout.run_preview (l : Layout) (s : Scaffold) (d : Disk) : (l.run .preview s d).2 = d :=
  l.runPlan_preview s.name (s.targets l) fun _ => rfl

namespace Command

section AnyEngine

variable [Engine] {arguments : List Text} {s : Surroundings} {d : Disk} {r : Request}

/-- **A request that is only tried** leaves the disk as looking for the configuration left it. -/
theorem Request.run_of_dryRun (hdry : r.dryRun = true) :
    (r.run s d).2 = (Config.load d s.configHome r.config? r.project).2 := by
  have hmode : r.mode = .preview := if_pos hdry
  unfold run
  cases Config.load d s.configHome r.config? r.project with
  | mk result d' =>
    cases result with
    | error f => rfl
    | ok config =>
      dsimp only
      cases r.command.scaffold s.throws d' ⟨r.project, config⟩ with
      | error f => rfl
      | ok scaffold =>
        dsimp only
        rw [hmode]
        exact Layout.run_preview _ scaffold d'

theorem execute_of_dryRun (hr : Request.read? arguments = some r) (hdry : r.dryRun = true) :
    (execute s arguments d).2 = (Config.load d s.configHome r.config? r.project).2 := by
  unfold execute
  rw [hr]
  exact Request.run_of_dryRun hdry

/-- **What a command writes that is only tried**: the user's configuration at most, with the
folders it is in, and nothing if and only if a configuration is named, the project has one of its
own, or the user's one stands. -/
theorem dryRun_writes_settings (hd : d.IsTree) (hr : Request.read? arguments = some r)
    (hdry : r.dryRun = true) :
    Config.Touches s.configHome d (execute s arguments d).2 ∧
      ((execute s arguments d).2 = d ↔
        r.config?.isSome = true ∨ d.isFile (r.project.join Config.projectFile) = true ∨
          Config.UserStands d s.configHome) := by
  rw [execute_of_dryRun hr hdry]
  exact ⟨Config.load_touches hd s.configHome r.config? r.project,
    Config.load_eq_self_iff hd s.configHome r.config? r.project⟩

end AnyEngine

section Ann

open scoped Engine.Tireless

/-- A project in the working folder, and no configuration anywhere. -/
def unsettledDisk : Disk where
  cwd := []
  entries :=
    [(["src".toList], .folder), (["src".toList, "data".toList], .folder),
      (["src".toList, "data".toList, "register.ts".toList],
        .file (.text "characters: \x7b\n\x7d,\n".toList)),
      (["src".toList, "data".toList, "TWorldState.ts".toList],
        .file (.text "characters: \x7b\n\x7d;\n".toList))]

/-- Configurations are kept in a folder that is missing there. -/
def unsettledSurroundings : Surroundings where
  configHome := Path.ofString "/home"
  palette := .plain
  throws _ := []

/-- A character is created, but only tried. -/
def tryAnn : List Text :=
  ["--dry-run".toList, "create".toList, "character".toList, "Ann".toList]

/-- The request that this is. -/
def tryAnnRequest : Request where
  command := .createEntity .character "Ann".toList none
  project := Path.ofString "."
  config? := none
  dryRun := true

theorem isTree_unsettledDisk : unsettledDisk.IsTree :=
  Disk.isTree_of_entries (by decide) (by decide) (by decide)

theorem read?_tryAnn : Request.read? tryAnn = some tryAnnRequest := by
  decide +kernel

theorem dryRun_writes_settings_ann :
    unsettledDisk.IsTree ∧ Request.read? tryAnn = some tryAnnRequest ∧
      tryAnnRequest.dryRun = true ∧
      Config.Touches unsettledSurroundings.configHome unsettledDisk
        (execute unsettledSurroundings tryAnn unsettledDisk).2 ∧
      ((execute unsettledSurroundings tryAnn unsettledDisk).2 = unsettledDisk ↔
        tryAnnRequest.config?.isSome = true ∨
          unsettledDisk.isFile (tryAnnRequest.project.join Config.projectFile) = true ∨
          Config.UserStands unsettledDisk unsettledSurroundings.configHome) :=
  ⟨isTree_unsettledDisk, read?_tryAnn, rfl,
    dryRun_writes_settings isTree_unsettledDisk read?_tryAnn rfl⟩

/-- **Trying is not without a trace**: the character would be created, nothing is written of it,
and the user has a configuration where there was none. -/
theorem dryRun_leaves_settings :
    unsettledDisk.IsTree ∧ Request.read? tryAnn = some tryAnnRequest ∧
      tryAnnRequest.dryRun = true ∧
      (execute unsettledSurroundings tryAnn unsettledDisk).1.status = 0 ∧
      (execute unsettledSurroundings tryAnn unsettledDisk).2 ≠ unsettledDisk := by
  refine ⟨isTree_unsettledDisk, read?_tryAnn, rfl, by decide +kernel, fun hsame => ?_⟩
  have hfile : (execute unsettledSurroundings tryAnn unsettledDisk).2.get?
      ["home".toList, "worldsmith".toList, "config.toml".toList] =
        some (.file (.text (Config.render {}))) := by
    decide +kernel
  rw [hsame] at hfile
  exact absurd hfile (by decide +kernel)

end Ann

end Command

end Fabula
