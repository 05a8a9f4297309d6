import Fabula.Proofs.Engine
import Fabula.Proofs.Staging.Calls
import Fabula.Scaffold.Event

/-!
# The plans that list entities

The plan of a scaffold is a sequence of calls with questions in between: whether something is
there, what a file holds, whether an event still has passages. This module opens the four plans
on entities. A plan that succeeds has found what it asks for and has made its calls in order,
something at the place of the entity, then an edit of the register and one of the world state.
So the plans make calls of the transaction and nothing else, and what they leave behind follows
from that.

For creations the two are equivalent (`Scaffold.creatingEntity_spec`,
`Scaffold.creatingEvent_spec`): the plan succeeds when its questions are answered as it needs,
and its calls can be made. It is this direction from which it is shown that something can be
created. For removals one direction is enough, that a plan which succeeded has made these calls
(`Scaffold.removingEntity_spec`, `Scaffold.removingEvent_spec`).

The calls are those of `Calls`, one constructor for each call, so that a plan of several calls
is taken apart from the front (`Calls.create_iff`, `Calls.update_iff`). An event is listed in
the register by two edits of one text, an entry and a loader. A call makes one edit, so the two
are put together in one function (`Scaffold.registerEvent`, `Scaffold.unregisterEvent`), and for
that function it is shown that the engine decides only whether it answers.
-/

namespace Fabula

namespace Calls

variable {d : Disk} {tx tx' : Transaction} {cs : List Call} {p : Path}

theorem nil_iff : Calls d tx [] tx' ↔ tx = tx' := by
  constructor
  · rintro ⟨⟩
    rfl
  · rintro rfl
    exact .nil tx

theorem create {t : Text} {tx₁ : Transaction} (h : tx.create d p t = .ok tx₁)
    (hs : Calls d tx₁ cs tx') : Calls d tx (.create p t :: cs) tx' := by
  have hrun : (Call.create p t).run d tx = .ok (.done, tx₁) := by
    rw [Call.run, h]
    rfl
  exact .cons hrun hs

theorem update {patch : Text → Outcome Text} {tx₁ : Transaction}
    (h : tx.update d p patch = .ok tx₁) (hs : Calls d tx₁ cs tx') :
    Calls d tx (.update p patch :: cs) tx' := by
  have hrun : (Call.update p patch).run d tx = .ok (.done, tx₁) := by
    rw [Call.run, h]
    rfl
  exact .cons hrun hs

/-- **A plan that goes on after it created a file.** -/
theorem create_iff {t : Text} : Calls d tx (.create p t :: cs) tx' ↔
    ∃ tx₁, tx.create d p t = .ok tx₁ ∧ Calls d tx₁ cs tx' := by
  constructor
  · intro h
    cases h with
    | cons hrun hs =>
      obtain ⟨tx₁, hcreate, h⟩ := Outcome.bind_eq_ok.1 hrun
      obtain ⟨_, rfl⟩ := Prod.mk.inj (Outcome.pure_eq_ok.1 h)
      exact ⟨tx₁, hcreate, hs⟩
  · rintro ⟨tx₁, h, hs⟩
    exact .create h hs

/-- **A plan that goes on after it edited a file.** -/
theorem update_iff {patch : Text → Outcome Text} : Calls d tx (.update p patch :: cs) tx' ↔
    ∃ tx₁, tx.update d p patch = .ok tx₁ ∧ Calls d tx₁ cs tx' := by
  constructor
  · intro h
    cases h with
    | cons hrun hs =>
      obtain ⟨tx₁, hupdate, h⟩ := Outcome.bind_eq_ok.1 hrun
      obtain ⟨_, rfl⟩ := Prod.mk.inj (Outcome.pure_eq_ok.1 h)
      exact ⟨tx₁, hupdate, hs⟩
  · rintro ⟨tx₁, h, hs⟩
    exact .update h hs

theorem deleteFile {tx₁ : Transaction} (h : tx.deleteFile d p = .ok tx₁)
    (hs : Calls d tx₁ cs tx') : Calls d tx (.deleteFile p :: cs) tx' := by
  have hrun : (Call.deleteFile p).run d tx = .ok (.done, tx₁) := by
    rw [Call.run, h]
    rfl
  exact .cons hrun hs

theorem deleteFolder {tx₁ : Transaction} (h : tx.deleteFolder d p = .ok tx₁)
    (hs : Calls d tx₁ cs tx') : Calls d tx (.deleteFolder p :: cs) tx' := by
  have hrun : (Call.deleteFolder p).run d tx = .ok (.done, tx₁) := by
    rw [Call.run, h]
    rfl
  exact .cons hrun hs

end Calls

namespace Scaffold

variable [Engine] {d : Disk} {tx tx' : Transaction} {kind : EntityKind} {id name : Text}

/-- **Creating an entity** makes its file and lists it. -/
theorem creatingEntity_spec : (creatingEntity kind id name).plan d tx = .ok tx' ↔
    tx.pathExists d (tx.layout.entityFile kind id) = false ∧
      Calls d tx [.create (tx.layout.entityFile kind id) (Template.entity kind id name),
        .update tx.layout.registerFile (entityOf tx.layout kind id).addToRegister,
        .update tx.layout.worldStateFile (entityOf tx.layout kind id).addToWorldState] tx' := by
  show (if tx.pathExists d (tx.layout.entityFile kind id) = true
      then .fail (.entityExists kind id)
      else (tx.create d (tx.layout.entityFile kind id) (Template.entity kind id name) >>= fun tx₁ =>
        tx₁.update d tx.layout.registerFile (entityOf tx.layout kind id).addToRegister >>= fun tx₂ =>
          tx₂.update d tx.layout.worldStateFile (entityOf tx.layout kind id).addToWorldState)) =
      Except.ok tx' ↔ _
  split
  · rename_i hexists
    simp [hexists]
  · rename_i hexists
    rw [Bool.not_eq_true] at hexists
    simp only [hexists, Outcome.bind_eq_ok, Calls.create_iff, Calls.update_iff, Calls.nil_iff,
      exists_eq_right, true_and]

/-- **Removing an entity** removes its file and what lists it. -/
theorem removingEntity_spec (h : (removingEntity kind id).plan d tx = .ok tx') :
    tx.pathExists d (tx.layout.entityFile kind id) = true ∧
      Calls d tx [.deleteFile (tx.layout.entityFile kind id),
        .update tx.layout.registerFile (entityOf tx.layout kind id).removeFromRegister,
        .update tx.layout.worldStateFile (entityOf tx.layout kind id).removeFromWorldState] tx' := by
  have hplan : (if (!tx.pathExists d (tx.layout.entityFile kind id)) = true
      then .fail (.noEntity kind id)
      else (tx.deleteFile d (tx.layout.entityFile kind id) >>= fun tx₁ =>
        tx₁.update d tx.layout.registerFile (entityOf tx.layout kind id).removeFromRegister >>=
          fun tx₂ => tx₂.update d tx.layout.worldStateFile
            (entityOf tx.layout kind id).removeFromWorldState)) = Except.ok tx' := h
  split at hplan
  · exact absurd hplan Outcome.fail_ne_ok
  · rename_i hexists
    obtain ⟨tx₁, h₁, hplan⟩ := Outcome.bind_eq_ok.1 hplan
    obtain ⟨tx₂, h₂, h₃⟩ := Outcome.bind_eq_ok.1 hplan
    exact ⟨by simpa using hexists, .deleteFile h₁ (.update h₂ (.update h₃ (.nil tx')))⟩

/-- The edit of the register for a new event. -/
def registerEvent (l : Layout) (id source : Text) : Outcome Text := do
  addLoader id (l.dataModule (l.passageMapFile id)) (← (entityOf l .event id).addToRegister source)

omit [Engine] in
theorem isSteady_registerEvent (l : Layout) (id source : Text) :
    IsSteady fun _ : Engine => registerEvent l id source :=
  (Entity.isSteady_addToRegister _ _).bind fun _ => isSteady_addLoader _ _ _

/-- **Creating an event** makes its two files and lists it. -/
theorem creatingEvent_spec {args : EventArgs} : (creatingEvent args).plan d tx = .ok tx' ↔
    tx.pathExists d (tx.layout.eventDir args.id) = false ∧
      Calls d tx [.create (tx.layout.eventFile args.id) (Template.event args),
        .create (tx.layout.passageMapFile args.id) (Template.passageMap args.id),
        .update tx.layout.registerFile (registerEvent tx.layout args.id),
        .update tx.layout.worldStateFile (entityOf tx.layout .event args.id).addToWorldState]
        tx' := by
  show (if tx.pathExists d (tx.layout.eventDir args.id) = true
      then .fail (.eventExists args.id)
      else (tx.create d (tx.layout.eventFile args.id) (Template.event args) >>= fun tx₁ =>
        tx₁.create d (tx.layout.passageMapFile args.id) (Template.passageMap args.id) >>= fun tx₂ =>
          tx₂.update d tx.layout.registerFile (registerEvent tx.layout args.id) >>= fun tx₃ =>
            tx₃.update d tx.layout.worldStateFile
              (entityOf tx.layout .event args.id).addToWorldState)) = Except.ok tx' ↔ _
  split
  · rename_i hexists
    simp [hexists]
  · rename_i hexists
    rw [Bool.not_eq_true] at hexists
    simp only [hexists, Outcome.bind_eq_ok, Calls.create_iff, Calls.update_iff, Calls.nil_iff,
      exists_eq_right, true_and]

/-- The edit of the register for an event that goes. -/
def unregisterEvent (l : Layout) (id source : Text) : Outcome Text := do
  removeLoader id (← (entityOf l .event id).removeFromRegister source)

omit [Engine] in
theorem isSteady_unregisterEvent (l : Layout) (id source : Text) :
    IsSteady fun _ : Engine => unregisterEvent l id source :=
  (Entity.isSteady_removeFromRegister _ _).bind fun _ => isSteady_removeLoader _ _

/-- **Removing an event** removes its folder and what lists it. -/
theorem removingEvent_spec {force : Bool} (h : (removingEvent id force).plan d tx = .ok tx') :
    d.isFolder (tx.layout.eventDir id) = true ∧
      Calls d tx [.deleteFolder (tx.layout.eventDir id),
        .update tx.layout.registerFile (unregisterEvent tx.layout id),
        .update tx.layout.worldStateFile (entityOf tx.layout .event id).removeFromWorldState]
        tx' := by
  have hplan : (if (!d.isFolder (tx.layout.eventDir id)) = true
      then .fail (.noEvent id)
      else (passageFolders d (tx.layout.eventDir id) >>= fun passages =>
        if (!passages.isEmpty && !force) = true then .fail (.eventHasPassages id passages)
        else (tx.deleteFolder d (tx.layout.eventDir id) >>= fun tx₁ =>
          tx₁.update d tx.layout.registerFile (unregisterEvent tx.layout id) >>= fun tx₂ =>
            tx₂.update d tx.layout.worldStateFile
              (entityOf tx.layout .event id).removeFromWorldState))) = Except.ok tx' := h
  split at hplan
  · exact absurd hplan Outcome.fail_ne_ok
  · rename_i hfolder
    obtain ⟨passages, _, hplan⟩ := Outcome.bind_eq_ok.1 hplan
    split at hplan
    · exact absurd hplan Outcome.fail_ne_ok
    · obtain ⟨tx₁, h₁, hplan⟩ := Outcome.bind_eq_ok.1 hplan
      obtain ⟨tx₂, h₂, h₃⟩ := Outcome.bind_eq_ok.1 hplan
      exact ⟨by simpa using hfolder, .deleteFolder h₁ (.update h₂ (.update h₃ (.nil tx')))⟩

end Scaffold

end Fabula
