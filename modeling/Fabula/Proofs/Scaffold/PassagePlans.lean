import Fabula.Proofs.Disk.Listing
import Fabula.Proofs.Project.Places
import Fabula.Proofs.Scaffold.Plans
import Fabula.Proofs.Staging.Place
import Fabula.Scaffold.Passage

/-!
# The plans that list passages

Creating and removing a passage each make two calls: one for the file, or the folder, and an
edit of the passage map. What a plan of two such calls stages, and what it leaves behind, is
said once (`Calls.of_create_update`, `Calls.of_remove_update`, `Transaction.effect_one_edit`).
It is simpler than with entities: there is one edited file, and one path is created or removed.

## The folder of a character's passages

Both plans look into the folder of the character first. A passage may be of one of several
kinds, and the kind is in the ending of its file, so the file is looked for by the id of the
passage and a point in front. No id has a point. Therefore a file that is found among files of
passages is the passage's (`Scaffold.of_findPassageFile_some`), and if none is found the passage
has no file, of whatever kind (`Scaffold.of_findPassageFile_none`).

A removal also counts the files in the folder, to remove the folder with the last of them. All
files of passages have the ending that is counted, so as many are counted as there are
(`Scaffold.length_existingPassages`). Both statements ask for a folder in which there is nothing
but files of passages (`Scaffold.HoldsPassages`).

## The plans

The plans are then equivalent to what they ask for together with their calls
(`Scaffold.createPassage_spec`, `Scaffold.removePassage_spec`). These are proved along the
definitions, and no later proof opens them.
-/

namespace Fabula

open Removal

/-! ## Plans of two calls -/

namespace Calls

variable {d : Disk} {l : Layout} {targets removals : List Path} {created : PathMap Text}
  {tx : Transaction} {c : Call} {f m r : Path} {x : Text} {patch : Text → Outcome Text}

/-- **An edit of a file that was neither read nor created** stages the text that was
read and the text as edited. -/
theorem of_update (h : Calls d { layout := l, targets, created, removals } [.update m patch] tx)
    (hm : created.find? m = none) : ∃ t t', d.read m = .ok t ∧ patch t = .ok t' ∧
      tx = { layout := l, targets, staged := [(m, ⟨t, t'⟩)], created, removals } := by
  cases h with
  | cons hrun hrest =>
    cases hrest
    cases Call.stages_of_run hrun with
    | updateCreated _ hcreated => rw [hm] at hcreated; cases hcreated
    | updateStaged _ _ hstaged => cases hstaged
    | updateNew _ _ _ hread hpatch =>
      refine ⟨_, _, hread, hpatch, ?_⟩
      show Transaction.mk l targets (if m.same m = true then _ else _) created removals = _
      rw [if_pos (Path.same_refl m)]

/-- **A plan that creates one file and edits another one.** -/
theorem of_create_update (h : Calls d { layout := l, targets } [.create f x, .update m patch] tx)
    (hne : f.same m = false) : ∃ t t', d.read m = .ok t ∧ patch t = .ok t' ∧
      tx = { layout := l, targets, staged := [(m, ⟨t, t'⟩)], created := [(f, x)] } := by
  cases h with
  | cons hrun hrest =>
    cases Call.stages_of_run hrun with
    | create =>
      refine of_update hrest ?_
      show (if f.same m = true then some x else none) = none
      rw [hne, if_neg Bool.false_ne_true]

/-- **A plan that removes something and edits a file.** -/
theorem of_remove_update (hc : c.removed? = some r)
    (h : Calls d { layout := l, targets } [c, .update m patch] tx) :
    ∃ t t', d.read m = .ok t ∧ patch t = .ok t' ∧
      tx = { layout := l, targets, staged := [(m, ⟨t, t'⟩)], removals := [r] } := by
  cases h with
  | cons hrun hrest =>
    cases Call.stages_of_run hrun with
    | deleteFile =>
      obtain rfl := Option.some.inj hc
      exact of_update hrest rfl
    | deleteFolder =>
      obtain rfl := Option.some.inj hc
      exact of_update hrest rfl
    | _ => cases hc

end Calls

namespace Transaction

open Disk (View)

variable {d : Disk} {l : Layout} {targets removals : List Path} {created : PathMap Text}
  {m : Path} {t t' : Text}

/-- **The effect of one edit**, after what is removed and before what is created. An edit
that changes nothing is as good as written. -/
theorem effect_one_edit
    (hm : View.cut d.get? (removals.map d.addressOf) (d.addressOf m) = some (.file (.text t))) :
    effect { layout := l, targets, staged := [(m, ⟨t, t'⟩)], created, removals } d =
      created.foldl (fun v x => v.create (d.addressOf x.1) x.2)
        ((View.cut d.get? (removals.map d.addressOf)).write (d.addressOf m) t') := by
  unfold effect writes modified
  by_cases hsame : t' = t
  · subst hsame
    have hwrite : (View.cut d.get? (removals.map d.addressOf)).write (d.addressOf m) t' =
        View.cut d.get? (removals.map d.addressOf) := by
      funext c
      unfold View.write
      split
      · rename_i hc
        rw [hc, hm]
      · rfl
    rw [hwrite, List.filter_cons_of_neg (by simp [Staged.isModified])]
    rfl
  · rw [List.filter_cons_of_pos (by simp [Staged.isModified, hsame])]
    rfl

end Transaction

namespace Disk

variable {d : Disk} {q : Path} {n : Text}

/-- **What is listed at a path below a folder**, when that is a folder. -/
theorem entriesOf_join (hd : d.IsPlain) (hup : q.goesUp = false) (hn : IsName n) :
    Scaffold.entriesOf d (q.join n) =
      .ok (if d.get? (d.addressOf q ++ [n]) = some .folder then d.list (d.addressOf q ++ [n])
        else []) := by
  have hentry := entryOf?_join hd hup hn
  unfold Scaffold.entriesOf isFolder
  rw [hentry]
  by_cases hfolder : d.get? (d.addressOf q ++ [n]) = some .folder
  · rw [hfolder] at hentry ⊢
    unfold entryOf? at hentry
    cases hfollow : d.follow (q.join n) with
    | error e => rw [hfollow] at hentry; cases hentry
    | ok a =>
      obtain ⟨_, rfl, _⟩ := (follow_eq_ok_iff hd (goesUp_join hup hn)).1 hfollow
      have hlist : d.listFolder (q.join n) = .ok (d.list (d.addressOf q ++ [n])) := by
        unfold listFolder
        rw [hfollow, addressOf_join q hn]
        dsimp only [bind, Except.bind]
        rw [hfolder]
        rfl
      rw [hlist]
      rfl
  · rw [if_neg hfolder, if_neg (by simpa using hfolder)]

end Disk

/-! ## The folder of a character's passages -/

/-- What the folder of a character's passages is called. -/
def passageFolderName (character : Text) : Text :=
  character ++ passageFolderEnding

/-- **What the file of a passage is called.** -/
def passageFileName (passage : Text) (kind : PassageKind) : Text :=
  passage ++ '.' :: kind.tag ++ sourceEnding

variable {character passage passage' n : Text} {kind : PassageKind}

theorem isName_passageFolderName (h : character.isId = true) :
    IsName (passageFolderName character) :=
  isName_append (isWord_of_isId h) (by decide)

theorem passageFileName_eq (passage : Text) (kind : PassageKind) :
    passageFileName passage kind = passage ++ '.' :: (kind.tag ++ sourceEnding) := by
  simp [passageFileName]

theorem isName_passageFileName (h : passage.isId = true) (kind : PassageKind) :
    IsName (passageFileName passage kind) := by
  rw [passageFileName_eq]
  refine isName_append (isWord_of_isId h) ?_
  cases kind <;> decide

/-- **A file name that begins with a passage and a point** is the passage's. -/
theorem passage_eq_of_startsWith (h : passage.isId = true) (h' : passage'.isId = true)
    (hstarts : Text.startsWith (passageFileName passage' kind) (passage ++ ['.']) = true) :
    passage' = passage := by
  obtain ⟨rest, hrest⟩ := Option.isSome_iff_exists.1 hstarts
  have heq := Text.after?_eq_some_iff.1 hrest
  rw [passageFileName_eq, List.append_assoc, List.singleton_append] at heq
  exact (append_point_inj h' h heq).1

theorem startsWith_passageFileName (passage : Text) (kind : PassageKind) :
    Text.startsWith (passageFileName passage kind) (passage ++ ['.']) = true := by
  have heq : passageFileName passage kind = (passage ++ ['.']) ++ (kind.tag ++ sourceEnding) := by
    simp [passageFileName]
  unfold Text.startsWith
  rw [heq, Text.after?_append]
  rfl

theorem endsWith_passageFileName (passage : Text) (kind : PassageKind) :
    Text.endsWith (passageFileName passage kind) sourceEnding = true := by
  unfold Text.endsWith passageFileName
  rw [List.reverse_append, Text.after?_append]
  rfl

namespace Scaffold

variable {d : Disk} {q : Path} {folder : Text}

/-- **A folder of passage files.** -/
def HoldsPassages (d : Disk) (a : Address) : Prop :=
  ∀ n, d.get? (a ++ [n]) ≠ none →
    ∃ passage kind, passage.isId = true ∧ n = passageFileName passage kind

/-- Whether a file is looked for by the id of its passage. -/
def isPassageFile (passage : Text) (x : Text × Entry) : Bool :=
  x.1.startsWith (passage ++ ['.']) && x.1.endsWith ".ts".toList

theorem findPassageFile_eq (hd : d.IsPlain) (hup : q.goesUp = false) (hfolder : IsName folder)
    (passage : Text) : findPassageFile d (q.join folder) passage =
      .ok (((if d.get? (d.addressOf q ++ [folder]) = some .folder
        then d.list (d.addressOf q ++ [folder]) else []).find? (isPassageFile passage)).map
          fun x => (q.join folder).join x.1) := by
  unfold findPassageFile
  rw [Disk.entriesOf_join hd hup hfolder]
  rfl

/-- **No file is found** where there is none of a fitting name. -/
theorem findPassageFile_eq_none_iff (hd : d.IsPlain) (hup : q.goesUp = false)
    (hfolder : IsName folder) : findPassageFile d (q.join folder) passage = .ok none ↔
      ∀ n e, isPassageFile passage (n, e) = true →
        d.get? (d.addressOf q ++ [folder] ++ [n]) ≠ some e := by
  rw [findPassageFile_eq hd hup hfolder]
  have hok : ∀ found : Option Path, (Except.ok found : Outcome (Option Path)) = .ok none ↔
      found = none := fun found => ⟨Except.ok.inj, congrArg _⟩
  rw [hok, Option.map_eq_none_iff, List.find?_eq_none]
  constructor
  · intro h n e hfits he
    have hparent := hd.folder_of_append (List.cons_ne_nil _ _) he
    rw [if_pos hparent] at h
    exact h (n, e) ((Disk.mem_list hd.toIsTree).2 he) hfits
  · rintro h ⟨n, e⟩ hmem hfits
    split at hmem
    · exact h n e hfits ((Disk.mem_list hd.toIsTree).1 hmem)
    · exact absurd hmem List.not_mem_nil

/-- **Where no file is found**, the passage has none of any kind. -/
theorem of_findPassageFile_none (hd : d.IsPlain) (hup : q.goesUp = false) (hfolder : IsName folder)
    (h : findPassageFile d (q.join folder) passage = .ok none) (kind : PassageKind) :
    d.get? (d.addressOf q ++ [folder] ++ [passageFileName passage kind]) = none := by
  refine Option.eq_none_iff_forall_ne_some.2 fun e => ?_
  refine (findPassageFile_eq_none_iff hd hup hfolder).1 h _ e ?_
  unfold isPassageFile
  rw [Bool.and_eq_true]
  exact ⟨startsWith_passageFileName passage kind, endsWith_passageFileName passage kind⟩

/-- **A file that is found** is the passage's. -/
theorem of_findPassageFile_some (hd : d.IsPlain) (hup : q.goesUp = false) (hfolder : IsName folder)
    (hholds : HoldsPassages d (d.addressOf q ++ [folder])) (hid : passage.isId = true) {file : Path}
    (h : findPassageFile d (q.join folder) passage = .ok (some file)) : ∃ kind,
      d.get? (d.addressOf q ++ [folder] ++ [passageFileName passage kind]) ≠ none ∧
        file = (q.join folder).join (passageFileName passage kind) := by
  rw [findPassageFile_eq hd hup hfolder] at h
  obtain ⟨⟨n, e⟩, hfind, rfl⟩ := Option.map_eq_some_iff.1 (Except.ok.inj h)
  have hmem := List.mem_of_find?_eq_some hfind
  have hmatch := List.find?_some hfind
  split at hmem
  · have hentry := (Disk.mem_list hd.toIsTree).1 hmem
    have hn : d.get? (d.addressOf q ++ [folder] ++ [n]) ≠ none := by
      rw [hentry]
      simp
    obtain ⟨passage', kind, hid', rfl⟩ := hholds n hn
    obtain rfl := passage_eq_of_startsWith hid hid' (Bool.and_eq_true_iff.1 hmatch).1
    exact ⟨kind, hn, rfl⟩
  · exact absurd hmem List.not_mem_nil

/-- **As many passages are found as there are files.** -/
theorem length_existingPassages (hd : d.IsPlain) (hup : q.goesUp = false) (hfolder : IsName folder)
    (hholds : HoldsPassages d (d.addressOf q ++ [folder]))
    (hthere : d.get? (d.addressOf q ++ [folder]) = some .folder) {ids : List Text}
    (h : existingPassages d (q.join folder) = .ok ids) :
    ids.length = (d.list (d.addressOf q ++ [folder])).length := by
  unfold existingPassages at h
  rw [Disk.entriesOf_join hd hup hfolder, if_pos hthere] at h
  obtain rfl := Outcome.pure_eq_ok.1 h
  rw [List.length_mergeSort, List.filterMap_length_eq_length]
  rintro ⟨n, e⟩ hmem
  obtain ⟨passage, kind, _, rfl⟩ := hholds n (by rw [(Disk.mem_list hd.toIsTree).1 hmem]; simp)
  have hpoint : List.contains (passageFileName passage kind) '.' = true := by
    rw [passageFileName_eq]
    simp
  show (passageOfName? (passageFileName passage kind)).isSome = true
  unfold passageOfName?
  rw [hpoint]
  show (if (true && Text.endsWith (passageFileName passage kind) sourceEnding) = true then _ else none).isSome
    = true
  rw [endsWith_passageFileName]
  rfl

/-! ## The plans -/

variable [Engine] {tx tx' : Transaction} {p : PassageRef} {title link : Option Text}

/-- **Creating a passage** that has no file makes its file and lists it. -/
theorem createPassage_spec : (createPassage p kind title link).plan d tx = .ok tx' ↔
    (title.forM (checkShown "passage title".toList) = .ok () ∧
      link.forM (checkId "linked passage".toList) = .ok ()) ∧
    (d.isFolder (tx.layout.eventDir p.event) = true ∧
      d.pathExists (tx.layout.characterFile p.character) = true) ∧
    findPassageFile d (tx.layout.passageFolder p.event p.character) p.passage = .ok none ∧
      Calls d tx [.create (tx.layout.passageFile p kind) (Template.passage kind p title link),
        .update (tx.layout.passageMapFile p.event)
          (p.addTo (tx.layout.passageModule p.event (tx.layout.passageFile p kind)))] tx' := by
  dsimp only [createPassage]
  simp only [Calls.create_iff, Calls.update_iff, Calls.nil_iff, exists_eq_right]
  constructor
  · intro hplan
    obtain ⟨⟨⟩, htitle, hplan⟩ := Outcome.bind_eq_ok.1 hplan
    obtain ⟨⟨⟩, hlink, hplan⟩ := Outcome.bind_eq_ok.1 hplan
    split at hplan
    · exact absurd hplan Outcome.fail_ne_ok
    · split at hplan
      · exact absurd hplan Outcome.fail_ne_ok
      · rename_i hevent hcharacter
        rw [Bool.not_eq_true, Bool.not_eq_false'] at hevent hcharacter
        obtain ⟨found, hfound, hplan⟩ := Outcome.bind_eq_ok.1 hplan
        cases found with
        | some taken => exact absurd hplan Outcome.fail_ne_ok
        | none =>
          exact ⟨⟨htitle, hlink⟩, ⟨hevent, hcharacter⟩, hfound, Outcome.bind_eq_ok.1 hplan⟩
  · rintro ⟨⟨htitle, hlink⟩, ⟨hevent, hcharacter⟩, hfound, hcalls⟩
    refine Outcome.bind_eq_ok.2 ⟨(), htitle, Outcome.bind_eq_ok.2 ⟨(), hlink, ?_⟩⟩
    rw [hevent, hcharacter, if_neg (by simp), if_neg (by simp)]
    exact Outcome.bind_eq_ok.2 ⟨none, hfound, Outcome.bind_eq_ok.2 hcalls⟩

/-- **Removing a passage** removes its file, or the folder when that is the only one in
it, and what lists it. -/
theorem removePassage_spec (h : (removePassage p).plan d tx = .ok tx') : ∃ file passages,
    findPassageFile d (tx.layout.passageFolder p.event p.character) p.passage = .ok (some file) ∧
      existingPassages d (tx.layout.passageFolder p.event p.character) = .ok passages ∧
      Calls d tx [if passages.length = 1
          then .deleteFolder (tx.layout.passageFolder p.event p.character) else .deleteFile file,
        .update (tx.layout.passageMapFile p.event)
          (p.removeFrom (tx.layout.passageModule p.event file))] tx' := by
  dsimp only [removePassage] at h
  obtain ⟨found, hfound, hplan⟩ := Outcome.bind_eq_ok.1 h
  cases found with
  | none => exact absurd hplan Outcome.fail_ne_ok
  | some file =>
    obtain ⟨passages, hpassages, hplan⟩ := Outcome.bind_eq_ok.1 hplan
    refine ⟨file, passages, hfound, hpassages, ?_⟩
    by_cases hone : passages.length = 1
    · rw [if_pos hone] at hplan ⊢
      obtain ⟨tx₁, h₁, h₂⟩ := Outcome.bind_eq_ok.1 hplan
      exact .deleteFolder h₁ (.update h₂ (.nil tx'))
    · rw [if_neg hone] at hplan ⊢
      obtain ⟨tx₁, h₁, h₂⟩ := Outcome.bind_eq_ok.1 hplan
      exact .deleteFile h₁ (.update h₂ (.nil tx'))

end Scaffold

end Fabula
