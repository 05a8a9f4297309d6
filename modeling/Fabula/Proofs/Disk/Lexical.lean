import Fabula.Project.Confinement
import Fabula.Proofs.Disk.Tree
import Fabula.Proofs.Path.Steps

/-!
# Where a path leads on a plain tree

A path is followed name by name, and where it leads depends on what is on the way. On a tree
without links it depends on little: a path that does not go up leads where its names say, or
nowhere. So there is one address that it can lead to, which its text spells, and
`Disk.addressOf` is that address. The statements about staging and committing are made about
addresses, and this module is what lets them speak of paths.

## What a walk comes to

A walk takes a step from a folder only. Entering a name of that folder leads to the address with
the name behind it, staying leads nowhere, and there are no links to follow. By induction on the
steps, a walk that does not go up ends at the address it started from with the names of its
steps behind that. What remains to be said is when it gets there, and this depends on how it may
end (`Ending`).

To something that exists, the way is open if it is there (`Disk.walk_existing_eq_ok_iff`). The
folders on the way need not be mentioned, because in a tree there are folders above everything;
only the start has to be a folder, and also the end when the way ends by staying there. To an
entry that may be missing, the way is open if the folder that is to hold it is there
(`Disk.walk_entry_eq_ok_iff`). Here the last name is left out of the argument, and what was said
of ways to something that exists holds of the rest.

## What a path comes to

The names on the way of a path are the names of the path, so both results carry over
(`Disk.follow_eq_ok_iff`, `Disk.entryAddress_eq_ok_iff`). The address depends on the components
alone and, of the disk, on the working folder alone. Hence a disk may be changed between the
time a path is looked at and the time it is used, and a path below another one spells an address
below that one's (`Disk.addressOf_within`). That is wrong for the empty path, which is above
every path but spells the working folder, and so the empty path is left out.

A path is resolved by following as much of it as exists and writing the names behind that are
missing. Each step upwards moves a name from the one part to the other and the address that both
make up stays the same, so a path resolves to its address, however much of it exists
(`Disk.addressOf_of_resolve`). So the check against the data folder is a comparison of addresses
(`Disk.of_ensureWithin`).
-/

namespace Fabula

namespace Disk

variable {d : Disk}

/-- **The address a path spells.** -/
def addressOf (d : Disk) (p : Path) : Address :=
  d.startOf p ++ p.names

/-! ## Walking without links -/

/-- What is done at links makes up the walk. -/
theorem exists_walkWith (d : Disk) (ending : Ending) (links : ℕ) :
    ∃ link, d.walk ending links = d.walkWith ending link := by
  cases links with
  | zero => exact ⟨_, rfl⟩
  | succ links => exact ⟨_, rfl⟩

theorem walk_nil (d : Disk) (ending : Ending) (links : ℕ) (a : Address) :
    d.walk ending links a [] = .ok a := by
  obtain ⟨link, h⟩ := exists_walkWith d ending links
  rw [h, walkWith]

/-- A step is taken from a folder only. -/
theorem walk_cons_of_ne {d : Disk} {a : Address} (h : d.get? a ≠ some .folder)
    (ending : Ending) (links : ℕ) (step : PathStep) (steps : List PathStep) :
    d.walk ending links a (step :: steps) = .error .notFolder := by
  obtain ⟨link, hw⟩ := exists_walkWith d ending links
  rw [hw, walkWith.eq_def]
  simp only [Bool.eq_false_iff.2 (mt isFolderAt_iff.1 h)]
  rfl

theorem walk_stay (d : Disk) (ending : Ending) (links : ℕ) (a : Address)
    (steps : List PathStep) : d.walk ending links a (.stay :: steps)
      = if d.get? a = some .folder then d.walk ending links a steps else .error .notFolder := by
  by_cases h : d.get? a = some .folder
  · obtain ⟨link, hw⟩ := exists_walkWith d ending links
    rw [if_pos h, hw, walkWith, isFolderAt_iff.2 h]
    rfl
  · rw [if_neg h, walk_cons_of_ne h]

theorem walk_up (d : Disk) (ending : Ending) (links : ℕ) (a : Address)
    (steps : List PathStep) : d.walk ending links a (.up :: steps)
      = if d.get? a = some .folder then d.walk ending links a.dropLast steps
        else .error .notFolder := by
  by_cases h : d.get? a = some .folder
  · obtain ⟨link, hw⟩ := exists_walkWith d ending links
    rw [if_pos h, hw, walkWith, isFolderAt_iff.2 h]
    rfl
  · rw [if_neg h, walk_cons_of_ne h]

/-- A name that is missing is entered at the end of the way, unless something has to exist. -/
theorem walk_enter_of_none {ending : Ending} {links : ℕ} {a : Address} {n : Text}
    {steps : List PathStep} (ha : d.get? a = some .folder) (hn : d.get? (a ++ [n]) = none) :
    d.walk ending links a (.enter n :: steps)
      = if steps = [] ∧ ending ≠ .existing then .ok (a ++ [n]) else .error .notFound := by
  obtain ⟨link, hw⟩ := exists_walkWith d ending links
  rw [hw, walkWith, isFolderAt_iff.2 ha]
  simp only [hn]
  rfl

/-- A name is entered in a folder that has it. -/
theorem walk_enter_of_ne_link {ending : Ending} {links : ℕ} {a : Address} {n : Text}
    {steps : List PathStep} {e : Entry} (ha : d.get? a = some .folder)
    (hn : d.get? (a ++ [n]) = some e) (he : ∀ t, e ≠ .link t) :
    d.walk ending links a (.enter n :: steps) = d.walk ending links (a ++ [n]) steps := by
  obtain ⟨link, hw⟩ := exists_walkWith d ending links
  rw [hw, walkWith, isFolderAt_iff.2 ha, hn]
  cases e with
  | link t => exact absurd rfl (he t)
  | file content => rfl
  | folder => rfl

/-- A name is entered in a folder that has it; at the end of the way it may also
be missing, unless something has to exist. -/
theorem walk_enter (hd : d.IsPlain) (ending : Ending) (links : ℕ) (a : Address) (n : Text)
    (steps : List PathStep) : d.walk ending links a (.enter n :: steps)
      = if d.get? a = some .folder then
          if d.get? (a ++ [n]) = none then
            if steps = [] ∧ ending ≠ .existing then .ok (a ++ [n]) else .error .notFound
          else d.walk ending links (a ++ [n]) steps
        else .error .notFolder := by
  by_cases ha : d.get? a = some .folder
  · rw [if_pos ha]
    cases hn : d.get? (a ++ [n]) with
    | none => exact walk_enter_of_none ha hn
    | some e =>
      refine walk_enter_of_ne_link ha hn fun t he => ?_
      rw [he] at hn
      exact hd.no_link _ t hn
  · rw [if_neg ha, walk_cons_of_ne ha]

/-- **What a way leads from is a folder**, when something is where it leads, and a folder
when the way ends nowhere. -/
theorem folder_of_steps (hd : d.IsPlain) {a : Address} {steps : List PathStep}
    (hup : .up ∉ steps) (hs : steps ≠ [])
    (hend : d.get? (a ++ steps.filterMap PathStep.name?) ≠ none)
    (hlast : steps.getLast? = some .stay →
      d.get? (a ++ steps.filterMap PathStep.name?) = some .folder) :
    d.get? a = some .folder := by
  by_cases hempty : steps.filterMap PathStep.name? = []
  · -- the steps go nowhere, so the last of them stays
    obtain ⟨init, s, rfl⟩ := List.eq_nil_or_concat' steps |>.resolve_left hs
    rw [hempty, List.append_nil] at hlast
    refine hlast ?_
    rw [List.getLast?_concat]
    cases s with
    | stay => rfl
    | up => exact absurd (by simp) hup
    | enter m => simp at hempty
  · obtain ⟨e, he⟩ := Option.ne_none_iff_exists'.1 hend
    exact hd.folder_of_append hempty he

/-- **A way to something that exists** is open when it is there, and when a way
that ends nowhere ends in a folder. -/
theorem walk_existing_eq_ok_iff (hd : d.IsPlain) {links : ℕ} {a b : Address}
    {steps : List PathStep} (hup : .up ∉ steps) (hs : steps ≠ []) :
    d.walk .existing links a steps = .ok b ↔
      b = a ++ steps.filterMap PathStep.name? ∧ d.get? b ≠ none ∧ d.get? a = some .folder ∧
        (steps.getLast? = some .stay → d.get? b = some .folder) := by
  induction steps generalizing a with
  | nil => exact absurd rfl hs
  | cons step steps ih =>
    rw [List.mem_cons, not_or] at hup
    cases step with
    | up => exact absurd rfl hup.1
    | stay =>
      rw [walk_stay, List.filterMap_cons_none PathStep.name?_stay]
      by_cases ha : d.get? a = some .folder
      · rw [if_pos ha]
        by_cases hne : steps = []
        · subst hne
          rw [walk_nil]
          simp only [List.filterMap_nil, List.append_nil, Except.ok.injEq]
          constructor
          · rintro rfl
            exact ⟨rfl, by simp [ha], ha, fun _ => ha⟩
          · exact fun h => h.1.symm
        · rw [ih hup.2 hne, List.getLast?_cons_of_ne_nil hne]
      · rw [if_neg ha]
        simp [ha]
    | enter n =>
      rw [walk_enter hd, List.filterMap_cons_some (PathStep.name?_enter n)]
      have hcut : a ++ n :: steps.filterMap PathStep.name?
          = (a ++ [n]) ++ steps.filterMap PathStep.name? := by simp
      by_cases ha : d.get? a = some .folder
      · rw [if_pos ha]
        by_cases hn : d.get? (a ++ [n]) = none
        · rw [if_pos hn, if_neg (by simp)]
          constructor
          · intro h
            cases h
          · rintro ⟨rfl, hb, _⟩
            rw [hcut] at hb
            exact absurd (hd.get?_none_below (List.prefix_append _ _) hn) hb
        · rw [if_neg hn]
          by_cases hne : steps = []
          · subst hne
            rw [walk_nil]
            simp only [List.filterMap_nil, Except.ok.injEq, List.getLast?_singleton]
            constructor
            · rintro rfl
              exact ⟨rfl, hn, ha, fun h => by simp at h⟩
            · exact fun h => h.1.symm
          · rw [ih hup.2 hne, List.getLast?_cons_of_ne_nil hne, hcut]
            constructor
            · exact fun h => ⟨h.1, h.2.1, ha, h.2.2.2⟩
            · rintro ⟨rfl, hb, _, hlast⟩
              exact ⟨rfl, hb, folder_of_steps hd hup.2 hne hb hlast, hlast⟩
      · rw [if_neg ha]
        simp [ha]

/-- **A way to an entry** is open when the entry's folder is there. -/
theorem walk_entry_eq_ok_iff (hd : d.IsPlain) {links : ℕ} {a b : Address}
    {steps : List PathStep} {n : Text} (hup : .up ∉ steps) :
    d.walk .entry links a (steps ++ [.enter n]) = .ok b ↔
      b = (a ++ steps.filterMap PathStep.name?) ++ [n] ∧
        d.get? (a ++ steps.filterMap PathStep.name?) = some .folder := by
  induction steps generalizing a with
  | nil =>
    rw [List.nil_append, walk_enter hd, List.filterMap_nil, List.append_nil]
    by_cases ha : d.get? a = some .folder
    · rw [if_pos ha]
      simp [ha, walk_nil, eq_comm]
    · rw [if_neg ha]
      simp [ha]
  | cons step steps ih =>
    rw [List.mem_cons, not_or] at hup
    rw [List.cons_append]
    cases step with
    | up => exact absurd rfl hup.1
    | stay =>
      rw [walk_stay, List.filterMap_cons_none PathStep.name?_stay]
      by_cases ha : d.get? a = some .folder
      · rw [if_pos ha, ih hup.2]
      · rw [if_neg ha]
        constructor
        · intro h
          cases h
        · rintro ⟨_, hf⟩
          by_cases hempty : steps.filterMap PathStep.name? = []
          · rw [hempty, List.append_nil] at hf
            exact absurd hf ha
          · exact absurd (hd.folder_of_append hempty hf) ha
    | enter m =>
      rw [walk_enter hd, List.filterMap_cons_some (PathStep.name?_enter m),
        show a ++ m :: steps.filterMap PathStep.name?
          = (a ++ [m]) ++ steps.filterMap PathStep.name? by simp]
      by_cases ha : d.get? a = some .folder
      · rw [if_pos ha]
        by_cases hm : d.get? (a ++ [m]) = none
        · rw [if_pos hm, if_neg (by simp)]
          constructor
          · intro h
            cases h
          · rintro ⟨_, hf⟩
            rw [hd.get?_none_below (List.prefix_append _ _) hm] at hf
            cases hf
        · rw [if_neg hm, ih hup.2]
      · rw [if_neg ha]
        constructor
        · intro h
          cases h
        · rintro ⟨_, hf⟩
          rw [List.append_assoc] at hf
          exact absurd (hd.folder_of_append (by simp) hf) ha

/-! ## Following a path -/

/-- **A path leads to what is at its address**; one that ends in a slash leads to
folders only. -/
theorem follow_eq_ok_iff (hd : d.IsPlain) {p : Path} (hup : p.goesUp = false) {a : Address} :
    d.follow p = .ok a ↔ p.text ≠ [] ∧ a = d.addressOf p ∧ d.get? a ≠ none ∧
      d.get? (d.startOf p) = some .folder ∧
      (p.steps.getLast? = some .stay → d.get? a = some .folder) := by
  rw [follow]
  by_cases hp : p.text = []
  · rw [if_pos hp]
    simp [hp]
  · rw [if_neg hp, walk_existing_eq_ok_iff hd (Path.up_notMem_steps hup) (Path.steps_ne_nil p),
      Path.filterMap_steps hup]
    simp [hp, addressOf]

/-- A step is taken from a folder, to what is there. -/
theorem get?_of_walk (hd : d.IsPlain) {links : ℕ} {steps : List PathStep} {b a : Address}
    (hs : steps ≠ []) (h : d.walk .existing links b steps = .ok a) : d.get? a ≠ none := by
  induction steps generalizing b with
  | nil => exact absurd rfl hs
  | cons step steps ih =>
    -- once the step is taken, there is something to go on from
    have hnext : ∀ c, d.get? c ≠ none → d.walk .existing links c steps = .ok a →
        d.get? a ≠ none := by
      intro c hc hw
      by_cases hs' : steps = []
      · rw [hs', walk_nil] at hw
        rwa [← Except.ok.inj hw]
      · exact ih hs' hw
    cases step with
    | stay =>
      rw [walk_stay] at h
      split at h
      · exact hnext b (by simp [*]) h
      · cases h
    | up =>
      rw [walk_up] at h
      split at h
      · rename_i hf
        refine hnext b.dropLast ?_ h
        by_cases hb : b = []
        · simp [hb]
        · rw [hd.parent b _ hb hf]
          simp
      · cases h
    | enter n =>
      rw [walk_enter hd] at h
      split at h
      · split at h
        · rw [if_neg (by simp)] at h
          cases h
        · rename_i hn
          exact hnext _ hn h
      · cases h

/-- Whatever a path leads to is there, also if the path goes up. -/
theorem get?_of_follow (hd : d.IsPlain) {p : Path} {a : Address} (h : d.follow p = .ok a) :
    d.get? a ≠ none := by
  rw [follow] at h
  split at h
  · cases h
  · exact get?_of_walk hd (Path.steps_ne_nil p) h

/-- **The entry a path names is at its address**, when there is a folder to hold
it. -/
theorem entryAddress_eq_ok_iff (hd : d.IsPlain) {p : Path} (hup : p.goesUp = false)
    (hend : p.endsInName = true) {a : Address} :
    d.entryAddress p = .ok a ↔
      a = d.addressOf p ∧ d.get? (d.addressOf p).dropLast = some .folder := by
  obtain ⟨hp, init, n, hi⟩ := Path.exists_of_endsInName hend
  have hnames := Path.filterMap_entrySteps hup hp
  have hup' := Path.up_notMem_entrySteps hup
  rw [hi, List.mem_append, not_or] at hup'
  rw [entryAddress, if_neg hp, hi, walk_entry_eq_ok_iff hd hup'.1, addressOf, ← hnames, hi,
    List.filterMap_append, List.filterMap_cons_some (PathStep.name?_enter n), List.filterMap_nil,
    ← List.append_assoc, List.dropLast_concat]

/-! ## The address a path spells -/

/-- The address depends on the disk by its working folder alone. -/
theorem addressOf_of_cwd_eq {d d' : Disk} (h : d.cwd = d'.cwd) (p : Path) :
    d.addressOf p = d'.addressOf p := by
  rw [addressOf, addressOf, startOf, startOf, h]

/-- Two paths of the same components spell the same address. -/
theorem addressOf_congr {p q : Path} (h : p.components = q.components) :
    d.addressOf p = d.addressOf q := by
  have habs : p.isAbsolute = q.isAbsolute := by
    rw [Bool.eq_iff_iff, Path.isAbsolute_iff, Path.isAbsolute_iff, h]
  rw [addressOf, addressOf, startOf, startOf, habs, Path.names, Path.names, h]

theorem addressOf_concat {p q : Path} {n : Text}
    (h : p.components = q.components ++ [.name n]) : d.addressOf p = d.addressOf q ++ [n] := by
  rw [addressOf, addressOf, startOf, startOf, Path.isAbsolute_concat h, Path.names_concat h,
    List.append_assoc]

@[simp] theorem addressOf_join (p : Path) {n : Text} (hn : IsName n) :
    d.addressOf (p.join n) = d.addressOf p ++ [n] :=
  addressOf_concat (Path.components_join p hn)

/-- A path below another one starts where the other does. -/
theorem isAbsolute_of_within {p q : Path} (hq : q.text ≠ []) (h : p.isWithin q = true) :
    p.isAbsolute = q.isAbsolute := by
  obtain ⟨cs, hcs⟩ := List.isPrefixOf_iff_prefix.1 h
  rw [Bool.eq_iff_iff, Path.isAbsolute_iff, Path.isAbsolute_iff]
  refine ⟨fun hp => ?_, fun hr => hcs ▸ List.mem_append_left cs hr⟩
  -- the root is the first component, and `q` has a first component
  rw [Path.components_eq, List.mem_append] at hp
  replace hp := hp.resolve_right (Path.root_notMem_behindLead _)
  have hlead : p.components = .root :: Path.behindLead p.text := by
    rw [Path.components_eq]
    unfold Path.leadComponents at hp ⊢
    split at hp
    · rfl
    · simp at hp
    · simp at hp
  obtain ⟨c, rest, hc⟩ := List.exists_cons_of_ne_nil (mt Path.components_eq_nil_iff.1 hq)
  rw [hlead, hc, List.cons_append] at hcs
  rw [hc, (List.cons_eq_cons.1 hcs).1]
  exact List.mem_cons_self

/-- **A path below another one** spells an address below the other's. -/
theorem addressOf_within {p q : Path} (hq : q.text ≠ []) (h : p.isWithin q = true) :
    d.addressOf q <+: d.addressOf p := by
  have habs := isAbsolute_of_within hq h
  obtain ⟨cs, hcs⟩ := List.isPrefixOf_iff_prefix.1 h
  rw [addressOf, addressOf, startOf, startOf, habs, Path.names, Path.names, ← hcs,
    List.filterMap_append, ← List.append_assoc]
  exact List.prefix_append _ _

/-- The path of an address spells it. -/
theorem components_pathOf {a : Address} (h : ∀ n ∈ a, IsName n) :
    (pathOf a).components = .root :: a.map .name := by
  rw [pathOf, Path.components_root, Path.behindLead_join fun n hn => (h n hn).2.2.2,
    List.filter_eq_self.2 fun n hn => by simp [Path.isIdle_eq_false_of_isName (h n hn)]]
  congr 1
  exact List.map_congr_left fun n hn => Path.component_of_isName (h n hn)

theorem components_absolute (h : ∀ n ∈ d.cwd, IsName n) {p : Path} (hp : p.isAbsolute = false) :
    (d.absolute p).components = .root :: (d.cwd.map .name ++ Path.behindLead p.text) := by
  have hhead : p.text.head? ≠ some '/' := by simpa [Path.isAbsolute] using hp
  have hne : (pathOf d.cwd).text ≠ [] := List.cons_ne_nil _ _
  rw [absolute, Path.components_join_of_ne hne hhead, components_pathOf h]
  rfl

theorem absolute_of_isAbsolute {p : Path} (hp : p.isAbsolute = true) : d.absolute p = p := by
  rw [absolute, Path.join, if_pos (by simpa [Path.isAbsolute] using hp)]

/-- **A path seen from the root** leads where the path leads. -/
theorem addressOf_absolute (h : ∀ n ∈ d.cwd, IsName n) (p : Path) :
    d.addressOf (d.absolute p) = d.addressOf p := by
  cases hp : p.isAbsolute with
  | true => rw [absolute_of_isAbsolute hp]
  | false =>
    have hc := components_absolute h hp
    have habs : (d.absolute p).isAbsolute = true := by
      rw [Path.isAbsolute_iff, hc]
      exact List.mem_cons_self
    have hcwd : (d.cwd.map Component.name).filterMap Component.name? = d.cwd := by
      rw [List.filterMap_map]
      exact List.filterMap_some
    rw [addressOf, addressOf, startOf, startOf, habs, hp, if_pos rfl, if_neg (by simp),
      List.nil_append, Path.names, hc, List.filterMap_cons_none Component.name?_root,
      List.filterMap_append, hcwd, ← Path.names_eq]

theorem isAbsolute_absolute (h : ∀ n ∈ d.cwd, IsName n) (p : Path) :
    (d.absolute p).isAbsolute = true := by
  cases hp : p.isAbsolute with
  | true => rw [absolute_of_isAbsolute hp, hp]
  | false =>
    rw [Path.isAbsolute_iff, components_absolute h hp]
    exact List.mem_cons_self

theorem goesUp_absolute (h : ∀ n ∈ d.cwd, IsName n) {p : Path} (hup : p.goesUp = false) :
    (d.absolute p).goesUp = false := by
  cases hp : p.isAbsolute with
  | true => rw [absolute_of_isAbsolute hp, hup]
  | false =>
    rw [Path.goesUp_eq_false_iff, components_absolute h hp, List.mem_cons, not_or,
      List.mem_append, not_or]
    exact ⟨by simp, by simp, Path.goesUp_iff_mem_behindLead.1 hup⟩

/-! ## Resolving a path -/

theorem resolve_go_of_ok {p existing : Path} {b : Address} (h : d.follow existing = .ok b) (n : ℕ)
    (missing : List Text) : resolve.go d p n existing missing = .ok (b ++ missing) := by
  unfold resolve.go
  simp only [h]

/-- What does not exist is looked for in the path above. -/
theorem resolve_go_succ {p existing q : Path} {name : Text} {e : DiskError}
    (h : d.follow existing = .error e) (hname : existing.fileName? = some name)
    (hq : existing.parent? = some q) (n : ℕ) (missing : List Text) :
    resolve.go d p (n + 1) existing missing
      = resolve.go d p n (if q.text = [] then ⟨['.']⟩ else q) (name :: missing) := by
  rw [resolve.go.eq_def]
  simp only [h, hname, hq]

/-- What is looked for resolves to the address with the missing names behind. -/
theorem addressOf_of_resolve_go (hd : d.IsPlain) {p : Path} (n : ℕ) {existing : Path}
    {missing : List Text} {a : Address} (hex : existing.goesUp = false)
    (h : resolve.go d p n existing missing = .ok a) : a = d.addressOf existing ++ missing := by
  induction n generalizing existing missing with
  | zero =>
    cases hf : d.follow existing with
    | ok b =>
      rw [resolve_go_of_ok hf] at h
      rw [← ((follow_eq_ok_iff hd hex).1 hf).2.1, Except.ok.inj h]
    | error e =>
      unfold resolve.go at h
      simp only [hf] at h
      cases h
  | succ n ih =>
    cases hf : d.follow existing with
    | ok b =>
      rw [resolve_go_of_ok hf] at h
      rw [← ((follow_eq_ok_iff hd hex).1 hf).2.1, Except.ok.inj h]
    | error e =>
      cases hname : existing.fileName? with
      | none =>
        rw [resolve.go.eq_def] at h
        simp only [hf, hname] at h
        cases h
      | some name =>
        obtain ⟨q, s, hq, hs, _, hcomp, _⟩ :=
          Path.exists_parent? hex (Path.trimIdle_ne_nil_of_fileName? hname)
        obtain rfl := Option.some.inj (hs.symm.trans hname)
        have hup : q.goesUp = false := (Path.goesUp_concat hcomp).symm.trans hex
        rw [resolve_go_succ hf hs hq] at h
        rw [addressOf_concat hcomp, List.append_assoc, List.singleton_append]
        by_cases htext : q.text = []
        · rw [if_pos htext] at h
          obtain ⟨t⟩ := q
          obtain rfl : t = [] := htext
          -- the folder one is in and the empty path spell the same address
          exact @ih ⟨['.']⟩ (s :: missing) rfl h
        · rw [if_neg htext] at h
          exact ih hup h

/-- **A path resolves to its address**, however much of it exists. -/
theorem addressOf_of_resolve (hd : d.IsPlain) {p : Path} (hup : p.goesUp = false) {a : Address}
    (h : d.resolve p = .ok a) : a = d.addressOf p := by
  rw [addressOf_of_resolve_go hd _ hup h, List.append_nil]

/-- **A path that passes the check** does not go up, and spells an address in the
folder it was checked against. -/
theorem of_ensureWithin (hd : d.IsPlain) {p root : Path} (h : d.ensureWithin p root = .ok ()) :
    p.goesUp = false ∧ ∃ folder, d.follow root = .ok folder ∧ folder <+: d.addressOf p := by
  rw [ensureWithin] at h
  split at h
  · cases h
  · rename_i hup
    replace hup : p.goesUp = false := by simpa using hup
    split at h
    · cases h
    · rename_i folder hfolder
      cases hr : d.resolve p with
      | error f =>
        rw [hr] at h
        cases h
      | ok a =>
        rw [hr] at h
        obtain rfl := addressOf_of_resolve hd hup hr
        refine ⟨hup, folder, hfolder, ?_⟩
        by_contra hpre
        rw [← List.isPrefixOf_iff_prefix] at hpre
        simp [bind, Except.bind, hpre, Outcome.fail] at h

end Disk

end Fabula
