import Fabula.Proofs.Disk.Lexical
import Mathlib.Data.List.Nodup

/-!
# What a folder lists

Entities are found by listing folders: the characters that passages are generated for, the
passages of an event, and whether a file is the last one of its folder. The list is made by
picking the entries of the disk whose address is that of the folder with one name behind, and
sorting them by that name.

Both halves of this keep the view in sight. An entry is picked under a name if and only if its
address is that of the folder with this name behind (`Disk.listed?_eq_some_iff`), and in a tree
what is listed at an address is what the view shows there. Sorting is a permutation. So a folder
lists just the entries below it (`Disk.mem_list`), and since no address is listed twice and the
address of the folder is the same for all, no name is listed twice (`Disk.nodup_list`).

A listing is hence a statement about addresses, also where it is counted. That a folder has one
entry means that every name which is there is the one that is known to be there
(`Disk.length_list_eq_one_iff`); without `Disk.nodup_list` the length could be more than one
with a single name in it. This is the form in which the last passage of a character is
recognized, with whose file the folder goes.
-/

namespace Fabula

namespace Disk

variable {d : Disk} {a : Address} {n : Text} {e : Entry}

/-- What a tree shows at an address is what it lists there. -/
theorem IsTree.mem_entries (hd : d.IsTree) (ha : a ≠ []) :
    (a, e) ∈ d.entries ↔ d.get? a = some e := by
  have hlookup : ∀ {entries : List (Address × Entry)}, (entries.map Prod.fst).Nodup →
      ((a, e) ∈ entries ↔ entries.lookup a = some e) := by
    intro entries hnodup
    induction entries with
    | nil => simp
    | cons x entries ih =>
      rw [List.map_cons, List.nodup_cons] at hnodup
      obtain ⟨b, e'⟩ := x
      by_cases hab : a = b
      · subst hab
        have hrest : (a, e) ∉ entries := fun hmem =>
          hnodup.1 (List.mem_map.2 ⟨_, hmem, rfl⟩)
        rw [lookup_cons_self, List.mem_cons, Prod.mk.injEq, Option.some.injEq]
        simp [hrest, eq_comm]
      · rw [lookup_cons_ne hab, ← ih hnodup.2]
        simp [hab]
  rw [get?_of_ne_nil d ha]
  exact hlookup hd.nodup

/-- What an entry of the disk is in the listing of a folder. -/
def listed? (a : Address) (x : Address × Entry) : Option (Text × Entry) :=
  match x.1.getLast? with
  | some name => if x.1.dropLast = a then some (name, x.2) else none
  | none => none

theorem listed?_eq_some_iff {x : Address × Entry} :
    listed? a x = some (n, e) ↔ x = (a ++ [n], e) := by
  obtain ⟨b, e'⟩ := x
  unfold listed?
  rcases List.eq_nil_or_concat b with rfl | ⟨b, m, rfl⟩
  · simp
  · simp only [List.concat_eq_append, List.getLast?_append, List.getLast?_singleton, Option.some_or,
      List.dropLast_concat, Option.ite_none_right_eq_some, Option.some.injEq, Prod.mk.injEq]
    constructor
    · rintro ⟨rfl, rfl, rfl⟩
      exact ⟨rfl, rfl⟩
    · rintro ⟨heq, rfl⟩
      obtain ⟨rfl, hlast⟩ := List.append_inj' heq rfl
      exact ⟨rfl, List.cons.inj hlast |>.1, rfl⟩

theorem list_eq (d : Disk) (a : Address) :
    d.list a = (d.entries.filterMap (listed? a)).mergeSort fun x y => !decide (y.1 < x.1) :=
  rfl

/-- **A folder lists the entries below it** by their names. -/
theorem mem_list (hd : d.IsTree) : (n, e) ∈ d.list a ↔ d.get? (a ++ [n]) = some e := by
  rw [list_eq, List.mem_mergeSort, List.mem_filterMap, ← hd.mem_entries (by simp)]
  constructor
  · rintro ⟨x, hx, hlisted⟩
    rw [← listed?_eq_some_iff.1 hlisted]
    exact hx
  · exact fun hmem => ⟨_, hmem, listed?_eq_some_iff.2 rfl⟩

/-- **No name is listed twice.** -/
theorem nodup_list (hd : d.IsTree) : ((d.list a).map Prod.fst).Nodup := by
  rw [list_eq, ((List.mergeSort_perm _ _).map Prod.fst).nodup_iff]
  have hsub : ∀ {entries : List (Address × Entry)}, (entries.map Prod.fst).Nodup →
      ((entries.filterMap (listed? a)).map Prod.fst).Nodup := by
    intro entries hnodup
    induction entries with
    | nil => exact List.nodup_nil
    | cons x entries ih =>
      rw [List.map_cons, List.nodup_cons] at hnodup
      rw [List.filterMap_cons]
      split
      · exact ih hnodup.2
      · rename_i y hy
        obtain ⟨n, e⟩ := y
        obtain rfl := listed?_eq_some_iff.1 hy
        rw [List.map_cons, List.nodup_cons]
        refine ⟨fun hmem => ?_, ih hnodup.2⟩
        obtain ⟨⟨m, e'⟩, hlisted, rfl⟩ := List.mem_map.1 hmem
        obtain ⟨z, hz, heq⟩ := List.mem_filterMap.1 hlisted
        obtain rfl := listed?_eq_some_iff.1 heq
        exact hnodup.1 (List.mem_map.2 ⟨_, hz, rfl⟩)
  exact hsub hd.nodup

/-- **A folder with one entry**: whatever is listed is the one. -/
theorem length_list_eq_one_iff (hd : d.IsTree) (hn : d.get? (a ++ [n]) ≠ none) :
    (d.list a).length = 1 ↔ ∀ m, d.get? (a ++ [m]) ≠ none → m = n := by
  have hnodup := nodup_list (a := a) hd
  have hmem : ∀ m, m ∈ (d.list a).map Prod.fst ↔ d.get? (a ++ [m]) ≠ none := by
    intro m
    constructor
    · intro h
      obtain ⟨⟨_, e⟩, hlisted, rfl⟩ := List.mem_map.1 h
      rw [(mem_list hd).1 hlisted]
      simp
    · intro h
      obtain ⟨e, he⟩ := Option.ne_none_iff_exists'.1 h
      exact List.mem_map.2 ⟨(m, e), (mem_list hd).2 he, rfl⟩
  have hfirst := (hmem n).2 hn
  rw [← List.length_map Prod.fst]
  generalize (d.list a).map Prod.fst = names at hnodup hmem hfirst
  constructor
  · intro hlength m hm
    obtain ⟨k, rfl⟩ := List.length_eq_one_iff.1 hlength
    rw [List.mem_singleton.1 ((hmem m).2 hm), List.mem_singleton.1 hfirst]
  · intro hone
    rw [List.eq_replicate_of_mem (a := n) (l := names) fun m hm => hone m ((hmem m).1 hm)]
      at hnodup hfirst ⊢
    rw [List.length_replicate]
    have hle := List.nodup_replicate.1 hnodup
    have hpos : names.length ≠ 0 := fun h0 => by simp [h0] at hfirst
    omega

end Disk

end Fabula
