import Mathlib.Data.Char
import Mathlib.Data.List.Lex
import Mathlib.Data.Prod.Lex
import Fabula.Proofs.Path.Parent
import Fabula.Staging.PathMap

/-!
# Values kept by path, in order

A transaction keeps its files in maps by path. The map is a list in the order of the paths, and
a path is looked up by comparing components, so that two spellings of the same components are
the same path. This module says that such a list is a map: it has at most one value for a path
(`PathMap.Sorted.find?_of_mem`), what is put in is what is found, and everything else is found
as before (`PathMap.find?_insert`).

All that is needed of the order is that it is linear, and that is taken from orders which are
known to be. A component has a key, a number for its sort and its name, and a path has the list
of the keys of its components. The order of paths is the lexicographic order of these lists
(`Path.lt_iff_key`), and two paths are the same when their lists are equal
(`Path.same_iff_key`). Hence the order is transitive, and of two paths that are not the same one
comes first (`Path.lt_of_not_lt`).

A map stays in order when a value is put in (`PathMap.Sorted.insert`), by induction over the
list: the value goes in front of the first path that comes behind its own, or takes the place of
the value for the same path. In the latter case the old spelling of the path stays, so every
path in a map was put in with some value, and need not be the one with which its value was put
in (`PathMap.fst_of_mem_insert`).
-/

namespace Fabula

namespace Component

/-- Where a component stands in the order of components. -/
def key : Component → ℕ ×ₗ Text
  | name n => toLex (3, n)
  | c => toLex (c.rank, [])

theorem key_injective : Function.Injective key := by
  intro a b h
  cases a <;> cases b <;> simp_all [key, rank]

theorem lt_iff_key (a b : Component) : a.lt b = true ↔ a.key < b.key := by
  cases a <;> cases b <;> simp [key, rank, lt, Prod.Lex.toLex_lt_toLex]

end Component

namespace Path

/-- Where a path stands in the order of paths. -/
def key (p : Path) : List (ℕ ×ₗ Text) :=
  p.components.map Component.key

theorem lt_go_iff (as bs : List Component) :
    lt.go as bs = true ↔ as.map Component.key < bs.map Component.key := by
  induction as generalizing bs with
  | nil =>
    cases bs with
    | nil => simp [lt.go]
    | cons b bs => simp [lt.go]
  | cons a as ih =>
    cases bs with
    | nil => simp [lt.go]
    | cons b bs =>
      rw [lt.go, List.map_cons, List.map_cons, List.cons_lt_cons_iff]
      by_cases hab : a = b
      · subst hab
        rw [if_pos rfl, ih]
        simp only [lt_self_iff_false, true_and, false_or]
      · rw [if_neg hab, Component.lt_iff_key]
        simp [Component.key_injective.ne hab]

theorem lt_iff_key {p q : Path} : p.lt q = true ↔ p.key < q.key :=
  lt_go_iff _ _

theorem same_iff_key {p q : Path} : p.same q = true ↔ p.key = q.key := by
  rw [same, beq_iff_eq, key, key, (List.map_injective_iff.2 Component.key_injective).eq_iff]

theorem same_iff {p q : Path} : p.same q = true ↔ p.components = q.components := by
  rw [same, beq_iff_eq]

theorem same_refl (p : Path) : p.same p = true := same_iff.2 rfl

theorem same_comm {p q : Path} : p.same q = true ↔ q.same p = true := by
  rw [same_iff, same_iff, eq_comm]

theorem same_trans {p q r : Path} (h : p.same q = true) (h' : q.same r = true) :
    p.same r = true :=
  same_iff.2 ((same_iff.1 h).trans (same_iff.1 h'))

theorem lt_trans {p q r : Path} (h : p.lt q = true) (h' : q.lt r = true) : p.lt r = true := by
  rw [lt_iff_key] at *
  exact h.trans h'

/-- **Of two paths that do not mean the same one comes first.** -/
theorem lt_of_not_lt {p q : Path} (hs : q.same p ≠ true) (h : p.lt q ≠ true) : q.lt p = true := by
  rw [ne_eq, same_iff_key] at hs
  rw [ne_eq, lt_iff_key, not_lt] at h
  rw [lt_iff_key]
  exact lt_of_le_of_ne h hs

theorem not_same_of_lt {p q : Path} (h : p.lt q = true) : p.same q ≠ true := by
  rw [ne_eq, same_iff_key]
  exact (lt_iff_key.1 h).ne

end Path

namespace PathMap

variable {α : Type}

/-- **A map in the order of its paths.** -/
def Sorted (m : PathMap α) : Prop :=
  m.Pairwise fun x y => x.1.lt y.1 = true

theorem sorted_nil : Sorted ([] : PathMap α) := List.Pairwise.nil

/-- **What a map keeps after a value was put in.** -/
theorem find?_insert (m : PathMap α) (p q : Path) (a : α) :
    (m.insert p a).find? q = if p.same q = true then some a else m.find? q := by
  induction m with
  | nil => rfl
  | cons x rest ih =>
    obtain ⟨r, b⟩ := x
    rw [insert]
    by_cases hr : r.same p = true
    · rw [if_pos hr, find?, find?]
      have hrq : r.same q = true ↔ p.same q = true :=
        ⟨Path.same_trans (Path.same_comm.1 hr), Path.same_trans hr⟩
      by_cases hq : p.same q = true
      · rw [if_pos hq, if_pos (hrq.2 hq)]
      · rw [if_neg hq, if_neg (mt hrq.1 hq), if_neg (mt hrq.1 hq)]
    · rw [if_neg hr]
      by_cases hlt : p.lt r = true
      · rw [if_pos hlt]
        rfl
      · rw [if_neg hlt, find?, ih, find?]
        by_cases hq : p.same q = true
        · have hrq : r.same q ≠ true := fun h =>
            hr (Path.same_trans h (Path.same_comm.1 hq))
          rw [if_neg hrq, if_pos hq, if_pos hq]
        · rw [if_neg hq, if_neg hq]

theorem exists_mem_of_find? {m : PathMap α} {p : Path} {a : α} (h : m.find? p = some a) :
    ∃ q, q.same p = true ∧ (q, a) ∈ m := by
  induction m with
  | nil => cases h
  | cons x rest ih =>
    obtain ⟨r, b⟩ := x
    rw [find?] at h
    split at h
    · rename_i hr
      obtain rfl := Option.some.inj h
      exact ⟨r, hr, List.mem_cons_self⟩
    · obtain ⟨q, hq, hm⟩ := ih h
      exact ⟨q, hq, List.mem_cons_of_mem _ hm⟩

/-- **A map in order keeps one value for a path.** -/
theorem Sorted.find?_of_mem {m : PathMap α} (hm : m.Sorted) {p : Path} {a : α}
    (h : (p, a) ∈ m) : m.find? p = some a := by
  induction m with
  | nil => exact absurd h List.not_mem_nil
  | cons x rest ih =>
    obtain ⟨r, b⟩ := x
    rw [Sorted, List.pairwise_cons] at hm
    rw [find?]
    rcases List.mem_cons.1 h with h | h
    · obtain ⟨rfl, rfl⟩ := Prod.mk.inj h
      rw [if_pos (Path.same_refl _)]
    · rw [if_neg (Path.not_same_of_lt (hm.1 _ h))]
      exact ih hm.2 h

/-- A value put in takes the place of the one for the path, and its spelling; or the
path is new. -/
theorem mem_insert {m : PathMap α} (hm : m.Sorted) {p : Path} {a : α} {x : Path × α}
    (h : x ∈ m.insert p a) :
    x ∈ m ∨ (∃ q b, x = (q, a) ∧ q.same p = true ∧ (q, b) ∈ m ∧ m.find? p = some b) ∨
      (x = (p, a) ∧ m.find? p = none) := by
  induction m with
  | nil => exact .inr (.inr ⟨List.mem_singleton.1 h, rfl⟩)
  | cons y rest ih =>
    obtain ⟨r, b⟩ := y
    rw [Sorted, List.pairwise_cons] at hm
    rw [insert] at h
    by_cases hr : r.same p = true
    · rw [if_pos hr] at h
      rcases List.mem_cons.1 h with rfl | h
      · exact .inr (.inl ⟨r, b, rfl, hr, List.mem_cons_self, by rw [find?, if_pos hr]⟩)
      · exact .inl (List.mem_cons_of_mem _ h)
    · rw [if_neg hr] at h
      rw [find?, if_neg hr]
      by_cases hlt : p.lt r = true
      · rw [if_pos hlt] at h
        rcases List.mem_cons.1 h with rfl | h
        · refine .inr (.inr ⟨rfl, ?_⟩)
          -- all that is kept comes behind the path
          by_contra hne
          obtain ⟨c, hc⟩ := Option.ne_none_iff_exists'.1 hne
          obtain ⟨q, hq, hmem⟩ := exists_mem_of_find? hc
          exact Path.not_same_of_lt (Path.lt_trans hlt (hm.1 _ hmem)) (Path.same_comm.1 hq)
        · exact .inl h
      · rw [if_neg hlt] at h
        rcases List.mem_cons.1 h with rfl | h
        · exact .inl List.mem_cons_self
        · rcases ih hm.2 h with h | ⟨q, c, hx, hq, hmem, hf⟩ | h
          · exact .inl (List.mem_cons_of_mem _ h)
          · exact .inr (.inl ⟨q, c, hx, hq, List.mem_cons_of_mem _ hmem, hf⟩)
          · exact .inr (.inr h)

/-- **Putting a value in keeps the order.** -/
theorem Sorted.insert {m : PathMap α} (hm : m.Sorted) (p : Path) (a : α) :
    (m.insert p a).Sorted := by
  induction m with
  | nil => exact List.pairwise_singleton _ _
  | cons y rest ih =>
    obtain ⟨r, b⟩ := y
    rw [Sorted, List.pairwise_cons] at hm
    rw [PathMap.insert]
    by_cases hr : r.same p = true
    · rw [if_pos hr]
      exact List.pairwise_cons.2 hm
    · rw [if_neg hr]
      by_cases hlt : p.lt r = true
      · rw [if_pos hlt]
        refine List.pairwise_cons.2 ⟨fun x hx => ?_, List.pairwise_cons.2 hm⟩
        rcases List.mem_cons.1 hx with rfl | hx
        · exact hlt
        · exact Path.lt_trans hlt (hm.1 x hx)
      · rw [if_neg hlt]
        refine List.pairwise_cons.2 ⟨fun x hx => ?_, ih hm.2⟩
        rcases mem_insert hm.2 hx with hx | ⟨q, c, rfl, _, hmem, _⟩ | ⟨rfl, _⟩
        · exact hm.1 x hx
        · have hrq := hm.1 _ hmem
          exact hrq
        · exact Path.lt_of_not_lt hr hlt

/-- What is kept stays, but for the value that a new one takes the place of. -/
theorem Sorted.mem_insert_of_mem {m : PathMap α} (hm : m.Sorted) {p : Path} {a : α}
    (h : (p, a) ∈ m) (q : Path) (b : α) :
    (p, if q.same p = true then b else a) ∈ m.insert q b := by
  induction m with
  | nil => exact absurd h List.not_mem_nil
  | cons x rest ih =>
    obtain ⟨r, c⟩ := x
    obtain ⟨hfirst, hrest⟩ := List.pairwise_cons.1 hm
    rw [PathMap.insert]
    by_cases hr : r.same q = true
    · rw [if_pos hr]
      rcases List.mem_cons.1 h with h | h
      · obtain ⟨rfl, rfl⟩ := Prod.mk.inj h
        rw [if_pos (Path.same_comm.1 hr)]
        exact List.mem_cons_self
      · have hq : ¬q.same p = true := fun hq =>
          Path.not_same_of_lt (hfirst _ h) (Path.same_trans hr hq)
        rw [if_neg hq]
        exact List.mem_cons_of_mem _ h
    · rw [if_neg hr]
      have hbehind : (p, a) ∈ (r, c) :: rest → ¬q.same p = true ∨ (p, a) ∈ rest := by
        intro h
        rcases List.mem_cons.1 h with h | h
        · obtain ⟨rfl, rfl⟩ := Prod.mk.inj h
          exact .inl fun hq => hr (Path.same_comm.1 hq)
        · exact .inr h
      by_cases hlt : q.lt r = true
      · rw [if_pos hlt]
        have hq : ¬q.same p = true := by
          rcases List.mem_cons.1 h with h | h
          · obtain ⟨rfl, rfl⟩ := Prod.mk.inj h
            exact Path.not_same_of_lt hlt
          · exact Path.not_same_of_lt (Path.lt_trans hlt (hfirst _ h))
        rw [if_neg hq]
        exact List.mem_cons_of_mem _ h
      · rw [if_neg hlt]
        rcases List.mem_cons.1 h with h | h
        · obtain ⟨rfl, rfl⟩ := Prod.mk.inj h
          rw [if_neg fun hq => hr (Path.same_comm.1 hq)]
          exact List.mem_cons_self
        · exact List.mem_cons_of_mem _ (ih hrest h)

/-- A new path is kept as it was put in. -/
theorem mem_insert_self {m : PathMap α} {p : Path} (h : m.find? p = none) (a : α) : (p, a) ∈ m.insert p a := by
  induction m with
  | nil => exact List.mem_singleton_self _
  | cons x rest ih =>
    obtain ⟨r, b⟩ := x
    rw [find?] at h
    rw [insert]
    split at h
    · cases h
    · rename_i hr
      rw [if_neg hr]
      split
      · exact List.mem_cons_self
      · exact List.mem_cons_of_mem _ (ih h)

/-- A path of a map after a value was put in was there, or is the new one. -/
theorem fst_of_mem_insert {m : PathMap α} (hm : m.Sorted) {p : Path} {a : α} {x : Path × α}
    (h : x ∈ m.insert p a) : (∃ b, (x.1, b) ∈ m) ∨ (x.1 = p ∧ m.find? p = none) := by
  rcases mem_insert hm h with h | ⟨q, b, rfl, _, hb, _⟩ | ⟨rfl, hnone⟩
  · exact .inl ⟨x.2, h⟩
  · exact .inl ⟨b, hb⟩
  · exact .inr ⟨rfl, hnone⟩

end PathMap

end Fabula
