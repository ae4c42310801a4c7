import Mathlib.Data.List.Dedup
import Mathlib.Data.List.Perm.Basic
import Mathlib.Algebra.BigOperators.Group.List.Basic
import Mathlib.Algebra.Ring.Nat
import Mathlib.Algebra.Ring.Int.Defs

/-! Inner joins of row lists, grouping of rows by a key, and the choice of one row of
a group, as a query with non-aggregated columns in a GROUP BY makes it. -/
namespace PcCourse.Grouping

variable {α β κ : Type}

/-- Pairs of rows that satisfy the join condition, left rows first. -/
def join (on : α → β → Bool) (xs : List α) (ys : List β) : List (α × β) :=
  xs.flatMap fun x => (ys.filter (on x)).map (x, ·)

theorem mem_join {on : α → β → Bool} {xs : List α} {ys : List β} {row : α × β} :
    row ∈ join on xs ys ↔ row.1 ∈ xs ∧ row.2 ∈ ys ∧ on row.1 row.2 = true := by
  obtain ⟨x,y⟩ := row
  simp [join]

theorem join_cons (on : α → β → Bool) (x : α) (xs : List α) (ys : List β) :
    join on (x :: xs) ys = (ys.filter (on x)).map (x, ·) ++ join on xs ys := rfl

theorem flatMap_ite {γ : Type} (p : β → Bool) (f : β → γ) (ys : List β) :
    (ys.flatMap fun y => if p y then [f y] else []) = (ys.filter p).map f := by
  induction ys with
  | nil => rfl
  | cons y rest ih => cases keep : p y <;> simp [keep, ih]

/-- The pairs of a join, right rows first. The induction is on the left rows. -/
theorem join_swap (on : α → β → Bool) (xs : List α) (ys : List β) :
    (join on xs ys).Perm (ys.flatMap fun y => (xs.filter (on · y)).map (·, y)) := by
  induction xs with
  | nil => simp [join]
  | cons x rest ih =>
    have split : (fun y => ((x :: rest).filter (on · y)).map (·, y)) = fun y =>
        (if on x y then [(x, y)] else []) ++ (rest.filter (on · y)).map (·, y) := by
      funext y
      cases meets : on x y <;> simp [meets]
    rw [split, join_cons]
    refine List.Perm.trans ?_ (List.flatMap_append_perm ys _ _)
    rw [flatMap_ite (on x) (x, ·)]
    exact ih.append_left _

theorem filter_join_swap (on : α → β → Bool) (p : β → Bool) (xs : List α) (ys : List β) :
    ((join on xs ys).filter fun row => p row.2).Perm
      ((ys.filter p).flatMap fun y => (xs.filter (on · y)).map (·, y)) := by
  refine ((join_swap on xs ys).filter _).trans (List.Perm.of_eq ?_)
  induction ys with
  | nil => rfl
  | cons y rest ih =>
    rw [List.flatMap_cons, List.filter_append, ih]
    cases keep : p y with
    | true => simp [keep, List.filter_map, Function.comp_def]
    | false => simp [keep, List.filter_map, Function.comp_def]

theorem join_filter (on : α → β → Bool) (p : α → Bool) (xs : List α) (ys : List β) :
    join on (xs.filter p) ys = (join on xs ys).filter fun row => p row.1 := by
  induction xs with
  | nil => rfl
  | cons x rest ih =>
    rw [join_cons, List.filter_append, ← ih]
    cases keep : p x with
    | true => simp [keep, join_cons, List.filter_map, Function.comp_def]
    | false => simp [keep, List.filter_map, Function.comp_def]

theorem join_append (on : α → β → Bool) (xs more : List α) (ys : List β) :
    join on (xs ++ more) ys = join on xs ys ++ join on more ys := List.flatMap_append

theorem join_eq_nil {on : α → β → Bool} {xs : List α} {ys : List β}
    (apart : ∀ x ∈ xs, ∀ y ∈ ys, on x y = false) : join on xs ys = [] := by
  rw [List.eq_nil_iff_forall_not_mem]
  intro row member
  obtain ⟨left,right,meets⟩ := mem_join.mp member
  rw [apart row.1 left row.2 right] at meets
  cases meets

/-- Right rows that no left row meets do not show in a join. -/
theorem join_congr_right {on : α → β → Bool} {xs : List α} {ys zs : List β}
    (same : ∀ x ∈ xs, ys.filter (on x) = zs.filter (on x)) : join on xs ys = join on xs zs := by
  induction xs with
  | nil => rfl
  | cons x rest ih =>
    rw [join_cons, join_cons, same x List.mem_cons_self,
      ih fun other member => same other (List.mem_cons_of_mem _ member)]

theorem join_filter_right (on : α → β → Bool) (p : β → Bool) (xs : List α) (ys : List β) :
    join on xs (ys.filter p) = (join on xs ys).filter fun row => p row.2 := by
  induction xs with
  | nil => rfl
  | cons x rest ih =>
    rw [join_cons, join_cons, List.filter_append, ih, List.filter_map, List.filter_comm]
    rfl

theorem join_map_left {γ : Type} (on : γ → β → Bool) (f : α → γ) (xs : List α) (ys : List β) :
    join on (xs.map f) ys = (join (fun x y => on (f x) y) xs ys).map (Prod.map f id) := by
  induction xs with
  | nil => rfl
  | cons x rest ih =>
    rw [List.map_cons, join_cons, join_cons, List.map_append, ih, List.map_map]
    rfl

theorem join_map_right {γ : Type} (on : α → γ → Bool) (g : β → γ) (xs : List α) (ys : List β) :
    join on xs (ys.map g) = (join (fun x y => on x (g y)) xs ys).map (Prod.map id g) := by
  induction xs with
  | nil => rfl
  | cons x rest ih =>
    rw [join_cons, join_cons, List.map_append, ih, List.filter_map, List.map_map, List.map_map]
    rfl

section
variable [DecidableEq κ] {key : β → κ} {ys : List β} {y : β}

theorem filter_key (unique : (ys.map key).Nodup) (member : y ∈ ys) :
    ys.filter (fun other => key other = key y) = [y] := by
  induction ys with
  | nil => simp at member
  | cons head rest ih =>
    rw [List.map_cons, List.nodup_cons] at unique
    rcases List.mem_cons.mp member with rfl | later
    · have others : rest.filter (fun other => key other = key y) = [] := by
        rw [List.filter_eq_nil_iff]
        intro other inside same
        exact unique.1 (List.mem_map.mpr ⟨other, inside, by simpa using same⟩)
      simp [others]
    · have apart : key head ≠ key y := fun same =>
        unique.1 (same ▸ List.mem_map_of_mem later)
      simp [apart, ih unique.2 later]

/-- Where every left row refers to one right row, the join is the left rows. -/
theorem join_key_fst (unique : (ys.map key).Nodup) {ref : α → κ} {xs : List α}
    (refers : ∀ x ∈ xs, ref x ∈ ys.map key) :
    (join (fun x z => ref x = key z) xs ys).map Prod.fst = xs := by
  induction xs with
  | nil => rfl
  | cons x rest ih =>
    obtain ⟨z,member,same⟩ := List.mem_map.mp (refers x List.mem_cons_self)
    have one : ys.filter (fun other => decide (ref x = key other)) = [z] := by
      rw [← same]
      simpa only [eq_comm] using filter_key unique member
    have others := ih fun other inside => refers other (List.mem_cons_of_mem _ inside)
    rw [join_cons, List.map_append, one, others]
    rfl

theorem flatMap_filter_key (unique : (ys.map key).Nodup) {ref : α → κ} {xs : List α}
    (refers : ∀ x ∈ xs, ref x ∈ ys.map key) :
    (ys.flatMap fun z => xs.filter fun x => ref x = key z).Perm xs := by
  have swapped := (join_swap (fun x z => decide (ref x = key z)) xs ys).map Prod.fst
  rw [join_key_fst unique refers, List.map_flatMap] at swapped
  simpa [List.map_map, Function.comp_def] using swapped.symm

/-- Over the join on a unique key, the rows of one right row weigh what their left
rows weigh. -/
theorem sum_join_key (unique : (ys.map key).Nodup) (member : y ∈ ys) (ref : α → κ)
    (weight : α → Nat) (xs : List α) :
    (((join (fun x z => ref x = key z) xs ys).filter (fun row => key row.2 = key y)).map
      (fun row => weight row.1)).sum =
    ((xs.filter (fun x => ref x = key y)).map weight).sum := by
  induction xs with
  | nil => rfl
  | cons x rest ih =>
    rw [join_cons, List.filter_append, List.map_append, List.sum_append, ih]
    by_cases refers : ref x = key y
    · have one : ys.filter (fun z => decide (key y = key z)) = [y] := by
        simpa only [eq_comm] using filter_key unique member
      simp [refers, one]
    · have none : ys.filter (fun z => decide (key z = key y) && decide (ref x = key z)) = [] := by
        rw [List.filter_eq_nil_iff]
        intro z _ both
        simp only [Bool.and_eq_true, decide_eq_true_eq] at both
        exact refers (both.2.trans both.1)
      simp [refers, List.filter_map, Function.comp_def, List.filter_filter, none]

end

/-- A choice of one row of every nonempty group. -/
structure Pick (α : Type) where
  choose : α → List α → α
  mem : ∀ first rest, choose first rest ∈ first :: rest

def Pick.first : Pick α := ⟨fun first _ => first, fun _ _ => List.mem_cons_self⟩

variable [DecidableEq κ]

/-- The groups of a row list, each as a first row and the rest of its rows. -/
def groups (key : α → κ) (rows : List α) : List (α × List α) :=
  (rows.map key).dedup.filterMap fun k =>
    match rows.filter (fun row => key row = k) with
    | [] => none
    | first :: rest => some (first, rest)

theorem mem_groups {key : α → κ} {rows : List α} {group : α × List α} :
    group ∈ groups key rows ↔
      rows.filter (fun row => key row = key group.1) = group.1 :: group.2 := by
  obtain ⟨first,rest⟩ := group
  simp only [groups, List.mem_filterMap, List.mem_dedup, List.mem_map]
  constructor
  · rintro ⟨k,-,found⟩
    cases rowsOf : rows.filter (fun row => key row = k) with
    | nil => simp [rowsOf] at found
    | cons head tail =>
      simp only [rowsOf, Option.some.injEq, Prod.mk.injEq] at found
      obtain ⟨rfl,rfl⟩ := found
      have inside : head ∈ rows.filter (fun row => key row = k) := by simp [rowsOf]
      have same : key head = k := by simpa using (List.mem_filter.mp inside).2
      subst same
      exact rowsOf
  · intro rowsOf
    have inside : first ∈ rows.filter (fun row => key row = key first) := by simp [rowsOf]
    exact ⟨key first, ⟨first, (List.mem_filter.mp inside).1, rfl⟩, by simp [rowsOf]⟩

theorem groups_map {γ : Type} (key : γ → κ) (f : α → γ) (rows : List α) :
    groups key (rows.map f) = (groups (fun row => key (f row)) rows).map (Prod.map f (List.map f)) := by
  simp only [groups, List.map_map, List.map_filterMap]
  refine List.filterMap_congr fun k _ => ?_
  rw [List.filter_map]
  change (match (rows.filter fun row => decide (key (f row) = k)).map f with
    | [] => none
    | first :: rest => some (first, rest)) = _
  cases rows.filter fun row => decide (key (f row) = k) <;> rfl

theorem group_of_row {key : α → κ} {rows : List α} {row : α} (member : row ∈ rows) :
    ∃ group ∈ groups key rows, key group.1 = key row ∧ row ∈ group.1 :: group.2 := by
  have inside : row ∈ rows.filter (fun other => key other = key row) := by simp [member]
  cases rowsOf : rows.filter (fun other => key other = key row) with
  | nil => simp [rowsOf] at inside
  | cons first rest =>
    have head : first ∈ rows.filter (fun other => key other = key row) := by simp [rowsOf]
    have same : key first = key row := by simpa using (List.mem_filter.mp head).2
    refine ⟨(first, rest), mem_groups.mpr (by simpa [same] using rowsOf), same, ?_⟩
    simpa [rowsOf] using inside

theorem mem_of_mem_group {key : α → κ} {rows : List α} {group : α × List α} {row : α}
    (isGroup : group ∈ groups key rows) (member : row ∈ group.1 :: group.2) :
    row ∈ rows ∧ key row = key group.1 := by
  rw [← mem_groups.mp isGroup] at member
  simpa using List.mem_filter.mp member

theorem group_eq {key : α → κ} {rows : List α} {group : α × List α}
    (isGroup : group ∈ groups key rows) :
    group.1 :: group.2 = rows.filter (fun row => key row = key group.1) :=
  (mem_groups.mp isGroup).symm

theorem flatMap_groups_perm (key : α → κ) (rows : List α) :
    ((groups key rows).flatMap fun group => group.1 :: group.2).Perm rows := by
  have shape : ∀ keys : List κ, ((keys.filterMap fun k =>
      match rows.filter (fun row => key row = k) with
      | [] => none
      | first :: rest => some (first, rest)).flatMap fun group => group.1 :: group.2) =
        keys.flatMap fun k => rows.filter fun row => key row = k := by
    intro keys
    induction keys with
    | nil => rfl
    | cons k rest ih =>
      rw [List.flatMap_cons, ← ih]
      cases rowsOf : rows.filter fun row => key row = k <;> simp [rowsOf]
  rw [groups, shape]
  have unique : ((rows.map key).dedup.map id).Nodup := by
    rw [List.map_id]
    exact List.nodup_dedup _
  apply flatMap_filter_key unique
  intro row member
  rw [List.map_id, List.mem_dedup]
  exact List.mem_map_of_mem member

theorem sum_flatMap {M : Type} [AddCommMonoid M] (parts : α → List M) (xs : List α) :
    (xs.flatMap parts).sum = (xs.map fun x => (parts x).sum).sum := by
  rw [List.flatMap, List.sum_flatten, List.map_map]
  rfl

/-- A total over the groups of a row list is the total over the rows. -/
theorem sum_groups {M : Type} [AddCommMonoid M] (key : α → κ) (weight : α → M) (rows : List α) :
    ((groups key rows).map fun group => ((group.1 :: group.2).map weight).sum).sum =
      (rows.map weight).sum := by
  have all := ((flatMap_groups_perm key rows).map weight).sum_eq
  rw [← all, List.map_flatMap, sum_flatMap]

/-- A weight that vanishes outside the rows a predicate keeps sums to its sum there. -/
theorem sum_filter_of_zero {p : α → Bool} {weight : α → Nat} {rows : List α}
    (zero : ∀ row ∈ rows, p row = false → weight row = 0) :
    ((rows.filter p).map weight).sum = (rows.map weight).sum := by
  induction rows with
  | nil => rfl
  | cons row rest ih =>
    have tail := ih fun other member => zero other (List.mem_cons_of_mem _ member)
    cases keep : p row with
    | true => simp [keep, tail]
    | false => simp [keep, tail, zero row List.mem_cons_self keep]

end PcCourse.Grouping
