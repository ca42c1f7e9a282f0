import Mathlib

/-!
# Ring buffers

A queue in a fixed number of slots: it starts at a head and wraps around. The
slots outside the queue keep what was in them.
-/

set_option autoImplicit false

namespace Floofclaw.Lib

structure Ring (α : Type) (n : Nat) where
  slots : List α
  head : Nat
  count : Nat
  size : slots.length = n
  start : head < n
  bound : count ≤ n

variable {α : Type} {n : Nat}

/-- The slot of the entry at a place of the queue. -/
def Ring.index (q : Ring α n) (i : Nat) : Nat := (q.head + i) % n

theorem Ring.index_lt (q : Ring α n) (i : Nat) : q.index i < q.slots.length := by
  rw [q.size]
  exact Nat.mod_lt _ (Nat.zero_lt_of_lt q.start)

/-- The queue, front first. -/
def Ring.toList (q : Ring α n) : List α := (List.range q.count).map fun i => getElem q.slots (q.index i) (q.index_lt i)

/-- The slots that are free. -/
def Ring.free (q : Ring α n) : Nat := n - q.count

/-- An entry at the end; `none` when every slot is taken. -/
def Ring.push (q : Ring α n) (x : α) : Option (Ring α n) :=
  if h : q.count < n then
    some { q with slots := q.slots.set (q.index q.count) x, count := q.count + 1, size := by rw [List.length_set, q.size], bound := h }
  else none

/-- Distinct places of a queue are distinct slots. -/
theorem Ring.index_ne (q : Ring α n) {i j : Nat} (hij : i < j) (hj : j < n) : q.index i ≠ q.index j := by
  have hhead := q.start
  unfold Ring.index
  intro h
  have hmod := Nat.sub_mod_eq_zero_of_mod_eq h.symm
  have hdiff : q.head + j - (q.head + i) = j - i := by omega
  rw [hdiff, Nat.mod_eq_of_lt (by omega)] at hmod
  omega

theorem Ring.push_toList {q q' : Ring α n} {x : α} (h : q.push x = some q') : q'.toList = q.toList ++ [x] := by
  unfold Ring.push at h
  split at h
  · rename_i hcount
    rw [Option.some.injEq] at h
    subst h
    simp only [Ring.toList, Ring.index, List.range_succ, List.map_append, List.map_cons, List.map_nil, List.getElem_set_self]
    congr 1
    refine List.map_congr_left fun i hi => ?_
    rw [List.mem_range] at hi
    exact List.getElem_set_ne (q.index_ne hi hcount).symm _
  · cases h

theorem Ring.push_isSome {q : Ring α n} {x : α} : (q.push x).isSome ↔ 0 < q.free := by
  unfold Ring.push Ring.free
  split <;> simp <;> omega

theorem Ring.push_free {q q' : Ring α n} {x : α} (h : q.push x = some q') : q.free = q'.free + 1 := by
  unfold Ring.push at h
  split at h
  · rename_i hcount
    rw [Option.some.injEq] at h
    subst h
    simp only [Ring.free]
    omega
  · cases h

/-- The entry at the front; its slot is blanked. `none` when the queue is empty. -/
def Ring.pop (q : Ring α n) (blank : α) : Option (α × Ring α n) :=
  if h : 0 < q.count then
    some (getElem q.slots (q.index 0) (q.index_lt 0),
      { q with
        slots := q.slots.set (q.index 0) blank
        head := q.index 1
        count := q.count - 1
        size := by rw [List.length_set, q.size]
        start := Nat.mod_lt _ (Nat.zero_lt_of_lt q.start)
        bound := by have := q.bound; omega })
  else none

theorem Ring.pop_toList {q q' : Ring α n} {blank x : α} (h : q.pop blank = some (x, q')) : q.toList = x :: q'.toList := by
  unfold Ring.pop at h
  split at h
  · rename_i hcount
    simp only [Option.some.injEq, Prod.mk.injEq] at h
    obtain ⟨rfl, rfl⟩ := h
    have hbound := q.bound
    obtain ⟨m, hm⟩ : ∃ m, q.count = m + 1 := ⟨q.count - 1, by omega⟩
    simp only [Ring.toList, hm, List.range_succ_eq_map, List.map_cons, List.map_map]
    congr 1
    refine List.map_congr_left fun i hi => ?_
    have hi' : i < m := List.mem_range.mp hi
    have hne : q.index 0 ≠ q.index (i + 1) := q.index_ne (by omega) (by omega)
    have hstep : (q.index 1 + i) % n = q.index (i + 1) := by
      unfold Ring.index
      rw [Nat.mod_add_mod, Nat.add_assoc, Nat.add_comm 1 i]
    change getElem q.slots (q.index (i + 1)) _ = getElem (q.slots.set (q.index 0) blank) ((q.index 1 + i) % n) _
    simp only [hstep, List.getElem_set_ne hne]
  · cases h

/-- One entry after the other, as long as a slot is free, and whether all of them were taken. -/
def Ring.pushAll (q : Ring α n) : List α → Ring α n × Bool
  | [] => (q, true)
  | x :: xs =>
    match q.push x with
    | none => (q, false)
    | some q => q.pushAll xs

theorem Ring.pushAll_spec (q : Ring α n) (xs : List α) :
    (q.pushAll xs).1.toList = q.toList ++ xs.take q.free ∧ ((q.pushAll xs).2 = true ↔ xs.length ≤ q.free) := by
  induction xs generalizing q with
  | nil => simp [Ring.pushAll]
  | cons x xs ih =>
    rw [Ring.pushAll]
    cases h : q.push x with
    | none =>
      have hfull : q.free = 0 := by
        by_contra hne
        have := (Ring.push_isSome (q := q) (x := x)).mpr (by omega)
        rw [h] at this
        cases this
      simp [hfull]
    | some q' =>
      obtain ⟨hlist, hall⟩ := ih q'
      have hfree := Ring.push_free h
      rw [hfree]
      constructor
      · rw [hlist, Ring.push_toList h, List.take_succ_cons, List.append_assoc, List.singleton_append]
      · rw [hall, List.length_cons]
        omega

end Floofclaw.Lib
