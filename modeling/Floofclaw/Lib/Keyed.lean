import Mathlib

/-!
# Records under keys

A list of records, each under a key, in the order they were made. Under one key
the values rise, so the last record of a key has its highest value. Such a list
may give up the first record that a test finds stale: where the test never
finds the highest value stale, the last record of a key is given up after all
the others of that key. The first record a test finds may also be rewritten in
its place.
-/

set_option autoImplicit false

namespace Floofclaw.Lib

variable {κ ν α : Type}

/-- Rewrites the first record the test finds. -/
def modifyFirst (p : α → Bool) (f : α → α) : List α → List α
  | [] => []
  | x :: xs => if p x then f x :: xs else x :: modifyFirst p f xs

theorem length_modifyFirst (p : α → Bool) (f : α → α) (xs : List α) : (modifyFirst p f xs).length = xs.length := by
  induction xs with
  | nil => rfl
  | cons x xs ih => by_cases h : p x <;> simp [modifyFirst, h, ih]

theorem mem_modifyFirst {p : α → Bool} {f : α → α} {xs : List α} {y : α} (h : y ∈ modifyFirst p f xs) :
    y ∈ xs ∨ ∃ x, xs.find? p = some x ∧ y = f x := by
  induction xs with
  | nil => cases h
  | cons x xs ih =>
    by_cases hx : p x = true
    · rw [modifyFirst, if_pos hx] at h
      rcases List.mem_cons.mp h with rfl | h
      · exact .inr ⟨x, by rw [List.find?_cons_of_pos hx], rfl⟩
      · exact .inl (List.mem_cons_of_mem _ h)
    · rw [modifyFirst, if_neg hx] at h
      rcases List.mem_cons.mp h with rfl | h
      · exact .inl List.mem_cons_self
      · rcases ih h with h | ⟨z, hz, rfl⟩
        · exact .inl (List.mem_cons_of_mem _ h)
        · exact .inr ⟨z, by rw [List.find?_cons_of_neg hx, hz], rfl⟩

/-- A rewriting that keeps a feature of the record keeps it along the list. -/
theorem map_modifyFirst {p : α → Bool} {f : α → α} (g : α → κ) (h : ∀ x, p x = true → g (f x) = g x) (xs : List α) :
    (modifyFirst p f xs).map g = xs.map g := by
  induction xs with
  | nil => rfl
  | cons x xs ih =>
    by_cases hx : p x = true
    · rw [modifyFirst, if_pos hx, List.map_cons, List.map_cons, h x hx]
    · rw [modifyFirst, if_neg hx, List.map_cons, List.map_cons, ih]

theorem find?_modifyFirst_self {p : α → Bool} {f : α → α} (h : ∀ x, p x = true → p (f x) = true) (xs : List α) :
    (modifyFirst p f xs).find? p = (xs.find? p).map f := by
  induction xs with
  | nil => rfl
  | cons x xs ih =>
    by_cases hx : p x = true
    · rw [modifyFirst, if_pos hx, List.find?_cons_of_pos hx, List.find?_cons_of_pos (h x hx), Option.map_some]
    · rw [modifyFirst, if_neg hx, List.find?_cons_of_neg hx, List.find?_cons_of_neg hx, ih]

theorem find?_modifyFirst_of_ne {p q : α → Bool} {f : α → α}
    (h : ∀ x, p x = true → q x = false ∧ q (f x) = false) (xs : List α) : (modifyFirst p f xs).find? q = xs.find? q := by
  induction xs with
  | nil => rfl
  | cons x xs ih =>
    by_cases hx : p x = true
    · rw [modifyFirst, if_pos hx, List.find?_cons_of_neg (by simp [(h x hx).2]), List.find?_cons_of_neg (by simp [(h x hx).1])]
    · rw [modifyFirst, if_neg hx, List.find?_cons, List.find?_cons, ih]

/-- A record rewritten under its own key is what is found there; nothing else moves. -/
theorem find?_rewritten [DecidableEq κ] {key : α → κ} {p : κ → α → Bool}
    (his : ∀ k x, p k x = true ↔ key x = k) {g : α → α} {k : κ} (hg : ∀ x, key x = k → key (g x) = key x) (k' : κ)
    (xs : List α) :
    (modifyFirst (p k) g xs).find? (p k') = if k = k' then (xs.find? (p k')).map g else xs.find? (p k') := by
  split
  · rename_i hkey
    subst hkey
    exact find?_modifyFirst_self (fun x hx => (his k _).mpr ((hg x ((his k x).mp hx)).trans ((his k x).mp hx))) xs
  · rename_i hne
    refine find?_modifyFirst_of_ne (fun x hx => ?_) xs
    have hx' : ∀ y, key y = k → p k' y = false := by
      intro y hy
      rw [← Bool.not_eq_true]
      exact fun h => hne (hy.symm.trans ((his k' y).mp h))
    have hxk := (his k x).mp hx
    exact ⟨hx' x hxk, hx' _ ((hg x hxk).trans hxk)⟩

/-- A list is what the test finds first, and the rest. -/
theorem perm_cons_eraseP {p : α → Bool} {xs : List α} {x : α} (h : xs.find? p = some x) : xs.Perm (x :: xs.eraseP p) := by
  induction xs with
  | nil => cases h
  | cons y xs ih =>
    by_cases hy : p y = true
    · rw [List.find?_cons_of_pos hy] at h
      cases h
      rw [List.eraseP_cons_of_pos hy]
    · rw [List.find?_cons_of_neg hy] at h
      rw [List.eraseP_cons_of_neg hy]
      exact ((ih h).cons y).trans (.swap x y _)

/-- The list with the record replaced is the new record, and the rest. -/
theorem modifyFirst_perm {p : α → Bool} {xs : List α} {x : α} (h : xs.find? p = some x) (y : α) :
    (modifyFirst p (fun _ => y) xs).Perm (y :: xs.eraseP p) := by
  induction xs with
  | nil => cases h
  | cons z xs ih =>
    by_cases hz : p z = true
    · rw [modifyFirst, if_pos hz, List.eraseP_cons_of_pos hz]
    · rw [List.find?_cons_of_neg hz] at h
      rw [modifyFirst, if_neg hz, List.eraseP_cons_of_neg hz]
      exact ((ih h).cons z).trans (.swap y z _)

/-- A bounded list takes a new record at its end, and may have given up one for it. -/
def Gained (cap : Nat) (xs : List α) (x : α) (ys : List α) : Prop :=
  ∃ kept, kept.Sublist xs ∧ kept.length < cap ∧ (xs.length < cap → kept = xs) ∧ ys = kept ++ [x]

theorem Gained.append {cap : Nat} {xs : List α} (h : xs.length < cap) (x : α) : Gained cap xs x (xs ++ [x]) :=
  ⟨xs, List.Sublist.refl _, h, fun _ => rfl, rfl⟩

theorem Gained.evict {cap : Nat} {xs : List α} {p : α → Bool} {i : Nat} (hfull : ¬ xs.length < cap) (hcap : xs.length ≤ cap)
    (hi : xs.findIdx? p = some i) (x : α) : Gained cap xs x (xs.eraseIdx i ++ [x]) := by
  refine ⟨xs.eraseIdx i, List.eraseIdx_sublist _ _, ?_, fun hlt => absurd hlt hfull, rfl⟩
  obtain ⟨hlt, -⟩ := List.findIdx?_eq_some_iff_getElem.mp hi
  rw [List.length_eraseIdx_of_lt hlt]
  omega

theorem Gained.length_le {cap : Nat} {xs ys : List α} {x : α} (h : Gained cap xs x ys) : ys.length ≤ cap := by
  obtain ⟨kept, -, hlen, -, rfl⟩ := h
  rw [List.length_append, List.length_singleton]
  omega

theorem Gained.mem {cap : Nat} {xs ys : List α} {x y : α} (h : Gained cap xs x ys) (hy : y ∈ ys) : y ∈ xs ∨ y = x := by
  obtain ⟨kept, hsub, -, -, rfl⟩ := h
  rcases List.mem_append.mp hy with hy | hy
  · exact .inl (hsub.subset hy)
  · exact .inr (List.mem_singleton.mp hy)

/-- The new record is the one found under its key. -/
theorem Gained.find?_new {cap : Nat} {xs ys : List α} {x : α} (h : Gained cap xs x ys) {p : α → Bool} (hx : p x = true)
    (hnone : xs.find? p = none) : ys.find? p = some x := by
  obtain ⟨kept, hsub, -, -, rfl⟩ := h
  have hkept : kept.find? p = none := List.find?_eq_none.mpr fun y hy => List.find?_eq_none.mp hnone y (hsub.subset hy)
  rw [List.find?_append, hkept, Option.none_or, List.find?_cons_of_pos hx]

theorem Gained.nodup {cap : Nat} {xs ys : List α} {x : α} (h : Gained cap xs x ys) {key : α → κ}
    (hnodup : (xs.map key).Nodup) (hfresh : key x ∉ xs.map key) : (ys.map key).Nodup := by
  obtain ⟨kept, hsub, -, -, rfl⟩ := h
  have hkept : (kept.map key).Sublist (xs.map key) := hsub.map key
  rw [List.map_append, List.map_singleton, List.nodup_append]
  refine ⟨hnodup.sublist hkept, by simp, ?_⟩
  intro k hk k' hk'
  rw [List.mem_singleton.mp hk']
  exact fun heq => hfresh (heq ▸ hkept.subset hk)

variable [DecidableEq κ]

end Floofclaw.Lib
