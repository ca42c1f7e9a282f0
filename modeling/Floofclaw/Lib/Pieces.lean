import Mathlib

/-!
# Cutting a text into pieces

A text is cut from the front: a choice says how much the next piece takes, and
what stands between two pieces is passed over. As long as the choice takes
something, the pieces and what was passed over are the text.
-/

set_option autoImplicit false

namespace Floofclaw.Lib

variable {α : Type}

/-- The pieces of a text, at most as many as the first argument. -/
def pieces (choose : List α → Nat) (skip : List α → List α) : Nat → List α → List (List α)
  | 0, _ => []
  | _ + 1, [] => []
  | n + 1, x :: s => (x :: s).take (choose (x :: s)) :: pieces choose skip n (skip ((x :: s).drop (choose (x :: s))))

/-- The choice takes something, and no more than there is; what is passed over is the front of the rest. -/
structure Advances (choose : List α → Nat) (skip : List α → List α) : Prop where
  some : ∀ s, s ≠ [] → 0 < choose s
  within : ∀ s, choose s ≤ s.length
  suffix : ∀ s, skip s <:+ s

variable {choose : List α → Nat} {skip : List α → List α}

theorem Advances.shorter (h : Advances choose skip) {s : List α} (hs : s ≠ []) : (skip (s.drop (choose s))).length < s.length := by
  have hsuffix := (h.suffix (s.drop (choose s))).length_le
  have hsome := h.some s hs
  have hpos := List.length_pos_iff.mpr hs
  rw [List.length_drop] at hsuffix
  omega

/-- What holds of the text and is kept by what is left over gives what every piece has. -/
theorem pieces_forall (inv piece : List α → Prop) (hstep : ∀ s, s ≠ [] → inv s → piece (s.take (choose s)) ∧ inv (skip (s.drop (choose s))))
    {n : Nat} {s : List α} (hs : inv s) : ∀ p ∈ pieces choose skip n s, piece p := by
  induction n generalizing s with
  | zero => simp [pieces]
  | succ n ih =>
    cases s with
    | nil => simp [pieces]
    | cons x s =>
      obtain ⟨hpiece, hrest⟩ := hstep (x :: s) (by simp) hs
      exact List.forall_mem_cons.mpr ⟨hpiece, ih hrest⟩

/-- What is left of the text where its pieces start. -/
def starts (choose : List α → Nat) (skip : List α → List α) : Nat → List α → List (List α)
  | 0, _ => []
  | _ + 1, [] => []
  | n + 1, x :: s => (x :: s) :: starts choose skip n (skip ((x :: s).drop (choose (x :: s))))

theorem pieces_eq_map (n : Nat) (s : List α) : pieces choose skip n s = (starts choose skip n s).map fun t => t.take (choose t) := by
  induction n generalizing s with
  | zero => rfl
  | succ n ih =>
    cases s with
    | nil => rfl
    | cons x s => rw [pieces, starts, List.map_cons, ih]

/-- Where what a piece has is decided by how it is cut off, and a good cut keeps what the next one needs. -/
theorem pieces_forall_iff (inv piece cut : List α → Prop) (hpiece : ∀ s, s ≠ [] → inv s → (piece (s.take (choose s)) ↔ cut s))
    (hrest : ∀ s, s ≠ [] → inv s → cut s → inv (skip (s.drop (choose s)))) {n : Nat} {s : List α} (hs : inv s) :
    (∀ p ∈ pieces choose skip n s, piece p) ↔ ∀ t ∈ starts choose skip n s, cut t := by
  induction n generalizing s with
  | zero => simp [pieces, starts]
  | succ n ih =>
    cases s with
    | nil => simp [pieces, starts]
    | cons x s =>
      have hne : x :: s ≠ [] := List.cons_ne_nil x s
      rw [pieces, starts, List.forall_mem_cons, List.forall_mem_cons, hpiece _ hne hs]
      exact and_congr_right fun hcut => ih (hrest _ hne hs hcut)

/-- The pieces lie in the text one behind the other, and between them is what was passed over. -/
inductive Tiles (gap : List α → Prop) : List α → List (List α) → Prop
  | nil : Tiles gap [] []
  | cons {p g s : List α} {ps : List (List α)} : gap g → Tiles gap s ps → Tiles gap (p ++ (g ++ s)) (p :: ps)

theorem pieces_tile (h : Advances choose skip) {gap : List α → Prop} (hgap : ∀ s, ∃ g, gap g ∧ s = g ++ skip s) {n : Nat} {s : List α}
    (hn : s.length ≤ n) : Tiles gap s (pieces choose skip n s) := by
  induction n generalizing s with
  | zero =>
    rw [Nat.le_zero, List.length_eq_zero_iff] at hn
    subst hn
    exact .nil
  | succ n ih =>
    cases s with
    | nil => exact .nil
    | cons x s =>
      have hshorter := h.shorter (s := x :: s) (by simp)
      obtain ⟨g, hg, hrest⟩ := hgap ((x :: s).drop (choose (x :: s)))
      have htile := Tiles.cons (p := (x :: s).take (choose (x :: s))) hg (ih (s := skip ((x :: s).drop (choose (x :: s)))) (by omega))
      rwa [← hrest, List.take_append_drop] at htile

/-- Without gaps the pieces are the text. -/
theorem Tiles.join {s : List α} {ps : List (List α)} (h : Tiles (· = []) s ps) : ps.flatten = s := by
  induction h with
  | nil => rfl
  | cons hg _ ih =>
    subst hg
    rw [List.flatten_cons, ih, List.nil_append]

end Floofclaw.Lib
