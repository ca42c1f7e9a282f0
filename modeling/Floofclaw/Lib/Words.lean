import Mathlib

/-!
# Words and the blanks between them

A text is looked at through its visible letters, each with whether a blank stands
before it. Two notions of blank agree on a text exactly when no two words are
separated by the wider one alone.
-/

set_option autoImplicit false

namespace Floofclaw.Lib

variable {α : Type} (vis : α → Bool)

/-- The visible letters, each with whether a blank stands between it and the one before. -/
def spaced (blank : α → Bool) : Bool → List α → List (α × Bool)
  | _, [] => []
  | b, c :: s => if vis c then (c, b) :: spaced blank false s else spaced blank (b || blank c) s

/-- Somewhere words are held apart by blanks of which none is a narrow one. -/
def Glued (wide narrow : α → Bool) (s : List α) : Prop :=
  ∃ u x g y v, s = u ++ x :: (g ++ y :: v) ∧ vis x = true ∧ vis y = true ∧ (∀ c ∈ g, vis c = false) ∧ (∃ c ∈ g, wide c = true) ∧
    ∀ c ∈ g, narrow c = false

/-- The first visible letter has a wide blank before it and no narrow one, counting what stood before the text. -/
def GluedFront (wide narrow : α → Bool) (b b' : Bool) (s : List α) : Prop :=
  ∃ g y v, s = g ++ y :: v ∧ vis y = true ∧ (∀ c ∈ g, vis c = false) ∧ (b = true ∨ ∃ c ∈ g, wide c = true) ∧ b' = false ∧ ∀ c ∈ g, narrow c = false

variable {vis} {wide narrow : α → Bool}

theorem gluedFront_visible {b b' : Bool} {c : α} {s : List α} (hc : vis c = true) : GluedFront vis wide narrow b b' (c :: s) ↔ b = true ∧ b' = false := by
  constructor
  · rintro ⟨g, y, v, hs, -, hg, hwide, hb', -⟩
    cases g with
    | nil =>
      rcases hwide with hb | ⟨d, hd, -⟩
      · exact ⟨hb, hb'⟩
      · cases hd
    | cons d g =>
      obtain ⟨rfl, -⟩ := List.cons.inj hs
      have hhidden := hg c List.mem_cons_self
      rw [hc] at hhidden
      cases hhidden
  · rintro ⟨hb, hb'⟩
    exact ⟨[], c, s, rfl, hc, nofun, .inl hb, hb', nofun⟩

theorem gluedFront_hidden {b b' : Bool} {c : α} {s : List α} (hc : vis c = false) :
    GluedFront vis wide narrow b b' (c :: s) ↔ GluedFront vis wide narrow (b || wide c) (b' || narrow c) s := by
  constructor
  · rintro ⟨g, y, v, hs, hy, hg, hwide, hb', hnarrow⟩
    cases g with
    | nil =>
      obtain ⟨rfl, -⟩ := List.cons.inj hs
      rw [hc] at hy
      cases hy
    | cons d g =>
      obtain ⟨rfl, rfl⟩ := List.cons.inj hs
      refine ⟨g, y, v, rfl, hy, fun e he => hg e (List.mem_cons_of_mem _ he), ?_, ?_, fun e he => hnarrow e (List.mem_cons_of_mem _ he)⟩
      · rcases hwide with hb | ⟨e, he, hw⟩
        · exact .inl (by rw [hb, Bool.true_or])
        · rcases List.mem_cons.mp he with rfl | he
          · exact .inl (by rw [hw, Bool.or_true])
          · exact .inr ⟨e, he, hw⟩
      · rw [hb', hnarrow c List.mem_cons_self, Bool.or_false]
  · rintro ⟨g, y, v, rfl, hy, hg, hwide, hb', hnarrow⟩
    rw [Bool.or_eq_false_iff] at hb'
    refine ⟨c :: g, y, v, rfl, hy, List.forall_mem_cons.mpr ⟨hc, hg⟩, ?_, hb'.1, List.forall_mem_cons.mpr ⟨hb'.2, hnarrow⟩⟩
    rcases hwide with hb | ⟨e, he, hw⟩
    · rw [Bool.or_eq_true] at hb
      rcases hb with hb | hw
      · exact .inl hb
      · exact .inr ⟨c, List.mem_cons_self, hw⟩
    · exact .inr ⟨e, List.mem_cons_of_mem _ he, hw⟩

theorem glued_hidden {c : α} {s : List α} (hc : vis c = false) : Glued vis wide narrow (c :: s) ↔ Glued vis wide narrow s := by
  constructor
  · rintro ⟨u, x, g, y, v, hs, hx, hrest⟩
    cases u with
    | nil =>
      obtain ⟨rfl, -⟩ := List.cons.inj hs
      rw [hc] at hx
      cases hx
    | cons d u =>
      obtain ⟨-, rfl⟩ := List.cons.inj hs
      exact ⟨u, x, g, y, v, rfl, hx, hrest⟩
  · rintro ⟨u, x, g, y, v, rfl, hrest⟩
    exact ⟨c :: u, x, g, y, v, rfl, hrest⟩

theorem glued_visible {c : α} {s : List α} (hc : vis c = true) :
    Glued vis wide narrow (c :: s) ↔ GluedFront vis wide narrow false false s ∨ Glued vis wide narrow s := by
  constructor
  · rintro ⟨u, x, g, y, v, hs, hx, hy, hg, hwide, hnarrow⟩
    cases u with
    | nil =>
      obtain ⟨-, rfl⟩ := List.cons.inj hs
      exact .inl ⟨g, y, v, rfl, hy, hg, .inr hwide, rfl, hnarrow⟩
    | cons d u =>
      obtain ⟨-, rfl⟩ := List.cons.inj hs
      exact .inr ⟨u, x, g, y, v, rfl, hx, hy, hg, hwide, hnarrow⟩
  · rintro (⟨g, y, v, rfl, hy, hg, hwide, -, hnarrow⟩ | ⟨u, x, g, y, v, rfl, hrest⟩)
    · exact ⟨[], c, g, y, v, rfl, hc, hy, hg, hwide.resolve_left nofun, hnarrow⟩
    · exact ⟨c :: u, x, g, y, v, rfl, hrest⟩

/-- The two notions of blank show the same words apart exactly when none are glued. -/
theorem spaced_eq_iff (hsub : ∀ c, narrow c = true → wide c = true) {b b' : Bool} (hb : b' = true → b = true) (s : List α) :
    spaced vis wide b s = spaced vis narrow b' s ↔ ¬ GluedFront vis wide narrow b b' s ∧ ¬ Glued vis wide narrow s := by
  induction s generalizing b b' with
  | nil =>
    refine iff_of_true rfl ⟨?_, ?_⟩
    · rintro ⟨g, y, v, hs, -⟩
      cases g <;> cases hs
    · rintro ⟨u, x, g, y, v, hs, -⟩
      cases u <;> cases hs
  | cons c s ih =>
    cases hc : vis c with
    | false =>
      have hb' : (b' || narrow c) = true → (b || wide c) = true := by
        rw [Bool.or_eq_true, Bool.or_eq_true]
        exact Or.imp hb (hsub c)
      rw [spaced, spaced, if_neg (by rw [hc]; nofun), if_neg (by rw [hc]; nofun), ih hb', gluedFront_hidden hc, glued_hidden hc]
    | true =>
      rw [spaced, spaced, if_pos hc, if_pos hc, gluedFront_visible hc, glued_visible hc, not_or, List.cons.injEq, Prod.mk.injEq, ih id]
      have hsame : c = c ∧ b = b' ↔ ¬ (b = true ∧ b' = false) := by
        cases b <;> cases b' <;> simp at hb ⊢
      rw [hsame]

/-- Letters that are neither visible nor blank may be left out, blanks of the wide kind with them. -/
theorem spaced_filter {keep : α → Bool} (hvis : ∀ c, vis c = true → keep c = true) (hnarrow : ∀ c, narrow c = true → keep c = true)
    (hwide : ∀ c, keep c = true → wide c = narrow c) (b : Bool) (s : List α) :
    spaced vis wide b (s.filter keep) = spaced vis narrow b s := by
  induction s generalizing b with
  | nil => rfl
  | cons c s ih =>
    cases hkeep : keep c with
    | true =>
      rw [List.filter_cons_of_pos hkeep, spaced, spaced, ih, ih, hwide c hkeep]
    | false =>
      have hhidden : vis c = false := Bool.eq_false_iff.mpr fun h => by
        rw [hvis c h] at hkeep
        cases hkeep
      have hnot : narrow c = false := Bool.eq_false_iff.mpr fun h => by
        rw [hnarrow c h] at hkeep
        cases hkeep
      rw [List.filter_cons_of_neg (by rw [hkeep]; nofun), spaced, if_neg (by rw [hhidden]; nofun), hnot, Bool.or_false, ih]

end Floofclaw.Lib
