import Mathlib.Data.List.Sort
import Floofclaw.Lib.Bytes

/-!
# Byte strings in order

The order of `strcmp`, and lists sorted by it. On decimal texts of one length it
is the order of the numbers.
-/

set_option autoImplicit false

namespace Floofclaw.Lib

/-- `strcmp(s, t) <= 0`. -/
def strcmpLe : Bytes → Bytes → Bool
  | [], _ => true
  | _ :: _, [] => false
  | a :: s, b :: t => a < b || (a = b && strcmpLe s t)

theorem byte_trichotomy (a b : Byte) : a < b ∨ a = b ∨ b < a := by
  simp only [UInt8.lt_iff_toNat_lt, ← UInt8.toNat_inj]
  omega

theorem strcmpLe_total (s t : Bytes) : strcmpLe s t = true ∨ strcmpLe t s = true := by
  induction s generalizing t with
  | nil => exact .inl rfl
  | cons a s ih =>
    cases t with
    | nil => exact .inr rfl
    | cons b t =>
      simp only [strcmpLe, Bool.or_eq_true, Bool.and_eq_true, decide_eq_true_eq]
      rcases byte_trichotomy a b with h | rfl | h
      · exact .inl (.inl h)
      · rcases ih t with h | h
        · exact .inl (.inr ⟨rfl, h⟩)
        · exact .inr (.inr ⟨rfl, h⟩)
      · exact .inr (.inl h)

theorem strcmpLe_trans {s t u : Bytes} (h1 : strcmpLe s t = true) (h2 : strcmpLe t u = true) : strcmpLe s u = true := by
  induction s generalizing t u with
  | nil => rfl
  | cons a s ih =>
    cases t with
    | nil => cases h1
    | cons b t =>
      cases u with
      | nil => cases h2
      | cons c u =>
        simp only [strcmpLe, Bool.or_eq_true, Bool.and_eq_true, decide_eq_true_eq] at *
        rcases h1 with h1 | ⟨rfl, h1⟩
        · rcases h2 with h2 | ⟨rfl, -⟩
          · exact .inl (UInt8.lt_trans h1 h2)
          · exact .inl h1
        · rcases h2 with h2 | ⟨rfl, h2⟩
          · exact .inl h2
          · exact .inr ⟨rfl, ih h1 h2⟩

theorem strcmpLe_antisymm {s t : Bytes} (h1 : strcmpLe s t = true) (h2 : strcmpLe t s = true) : s = t := by
  induction s generalizing t with
  | nil =>
    cases t with
    | nil => rfl
    | cons b t => cases h2
  | cons a s ih =>
    cases t with
    | nil => cases h1
    | cons b t =>
      simp only [strcmpLe, Bool.or_eq_true, Bool.and_eq_true, decide_eq_true_eq] at h1 h2
      rcases h1 with h1 | ⟨rfl, h1⟩
      · rcases h2 with h2 | ⟨rfl, -⟩
        · exact absurd h2 (UInt8.lt_asymm h1)
        · exact absurd h1 (UInt8.lt_irrefl _)
      · rcases h2 with h2 | ⟨-, h2⟩
        · exact absurd h2 (UInt8.lt_irrefl _)
        · rw [ih h1 h2]

instance : Std.Total fun s t : Bytes => strcmpLe s t = true := ⟨strcmpLe_total⟩

instance : IsTrans Bytes fun s t => strcmpLe s t = true := ⟨fun _ _ _ => strcmpLe_trans⟩

/-- `qsort` with `strcmp`. -/
def sortNames (names : List Bytes) : List Bytes := names.insertionSort fun s t => strcmpLe s t = true

theorem mem_sortNames {names : List Bytes} {s : Bytes} : s ∈ sortNames names ↔ s ∈ names := List.mem_insertionSort _

theorem sortNames_perm (names : List Bytes) : (sortNames names).Perm names := List.perm_insertionSort _ names

theorem sortNames_sorted (names : List Bytes) : (sortNames names).Pairwise fun s t => strcmpLe s t = true :=
  List.pairwise_insertionSort _ names

/-- Before a name in sorted order stand only names that are not above it. -/
theorem sorted_split {p q : List Bytes} {x y : Bytes} (h : (p ++ x :: q).Pairwise fun s t => strcmpLe s t = true)
    (hy : y ∈ p ++ x :: q) (hlt : strcmpLe x y = false) : y ∈ p := by
  have hself : strcmpLe x x = true := (strcmpLe_total x x).elim id id
  rcases List.mem_append.mp hy with hy | hy
  · exact hy
  · rcases List.mem_cons.mp hy with rfl | hy
    · rw [hself] at hlt
      cases hlt
    · have hle := (List.pairwise_cons.mp (List.pairwise_append.mp h).2.1).1 y hy
      rw [hle] at hlt
      cases hlt

end Floofclaw.Lib
