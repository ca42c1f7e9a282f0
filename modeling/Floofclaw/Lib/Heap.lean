import Mathlib

/-!
# Keeping the smallest of a stream

A binary max-heap in an array, and the selection it is used for: of a stream of
values the heap holds the `cap` with the smallest keys, its root being the one
that gives way. Positions past the end count as key zero.
-/

set_option autoImplicit false

namespace Floofclaw.Lib.Heap

variable {α : Type} (key : α → Nat)

def keyAt (heap : Array α) (i : Nat) : Nat := (heap[i]?.map key).getD 0

def parent (i : Nat) : Nat := (i - 1) / 2

/-- Moves the value at `index` up while it is above its parent. -/
def siftUp : Nat → Array α → Nat → Array α
  | 0, heap, _ => heap
  | fuel + 1, heap, index =>
    if index = 0 then heap
    else if keyAt key heap index ≤ keyAt key heap (parent index) then heap
    else siftUp fuel (heap.swapIfInBounds (parent index) index) (parent index)

def larger (heap : Array α) (i j : Nat) : Nat :=
  if j < heap.size ∧ keyAt key heap i < keyAt key heap j then j else i

/-- Moves the value at `index` down while it is below a child. -/
def siftDown : Nat → Array α → Nat → Array α
  | 0, heap, _ => heap
  | fuel + 1, heap, index =>
    let largest := larger key heap (larger key heap index (2 * index + 1)) (2 * index + 2)
    if largest = index then heap else siftDown fuel (heap.swapIfInBounds index largest) largest

/-- A value joins a heap with room, and takes the root's place in a full one if it is smaller. -/
def offer (cap : Nat) (heap : Array α) (x : α) : Array α :=
  if heap.size < cap then siftUp key heap.size (heap.push x) heap.size
  else if 0 < cap ∧ key x < keyAt key heap 0 then siftDown key heap.size (heap.setIfInBounds 0 x) 0
  else heap

/-! ## Order -/

def Ordered (heap : Array α) : Prop := ∀ i, 0 < i → keyAt key heap i ≤ keyAt key heap (parent i)

/-- In order but for the pair of `index` and its parent. -/
structure UpOrder (heap : Array α) (index : Nat) : Prop where
  except : ∀ i, 0 < i → i ≠ index → keyAt key heap i ≤ keyAt key heap (parent i)
  grand : ∀ i, 0 < i → 0 < index → parent i = index → keyAt key heap i ≤ keyAt key heap (parent index)

/-- In order but for the pairs of `index` and its children. -/
structure DownOrder (heap : Array α) (index : Nat) : Prop where
  except : ∀ i, 0 < i → parent i ≠ index → keyAt key heap i ≤ keyAt key heap (parent i)
  grand : ∀ i, 0 < i → 0 < index → parent i = index → keyAt key heap i ≤ keyAt key heap (parent index)

variable {key}

theorem keyAt_of_size_le {heap : Array α} {i : Nat} (h : heap.size ≤ i) : keyAt key heap i = 0 := by
  simp [keyAt, Array.getElem?_eq_none h]

theorem keyAt_of_lt {heap : Array α} {i : Nat} (h : i < heap.size) : keyAt key heap i = key heap[i] := by
  simp [keyAt, h]

theorem parent_lt {i : Nat} (h : 0 < i) : parent i < i := by
  unfold parent
  omega

theorem parent_left (i : Nat) : parent (2 * i + 1) = i := by
  unfold parent
  omega

theorem parent_right (i : Nat) : parent (2 * i + 2) = i := by
  unfold parent
  omega

theorem child_of_parent {i p : Nat} (h0 : 0 < i) (h : parent i = p) : i = 2 * p + 1 ∨ i = 2 * p + 2 := by
  unfold parent at h
  omega

theorem keyAt_swap (key : α → Nat) {heap : Array α} {i j : Nat} (hi : i < heap.size) (hj : j < heap.size) (k : Nat) :
    keyAt key (heap.swapIfInBounds i j) k =
      if k = i then keyAt key heap j else if k = j then keyAt key heap i else keyAt key heap k := by
  have hswap : heap.swapIfInBounds i j = heap.swap i j := by simp [Array.swapIfInBounds_def, hi, hj]
  rw [hswap, keyAt, Array.getElem?_swap]
  by_cases hki : k = i
  · subst hki
    by_cases hkj : k = j
    · subst hkj
      simp [keyAt, hi]
    · simp [keyAt, hj, Ne.symm hkj]
  · by_cases hkj : k = j
    · subst hkj
      simp [keyAt, hki, hi]
    · simp [keyAt, hki, hkj, Ne.symm hki, Ne.symm hkj]

theorem swap_perm (heap : Array α) (i j : Nat) : (heap.swapIfInBounds i j).toList.Perm heap.toList := by
  rw [Array.swapIfInBounds_def]
  split
  · split
    · rename_i hi hj
      exact Array.perm_iff_toList_perm.mp (Array.swap_perm hi hj)
    · exact .refl _
  · exact .refl _

/-! ## Sifting up -/

theorem UpOrder.move {heap : Array α} {index : Nat} (h : UpOrder key heap index) (h0 : 0 < index)
    (hin : index < heap.size) (habove : keyAt key heap (parent index) < keyAt key heap index) :
    UpOrder key (heap.swapIfInBounds (parent index) index) (parent index) := by
  have hp := parent_lt h0
  have hswap := keyAt_swap key (Nat.lt_trans hp hin) hin
  constructor
  · intro i hi hne
    rw [hswap i, hswap (parent i), if_neg hne]
    by_cases hix : i = index
    · subst hix
      rw [if_pos rfl, if_pos rfl]
      exact Nat.le_of_lt habove
    rw [if_neg hix]
    have hold := h.except i hi hix
    split
    · rename_i hpar
      rw [hpar] at hold
      omega
    · split
      · rename_i hpar
        exact h.grand i hi h0 hpar
      · exact hold
  · intro i hi hpos hpar
    have hpp := parent_lt hpos
    have hgrand := h.except (parent index) hpos (by omega)
    rw [hswap i, hswap (parent (parent index)), if_neg (by omega : parent (parent index) ≠ parent index),
      if_neg (by omega : parent (parent index) ≠ index), if_neg (by have := parent_lt hi; omega : i ≠ parent index)]
    split
    · exact hgrand
    · rename_i hix
      have hold := h.except i hi hix
      rw [hpar] at hold
      omega

theorem siftUp_ordered {fuel : Nat} {heap : Array α} {index : Nat} (h : UpOrder key heap index) (hin : index < heap.size)
    (hfuel : index ≤ fuel) : Ordered key (siftUp key fuel heap index) := by
  induction fuel generalizing heap index with
  | zero =>
    intro i hi
    exact h.except i hi (by omega)
  | succ fuel ih =>
    rw [siftUp]
    split
    · intro i hi
      exact h.except i hi (by omega)
    · rename_i h0
      split
      · rename_i hle
        intro i hi
        by_cases hix : i = index
        · exact hix ▸ hle
        · exact h.except i hi hix
      · rename_i hgt
        have hp := parent_lt (Nat.pos_of_ne_zero h0)
        exact ih (h.move (Nat.pos_of_ne_zero h0) hin (Nat.lt_of_not_le hgt)) (by simp; omega) (by omega)

theorem siftUp_perm (key : α → Nat) (fuel : Nat) (heap : Array α) (index : Nat) : (siftUp key fuel heap index).toList.Perm heap.toList := by
  induction fuel generalizing heap index with
  | zero => exact .refl _
  | succ fuel ih =>
    rw [siftUp]
    split
    · exact .refl _
    · split
      · exact .refl _
      · exact (ih _ _).trans (swap_perm _ _ _)

/-! ## Sifting down -/

theorem larger_cases (key : α → Nat) (heap : Array α) (i j : Nat) :
    (larger key heap i j = i ∧ keyAt key heap j ≤ keyAt key heap i) ∨
      (larger key heap i j = j ∧ j < heap.size ∧ keyAt key heap i < keyAt key heap j) := by
  unfold larger
  split
  · rename_i h
    exact .inr ⟨rfl, h⟩
  · rename_i h
    refine .inl ⟨rfl, ?_⟩
    by_cases hj : j < heap.size
    · exact Nat.le_of_not_lt fun hlt => h ⟨hj, hlt⟩
    · rw [keyAt_of_size_le (Nat.le_of_not_lt hj)]
      exact Nat.zero_le _

/-- The child that `sift_down` swaps with, if any. -/
theorem largest_cases (key : α → Nat) (heap : Array α) (index : Nat) :
    let largest := larger key heap (larger key heap index (2 * index + 1)) (2 * index + 2)
    (largest = index ∧ keyAt key heap (2 * index + 1) ≤ keyAt key heap index ∧
        keyAt key heap (2 * index + 2) ≤ keyAt key heap index) ∨
      ((largest = 2 * index + 1 ∨ largest = 2 * index + 2) ∧ largest < heap.size ∧
        keyAt key heap index < keyAt key heap largest ∧ keyAt key heap (2 * index + 1) ≤ keyAt key heap largest ∧
        keyAt key heap (2 * index + 2) ≤ keyAt key heap largest) := by
  intro largest
  have hlargest : larger key heap (larger key heap index (2 * index + 1)) (2 * index + 2) = largest := rfl
  rcases larger_cases key heap index (2 * index + 1) with ⟨h1, hle⟩ | ⟨h1, hin, hlt⟩
  · rw [h1] at hlargest
    rcases larger_cases key heap index (2 * index + 2) with ⟨h2, hle2⟩ | ⟨h2, hin2, hlt2⟩
    · exact .inl ⟨hlargest ▸ h2, hle, hle2⟩
    · have hl : largest = 2 * index + 2 := hlargest ▸ h2
      rw [hl]
      exact .inr ⟨.inr rfl, hin2, hlt2, by omega, Nat.le_refl _⟩
  · rw [h1] at hlargest
    rcases larger_cases key heap (2 * index + 1) (2 * index + 2) with ⟨h2, hle2⟩ | ⟨h2, hin2, hlt2⟩
    · have hl : largest = 2 * index + 1 := hlargest ▸ h2
      rw [hl]
      exact .inr ⟨.inl rfl, hin, hlt, Nat.le_refl _, hle2⟩
    · have hl : largest = 2 * index + 2 := hlargest ▸ h2
      rw [hl]
      exact .inr ⟨.inr rfl, hin2, by omega, by omega, Nat.le_refl _⟩

theorem DownOrder.move {heap : Array α} {index largest : Nat} (h : DownOrder key heap index)
    (hchild : largest = 2 * index + 1 ∨ largest = 2 * index + 2) (hin : largest < heap.size)
    (hbelow : keyAt key heap index < keyAt key heap largest) (hleft : keyAt key heap (2 * index + 1) ≤ keyAt key heap largest)
    (hright : keyAt key heap (2 * index + 2) ≤ keyAt key heap largest) :
    DownOrder key (heap.swapIfInBounds index largest) largest := by
  have hpar : parent largest = index := by
    rcases hchild with rfl | rfl
    · exact parent_left index
    · exact parent_right index
  have hlt : index < largest := by omega
  have hswap := keyAt_swap key (Nat.lt_trans hlt hin) hin
  constructor
  · intro i hi hne
    rw [hswap i, hswap (parent i), if_neg hne]
    by_cases hii : i = index
    · subst hii
      rw [if_pos rfl, if_neg (by have := parent_lt hi; omega : parent i ≠ i)]
      exact h.grand largest (by omega) hi hpar
    rw [if_neg hii]
    by_cases hil : i = largest
    · subst hil
      rw [if_pos rfl, if_pos hpar]
      omega
    rw [if_neg hil]
    split
    · rename_i hpi
      rcases child_of_parent hi hpi with rfl | rfl
      · exact hleft
      · exact hright
    · rename_i hpi
      exact h.except i hi hpi
  · intro i hi _ hpi
    have hil := parent_lt hi
    rw [hswap i, hswap (parent largest), hpar, if_pos rfl, if_neg (by omega : i ≠ index), if_neg (by omega : i ≠ largest)]
    have hold := h.except i hi (by omega)
    rwa [hpi] at hold

theorem DownOrder.ordered {heap : Array α} {index : Nat} (h : DownOrder key heap index)
    (hleft : keyAt key heap (2 * index + 1) ≤ keyAt key heap index)
    (hright : keyAt key heap (2 * index + 2) ≤ keyAt key heap index) : Ordered key heap := by
  intro i hi
  by_cases hpi : parent i = index
  · rw [hpi]
    rcases child_of_parent hi hpi with rfl | rfl
    · exact hleft
    · exact hright
  · exact h.except i hi hpi

theorem siftDown_ordered {fuel : Nat} {heap : Array α} {index : Nat} (h : DownOrder key heap index)
    (hfuel : heap.size ≤ index + fuel) : Ordered key (siftDown key fuel heap index) := by
  induction fuel generalizing heap index with
  | zero =>
    have hleft : keyAt key heap (2 * index + 1) = 0 := keyAt_of_size_le (by omega)
    have hright : keyAt key heap (2 * index + 2) = 0 := keyAt_of_size_le (by omega)
    exact h.ordered (by omega) (by omega)
  | succ fuel ih =>
    rw [siftDown]
    rcases largest_cases key heap index with ⟨heq, hleft, hright⟩ | ⟨hchild, hin, hbelow, hleft, hright⟩
    · rw [if_pos heq]
      exact h.ordered hleft hright
    · rw [if_neg (by omega)]
      exact ih (h.move hchild hin hbelow hleft hright) (by simp; omega)

theorem siftDown_perm (key : α → Nat) (fuel : Nat) (heap : Array α) (index : Nat) :
    (siftDown key fuel heap index).toList.Perm heap.toList := by
  induction fuel generalizing heap index with
  | zero => exact .refl _
  | succ fuel ih =>
    rw [siftDown]
    split
    · exact .refl _
    · exact (ih _ _).trans (swap_perm _ _ _)

/-! ## The selection -/

theorem Ordered.root {heap : Array α} (h : Ordered key heap) (i : Nat) : keyAt key heap i ≤ keyAt key heap 0 := by
  induction i using Nat.strongRecOn with
  | _ i ih =>
    by_cases hi : 0 < i
    · exact Nat.le_trans (h i hi) (ih (parent i) (parent_lt hi))
    · obtain rfl := Nat.eq_zero_of_not_pos hi
      exact Nat.le_refl _

theorem Ordered.root_mem {heap : Array α} (h : Ordered key heap) {x : α} (hx : x ∈ heap.toList) :
    key x ≤ keyAt key heap 0 := by
  obtain ⟨i, hi, rfl⟩ := List.getElem_of_mem hx
  have hroot := h.root i
  rwa [keyAt_of_lt (by simpa using hi)] at hroot

/-- The heap holds the smallest of what it was offered, and everything while it has room. -/
structure Holds (key : α → Nat) (cap : Nat) (seen : List α) (heap : Array α) : Prop where
  ordered : Ordered key heap
  fits : heap.size ≤ cap
  smallest : ∃ rest, (heap.toList ++ rest).Perm seen ∧ (heap.size < cap → rest = []) ∧
    ∀ x ∈ heap.toList, ∀ y ∈ rest, key x ≤ key y

theorem Holds.push {cap : Nat} {seen : List α} {heap : Array α} (h : Holds key cap seen heap) (hroom : heap.size < cap)
    (x : α) : Holds key cap (seen ++ [x]) (siftUp key heap.size (heap.push x) heap.size) := by
  have hperm := siftUp_perm key heap.size (heap.push x) heap.size
  have hup : UpOrder key (heap.push x) heap.size := by
    constructor
    · intro i hi hne
      by_cases hin : i < heap.size
      · have hp := parent_lt hi
        have hold := h.ordered i hi
        rw [keyAt_of_lt hin, keyAt_of_lt (by omega)] at hold
        rw [keyAt_of_lt (by simp; omega), keyAt_of_lt (by simp; omega), Array.getElem_push_lt hin,
          Array.getElem_push_lt (by omega)]
        exact hold
      · rw [keyAt_of_size_le (by simp; omega)]
        exact Nat.zero_le _
    · intro i hi _ hpar
      have := parent_lt hi
      rw [keyAt_of_size_le (by simp; omega)]
      exact Nat.zero_le _
  obtain ⟨rest, hseen, hall, -⟩ := h.smallest
  obtain rfl := hall hroom
  have hsize := hperm.length_eq
  simp only [Array.length_toList, Array.size_push] at hsize
  refine ⟨siftUp_ordered hup (by simp) (Nat.le_refl _), by omega, [], ?_, fun _ => rfl, by simp⟩
  rw [List.append_nil] at hseen ⊢
  refine hperm.trans ?_
  rw [Array.toList_push]
  exact hseen.append_right _

theorem Holds.replace {cap : Nat} {seen : List α} {heap : Array α} (h : Holds key cap seen heap) (hfull : ¬ heap.size < cap)
    (hcap : 0 < cap) {x : α} (hlt : key x < keyAt key heap 0) :
    Holds key cap (seen ++ [x]) (siftDown key heap.size (heap.setIfInBounds 0 x) 0) := by
  have hpos : 0 < heap.size := by omega
  have hperm := siftDown_perm key heap.size (heap.setIfInBounds 0 x) 0
  have hother : ∀ i, 0 < i → keyAt key (heap.setIfInBounds 0 x) i = keyAt key heap i := by
    intro i hi
    rw [keyAt, Array.getElem?_setIfInBounds, if_neg (by omega)]
    rfl
  have hdown : DownOrder key (heap.setIfInBounds 0 x) 0 := by
    refine ⟨?_, fun i _ h0 _ => absurd h0 (Nat.lt_irrefl 0)⟩
    intro i hi hpar
    rw [hother i hi, hother (parent i) (Nat.pos_of_ne_zero hpar)]
    exact h.ordered i hi
  obtain ⟨rest, hseen, -, hle⟩ := h.smallest
  have hsize := hperm.length_eq
  simp only [Array.length_toList, Array.size_setIfInBounds] at hsize
  have hfits := h.fits
  -- the root leaves the heap and the new value takes its place
  obtain ⟨root, tail, htail⟩ : ∃ root tail, heap.toList = root :: tail :=
    List.exists_cons_of_length_pos (by simpa using hpos)
  have hroot : keyAt key heap 0 = key root := by
    rw [keyAt, ← Array.getElem?_toList, htail]
    rfl
  have hset : (heap.setIfInBounds 0 x).toList = x :: tail := by
    rw [Array.toList_setIfInBounds, htail]
    rfl
  rw [hset] at hperm
  have hmax : ∀ y ∈ heap.toList, key y ≤ key root := fun y hy => hroot ▸ h.ordered.root_mem hy
  refine ⟨siftDown_ordered hdown (by simp), by omega, root :: rest, ?_, fun hroom => by omega, ?_⟩
  · have hmoved : (x :: tail ++ root :: rest).Perm ((root :: tail ++ rest) ++ [x]) := by
      refine List.Perm.trans ?_ (List.perm_append_comm : ([x] ++ (root :: tail ++ rest)).Perm _)
      exact List.Perm.cons x List.perm_middle
    rw [htail] at hseen
    exact (hperm.append_right _).trans (hmoved.trans (hseen.append_right _))
  · intro y hy z hz
    have hbound : ∀ w ∈ root :: rest, key root ≤ key w := by
      intro w hw
      rcases List.mem_cons.mp hw with rfl | hw
      · exact Nat.le_refl _
      · exact hle root (by rw [htail]; exact List.mem_cons_self) w hw
    have hz := hbound z hz
    rcases List.mem_cons.mp (hperm.mem_iff.mp hy) with rfl | hy
    · omega
    · exact Nat.le_trans (hmax y (by rw [htail]; exact List.mem_cons_of_mem _ hy)) hz

theorem Holds.refuse {cap : Nat} {seen : List α} {heap : Array α} (h : Holds key cap seen heap) (hfull : ¬ heap.size < cap)
    {x : α} (hge : ¬ (0 < cap ∧ key x < keyAt key heap 0)) : Holds key cap (seen ++ [x]) heap := by
  obtain ⟨rest, hseen, -, hle⟩ := h.smallest
  refine ⟨h.ordered, h.fits, rest ++ [x], ?_, fun hroom => absurd hroom hfull, ?_⟩
  · rw [← List.append_assoc]
    exact hseen.append_right _
  · intro y hy z hz
    rcases List.mem_append.mp hz with hz | hz
    · exact hle y hy z hz
    · obtain rfl := List.mem_singleton.mp hz
      have hroot := h.ordered.root_mem hy
      have hpos : 0 < heap.size := by
        have := List.length_pos_of_mem hy
        simpa using this
      have hfits := h.fits
      have := fun hlt => hge ⟨by omega, hlt⟩
      omega

theorem Holds.offer {cap : Nat} {seen : List α} {heap : Array α} (h : Holds key cap seen heap) (x : α) :
    Holds key cap (seen ++ [x]) (offer key cap heap x) := by
  unfold Heap.offer
  split
  · rename_i hroom
    exact h.push hroom x
  · rename_i hfull
    split
    · rename_i hlt
      exact h.replace hfull hlt.1 hlt.2
    · rename_i hge
      exact h.refuse hfull hge

theorem holds_foldl (key : α → Nat) (cap : Nat) (xs : List α) : Holds key cap xs (xs.foldl (offer key cap) #[]) := by
  have hstart : Holds key cap [] (#[] : Array α) :=
    ⟨fun i _ => by simp [keyAt], Nat.zero_le _, [], .refl _, fun _ => rfl, by simp⟩
  have hall : ∀ (ys seen : List α) (heap : Array α), Holds key cap seen heap →
      Holds key cap (seen ++ ys) (ys.foldl (Heap.offer key cap) heap) := by
    intro ys
    induction ys with
    | nil =>
      intro seen heap h
      rw [List.append_nil]
      exact h
    | cons y ys ih =>
      intro seen heap h
      have hnext := ih (seen ++ [y]) _ (h.offer y)
      rwa [List.append_assoc] at hnext
  exact hall xs [] #[] hstart

end Floofclaw.Lib.Heap
