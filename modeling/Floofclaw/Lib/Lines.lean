import Floofclaw.Lib.Bytes

/-!
# Lines of a text file

`fgets` hands a file over in pieces: a piece ends behind a newline, where the
buffer is full, or at the end of the file. Whole lines that fit the buffer come
out one by one.
-/

set_option autoImplicit false

namespace Floofclaw.Lib

/-- What repeated `fgets` calls with a buffer of `cap` octets return, `piece` being read already. -/
def fgetsFrom (cap : Nat) : Bytes → Bytes → List Bytes
  | piece, [] => if piece = [] then [] else [piece]
  | piece, c :: text =>
    if c = ch '\n' ∨ piece.length + 2 ≥ cap then (piece ++ [c]) :: fgetsFrom cap [] text
    else fgetsFrom cap (piece ++ [c]) text

def fgetsLines (cap : Nat) (text : Bytes) : List Bytes := fgetsFrom cap [] text

/-- Lines, each with its newline. -/
def unlines (ls : List Bytes) : Bytes := (ls.map (· ++ [ch '\n'])).flatten

@[simp] theorem unlines_nil : unlines [] = [] := rfl

@[simp] theorem unlines_cons (l : Bytes) (ls : List Bytes) : unlines (l :: ls) = l ++ ch '\n' :: unlines ls := by
  simp [unlines]

theorem unlines_append (ls ms : List Bytes) : unlines (ls ++ ms) = unlines ls ++ unlines ms := by simp [unlines]

/-- A text in lines: those that a newline ends, and what stands behind the last newline. -/
structure Lined where
  ended : List Bytes
  rest : Bytes

def Lined.put (l : Lined) (c : Byte) : Lined :=
  if c = ch '\n' then ⟨l.ended ++ [l.rest], []⟩ else ⟨l.ended, l.rest ++ [c]⟩

def lined (t : Bytes) : Lined := t.foldl Lined.put ⟨[], []⟩

theorem lined_append (t u : Bytes) : lined (t ++ u) = u.foldl Lined.put (lined t) := List.foldl_append

/-- What has no newline goes to the line that is open. -/
theorem Lined.put_part {p : Bytes} (hp : ch '\n' ∉ p) (l : Lined) : p.foldl Lined.put l = ⟨l.ended, l.rest ++ p⟩ := by
  induction p generalizing l with
  | nil => simp
  | cons c p ih =>
    rw [List.mem_cons, not_or] at hp
    rw [List.foldl_cons, ih hp.2, Lined.put, if_neg fun h => hp.1 h.symm]
    simp

theorem lined_part {p : Bytes} (hp : ch '\n' ∉ p) (t : Bytes) : lined (t ++ p) = ⟨(lined t).ended, (lined t).rest ++ p⟩ := by
  rw [lined_append, Lined.put_part hp]

theorem lined_line {p : Bytes} (hp : ch '\n' ∉ p) (t : Bytes) :
    lined (t ++ p ++ [ch '\n']) = ⟨(lined t).ended ++ [(lined t).rest ++ p], []⟩ := by
  rw [lined_append, lined_part hp]
  rfl

/-- The lines that are ended already stay in front. -/
theorem Lined.fold_ended (t : Bytes) (ended : List Bytes) (rest : Bytes) :
    t.foldl Lined.put ⟨ended, rest⟩ = ⟨ended ++ (t.foldl Lined.put ⟨[], rest⟩).ended, (t.foldl Lined.put ⟨[], rest⟩).rest⟩ := by
  induction t generalizing ended rest with
  | nil => simp
  | cons c t ih =>
    rw [List.foldl_cons, List.foldl_cons]
    by_cases hc : c = ch '\n'
    · have hput : ∀ e, Lined.put ⟨e, rest⟩ c = ⟨e ++ [rest], []⟩ := fun _ => if_pos hc
      rw [hput, hput, ih (ended ++ [rest]), ih ([] ++ [rest])]
      simp
    · have hput : ∀ e, Lined.put ⟨e, rest⟩ c = ⟨e, rest ++ [c]⟩ := fun _ => if_neg hc
      rw [hput, hput]
      exact ih ended _

/-- What a text ends of the line that is open, and of its own. -/
theorem lined_append_ended (t u : Bytes) : lined (t ++ u) =
    ⟨(lined t).ended ++ (u.foldl Lined.put ⟨[], (lined t).rest⟩).ended, (u.foldl Lined.put ⟨[], (lined t).rest⟩).rest⟩ := by
  rw [lined_append]
  exact Lined.fold_ended u (lined t).ended (lined t).rest

theorem lined_rest_length (t : Bytes) : (lined t).rest.length ≤ t.length := by
  have hfold : ∀ (l : Lined), (t.foldl Lined.put l).rest.length ≤ l.rest.length + t.length := by
    induction t with
    | nil => simp
    | cons c t ih =>
      intro l
      refine Nat.le_trans (ih (l.put c)) ?_
      unfold Lined.put
      split
      · simp
        omega
      · simp
        omega
  simpa [lined] using hfold ⟨[], []⟩

/-- Lines that were laid down come back. -/
theorem lined_unlines {ls : List Bytes} (h : ∀ l ∈ ls, ch '\n' ∉ l) : lined (unlines ls) = ⟨ls, []⟩ := by
  have hfold : ∀ ended : List Bytes, (unlines ls).foldl Lined.put ⟨ended, []⟩ = ⟨ended ++ ls, []⟩ := by
    induction ls with
    | nil => simp
    | cons l ls ih =>
      intro ended
      obtain ⟨hl, hrest⟩ := List.forall_mem_cons.mp h
      rw [unlines_cons, List.foldl_append, Lined.put_part hl, List.foldl_cons, Lined.put, if_pos rfl, ih hrest]
      simp
  exact hfold []

/-- A line that comes out of the buffer as one piece. -/
def FitsLine (cap : Nat) (l : Bytes) : Prop := ch '\n' ∉ l ∧ l.length + 2 ≤ cap

theorem fgetsFrom_line {cap : Nat} {piece l : Bytes} (hl : ch '\n' ∉ l) (hfits : piece.length + l.length + 2 ≤ cap)
    (text : Bytes) : fgetsFrom cap piece (l ++ ch '\n' :: text) = (piece ++ l ++ [ch '\n']) :: fgetsFrom cap [] text := by
  induction l generalizing piece with
  | nil => simp [fgetsFrom]
  | cons c l ih =>
    have hc : ¬ c = ch '\n' := fun h => hl (h ▸ List.mem_cons_self)
    have hroom : ¬ piece.length + 2 ≥ cap := by
      rw [List.length_cons] at hfits
      omega
    rw [List.cons_append, fgetsFrom, if_neg (not_or.mpr ⟨hc, hroom⟩), ih (fun h => hl (List.mem_cons_of_mem _ h))]
    · simp
    · simp only [List.length_append, List.length_cons, List.length_nil] at hfits ⊢
      omega

/-- Whole lines come out one by one. -/
theorem fgetsLines_unlines {cap : Nat} {ls : List Bytes} (h : ∀ l ∈ ls, FitsLine cap l) :
    fgetsLines cap (unlines ls) = ls.map (· ++ [ch '\n']) := by
  induction ls with
  | nil => simp [fgetsLines, fgetsFrom]
  | cons l ls ih =>
    obtain ⟨hnl, hlen⟩ := h l List.mem_cons_self
    have hrest := ih fun m hm => h m (List.mem_cons_of_mem _ hm)
    unfold fgetsLines at hrest ⊢
    rw [unlines_cons, fgetsFrom_line hnl (by simpa using hlen), hrest]
    simp

/-- Texts that end where a letter stands that none of them holds are read back one by one. -/
theorem ended_inj {c : Byte} {e : Bytes} {ls ms : List Bytes} (hl : ∀ l ∈ ls, c ∉ l) (hm : ∀ m ∈ ms, c ∉ m)
    (h : ls.flatMap (· ++ c :: e) = ms.flatMap (· ++ c :: e)) : ls = ms := by
  induction ls generalizing ms with
  | nil =>
    cases ms with
    | nil => rfl
    | cons m ms =>
      rw [List.flatMap_nil, List.flatMap_cons, List.append_assoc, List.cons_append] at h
      exact absurd h.symm (by simp)
  | cons l ls ih =>
    cases ms with
    | nil =>
      rw [List.flatMap_nil, List.flatMap_cons, List.append_assoc, List.cons_append] at h
      exact absurd h (by simp)
    | cons m ms =>
      obtain ⟨hlhead, hlrest⟩ := List.forall_mem_cons.mp hl
      obtain ⟨hmhead, hmrest⟩ := List.forall_mem_cons.mp hm
      rw [List.flatMap_cons, List.flatMap_cons, List.append_assoc, List.append_assoc, List.cons_append, List.cons_append] at h
      have hfront : ∀ {x : Bytes}, c ∉ x → ∀ r, (x ++ c :: r).takeWhile (· ≠ c) = x := by
        intro x hx r
        have hother : ∀ d ∈ x, decide (d ≠ c) = true := fun d hd => decide_eq_true fun hdc : d = c => hx (hdc ▸ hd)
        rw [List.takeWhile_append_of_pos hother]
        simp
      have hhead : l = m := by
        rw [← hfront hlhead, h, hfront hmhead]
      subst hhead
      rw [List.append_cancel_left_eq, List.cons.injEq] at h
      rw [ih hlrest hmrest (List.append_cancel_left h.2)]

end Floofclaw.Lib
