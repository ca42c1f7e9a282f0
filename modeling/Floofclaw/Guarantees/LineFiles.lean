import Floofclaw.Lib.Lines
import Floofclaw.Source.LineFile
import Mathlib.Data.List.DropRight

/-!
# Whole lines of a file

A crash may leave the last line of a file without its newline. Truncation keeps
the lines that are ended, and a bounded read of the tail starts where a line does.
-/

set_option autoImplicit false

namespace Floofclaw.Guarantees.LineFiles
open Floofclaw.Lib Floofclaw.Source.LineFile

/-! ## Texts of whole lines -/

/-- The text is empty or ends with a newline: a line may start behind it. -/
def EndsLine (p : Bytes) : Prop := p = [] ∨ ∃ q, p = q ++ [ch '\n']

theorem unlines_lined (t : Bytes) : unlines (lined t).ended ++ (lined t).rest = t := by
  induction t using List.reverseRecOn with
  | nil => rfl
  | append_singleton t c ih =>
    have hstep : lined (t ++ [c]) = (lined t).put c := lined_append t [c]
    rw [hstep, Lined.put]
    split
    · rename_i hc
      rw [List.append_nil, unlines_append, unlines_cons, unlines_nil, hc, ← List.append_assoc, ih]
    · rw [← List.append_assoc, ih]

theorem lined_clean (t : Bytes) : (∀ l ∈ (lined t).ended, ch '\n' ∉ l) ∧ ch '\n' ∉ (lined t).rest := by
  induction t using List.reverseRecOn with
  | nil => exact ⟨nofun, List.not_mem_nil⟩
  | append_singleton t c ih =>
    obtain ⟨hended, hrest⟩ := ih
    have hstep : lined (t ++ [c]) = (lined t).put c := lined_append t [c]
    rw [hstep, Lined.put]
    split
    · refine ⟨fun l hl => ?_, List.not_mem_nil⟩
      obtain hl | hl := List.mem_append.mp hl
      · exact hended l hl
      · rw [List.mem_singleton.mp hl]
        exact hrest
    · rename_i hc
      refine ⟨hended, fun hmem => ?_⟩
      obtain hin | hin := List.mem_append.mp hmem
      · exact hrest hin
      · exact hc (List.mem_singleton.mp hin).symm

theorem EndsLine.lined {p : Bytes} (h : EndsLine p) : (lined p).rest = [] := by
  obtain rfl | ⟨q, rfl⟩ := h
  · rfl
  · rw [lined_append]
    rfl

theorem endsLine_unlines (ls : List Bytes) : EndsLine (unlines ls) := by
  induction ls using List.reverseRecOn with
  | nil => exact .inl rfl
  | append_singleton ls l _ => exact .inr ⟨unlines ls ++ l, by simp [unlines_append]⟩

/-- No text of whole lines in front of a file is longer than its ended lines. -/
theorem endsLine_le {file p : Bytes} (hp : p <+: file) (h : EndsLine p) : p.length ≤ (unlines (lined file).ended).length := by
  obtain ⟨rest, rfl⟩ := hp
  have hwhole := unlines_lined p
  rw [h.lined, List.append_nil] at hwhole
  rw [lined_append_ended, unlines_append, hwhole, List.length_append]
  exact Nat.le_add_right _ _

theorem lined_whole {keep torn : Bytes} (hkeep : EndsLine keep) (htorn : ch '\n' ∉ torn) :
    unlines (lined (keep ++ torn)).ended = keep := by
  have hwhole := unlines_lined keep
  rw [hkeep.lined, List.append_nil] at hwhole
  rw [lined_part htorn, hwhole]

/-! ## The torn tail -/

theorem scanBlock_cases (block : Bytes) (i : Nat) :
    (∃ k, scanBlock block i = some (k + 1) ∧ k < i ∧ block[k]? = some (ch '\n') ∧
      ∀ j, k < j → j < i → block[j]? ≠ some (ch '\n')) ∨
    (scanBlock block i = none ∧ ∀ j, j < i → block[j]? ≠ some (ch '\n')) := by
  induction i with
  | zero => exact .inr ⟨rfl, fun j hj => absurd hj (Nat.not_lt_zero j)⟩
  | succ i ih =>
    by_cases hlast : block[i]? = some (ch '\n')
    · exact .inl ⟨i, if_pos hlast, Nat.lt_succ_self i, hlast, fun j hj hlt => by omega⟩
    have hstep : scanBlock block (i + 1) = scanBlock block i := if_neg hlast
    rw [hstep]
    obtain ⟨k, hk, hlt, hnl, hnone⟩ | ⟨hk, hnone⟩ := ih
    · refine .inl ⟨k, hk, by omega, hnl, fun j hj hj' => ?_⟩
      obtain rfl | hne := Nat.lt_succ_iff_lt_or_eq.mp hj' |>.symm
      · exact hlast
      · exact hnone j hj hne
    · refine .inr ⟨hk, fun j hj => ?_⟩
      obtain rfl | hne := Nat.lt_succ_iff_lt_or_eq.mp hj |>.symm
      · exact hlast
      · exact hnone j hne

/-- The scan stops behind the last newline in front of the cursor, or at the front of the file. -/
theorem scanBack_last (file : Bytes) (cursor : Nat) (hcursor : cursor ≤ file.length) :
    scanBack file cursor ≤ cursor ∧
      (scanBack file cursor = 0 ∨ ∃ k, scanBack file cursor = k + 1 ∧ file[k]? = some (ch '\n')) ∧
      ∀ j, scanBack file cursor ≤ j → j < cursor → file[j]? ≠ some (ch '\n') := by
  induction cursor using Nat.strongRecOn with
  | ind cursor ih =>
    rw [scanBack.eq_def]
    split
    · rename_i hpos
      dsimp only
      generalize hwant : (if cursor > blockSize then blockSize else cursor) = want
      have hsome : 0 < want ∧ want ≤ cursor := by
        rw [← hwant, blockSize]
        split <;> omega
      -- an octet of the block is one of the file
      have hblock : ∀ j, j < want → ((file.drop (cursor - want)).take want)[j]? = file[cursor - want + j]? := by
        intro j hj
        rw [List.getElem?_take_of_lt hj, List.getElem?_drop]
      obtain ⟨k, hk, hlt, hnl, hnone⟩ | ⟨hk, hnone⟩ := scanBlock_cases ((file.drop (cursor - want)).take want) want
      · simp only [hk]
        refine ⟨by omega, .inr ⟨cursor - want + k, rfl, by rw [← hblock k hlt, hnl]⟩, fun j hj hj' => ?_⟩
        have := hnone (j - (cursor - want)) (by omega) (by omega)
        rwa [hblock _ (by omega), show cursor - want + (j - (cursor - want)) = j by omega] at this
      · simp only [hk]
        obtain ⟨hle, hstop, hrest⟩ := ih (cursor - want) (by omega) (by omega)
        refine ⟨by omega, hstop, fun j hj hj' => ?_⟩
        by_cases hin : j < cursor - want
        · exact hrest j hj hin
        have := hnone (j - (cursor - want)) (by omega)
        rwa [hblock _ (by omega), show cursor - want + (j - (cursor - want)) = j by omega] at this
    · rename_i hzero
      exact ⟨Nat.zero_le _, .inl rfl, fun j _ hj => by omega⟩

/-- Truncation keeps the lines that are ended, and nothing behind them. -/
theorem fsTruncateIncompleteLine_eq (file : Bytes) : fsTruncateIncompleteLine file = unlines (lined file).ended := by
  rw [fsTruncateIncompleteLine]
  split
  · rename_i hempty
    rw [List.length_eq_zero_iff.mp hempty]
    rfl
  · rename_i hpos
    split
    · rename_i hlast
      have hfile : file = file.take (file.length - 1) ++ [ch '\n'] := by
        obtain ⟨hlt, hget⟩ := List.getElem?_eq_some_iff.mp hlast
        conv => lhs; rw [← List.take_append_drop (file.length - 1) file, List.drop_eq_getElem_cons hlt, hget]
        rw [show file.length - 1 + 1 = file.length by omega, List.drop_length]
      have hends : EndsLine file := .inr ⟨_, hfile⟩
      have hwhole : unlines (lined (file ++ [])).ended = file := lined_whole hends List.not_mem_nil
      rw [List.append_nil] at hwhole
      exact hwhole.symm
    · obtain ⟨hle, hstop, hnone⟩ := scanBack_last file file.length (Nat.le_refl _)
      have hkeep : EndsLine (file.take (scanBack file file.length)) := by
        obtain hzero | ⟨k, hk, hnl⟩ := hstop
        · rw [hzero]
          exact .inl rfl
        · refine .inr ⟨file.take k, ?_⟩
          rw [hk, List.take_add_one, hnl]
          rfl
      have htorn : ch '\n' ∉ file.drop (scanBack file file.length) := by
        intro hmem
        obtain ⟨j, hj⟩ := List.mem_iff_getElem?.mp hmem
        rw [List.getElem?_drop] at hj
        obtain ⟨hlt, -⟩ := List.getElem?_eq_some_iff.mp hj
        exact hnone _ (Nat.le_add_right _ j) hlt hj
      have hwhole := lined_whole hkeep htorn
      rw [List.take_append_drop] at hwhole
      exact hwhole.symm

/-- What truncation leaves is the longest front of the file made of whole lines, a second
truncation changes nothing, and a line appended behind it is a line of its own. -/
theorem fsTruncateIncompleteLine_longest (file : Bytes) :
    fsTruncateIncompleteLine file <+: file ∧ EndsLine (fsTruncateIncompleteLine file) ∧
      (∀ p, p <+: file → EndsLine p → p.length ≤ (fsTruncateIncompleteLine file).length) ∧
      fsTruncateIncompleteLine (fsTruncateIncompleteLine file) = fsTruncateIncompleteLine file ∧
      ∀ l, ch '\n' ∉ l → lined (fsTruncateIncompleteLine file ++ (l ++ [ch '\n'])) = ⟨(lined file).ended ++ [l], []⟩ := by
  have hprefix : unlines (lined file).ended <+: file := ⟨(lined file).rest, unlines_lined file⟩
  have hends := endsLine_unlines (lined file).ended
  have hwhole : unlines (lined (unlines (lined file).ended ++ [])).ended = unlines (lined file).ended :=
    lined_whole hends List.not_mem_nil
  rw [List.append_nil] at hwhole
  simp only [fsTruncateIncompleteLine_eq]
  refine ⟨ hprefix, hends, fun p hp h => endsLine_le hp h, hwhole, fun l hl => ?_⟩
  rw [← List.append_assoc, lined_line hl, lined_unlines (lined_clean file).1, List.nil_append]

/-! ## The last records -/

/-- The text is the end of the file from the front or from behind a newline on, and no longer than `cap`. -/
structure Records (file : Bytes) (cap : Nat) (t : Bytes) : Prop where
  fits : t.length ≤ cap
  starts : ∃ front, file = front ++ t ∧ EndsLine front

/-- Records of a file that does not fit start behind a newline in reach of the bound. -/
theorem Records.newline {file t : Bytes} {cap start : Nat} (h : Records file cap t) (hcut : file.length - cap = start + 1) :
    ∃ j, file[j]? = some (ch '\n') ∧ start ≤ j ∧ t.length + (j + 1) = file.length := by
  obtain ⟨hfits, front, rfl, hfront⟩ := h
  rw [List.length_append] at hcut
  obtain rfl | ⟨q, rfl⟩ := hfront
  · rw [List.length_nil] at hcut
    omega
  · rw [List.length_append, List.length_singleton] at hcut
    refine ⟨q.length, by simp, by omega, ?_⟩
    simp only [List.length_append, List.length_singleton]
    omega

theorem dropWhile_line {l : Bytes} (hl : ch '\n' ∉ l) (text : Bytes) :
    (l ++ ch '\n' :: text).dropWhile (· != ch '\n') = ch '\n' :: text := by
  induction l with
  | nil => simp
  | cons c l ih =>
    have hc : c ≠ ch '\n' := fun h => hl (h ▸ List.mem_cons_self)
    rw [List.cons_append, List.dropWhile_cons, if_pos (by simpa using hc), ih fun h => hl (List.mem_cons_of_mem _ h)]

theorem fsReadTailCapped_whole {cap : Nat} {file : Bytes} (h : file.length ≤ cap) : fsReadTailCapped cap file = file := by
  rw [fsReadTailCapped, if_pos (.inl (by omega)), show file.length - cap = 0 by omega]
  rfl

theorem fsReadTailCapped_cut {cap start : Nat} {file : Bytes} (h : file.length - cap = start + 1) :
    fsReadTailCapped cap file = if file[start]? = some (ch '\n') then file.drop (start + 1)
      else ((file.drop (start + 1)).dropWhile (· != ch '\n')).drop 1 := by
  simp only [fsReadTailCapped, h, Nat.add_one_ne_zero, false_or, Nat.add_sub_cancel]

/-- The records a cut read starts with: those behind the first newline of the window. -/
theorem fsReadTail_behind {file : Bytes} {cap start : Nat} (hcut : file.length - cap = start + 1)
    (hbefore : file[start]? ≠ some (ch '\n')) :
    (∃ line, ch '\n' ∉ line ∧ file = file.take (start + 1) ++ line ++ ch '\n' :: fsReadTailCapped cap file) ∨
      (ch '\n' ∉ file.drop (start + 1) ∧ fsReadTailCapped cap file = []) := by
  rw [fsReadTailCapped_cut hcut, if_neg hbefore]
  by_cases hmem : ch '\n' ∈ file.drop (start + 1)
  · obtain ⟨line, behind, hsplit, hline⟩ := List.eq_append_cons_of_mem hmem
    refine .inl ⟨line, hline, ?_⟩
    rw [hsplit, dropWhile_line hline, List.drop_one, List.tail_cons, List.append_assoc, ← hsplit,
      List.take_append_drop]
  · refine .inr ⟨hmem, ?_⟩
    have hall : ∀ c ∈ file.drop (start + 1), (c != ch '\n') = true := by
      intro c hc
      rw [bne_iff_ne]
      exact fun h => hmem (h ▸ hc)
    rw [List.dropWhile_eq_nil_iff.mpr hall]
    rfl

/-- A bounded read of the tail returns the longest records of the file, or nothing where there are none. -/
theorem fsReadTail_longest (file : Bytes) (maxBytes : Nat) :
    (Records file (readCap maxBytes) (fsReadTail file maxBytes) ∨
      fsReadTail file maxBytes = [] ∧ ∀ t, ¬ Records file (readCap maxBytes) t) ∧
    ∀ t, Records file (readCap maxBytes) t → t.length ≤ (fsReadTail file maxBytes).length := by
  rw [fsReadTail]
  generalize readCap maxBytes = cap
  by_cases hwhole : file.length ≤ cap
  · rw [fsReadTailCapped_whole hwhole]
    refine ⟨.inl ⟨hwhole, [], rfl, .inl rfl⟩, fun t ht => ?_⟩
    obtain ⟨-, front, rfl, -⟩ := ht
    rw [List.length_append]
    exact Nat.le_add_left _ _
  obtain ⟨start, hcut⟩ : ∃ start, file.length - cap = start + 1 := ⟨file.length - cap - 1, by omega⟩
  by_cases hbefore : file[start]? = some (ch '\n')
  · have hlen : (file.drop (start + 1)).length = cap := by
      rw [List.length_drop]
      omega
    rw [fsReadTailCapped_cut hcut, if_pos hbefore]
    refine ⟨.inl ⟨Nat.le_of_eq hlen, file.take (start + 1), (List.take_append_drop _ _).symm, .inr ⟨file.take start, ?_⟩⟩,
      fun t ht => hlen ▸ ht.fits⟩
    rw [List.take_add_one, hbefore]
    rfl
  -- every newline in reach lies in the window
  have hin : ∀ t, Records file cap t → ∃ j, file[j]? = some (ch '\n') ∧ start + 1 ≤ j ∧ t.length + (j + 1) = file.length := by
    intro t ht
    obtain ⟨j, hnl, hle, hlen⟩ := ht.newline hcut
    refine ⟨j, hnl, ?_, hlen⟩
    obtain rfl | hlt := Nat.eq_or_lt_of_le hle
    · exact absurd hnl hbefore
    · exact hlt
  obtain ⟨line, hline, hsplit⟩ | ⟨hnone, hempty⟩ := fsReadTail_behind hcut hbefore
  · have hfront : (file.take (start + 1)).length = start + 1 := by
      rw [List.length_take]
      omega
    have hlen := congrArg List.length hsplit
    simp only [List.length_append, List.length_cons, hfront] at hlen
    refine ⟨.inl ⟨by omega, file.take (start + 1) ++ line ++ [ch '\n'], ?_, .inr ⟨_, rfl⟩⟩, fun t ht => ?_⟩
    · rw [List.append_assoc, List.singleton_append]
      exact hsplit
    · obtain ⟨j, hnl, hle, htlen⟩ := hin t ht
      by_cases hinside : j < start + 1 + line.length
      · refine absurd (List.mem_of_getElem? (i := j - (start + 1)) ?_) hline
        rw [hsplit, List.append_assoc, List.getElem?_append_right (by omega), hfront,
          List.getElem?_append_left (by omega)] at hnl
        exact hnl
      · omega
  · rw [hempty]
    have hno : ∀ t, ¬ Records file cap t := by
      intro t ht
      obtain ⟨j, hnl, hle, -⟩ := hin t ht
      refine hnone (List.mem_of_getElem? (i := j - (start + 1)) ?_)
      rw [List.getElem?_drop, show start + 1 + (j - (start + 1)) = j by omega, hnl]
    exact ⟨.inr ⟨rfl, hno⟩, fun t ht => absurd ht (hno t)⟩

end Floofclaw.Guarantees.LineFiles
