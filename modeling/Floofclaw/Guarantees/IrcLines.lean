import Floofclaw.Lib.Lines
import Floofclaw.Lib.Pieces
import Floofclaw.Lib.Utf8
import Floofclaw.Lib.Words
import Floofclaw.Source.IrcOutput

/-!
# IRC lines

A message becomes whole lines that hold its sanitized text cut at spaces, or the
call fails. What the text has beyond the sanitizer's buffer is lost, a word
without a space in reach is cut at the limit, words that only a line break holds
apart run together, and the target goes out as it is.
-/

set_option autoImplicit false

namespace Floofclaw.Guarantees.IrcLines
open Floofclaw.Lib Floofclaw.Source.IrcOutput

/-! ## One cut -/

/-- A line has to be cut at the limit: there is no space in reach. -/
def HardCut (s : Bytes) : Prop := ircPrivmsgMaxChars < s.length ∧ ∀ i, 2 ≤ i → i ≤ ircPrivmsgMaxChars → s[i]? ≠ some (ch ' ')

theorem backToSpace_cases (s : Bytes) {n : Nat} (h : 0 < n) :
    (∃ i, 2 ≤ i ∧ i ≤ n ∧ s[i]? = some (ch ' ') ∧ backToSpace s n = i) ∨
      (backToSpace s n = 1 ∧ ∀ i, 2 ≤ i → i ≤ n → s[i]? ≠ some (ch ' ')) := by
  induction n with
  | zero => exact absurd h (Nat.lt_irrefl 0)
  | succ n ih =>
    cases n with
    | zero => exact .inr ⟨rfl, fun i h2 h1 => by omega⟩
    | succ n =>
      rw [backToSpace]
      split
      · exact .inl ⟨n + 2, by omega, Nat.le_refl _, ‹_›, rfl⟩
      · rcases ih (Nat.succ_pos n) with ⟨i, h2, hi, hspace, hback⟩ | ⟨hback, hnone⟩
        · exact .inl ⟨i, h2, by omega, hspace, hback⟩
        · refine .inr ⟨hback, fun i h2 hi => ?_⟩
          by_cases hlast : i = n + 2
          · rwa [hlast]
          · exact hnone i h2 (by omega)

/-- A line takes the whole text, ends in front of a space, or is cut at the limit. -/
theorem ircTake_cases (s : Bytes) :
    (s.length ≤ ircPrivmsgMaxChars ∧ ircTake s = s.length) ∨ (∃ i, s[i]? = some (ch ' ') ∧ ircTake s = i ∧ ¬ HardCut s) ∨
      (HardCut s ∧ ircTake s = ircPrivmsgMaxChars) := by
  have hmax : 0 < ircPrivmsgMaxChars := by decide
  unfold ircTake
  split
  · rename_i hlong
    rcases backToSpace_cases s hmax with ⟨i, h2, hi, hspace, hback⟩ | ⟨hback, hnone⟩
    · rw [hback, if_neg (by omega)]
      exact .inr (.inl ⟨i, hspace, rfl, fun hhard => hhard.2 i h2 hi hspace⟩)
    · rw [hback, if_pos rfl]
      exact .inr (.inr ⟨⟨hlong, hnone⟩, rfl⟩)
  · exact .inl ⟨Nat.le_of_not_lt ‹_›, rfl⟩

theorem ircTake_advances : Advances ircTake ircSkip where
  some s hs := (ircTake_bounds hs).1
  within s := by
    cases s with
    | nil => exact Nat.le_refl _
    | cons c s => exact (ircTake_bounds (List.cons_ne_nil c s)).2.1
  suffix s := List.dropWhile_suffix _

/-- Spaces and nothing else. -/
def Spaces (s : Bytes) : Prop := ∀ c ∈ s, c = ch ' '

theorem Spaces.append {s t : Bytes} (hs : Spaces s) (ht : Spaces t) : Spaces (s ++ t) := fun c hc => (List.mem_append.mp hc).elim (hs c) (ht c)

theorem Spaces.starts {s : Bytes} (h : Spaces s) : ∀ c ∈ s, isCont c = false := by
  intro c hc
  rw [h c hc]
  decide

/-- No code point lies across a cut at the limit. -/
def CleanCut (s : Bytes) : Prop := HardCut s → ¬ Straddles (s.take ircPrivmsgMaxChars) (s.drop ircPrivmsgMaxChars)

theorem cleanCut_iff (s : Bytes) : CleanCut s ↔ ¬ Straddles (s.take (ircTake s)) (s.drop (ircTake s)) := by
  rcases ircTake_cases s with ⟨hshort, htake⟩ | ⟨i, hspace, htake, hsoft⟩ | ⟨hhard, htake⟩
  · rw [htake, List.drop_length]
    exact iff_of_true (fun hhard => absurd hhard.1 (Nat.not_lt.mpr hshort)) (not_straddles .nil)
  · have hstart : AtStart (s.drop (ircTake s)) := by
      obtain ⟨hlt, hget⟩ := List.getElem?_eq_some_iff.mp hspace
      rw [htake, List.drop_eq_getElem_cons hlt, hget]
      exact .cons (by decide)
    exact iff_of_true (fun hhard => absurd hhard hsoft) (not_straddles hstart)
  · rw [htake]
    exact ⟨fun h => h hhard, fun h _ => h⟩

/-! ## The texts of a message -/

def ircPieces (s : Bytes) : List Bytes := pieces ircTake ircSkip s.length s

/-- What is left of a text where its lines start. -/
def ircStarts (s : Bytes) : List Bytes := starts ircTake ircSkip s.length s

theorem ircStarts_self {s : Bytes} (h : s ≠ []) : s ∈ ircStarts s := by
  cases s with
  | nil => exact absurd rfl h
  | cons c s => exact List.mem_cons_self

theorem ircPieces_size (s : Bytes) : ∀ p ∈ ircPieces s, p.length ≤ ircPrivmsgMaxChars := by
  refine pieces_forall (fun _ => True) _ (fun s hs _ => ⟨?_, trivial⟩) trivial
  rw [List.length_take]
  exact Nat.le_trans (Nat.min_le_left _ _) (ircTake_bounds hs).2.2

theorem ircSkip_split (s : Bytes) : ∃ g, Spaces g ∧ s = g ++ ircSkip s := by
  refine ⟨s.takeWhile (· = ch ' '), fun c hc => ?_, (List.takeWhile_append_dropWhile).symm⟩
  have hspace := List.mem_takeWhile_imp hc
  exact of_decide_eq_true hspace

theorem ircPieces_tile (s : Bytes) : Tiles Spaces s (ircPieces s) :=
  pieces_tile ircTake_advances ircSkip_split (Nat.le_refl _)

/-- A message cut into texts: spaces may be left out between two of them, and no code point is cut. -/
inductive Splits : Bytes → List Bytes → Prop
  | nil : Splits [] []
  | cons {p g s : Bytes} {ps : List Bytes} : Spaces g → ¬ Straddles p (g ++ s) → Splits s ps → Splits (p ++ (g ++ s)) (p :: ps)

/-- Nothing but spaces is left out. -/
theorem tiles_visible {s : Bytes} {ps : List Bytes} (h : Tiles Spaces s ps) : s.filter (· ≠ ch ' ') = ps.flatten.filter (· ≠ ch ' ') := by
  induction h with
  | nil => rfl
  | @cons p g s ps hg _ ih =>
    have hnone : g.filter (· ≠ ch ' ') = [] := List.filter_eq_nil_iff.mpr fun c hc => by simp [hg c hc]
    rw [List.filter_append, List.filter_append, hnone, List.nil_append, ih, List.flatten_cons, List.filter_append]

theorem Splits.tiles {s : Bytes} {ps : List Bytes} (h : Splits s ps) : Tiles Spaces s ps := by
  induction h with
  | nil => exact .nil
  | cons hg _ _ ih => exact .cons hg ih

/-- A text that does not start with a space. -/
def WordFirst (s : Bytes) : Prop := ∀ c t, s = c :: t → c ≠ ch ' '

theorem ircSkip_wordFirst (s : Bytes) : WordFirst (ircSkip s) := by
  intro c t h
  have hhead := List.head?_dropWhile_not (· = ch ' ') s
  rw [ircSkip] at h
  rw [h] at hhead
  simpa using hhead

theorem ircSkip_spaces {g s : Bytes} (hg : Spaces g) (hs : WordFirst s) : ircSkip (g ++ s) = s := by
  rw [ircSkip, List.dropWhile_append_of_pos fun c hc => decide_eq_true (hg c hc)]
  cases s with
  | nil => rfl
  | cons c s => rw [List.dropWhile_cons_of_neg (by simpa using hs c s rfl)]

/-- Cut cleanly, the pieces of a text split it, also with spaces behind it. -/
theorem splits_of_cuts {tail : Bytes} (htail : Spaces tail) {n : Nat} {s : Bytes} (hs : s ≠ []) (hn : s.length ≤ n)
    (hcuts : ∀ t ∈ starts ircTake ircSkip n s, CleanCut t) : Splits (s ++ tail) (pieces ircTake ircSkip n s) := by
  induction n generalizing s with
  | zero => exact absurd (List.length_eq_zero_iff.mp (Nat.le_zero.mp hn)) hs
  | succ n ih =>
    cases s with
    | nil => exact absurd rfl hs
    | cons c s =>
      rw [starts, List.forall_mem_cons] at hcuts
      obtain ⟨hcut, hrest⟩ := hcuts
      have hclean := (cleanCut_iff _).mp hcut
      have hshorter := ircTake_advances.shorter hs
      obtain ⟨g, hg, hskip⟩ := ircSkip_split ((c :: s).drop (ircTake (c :: s)))
      have hwhole : (c :: s) ++ tail = (c :: s).take (ircTake (c :: s)) ++ ((c :: s).drop (ircTake (c :: s)) ++ tail) := by
        rw [← List.append_assoc, List.take_append_drop]
      rw [← straddles_append htail.starts] at hclean
      rw [pieces, hwhole]
      by_cases hend : ircSkip ((c :: s).drop (ircTake (c :: s))) = []
      · have hspaces : Spaces ((c :: s).drop (ircTake (c :: s)) ++ tail) := by
          rw [hskip, hend, List.append_nil]
          exact hg.append htail
        have hlast : pieces ircTake ircSkip n (ircSkip ((c :: s).drop (ircTake (c :: s)))) = [] := by
          rw [hend]
          cases n <;> rfl
        rw [hlast]
        have hone := Splits.cons (p := (c :: s).take (ircTake (c :: s))) hspaces (by rw [List.append_nil]; exact hclean) .nil
        rwa [List.append_nil] at hone
      · have hmore := ih hend (by omega) hrest
        rw [hskip, List.append_assoc] at hclean ⊢
        rw [ircSkip_spaces hg (ircSkip_wordFirst _)]
        exact .cons hg hclean hmore

/-- The pieces of a text split it only if the cuts are clean. -/
theorem cuts_of_splits {tail : Bytes} (htail : Spaces tail) {n : Nat} {s : Bytes} (hn : s.length ≤ n)
    (h : Splits (s ++ tail) (pieces ircTake ircSkip n s)) : ∀ t ∈ starts ircTake ircSkip n s, CleanCut t := by
  induction n generalizing s with
  | zero => simp [starts]
  | succ n ih =>
    cases s with
    | nil => simp [starts]
    | cons c s =>
      have hne := List.cons_ne_nil c s
      have hshorter := ircTake_advances.shorter hne
      rw [pieces] at h
      rw [starts, List.forall_mem_cons]
      generalize hw : (c :: s) ++ tail = w at h
      cases h with
      | @cons _ g s' _ hg hclean hrest =>
        have hsplit : (c :: s).drop (ircTake (c :: s)) ++ tail = g ++ s' := by
          have hwhole : (c :: s).take (ircTake (c :: s)) ++ ((c :: s).drop (ircTake (c :: s)) ++ tail) = (c :: s) ++ tail := by
            rw [← List.append_assoc, List.take_append_drop]
          exact List.append_cancel_left (hwhole.trans hw)
        rw [← hsplit, straddles_append htail.starts] at hclean
        refine ⟨(cleanCut_iff _).mpr hclean, ?_⟩
        by_cases hend : ircSkip ((c :: s).drop (ircTake (c :: s))) = []
        · rw [hend]
          cases n <;> simp [starts]
        · obtain ⟨g', hg', hskip⟩ := ircSkip_split ((c :: s).drop (ircTake (c :: s)))
          have hword := ircSkip_wordFirst ((c :: s).drop (ircTake (c :: s)))
          generalize ircSkip ((c :: s).drop (ircTake (c :: s))) = t at hend hskip hword hrest hshorter ⊢
          -- both what was skipped and what the split leaves out end where the next word starts
          have hfirst : WordFirst s' := by
            cases t with
            | nil => exact absurd rfl hend
            | cons d t =>
              have hsome := (ircTake_bounds hend).1
              cases n with
              | zero => exact absurd hshorter (by simp only [List.length_cons] at hn ⊢; omega)
              | succ n =>
                rw [pieces] at hrest
                cases hrest with
                | @cons p _ _ _ _ _ _ =>
                  intro e u he
                  obtain ⟨k, hk⟩ : ∃ k, ircTake (d :: t) = k + 1 := ⟨ircTake (d :: t) - 1, by omega⟩
                  rw [hk, List.take_succ_cons, List.cons_append, List.cons.injEq] at he
                  rw [← he.1]
                  exact hword d t rfl
          have hfirst' : WordFirst (t ++ tail) := by
            intro e u he
            cases t with
            | nil => exact absurd rfl hend
            | cons d t =>
              rw [List.cons_append, List.cons.injEq] at he
              rw [← he.1]
              exact hword d t rfl
          have hsame : t ++ tail = s' := by
            rw [hskip, List.append_assoc] at hsplit
            rw [← ircSkip_spaces hg' hfirst', hsplit, ircSkip_spaces hg hfirst]
          rw [← hsame] at hrest
          exact ih (by omega) hrest

/-! ## Sanitized text -/

def ircClean (text : Bytes) : Bytes := text.filter isPrintable

theorem sanitizeLoop_eq {dstLen : Nat} {s dst : Bytes} (h : dst.length < dstLen) :
    sanitizeLoop dstLen s dst = (dst ++ s.filter isPrintable).take (dstLen - 1) := by
  induction s generalizing dst with
  | nil => rw [sanitizeLoop, List.filter_nil, List.append_nil, List.take_of_length_le (by omega)]
  | cons c s ih =>
    rw [sanitizeLoop]
    split
    · cases hkeep : isPrintable c with
      | true =>
        rw [if_pos rfl, ih (by rw [List.length_append, List.length_singleton]; omega), List.filter_cons_of_pos hkeep, List.append_assoc,
          List.singleton_append]
      | false => rw [if_neg nofun, ih h, List.filter_cons_of_neg (by rw [hkeep]; nofun)]
    · have hfull : dst.length = dstLen - 1 := by omega
      rw [← hfull, List.take_left]

/-- What of the sanitized text the buffer holds. -/
def ircSent (text : Bytes) : Bytes := (ircClean text).take 8191

/-- What it does not hold. -/
def ircCut (text : Bytes) : Bytes := (ircClean text).drop 8191

theorem sanitizeForIrc_eq {text : Bytes} (h : NulFree text) : sanitizeForIrc (ircLineMax * 4) text = ircSent text := by
  rw [sanitizeForIrc, cstr_eq_self h, sanitizeLoop_eq (by decide), List.nil_append]
  rfl

theorem ircSent_printable (text : Bytes) : ∀ c ∈ ircSent text, isPrintable c = true := fun _ hc =>
  (List.mem_filter.mp (List.mem_of_mem_take hc)).2

/-- A letter one sees. -/
def isVisible (c : Byte) : Bool := 33 ≤ c && c ≠ 127

/-- White space, line breaks with it. -/
def isWordBreak (c : Byte) : Bool := c = ch ' ' || (9 ≤ c && c ≤ 13)

theorem printable_table (c : Byte) : (isVisible c = true → isPrintable c = true) ∧ (c = ch ' ' → isPrintable c = true) ∧
    (isPrintable c = true → isWordBreak c = decide (c = ch ' ')) := by
  have htable : ∀ n : Fin 256, (isVisible (UInt8.ofNat n) = true → isPrintable (UInt8.ofNat n) = true) ∧
      (UInt8.ofNat n = ch ' ' → isPrintable (UInt8.ofNat n) = true) ∧
      (isPrintable (UInt8.ofNat n) = true → isWordBreak (UInt8.ofNat n) = decide (UInt8.ofNat n = ch ' ')) := by decide +kernel
  have hc := htable ⟨c.toNat, c.toNat_lt⟩
  simpa only [UInt8.ofNat_toNat] using hc

example : isVisible (ch ' ') = false ∧ isPrintable (ch ' ') = true := by decide +kernel

/-- The sanitizer runs words together exactly where only a line break or a tab held them apart. -/
theorem ircClean_spacing (text : Bytes) :
    spaced isVisible isWordBreak true (ircClean text) = spaced isVisible isWordBreak true text ↔ ¬ Glued isVisible isWordBreak (· = ch ' ') text := by
  have hclean : spaced isVisible isWordBreak true (ircClean text) = spaced isVisible (· = ch ' ') true text :=
    spaced_filter (fun c => (printable_table c).1) (fun c hc => (printable_table c).2.1 (of_decide_eq_true hc)) (fun c => (printable_table c).2.2)
      true text
  have hsub : ∀ c : Byte, decide (c = ch ' ') = true → isWordBreak c = true := fun c hc => by rw [isWordBreak, hc, Bool.true_or]
  rw [hclean, eq_comm, spaced_eq_iff hsub id]
  refine and_iff_right ?_
  rintro ⟨g, y, v, -, -, -, -, hb, -⟩
  cases hb

/-! ## The transmit buffer -/

def crlf : Bytes := lit "\r\n"

/-- The octets of the lines that carry the given texts. -/
def wire (target : Bytes) (ps : List Bytes) : Bytes := ps.flatMap fun p => privmsg target p ++ crlf

theorem privmsg_length (target p : Bytes) : (privmsg target p).length = target.length + p.length + 10 := by
  have hlits : (lit "PRIVMSG ").length = 8 ∧ (lit " :").length = 2 := ⟨lit_length _, lit_length _⟩
  simp only [privmsg, List.length_append]
  omega

theorem appendTx_fits {a : IrcTx} {bytes : Bytes} (h : (a.txbuf ++ bytes).length ≤ ircTxBuf) : appendTx a bytes = (true, ⟨a.txbuf ++ bytes, h⟩) :=
  dif_pos h

theorem appendTx_full {a : IrcTx} {bytes : Bytes} (h : ¬ (a.txbuf ++ bytes).length ≤ ircTxBuf) : appendTx a bytes = (false, a) := dif_neg h

/-- A line that does not fit whole makes the call fail. -/
theorem sendPrivmsg_spec (a : IrcTx) {target p : Bytes} (hline : (privmsg target p).length < ircLineMax) :
    (∃ h, sendPrivmsg a target p = (true, ⟨a.txbuf ++ (privmsg target p ++ crlf), h⟩)) ∨
      (ircTxBuf < (a.txbuf ++ (privmsg target p ++ crlf)).length ∧ (sendPrivmsg a target p).1 = false) := by
  rw [sendPrivmsg, clip_eq_self hline, sendLine]
  by_cases hfirst : (a.txbuf ++ privmsg target p).length ≤ ircTxBuf
  · rw [appendTx_fits hfirst]
    simp only
    by_cases hsecond : (a.txbuf ++ privmsg target p ++ crlf).length ≤ ircTxBuf
    · have hwhole := hsecond
      rw [List.append_assoc] at hwhole
      refine .inl ⟨hwhole, ?_⟩
      rw [← crlf, appendTx_fits hsecond]
      simp only [List.append_assoc]
    · rw [← crlf, appendTx_full hsecond]
      rw [List.append_assoc] at hsecond
      exact .inr ⟨Nat.lt_of_not_le hsecond, rfl⟩
  · rw [appendTx_full hfirst]
    refine .inr ⟨?_, rfl⟩
    simp only [List.length_append] at hfirst ⊢
    omega

/-- The loop appends the lines of the pieces, or fails when they do not fit. -/
theorem privmsgLoop_spec {target : Bytes} (htarget : target.length < 256) {n : Nat} {s : Bytes} (hn : s.length ≤ n) (a : IrcTx) :
    (∃ h, privmsgLoop target s a = (true, ⟨a.txbuf ++ wire target (pieces ircTake ircSkip n s), h⟩)) ∨
      (ircTxBuf < (a.txbuf ++ wire target (pieces ircTake ircSkip n s)).length ∧ (privmsgLoop target s a).1 = false) := by
  induction n generalizing s a with
  | zero =>
    have hnil := List.length_eq_zero_iff.mp (Nat.le_zero.mp hn)
    rw [privmsgLoop, if_pos hnil]
    refine .inl ⟨?_, ?_⟩
    · rw [pieces, wire, List.flatMap_nil, List.append_nil]
      exact a.bound
    · simp only [pieces, wire, List.flatMap_nil, List.append_nil]
  | succ n ih =>
    cases s with
    | nil =>
      rw [privmsgLoop, if_pos rfl]
      refine .inl ⟨?_, ?_⟩
      · rw [pieces, wire, List.flatMap_nil, List.append_nil]
        exact a.bound
      · simp only [pieces, wire, List.flatMap_nil, List.append_nil]
    | cons c s =>
      have hne := List.cons_ne_nil c s
      obtain ⟨-, -, hmax⟩ := ircTake_bounds hne
      have hshorter := ircTake_advances.shorter hne
      have hchars : ircPrivmsgMaxChars ≤ ircLineMax - 1 := by decide
      have hmin : min (ircTake (c :: s)) (ircLineMax - 1) = ircTake (c :: s) := Nat.min_eq_left (Nat.le_trans hmax hchars)
      have hline : (privmsg target ((c :: s).take (ircTake (c :: s)))).length < ircLineMax := by
        have hsmall : ircPrivmsgMaxChars + 266 < ircLineMax := by decide
        rw [privmsg_length, List.length_take]
        omega
      rw [privmsgLoop, if_neg hne, hmin, pieces]
      have hwire : ∀ ps, wire target ((c :: s).take (ircTake (c :: s)) :: ps) =
          privmsg target ((c :: s).take (ircTake (c :: s))) ++ crlf ++ wire target ps := fun ps => by rw [wire, List.flatMap_cons, ← wire]
      rcases sendPrivmsg_spec a hline with ⟨hfits, hsend⟩ | ⟨hfull, hsend⟩
      · rw [hsend]
        rcases ih (s := ircSkip ((c :: s).drop (ircTake (c :: s)))) (by omega) ⟨a.txbuf ++ (privmsg target ((c :: s).take (ircTake (c :: s))) ++ crlf), hfits⟩ with ⟨hroom, hrest⟩ | ⟨hroom, hrest⟩
        · simp only at hroom hrest ⊢
          refine .inl ⟨?_, ?_⟩
          · rw [hwire, ← List.append_assoc]
            exact hroom
          · rw [hrest]
            simp only [hwire, List.append_assoc]
        · simp only at hroom hrest ⊢
          refine .inr ⟨?_, hrest⟩
          rw [hwire, ← List.append_assoc]
          exact hroom
      · refine .inr ⟨?_, ?_⟩
        · rw [hwire, ← List.append_assoc, List.length_append]
          omega
        · generalize hr : sendPrivmsg a target ((c :: s).take (ircTake (c :: s))) = r at hsend
          obtain ⟨rc, a'⟩ := r
          simp only at hsend
          rw [hsend]

/-! ## Whole messages -/

/-- The buffer has room for the lines of the message. -/
def Fits (a : IrcTx) (target text : Bytes) : Prop := (a.txbuf ++ wire target (ircPieces (ircSent text))).length ≤ ircTxBuf

/-- The message is in the buffer: whole lines to the target, which split the sanitized text, in which words stand apart as they did. -/
structure Sent (target text : Bytes) (a a' : IrcTx) (ps : List Bytes) : Prop where
  lines : a'.txbuf = a.txbuf ++ wire target ps
  within : ∀ p ∈ ps, (privmsg target p).length < ircLineMax
  quiet : ∀ p ∈ ps, ∀ c ∈ privmsg target p, isPrintable c = true
  splits : Splits (ircClean text) ps
  spacing : spaced isVisible isWordBreak true (ircClean text) = spaced isVisible isWordBreak true text

/-- What a call owes: the message where there is room for it, and a failure where there is none. -/
def Faithful (a : IrcTx) (target text : Bytes) (r : Bool × IrcTx) : Prop :=
  (target = [] → r = (false, a)) ∧ (target ≠ [] → Fits a target text → ∃ a' ps, r = (true, a') ∧ Sent target text a a' ps) ∧
    (target ≠ [] → ¬ Fits a target text → r.1 = false)

theorem queuePrivmsg_spec (a : IrcTx) {target text : Bytes} (htarget : target.length < 256) (htext : NulFree text) :
    (target = [] → queuePrivmsg a target text = (false, a)) ∧
      (target ≠ [] → ∀ h : Fits a target text, queuePrivmsg a target text = (true, ⟨a.txbuf ++ wire target (ircPieces (ircSent text)), h⟩)) ∧
      (target ≠ [] → ¬ Fits a target text → (queuePrivmsg a target text).1 = false) := by
  have hloop := privmsgLoop_spec htarget (Nat.le_refl (ircSent text).length) a
  rw [queuePrivmsg, sanitizeForIrc_eq htext]
  refine ⟨fun h => if_pos h, fun hne hfits => ?_, fun hne hfull => ?_⟩
  · rw [if_neg hne]
    rcases hloop with ⟨_, hrun⟩ | ⟨hover, -⟩
    · exact hrun
    · exact absurd hfits (Nat.not_le.mpr hover)
  · rw [if_neg hne]
    rcases hloop with ⟨hfits, -⟩ | ⟨-, hrun⟩
    · exact absurd hfits hfull
    · exact hrun

theorem isPrintable_lits : (∀ c ∈ lit "PRIVMSG ", isPrintable c = true) ∧ ∀ c ∈ lit " :", isPrintable c = true :=
  ⟨List.all_eq_true.mp (lit_all (by decide)), List.all_eq_true.mp (by decide)⟩

theorem privmsg_printable {target p : Bytes} : (∀ c ∈ privmsg target p, isPrintable c = true) ↔
    (∀ c ∈ target, isPrintable c = true) ∧ ∀ c ∈ p, isPrintable c = true := by
  simp only [privmsg, List.forall_mem_append]
  exact ⟨fun h => ⟨h.2.1, h.2.2.2⟩, fun h => ⟨isPrintable_lits.1, h.1, isPrintable_lits.2, h.2⟩⟩

theorem privmsg_inj {target p q : Bytes} (h : privmsg target p = privmsg target q) : p = q :=
  List.append_cancel_left (List.append_cancel_left (List.append_cancel_left h))

theorem no_cr {s : Bytes} (h : ∀ c ∈ s, isPrintable c = true) : ch '\r' ∉ s := fun hmem => absurd (h _ hmem) (by decide)

/-- The lines in the buffer say what the texts are. -/
theorem wire_inj {target : Bytes} {ps qs : List Bytes} (hp : ∀ p ∈ ps, ∀ c ∈ privmsg target p, isPrintable c = true)
    (hq : ∀ q ∈ qs, ∀ c ∈ privmsg target q, isPrintable c = true) (h : wire target ps = wire target qs) : ps = qs := by
  have hlines : ∀ xs : List Bytes, wire target xs = (xs.map (privmsg target)).flatMap (· ++ ch '\r' :: [ch '\n']) := by
    intro xs
    rw [wire, List.flatMap_map]
    rfl
  have hno : ∀ xs : List Bytes, (∀ x ∈ xs, ∀ c ∈ privmsg target x, isPrintable c = true) → ∀ l ∈ xs.map (privmsg target), ch '\r' ∉ l := by
    intro xs hxs l hl
    obtain ⟨x, hx, rfl⟩ := List.mem_map.mp hl
    exact no_cr (hxs x hx)
  rw [hlines, hlines] at h
  exact List.map_injective_iff.mpr (fun _ _ => privmsg_inj) (ended_inj (hno ps hp) (hno qs hq) h)

theorem ircPieces_printable {s : Bytes} (h : ∀ c ∈ s, isPrintable c = true) : ∀ p ∈ ircPieces s, ∀ c ∈ p, isPrintable c = true :=
  pieces_forall (fun s => ∀ c ∈ s, isPrintable c = true) (fun p => ∀ c ∈ p, isPrintable c = true)
    (fun _ _ ht => ⟨fun c hc => ht c (List.mem_of_mem_take hc),
      fun c hc => ht c (List.mem_of_mem_drop ((List.dropWhile_suffix _).subset hc))⟩) h

/-- What the target and the text have to be like for whole lines to carry the message. -/
structure Carried (target text : Bytes) : Prop where
  target_quiet : ircClean text ≠ [] → ∀ c ∈ target, isPrintable c = true
  cuts : ∀ t ∈ ircStarts (ircSent text), CleanCut t
  rest : Spaces (ircCut text)
  apart : ¬ Glued isVisible isWordBreak (· = ch ' ') text

theorem ircSent_cut (text : Bytes) : ircSent text ++ ircCut text = ircClean text := List.take_append_drop _ _

theorem ircSent_ne_nil {text : Bytes} (h : ircClean text ≠ []) : ircSent text ≠ [] := by
  intro hnil
  rw [ircSent, List.take_eq_nil_iff] at hnil
  exact hnil.elim (by decide) h

/-- The lines of the pieces are the message if the target and the text allow it. -/
theorem Carried.sent {target text : Bytes} (h : Carried target text) (htarget : target.length < 256) {a a' : IrcTx}
    (hlines : a'.txbuf = a.txbuf ++ wire target (ircPieces (ircSent text))) : Sent target text a a' (ircPieces (ircSent text)) where
  lines := hlines
  within p hp := by
    have hsize := ircPieces_size _ p hp
    have hsmall : ircPrivmsgMaxChars + 266 < ircLineMax := by decide
    rw [privmsg_length]
    omega
  quiet p hp := by
    have hne : ircClean text ≠ [] := by
      intro hnil
      rw [ircSent, hnil] at hp
      cases hp
    exact privmsg_printable.mpr ⟨h.target_quiet hne, ircPieces_printable (ircSent_printable text) p hp⟩
  splits := by
    by_cases hnil : ircClean text = []
    · rw [ircSent, hnil]
      exact .nil
    · rw [← ircSent_cut text]
      exact splits_of_cuts h.rest (ircSent_ne_nil hnil) (Nat.le_refl _) h.cuts
  spacing := (ircClean_spacing text).mpr h.apart

/-- A message that was sent says that the target and the text allowed it. -/
theorem Sent.carried {target text : Bytes} {a a' : IrcTx} {ps : List Bytes} (h : Sent target text a a' ps)
    (hlines : a'.txbuf = a.txbuf ++ wire target (ircPieces (ircSent text))) : Carried target text := by
  have hwire := List.append_cancel_left (h.lines.symm.trans hlines)
  have htarget : ircClean text ≠ [] → ∀ c ∈ target, isPrintable c = true := by
    intro hne
    cases ps with
    | nil =>
      have hsplits := h.splits
      generalize ircClean text = s at hne hsplits
      cases hsplits
      exact absurd rfl hne
    | cons p ps => exact (privmsg_printable.mp (h.quiet p List.mem_cons_self)).1
  have hps : ps = ircPieces (ircSent text) := by
    by_cases hnil : ircClean text = []
    · have hsplits := h.splits
      have hpieces : ircPieces (ircSent text) = [] := by rw [ircSent, hnil]; rfl
      rw [hpieces] at hwire ⊢
      cases ps with
      | nil => rfl
      | cons p ps =>
        have hlen := congrArg List.length hwire
        rw [wire, List.flatMap_cons, List.length_append, List.length_append, privmsg_length] at hlen
        simp only [wire, List.flatMap_nil, List.length_nil] at hlen
        omega
    · refine wire_inj h.quiet (fun p hp => ?_) hwire
      exact privmsg_printable.mpr ⟨htarget hnil, ircPieces_printable (ircSent_printable text) p hp⟩
  have hsplits := h.splits
  rw [hps] at hsplits
  have hrest : Spaces (ircCut text) := by
    have hall := tiles_visible hsplits.tiles
    rw [← tiles_visible (ircPieces_tile (ircSent text)), ← ircSent_cut text, List.filter_append, List.append_right_eq_self] at hall
    intro c hc
    have hspace := List.filter_eq_nil_iff.mp hall c hc
    simpa using hspace
  rw [← ircSent_cut text] at hsplits
  exact ⟨htarget, cuts_of_splits hrest (Nat.le_refl _) hsplits, hrest, (ircClean_spacing text).mp h.spacing⟩

/-- Where there is room, a call that does what it owes shows what target and text are like. -/
theorem carried_of_faithful {a : IrcTx} {target text : Bytes} (htarget : target.length < 256) (htext : NulFree text)
    (h : Faithful a target text (queuePrivmsg a target text)) (hne : target ≠ []) (hfits : Fits a target text) : Carried target text := by
  obtain ⟨a', ps, hrun, hsent⟩ := h.2.1 hne hfits
  rw [(queuePrivmsg_spec a htarget htext).2.1 hne hfits, Prod.mk.injEq] at hrun
  exact hsent.carried (congrArg IrcTx.txbuf hrun.2.symm)

/-- A message goes out whole exactly when it has no target or no room, or target and text allow it. -/
theorem message_faithful_iff (a : IrcTx) {target text : Bytes} (htarget : target.length < 256) (htext : NulFree text) :
    Faithful a target text (queuePrivmsg a target text) ↔ target = [] ∨ ¬ Fits a target text ∨ Carried target text := by
  obtain ⟨hempty, hroom, hfull⟩ := queuePrivmsg_spec a htarget htext
  constructor
  · intro h
    by_cases hne : target = []
    · exact .inl hne
    by_cases hfits : Fits a target text
    · exact .inr (.inr (carried_of_faithful htarget htext h hne hfits))
    · exact .inr (.inl hfits)
  · intro h
    refine ⟨hempty, fun hne hfits => ?_, hfull⟩
    have hcarried := (h.resolve_left hne).resolve_left (not_not_intro hfits)
    exact ⟨_, _, hroom hne hfits, hcarried.sent htarget rfl⟩

/-- A transmit buffer with nothing in it. -/
def emptyTx : IrcTx := ⟨[], by decide⟩

/-- A short message to a channel. -/
theorem message_faithful_greeting : Faithful emptyTx (lit "#floof") (lit "hello there") (queuePrivmsg emptyTx (lit "#floof") (lit "hello there")) := by
  have htarget : (lit "#floof").length < 256 := by decide
  have htext : NulFree (lit "hello there") := .of_all (lit_all (by decide))
  have hstarts : ircStarts (ircSent (lit "hello there")) = [lit "hello there"] := by decide
  refine (message_faithful_iff emptyTx htarget htext).mpr (.inr (.inr ⟨fun _ => List.all_eq_true.mp (by decide), ?_, ?_, ?_⟩))
  · intro t ht hhard
    rw [hstarts, List.mem_singleton] at ht
    rw [ht] at hhard
    exact absurd hhard.1 (by decide)
  · have hcut : ircCut (lit "hello there") = [] := by decide
    rw [hcut]
    nofun
  · have hplain : ∀ c ∈ lit "hello there", isWordBreak c = decide (c = ch ' ') := fun c hc =>
      (printable_table c).2.2 (List.all_eq_true.mp (by decide : (lit "hello there").all isPrintable = true) c hc)
    rintro ⟨u, x, g, y, v, htext', -, -, -, ⟨c, hc, hbreak⟩, hnarrow⟩
    have hmem : c ∈ lit "hello there" := by
      rw [htext']
      exact List.mem_append_right _ (List.mem_cons_of_mem _ (List.mem_append_left _ hc))
    have hspace : decide (c = ch ' ') = false := hnarrow c hc
    rw [hplain c hmem] at hbreak
    rw [hbreak] at hspace
    cases hspace

/-- A long word whose last letter lies across the limit. -/
def longWord : Bytes := List.replicate 379 (ch 'a') ++ [0xC3, 0xA9]

theorem longWord_clean : ircSent longWord = longWord ∧ ircClean longWord = longWord := by
  have hall : longWord.filter isPrintable = longWord := by
    rw [List.filter_eq_self, longWord, List.forall_mem_append]
    refine ⟨fun c hc => ?_, by decide +kernel⟩
    rw [List.eq_of_mem_replicate hc]
    decide
  have hlen : longWord.length ≤ 8191 := by
    rw [longWord, List.length_append, List.length_replicate]
    decide
  refine ⟨?_, hall⟩
  rw [ircSent, ircClean, hall, List.take_of_length_le hlen]

theorem longWord_hard : HardCut longWord := by
  refine ⟨by decide +kernel, fun i _ _ hi => ?_⟩
  rcases List.mem_append.mp (List.mem_of_getElem? hi) with ha | he
  · exact absurd (List.eq_of_mem_replicate ha) (by decide)
  · exact absurd he (by decide)

theorem longWord_pieces : ircPieces longWord = [longWord.take 380, [0xA9]] := by
  have htake : ircTake longWord = 380 := by
    rcases ircTake_cases longWord with ⟨hshort, -⟩ | ⟨-, -, -, hsoft⟩ | ⟨-, htake⟩
    · exact absurd hshort (Nat.not_le.mpr longWord_hard.1)
    · exact absurd longWord_hard hsoft
    · exact htake
  have hlen : longWord.length = 380 + 1 := by decide +kernel
  have hrest : longWord.drop 380 = [0xA9] := by decide +kernel
  have hcons : longWord = ch 'a' :: (List.replicate 378 (ch 'a') ++ [0xC3, 0xA9]) := rfl
  rw [ircPieces, hlen]
  conv_lhs => rw [hcons, pieces, ← hcons, htake, hrest]
  decide +kernel

example : ircPieces (lit "to be") = [lit "to be"] := by decide +kernel

/-- The long word is cut inside its last letter, although the buffer is empty. -/
theorem long_word_cut :
    ¬ ∀ (a : IrcTx) (target text : Bytes), target.length < 256 → NulFree text → Faithful a target text (queuePrivmsg a target text) := by
  intro hclaim
  have hnul : NulFree longWord := by
    intro c hc
    rcases List.mem_append.mp hc with ha | he
    · rw [List.eq_of_mem_replicate ha]
      decide
    · rcases List.mem_cons.mp he with rfl | he
      · decide
      · rw [List.mem_singleton.mp he]
        decide
  have hfits : Fits emptyTx (lit "#floof") longWord := by
    rw [Fits, longWord_clean.1, longWord_pieces]
    decide +kernel
  have htarget : (lit "#floof").length < 256 := by decide
  have hcuts := (carried_of_faithful htarget hnul (hclaim _ _ _ htarget hnul) (by decide) hfits).cuts
  rw [longWord_clean.1] at hcuts
  have hne : longWord ≠ [] := List.append_ne_nil_of_right_ne_nil _ (List.cons_ne_nil _ _)
  refine hcuts longWord (ircStarts_self hne) longWord_hard ⟨[0xC3], [0xA9], by decide, by decide, .two (by decide) (by decide) (by decide), ?_, ?_⟩
  · exact ⟨List.replicate 379 (ch 'a'), by decide +kernel⟩
  · exact ⟨[], by decide +kernel⟩

end Floofclaw.Guarantees.IrcLines
