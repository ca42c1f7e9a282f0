import Floofclaw.Source.JobProgress
import Mathlib.Data.List.Induction

/-!
# Progress lines

A carry buffer that overflows is emptied, and the splitter forgets that it is
inside a line. When the newline comes with the same read nothing is lost; what
a later read still brings of the line is taken for a line of its own. Counting
shows that this is never made good: every line that has begun is paid for by a
record or by a drop, and a line that is cut that way is paid for twice.
-/

set_option autoImplicit false

namespace Floofclaw.Guarantees.ProgressLines
open Floofclaw.Lib Floofclaw.Source.JobProgress

/-! ## What is asked of the queue -/

/-- A line that `queue_progress` takes when a slot is free. -/
def IsRecord (l : Bytes) : Prop := l ≠ [] ∧ l.length < jobProgressRecordCap

instance (l : Bytes) : Decidable (IsRecord l) := inferInstanceAs (Decidable (_ ∧ _))

/-- The records queued, were every slot free. -/
def queued (calls : List ProgressCall) : List Bytes :=
  calls.filterMap fun
    | .dropped => none
    | .queue record => if IsRecord record then some record else none

/-- The drops counted, were every slot free. -/
def refused (calls : List ProgressCall) : Nat :=
  calls.countP fun
    | .dropped => true
    | .queue record => decide (jobProgressRecordCap ≤ record.length)

theorem queued_append (a b : List ProgressCall) : queued (a ++ b) = queued a ++ queued b := List.filterMap_append

theorem refused_append (a b : List ProgressCall) : refused (a ++ b) = refused a + refused b := List.countP_append

/-- The calls of a child's reads, from the partial record on, and the partial record left. -/
def readCalls (progressPartial : Bytes) (reads : List Bytes) : List ProgressCall × Bytes :=
  reads.foldl (fun s bytes => (s.1 ++ (progressConsumeBytes s.2 bytes).1, (progressConsumeBytes s.2 bytes).2)) ([], progressPartial)

/-- The calls of a child's whole pipe. -/
def pipeCalls (reads : List Bytes) : List ProgressCall :=
  (readCalls [] reads).1 ++ if (readCalls [] reads).2 = [] then [] else [ProgressCall.dropped]

theorem readCalls_snoc (p : Bytes) (reads : List Bytes) (bytes : Bytes) :
    readCalls p (reads ++ [bytes]) = ((readCalls p reads).1 ++ (progressConsumeBytes (readCalls p reads).2 bytes).1,
      (progressConsumeBytes (readCalls p reads).2 bytes).2) := by
  simp [readCalls]

/-! ## One part at a time -/

theorem consume_nil (p : Bytes) : progressConsumeBytes p [] = ([], p) := by
  rw [progressConsumeBytes.eq_def]
  rfl

private theorem takeWhile_part {p : Bytes} (hp : ch '\n' ∉ p) (u : Bytes) :
    (p ++ ch '\n' :: u).takeWhile (· ≠ ch '\n') = p ∧ (p ++ ch '\n' :: u).dropWhile (· ≠ ch '\n') = ch '\n' :: u := by
  have hall : ∀ c ∈ p, decide (c ≠ ch '\n') = true := fun c hc => decide_eq_true fun h => hp (h ▸ hc)
  exact ⟨by rw [List.takeWhile_append_of_pos hall]; simp, by rw [List.dropWhile_append_of_pos hall]; simp⟩

private theorem takeWhile_whole {p : Bytes} (hp : ch '\n' ∉ p) : p.takeWhile (· ≠ ch '\n') = p :=
  List.takeWhile_eq_self_iff.mpr fun _ hc => decide_eq_true fun h => hp (h ▸ hc)

/-- The end of a read inside a line. -/
theorem consume_part {carry p : Bytes} (hp : ch '\n' ∉ p) (hne : p ≠ []) :
    progressConsumeBytes carry p =
      if carry.length + p.length ≥ jobProgressPartialCap then ([ProgressCall.dropped], []) else ([], carry ++ p) := by
  have hd : p.dropWhile (· ≠ ch '\n') = [] :=
    List.dropWhile_eq_nil_iff.mpr fun _ hc => decide_eq_true fun h => hp (h ▸ hc)
  have ht := takeWhile_whole hp
  rw [progressConsumeBytes.eq_def, if_neg hne]
  dsimp only
  split
  · rw [ht]
  · rename_i h
    rw [hd] at h
    cases h

/-- A line's last part and its newline. -/
theorem consume_line {carry p : Bytes} (hp : ch '\n' ∉ p) (u : Bytes) :
    progressConsumeBytes carry (p ++ ch '\n' :: u) =
      ((if carry.length + p.length ≥ jobProgressPartialCap then [ProgressCall.dropped]
        else if carry ++ p = [] then [] else [ProgressCall.queue (carry ++ p)]) ++ (progressConsumeBytes [] u).1,
        (progressConsumeBytes [] u).2) := by
  obtain ⟨ht, hd⟩ := takeWhile_part hp u
  rw [progressConsumeBytes.eq_def, if_neg (by simp)]
  dsimp only
  split
  · rename_i h
    rw [hd] at h
    cases h
  · rename_i h
    rw [hd, List.cons.injEq] at h
    obtain ⟨-, rfl⟩ := h
    rw [ht]
    split
    · rfl
    · split <;> rfl

/-! ## The account of a pipe -/

/-- The lines that are records. -/
def records (t : Bytes) : List Bytes := (lined t).ended.filter IsRecord

/-- The lines that are too long for one. -/
def overlong (t : Bytes) : Nat := (lined t).ended.countP fun l => decide (jobProgressRecordCap ≤ l.length)

theorem records_line {p : Bytes} (hp : ch '\n' ∉ p) (t : Bytes) :
    records (t ++ p ++ [ch '\n']) = records t ++ if IsRecord ((lined t).rest ++ p) then [(lined t).rest ++ p] else [] := by
  rw [records, lined_line hp, List.filter_append, records]
  congr 1
  by_cases h : IsRecord ((lined t).rest ++ p) <;> simp [h]

theorem overlong_line {p : Bytes} (hp : ch '\n' ∉ p) (t : Bytes) :
    overlong (t ++ p ++ [ch '\n']) = overlong t + if jobProgressRecordCap ≤ ((lined t).rest ++ p).length then 1 else 0 := by
  rw [overlong, lined_line hp, List.countP_append, overlong, List.countP_singleton]
  simp only [decide_eq_true_eq]

theorem records_part {p : Bytes} (hp : ch '\n' ∉ p) (t : Bytes) : records (t ++ p) = records t := by
  rw [records, lined_part hp, records]

theorem overlong_part {p : Bytes} (hp : ch '\n' ∉ p) (t : Bytes) : overlong (t ++ p) = overlong t := by
  rw [overlong, lined_part hp, overlong]

/-- What the splitter has called and what it carries, `t` being read. -/
structure Reading where
  read : Bytes
  calls : List ProgressCall
  carry : Bytes

/-- Every line is accounted for: an open line is carried, or was given up when it filled the buffer. -/
structure Reading.Kept (r : Reading) : Prop where
  queued : queued r.calls = records r.read
  refused : refused r.calls = overlong r.read + if jobProgressPartialCap ≤ (lined r.read).rest.length then 1 else 0
  carry : r.carry = if jobProgressPartialCap ≤ (lined r.read).rest.length then [] else (lined r.read).rest

/-- What lines that have begun are to be paid with, one each. -/
def Reading.owed (r : Reading) : Nat := (records r.read).length + overlong r.read + if (lined r.read).rest = [] then 0 else 1

def Reading.paid (r : Reading) : Nat := (queued r.calls).length + refused r.calls + if r.carry = [] then 0 else 1

/-- Some line was paid for twice. -/
structure Reading.Torn (r : Reading) : Prop where
  twice : r.owed < r.paid
  fresh : (lined r.read).rest = [] → r.carry = []

/-- The calls at the end of a line, its last part being `p`. -/
def lineCalls (carry p : Bytes) : List ProgressCall :=
  if carry.length + p.length ≥ jobProgressPartialCap then [ProgressCall.dropped]
  else if carry ++ p = [] then [] else [ProgressCall.queue (carry ++ p)]

theorem queued_lineCalls (carry p : Bytes) :
    queued (lineCalls carry p) = if IsRecord (carry ++ p) then [carry ++ p] else [] := by
  unfold lineCalls
  split
  · rename_i hfull
    rw [if_neg fun h => absurd h.2 (by rw [List.length_append]; exact Nat.not_lt.mpr (Nat.le_trans (by decide) hfull))]
    rfl
  · split
    · rename_i hnil
      rw [if_neg fun h => h.1 hnil]
      rfl
    · by_cases hrec : IsRecord (carry ++ p) <;> simp [queued, hrec]

theorem refused_lineCalls (carry p : Bytes) :
    refused (lineCalls carry p) = if jobProgressRecordCap ≤ (carry ++ p).length then 1 else 0 := by
  unfold lineCalls
  split
  · rename_i hfull
    rw [if_pos (by rw [List.length_append]; exact Nat.le_trans (by decide) hfull)]
    rfl
  · split
    · rename_i hnil
      rw [hnil]
      rfl
    · rw [refused, List.countP_singleton]
      simp only [decide_eq_true_eq]

/-- A line that is not empty is queued or refused. -/
theorem lineCalls_once (carry p : Bytes) :
    (queued (lineCalls carry p)).length + refused (lineCalls carry p) = if carry ++ p = [] then 0 else 1 := by
  rw [queued_lineCalls, refused_lineCalls]
  by_cases hnil : carry ++ p = []
  · rw [hnil]
    rfl
  · rw [if_neg hnil]
    by_cases hlong : jobProgressRecordCap ≤ (carry ++ p).length
    · rw [if_pos hlong, if_neg fun h => Nat.not_lt.mpr hlong h.2]
      rfl
    · rw [if_neg hlong, if_pos ⟨hnil, Nat.lt_of_not_le hlong⟩]
      rfl

/-- The reading after a line's last part and its newline. -/
def Reading.line (r : Reading) (p : Bytes) : Reading := ⟨r.read ++ p ++ [ch '\n'], r.calls ++ lineCalls r.carry p, []⟩

/-- The reading after a read that ends inside a line. -/
def Reading.part (r : Reading) (p : Bytes) : Reading :=
  if r.carry.length + p.length ≥ jobProgressPartialCap then ⟨r.read ++ p, r.calls ++ [ProgressCall.dropped], []⟩
  else ⟨r.read ++ p, r.calls, r.carry ++ p⟩

/-- A part of a line that comes too late: a whole buffer of the line was read before. -/
def Reading.Late (r : Reading) (p : Bytes) : Prop := jobProgressPartialCap ≤ (lined r.read).rest.length ∧ p ≠ []

section Steps
variable {r : Reading} {p : Bytes}

theorem refused_dropped (calls : List ProgressCall) : refused (calls ++ [ProgressCall.dropped]) = refused calls + 1 := by
  rw [refused_append]
  rfl

theorem queued_dropped (calls : List ProgressCall) : queued (calls ++ [ProgressCall.dropped]) = queued calls := by
  rw [queued_append]
  exact List.append_nil _

theorem Reading.Kept.line (h : r.Kept) (hp : ch '\n' ∉ p) (hlate : ¬ r.Late p) : (r.line p).Kept := by
  have hrest : (lined (r.line p).read).rest = [] := by rw [Reading.line, lined_line hp]
  have hopen : ¬ jobProgressPartialCap ≤ (lined (r.line p).read).rest.length := by
    rw [hrest]
    decide
  have hqueued : ProgressLines.queued (r.line p).calls = records r.read ++ ProgressLines.queued (lineCalls r.carry p) := by
    rw [Reading.line, queued_append, h.queued]
  have hrefused := h.refused
  have hcarry := h.carry
  refine ⟨?_, ?_, by rw [if_neg hopen, hrest]; rfl⟩
  · rw [hqueued, queued_lineCalls]
    refine Eq.trans ?_ (records_line hp r.read).symm
    congr 1
    by_cases hfull : jobProgressPartialCap ≤ (lined r.read).rest.length
    · -- what filled the buffer was given up, and only the newline was left to come
      obtain rfl : p = [] := by_contra fun hne => hlate ⟨hfull, hne⟩
      rw [hcarry, if_pos hfull, if_neg fun hr => hr.1 rfl, if_neg]
      intro hr
      have hlt := hr.2
      rw [List.append_nil] at hlt
      exact absurd (Nat.lt_of_le_of_lt hfull hlt) (by decide)
    · rw [hcarry, if_neg hfull]
  · rw [if_neg hopen, Nat.add_zero, Reading.line, refused_append, refused_lineCalls, hrefused]
    dsimp only
    rw [overlong_line hp]
    by_cases hfull : jobProgressPartialCap ≤ (lined r.read).rest.length
    · obtain rfl : p = [] := by_contra fun hne => hlate ⟨hfull, hne⟩
      have hlong : jobProgressRecordCap ≤ ((lined r.read).rest ++ []).length := by
        rw [List.append_nil]
        exact Nat.le_trans (by decide) hfull
      rw [hcarry, if_pos hfull, if_pos hfull, if_pos hlong, if_neg (by decide)]
    · rw [hcarry, if_neg hfull, if_neg hfull, Nat.add_zero]

theorem Reading.Kept.part (h : r.Kept) (hp : ch '\n' ∉ p) (hlate : ¬ r.Late p) : (r.part p).Kept := by
  have hqueued := h.queued
  have hrefused := h.refused
  have hcarry := h.carry
  by_cases hfull : jobProgressPartialCap ≤ (lined r.read).rest.length
  · obtain rfl : p = [] := by_contra fun hne => hlate ⟨hfull, hne⟩
    have hempty : r.carry = [] := by rw [hcarry, if_pos hfull]
    have hsame : r.part [] = r := by
      rw [Reading.part, hempty, if_neg (by decide), List.append_nil, List.append_nil]
      exact congrArg _ hempty.symm
    rw [hsame]
    exact h
  · rw [if_neg hfull] at hcarry hrefused
    have hlen : ((lined r.read).rest ++ p).length = r.carry.length + p.length := by rw [List.length_append, hcarry]
    unfold Reading.part
    split
    · rename_i hover
      have hpast : jobProgressPartialCap ≤ ((lined r.read).rest ++ p).length := hlen ▸ hover
      refine ⟨?_, ?_, ?_⟩
      · rw [queued_dropped, hqueued]
        exact (records_part hp r.read).symm
      · rw [refused_dropped, hrefused, overlong_part hp, lined_part hp, if_pos hpast]
      · rw [lined_part hp, if_pos hpast]
    · rename_i hover
      have hshort : ¬ jobProgressPartialCap ≤ ((lined r.read).rest ++ p).length := hlen ▸ hover
      refine ⟨?_, ?_, ?_⟩
      · rw [hqueued]
        exact (records_part hp r.read).symm
      · rw [hrefused, overlong_part hp, lined_part hp, if_neg hshort]
      · rw [lined_part hp, if_neg hshort, hcarry]

/-- `owed` once the open line has `p` more. -/
def Reading.owedWith (r : Reading) (p : Bytes) : Nat :=
  (records r.read).length + overlong r.read + if (lined r.read).rest ++ p = [] then 0 else 1

def Reading.paidWith (r : Reading) (p : Bytes) : Nat := (queued r.calls).length + refused r.calls + if r.carry ++ p = [] then 0 else 1

theorem Reading.line_owed (hp : ch '\n' ∉ p) : (r.line p).owed = r.owedWith p := by
  have hnil : (lined (r.line p).read).rest = [] := by rw [Reading.line, lined_line hp]
  have hline := lineCalls_once (lined r.read).rest p
  rw [queued_lineCalls, refused_lineCalls] at hline
  rw [Reading.owed, if_pos hnil, Reading.line]
  dsimp only
  rw [records_line hp, overlong_line hp, List.length_append, Reading.owedWith]
  omega

theorem Reading.line_paid : (r.line p).paid = r.paidWith p := by
  have honce := lineCalls_once r.carry p
  rw [Reading.paid, Reading.line]
  dsimp only
  rw [queued_append, refused_append, List.length_append, if_pos rfl, Reading.paidWith]
  omega

theorem Reading.part_read : (r.part p).read = r.read ++ p := by
  unfold Reading.part
  split <;> rfl

theorem Reading.part_owed (hp : ch '\n' ∉ p) : (r.part p).owed = r.owedWith p := by
  rw [Reading.owed, Reading.part_read, records_part hp, overlong_part hp, lined_part hp, Reading.owedWith]

theorem Reading.part_paid : (r.part p).paid = r.paidWith p := by
  unfold Reading.part Reading.paid Reading.paidWith
  split
  · rename_i hover
    have hsome : r.carry ++ p ≠ [] := by
      intro hnil
      rw [← List.length_append, hnil] at hover
      exact absurd hover (by decide)
    rw [queued_dropped, refused_dropped, if_pos rfl, if_neg hsome]
    rfl
  · rfl

/-- Paying for the open line twice, or for a line before it, is not made good by more of the line. -/
theorem Reading.torn_line (h : r.owedWith p < r.paidWith p) (hp : ch '\n' ∉ p) : (r.line p).Torn :=
  ⟨by rw [Reading.line_owed hp, Reading.line_paid]; exact h, fun _ => rfl⟩

theorem Reading.torn_part (h : r.owedWith p < r.paidWith p) (hfresh : (lined r.read).rest = [] → r.carry = [])
    (hp : ch '\n' ∉ p) : (r.part p).Torn := by
  refine ⟨by rw [Reading.part_owed hp, Reading.part_paid]; exact h, fun hnil => ?_⟩
  rw [Reading.part_read, lined_part hp] at hnil
  obtain ⟨hrest, rfl⟩ := List.append_eq_nil_iff.mp hnil
  rw [Reading.part, hfresh hrest]
  rfl

theorem Reading.Torn.more (h : r.Torn) (p : Bytes) : r.owedWith p < r.paidWith p := by
  have htwice := h.twice
  unfold Reading.owed Reading.paid at htwice
  unfold Reading.owedWith Reading.paidWith
  by_cases hrest : (lined r.read).rest = []
  · rw [if_pos hrest, if_pos (h.fresh hrest)] at htwice
    rw [hrest, h.fresh hrest]
    omega
  · rw [if_neg hrest] at htwice
    rw [if_neg fun hnone => hrest (List.append_eq_nil_iff.mp hnone).1]
    by_cases hcarry : r.carry = []
    · rw [if_pos hcarry] at htwice
      omega
    · rw [if_neg hcarry] at htwice
      rw [if_neg fun hnone => hcarry (List.append_eq_nil_iff.mp hnone).1]
      exact htwice

theorem Reading.Kept.fresh (h : r.Kept) (hrest : (lined r.read).rest = []) : r.carry = [] := by
  rw [h.carry, hrest]
  rfl

/-- A part that comes too late is paid for although the line was. -/
theorem Reading.Kept.late (h : r.Kept) (hlate : r.Late p) : r.owedWith p < r.paidWith p := by
  obtain ⟨hfull, hne⟩ := hlate
  have hrefused := h.refused
  have hcarry := h.carry
  rw [if_pos hfull] at hrefused hcarry
  have hlong : (lined r.read).rest ++ p ≠ [] := fun hnil => hne (List.append_eq_nil_iff.mp hnil).2
  rw [Reading.owedWith, Reading.paidWith, if_neg hlong, hcarry, List.nil_append, if_neg hne, h.queued, hrefused]
  omega

end Steps

/-! ## A whole pipe -/

/-- The reading after one more read. -/
def Reading.take (r : Reading) (bytes : Bytes) : Reading :=
  ⟨r.read ++ bytes, r.calls ++ (progressConsumeBytes r.carry bytes).1, (progressConsumeBytes r.carry bytes).2⟩

theorem Reading.take_nil (r : Reading) : r.take [] = r := by
  rw [Reading.take, consume_nil, List.append_nil, List.append_nil]

theorem Reading.take_part (r : Reading) {p : Bytes} (hp : ch '\n' ∉ p) (hne : p ≠ []) : r.take p = r.part p := by
  rw [Reading.take, consume_part hp hne, Reading.part]
  split
  · rfl
  · rw [List.append_nil]

theorem Reading.take_line (r : Reading) {p : Bytes} (hp : ch '\n' ∉ p) (u : Bytes) :
    r.take (p ++ ch '\n' :: u) = (r.line p).take u := by
  rw [Reading.take, consume_line hp, Reading.take, Reading.line, lineCalls]
  simp

/-- What a read brings of the line that is open. -/
def lateOctets (bytes : Bytes) : Bytes := bytes.takeWhile (· ≠ ch '\n')

/-- One read: a line part by part, no later line being longer than the read. -/
theorem Reading.Torn.take {r : Reading} (h : r.Torn) (bytes : Bytes) : (r.take bytes).Torn := by
  induction hn : bytes.length using Nat.strong_induction_on generalizing r bytes with
  | _ n ih =>
    by_cases hnl : ch '\n' ∈ bytes
    · obtain ⟨p, u, rfl, hp⟩ := List.eq_append_cons_of_mem hnl
      rw [r.take_line hp]
      refine ih u.length ?_ (r.torn_line (h.more p) hp) u rfl
      rw [← hn, List.length_append, List.length_cons]
      omega
    · by_cases hne : bytes = []
      · rw [hne, r.take_nil]
        exact h
      · rw [r.take_part hnl hne]
        exact r.torn_part (h.more bytes) h.fresh hnl

/-- The line that is open after a newline has no octets yet. -/
theorem Reading.line_early (r : Reading) {p : Bytes} (hp : ch '\n' ∉ p) (q : Bytes) : ¬ (r.line p).Late q := by
  rintro ⟨hfull, -⟩
  rw [Reading.line, lined_line hp] at hfull
  exact absurd hfull (Nat.not_le.mpr (by decide : ([] : Bytes).length < jobProgressPartialCap))

theorem Reading.Kept.take {r : Reading} (h : r.Kept) {bytes : Bytes} (hlate : ¬ r.Late (lateOctets bytes)) : (r.take bytes).Kept := by
  induction hn : bytes.length using Nat.strong_induction_on generalizing r bytes with
  | _ n ih =>
    by_cases hnl : ch '\n' ∈ bytes
    · obtain ⟨p, u, rfl, hp⟩ := List.eq_append_cons_of_mem hnl
      rw [lateOctets, (takeWhile_part hp u).1] at hlate
      rw [r.take_line hp]
      refine ih u.length ?_ (h.line hp hlate) (r.line_early hp _) rfl
      rw [← hn, List.length_append, List.length_cons]
      omega
    · by_cases hne : bytes = []
      · rw [hne, r.take_nil]
        exact h
      · rw [lateOctets, takeWhile_whole hnl] at hlate
        rw [r.take_part hnl hne]
        exact h.part hnl hlate

theorem Reading.Kept.tear {r : Reading} (h : r.Kept) {bytes : Bytes} (hlate : r.Late (lateOctets bytes)) : (r.take bytes).Torn := by
  have hmore := h.late hlate
  by_cases hnl : ch '\n' ∈ bytes
  · obtain ⟨p, u, rfl, hp⟩ := List.eq_append_cons_of_mem hnl
    rw [lateOctets, (takeWhile_part hp u).1] at hmore
    rw [r.take_line hp]
    exact (r.torn_line hmore hp).take u
  · rw [lateOctets, takeWhile_whole hnl] at hmore
    have hne : bytes ≠ [] := by
      rintro rfl
      exact hlate.2 rfl
    rw [r.take_part hnl hne]
    exact r.torn_part hmore h.fresh hnl

/-- The readings of a pipe. -/
def reading (reads : List Bytes) : Reading := ⟨reads.flatten, (readCalls [] reads).1, (readCalls [] reads).2⟩

theorem reading_snoc (reads : List Bytes) (bytes : Bytes) : reading (reads ++ [bytes]) = (reading reads).take bytes := by
  rw [reading, readCalls_snoc, Reading.take, reading]
  simp

/-- No read brings more of a line of which the reads before it brought a whole carry buffer. -/
def NoLateOctets (reads : List Bytes) : Prop :=
  ∀ (before : List Bytes) (bytes : Bytes) (after : List Bytes), reads = before ++ bytes :: after →
    jobProgressPartialCap ≤ (lined before.flatten).rest.length → lateOctets bytes = []

theorem noLateOctets_snoc {reads : List Bytes} {bytes : Bytes} :
    NoLateOctets (reads ++ [bytes]) ↔ NoLateOctets reads ∧ ¬ (reading reads).Late (lateOctets bytes) := by
  constructor
  · intro h
    refine ⟨fun before b after hreads => h before b (after ++ [bytes]) (by rw [hreads]; simp), fun hlate => ?_⟩
    exact hlate.2 (h reads bytes [] rfl hlate.1)
  · rintro ⟨h, hlate⟩ before b after hreads hfull
    rcases List.eq_nil_or_concat after with rfl | ⟨after, last, rfl⟩
    · obtain ⟨rfl, hb⟩ := List.append_inj' hreads rfl
      rw [List.cons.injEq] at hb
      obtain ⟨rfl, -⟩ := hb
      exact by_contra fun hne => hlate ⟨hfull, hne⟩
    · rw [List.concat_eq_append, ← List.cons_append, ← List.append_assoc] at hreads
      obtain ⟨rfl, -⟩ := List.append_inj' hreads rfl
      exact h before b after rfl hfull

theorem reading_kept {reads : List Bytes} (h : NoLateOctets reads) : (reading reads).Kept := by
  induction reads using List.reverseRecOn with
  | nil => exact ⟨rfl, rfl, rfl⟩
  | append_singleton reads bytes ih =>
    obtain ⟨hreads, hlate⟩ := noLateOctets_snoc.mp h
    rw [reading_snoc]
    exact (ih hreads).take hlate

theorem reading_torn {reads : List Bytes} (h : ¬ NoLateOctets reads) : (reading reads).Torn := by
  induction reads using List.reverseRecOn with
  | nil => exact absurd (fun before bytes after hreads => absurd hreads (by simp)) h
  | append_singleton reads bytes ih =>
    rw [reading_snoc]
    by_cases hreads : NoLateOctets reads
    · refine (reading_kept hreads).tear (by_contra fun hlate => h (noLateOctets_snoc.mpr ⟨hreads, hlate⟩))
    · exact (ih hreads).take bytes

/-- The records are the lines that can be records, whole and in order; every other line that is not empty, and an
unterminated rest, is counted once. -/
def Whole (reads : List Bytes) : Prop :=
  queued (pipeCalls reads) = records reads.flatten ∧
    refused (pipeCalls reads) = overlong reads.flatten + if (lined reads.flatten).rest = [] then 0 else 1

theorem pipeCalls_eq (reads : List Bytes) :
    pipeCalls reads = (reading reads).calls ++ if (reading reads).carry = [] then [] else [ProgressCall.dropped] := rfl

theorem pipe_paid (reads : List Bytes) :
    (queued (pipeCalls reads)).length + refused (pipeCalls reads) = (reading reads).paid := by
  rw [pipeCalls_eq, Reading.paid]
  by_cases hnil : (reading reads).carry = []
  · rw [if_pos hnil, if_pos hnil, List.append_nil]
    rfl
  · rw [if_neg hnil, if_neg hnil, queued_dropped, refused_dropped]
    rfl

theorem whole_iff (reads : List Bytes) : Whole reads ↔ NoLateOctets reads := by
  constructor
  · rintro ⟨hqueued, hrefused⟩
    by_contra hlate
    have htwice := (reading_torn hlate).twice
    rw [← pipe_paid, hqueued, hrefused, ← Nat.add_assoc] at htwice
    exact absurd htwice (Nat.lt_irrefl _)
  · intro h
    obtain ⟨hqueued, hrefused, hcarry⟩ := reading_kept h
    change queued (reading reads).calls = records reads.flatten at hqueued
    change refused (reading reads).calls = overlong reads.flatten + (if jobProgressPartialCap ≤ (lined reads.flatten).rest.length then 1 else 0) at hrefused
    change (reading reads).carry = if jobProgressPartialCap ≤ (lined reads.flatten).rest.length then [] else (lined reads.flatten).rest at hcarry
    rw [Whole, pipeCalls_eq, hcarry]
    by_cases hfull : jobProgressPartialCap ≤ (lined reads.flatten).rest.length
    · have hsome : (lined reads.flatten).rest ≠ [] := by
        intro hnil
        rw [hnil] at hfull
        exact absurd hfull (by decide)
      rw [if_pos hfull, if_pos rfl, List.append_nil, hqueued, hrefused, if_pos hfull, if_neg hsome]
      exact ⟨rfl, rfl⟩
    · rw [if_neg hfull] at hrefused ⊢
      by_cases hnil : (lined reads.flatten).rest = []
      · rw [if_pos hnil, if_pos hnil, List.append_nil]
        exact ⟨hqueued, hrefused⟩
      · rw [if_neg hnil, if_neg hnil, queued_dropped, refused_dropped]
        exact ⟨hqueued, by rw [hrefused, Nat.add_zero]⟩

/-! ## The queue -/

/-- One call on the queue: by any job, or by the reader of the records. -/
inductive QueueOp
  | queue (job : RtJob) (record : Bytes)
  | pop

/-- The runner, the entries its queue has taken so far and those it has handed out. -/
structure Traffic where
  runner : RtJobRunner
  taken : List RtJobProgress
  handed : List RtJobProgress

def Traffic.step (t : Traffic) : QueueOp → Traffic
  | .queue job record =>
    { t with
      runner := (queueProgress (t.runner, job) record).1
      taken := t.taken ++ if IsRecord record ∧ 0 < t.runner.progressQueue.free then [progressEntry job record] else [] }
  | .pop =>
    match rtJobrunnerProgressPop t.runner with
    | none => t
    | some (out, r) => { t with runner := r, handed := t.handed ++ [out] }

def traffic (ops : List QueueOp) : Traffic := ops.foldl Traffic.step ⟨rtJobrunnerInit, [], []⟩

/-- The queue hands out what it took, in that order. -/
def Traffic.InOrder (t : Traffic) : Prop := t.handed ++ t.runner.progressQueue.toList = t.taken

theorem dropProgress_queue (s : RtJobRunner × RtJob) : (dropProgress s).1.progressQueue = s.1.progressQueue := rfl

/-- One call of `queue_progress`, by whether the record can be queued and whether a slot is free. -/
theorem queueProgress_spec (s : RtJobRunner × RtJob) (record : Bytes) :
    (∃ q, IsRecord record ∧ s.1.progressQueue.push (progressEntry s.2 record) = some q ∧
        queueProgress s record = ({ s.1 with progressQueue := q }, s.2)) ∨
      (IsRecord record ∧ s.1.progressQueue.free = 0 ∧ queueProgress s record = dropProgress s) ∨
      (¬ IsRecord record ∧ queueProgress s record = if record = [] then s else dropProgress s) := by
  unfold queueProgress
  by_cases hnil : record = []
  · exact .inr (.inr ⟨fun h => h.1 hnil, by rw [if_pos hnil, if_pos hnil]⟩)
  · rw [if_neg hnil]
    by_cases hlong : record.length ≥ jobProgressRecordCap
    · exact .inr (.inr ⟨fun h => absurd h.2 (Nat.not_lt.mpr hlong), by rw [if_pos hlong, if_neg hnil]⟩)
    · have hrec : IsRecord record := ⟨hnil, Nat.lt_of_not_le hlong⟩
      rw [if_neg hlong]
      cases hpush : s.1.progressQueue.push (progressEntry s.2 record) with
      | some q => exact .inl ⟨q, hrec, rfl, rfl⟩
      | none =>
        have hfull : ¬ 0 < s.1.progressQueue.free := by
          rw [← Ring.push_isSome (x := progressEntry s.2 record), hpush]
          exact Bool.false_ne_true
        exact .inr (.inl ⟨hrec, Nat.eq_zero_of_not_pos hfull, rfl⟩)

theorem queued_call (record : Bytes) (calls : List ProgressCall) :
    queued (.queue record :: calls) = if IsRecord record then record :: queued calls else queued calls := by
  by_cases h : IsRecord record <;> simp [queued, h]

theorem refused_call (record : Bytes) (calls : List ProgressCall) :
    refused (.queue record :: calls) = refused calls + if jobProgressRecordCap ≤ record.length then 1 else 0 := by
  rw [refused, List.countP_cons]
  simp only [decide_eq_true_eq]
  rfl

theorem calls_queue (calls : List ProgressCall) (s : RtJobRunner × RtJob) :
    (calls.foldl ProgressCall.run s).1.progressQueue.toList =
        s.1.progressQueue.toList ++ ((queued calls).take s.1.progressQueue.free).map (progressEntry s.2) ∧
      (calls.foldl ProgressCall.run s).1.progressDropped =
        s.1.progressDropped + refused calls + ((queued calls).length - s.1.progressQueue.free) := by
  induction calls generalizing s with
  | nil => exact ⟨by simp [queued], by simp [queued, refused]⟩
  | cons call calls ih =>
    rw [List.foldl_cons]
    cases call with
    | dropped =>
      obtain ⟨hlist, hcount⟩ := ih (dropProgress s)
      have hrefused : refused (.dropped :: calls) = refused calls + 1 := List.countP_cons_of_pos rfl
      refine ⟨hlist, ?_⟩
      rw [hrefused, ProgressCall.run, hcount]
      change s.1.progressDropped + 1 + refused calls + _ = _
      have hsame : queued (.dropped :: calls) = queued calls := rfl
      rw [hsame, dropProgress_queue]
      omega
    | queue record =>
      rw [queued_call, refused_call, ProgressCall.run]
      rcases queueProgress_spec s record with ⟨q, hrec, hpush, hq⟩ | ⟨hrec, hfull, hq⟩ | ⟨hrec, hq⟩
      · obtain ⟨hlist, hcount⟩ := ih ({ s.1 with progressQueue := q }, s.2)
        have hshort : ¬ jobProgressRecordCap ≤ record.length := Nat.not_le.mpr hrec.2
        rw [hq, hlist, hcount, if_pos hrec, if_neg hshort, Ring.push_toList hpush, Ring.push_free hpush]
        refine ⟨by simp, ?_⟩
        rw [List.length_cons]
        dsimp only
        omega
      · obtain ⟨hlist, hcount⟩ := ih (dropProgress s)
        have hshort : ¬ jobProgressRecordCap ≤ record.length := Nat.not_le.mpr hrec.2
        rw [hq, hlist, hcount, if_pos hrec, if_neg hshort, dropProgress_queue, hfull]
        refine ⟨by simp, ?_⟩
        change s.1.progressDropped + 1 + refused calls + _ = _
        rw [List.length_cons]
        omega
      · rw [if_neg hrec, hq]
        by_cases hnil : record = []
        · obtain ⟨hlist, hcount⟩ := ih s
          have hshort : ¬ jobProgressRecordCap ≤ record.length := by
            rw [hnil]
            decide
          rw [if_pos hnil, if_neg hshort, hlist, hcount]
          exact ⟨rfl, by omega⟩
        · obtain ⟨hlist, hcount⟩ := ih (dropProgress s)
          have hlong : jobProgressRecordCap ≤ record.length := Nat.le_of_not_lt fun hlt => hrec ⟨hnil, hlt⟩
          rw [if_neg hnil, if_pos hlong, hlist, hcount, dropProgress_queue]
          refine ⟨rfl, ?_⟩
          change s.1.progressDropped + 1 + refused calls + _ = _
          omega

theorem Traffic.InOrder.step {t : Traffic} (h : t.InOrder) (op : QueueOp) : (t.step op).InOrder := by
  unfold Traffic.InOrder at h ⊢
  cases op with
  | queue job record =>
    rcases queueProgress_spec (t.runner, job) record with ⟨q, hrec, hpush, hq⟩ | ⟨hrec, hfull, hq⟩ | ⟨hrec, hq⟩
    · have hfree : 0 < t.runner.progressQueue.free := Ring.push_isSome.mp (by rw [hpush]; rfl)
      simp only [Traffic.step, hq, if_pos (And.intro hrec hfree), Ring.push_toList hpush, ← List.append_assoc, h]
    · have hroom : ¬ (IsRecord record ∧ 0 < t.runner.progressQueue.free) := fun hr => absurd hr.2 (by rw [hfull]; decide)
      simp only [Traffic.step, hq, if_neg hroom, dropProgress_queue, List.append_nil, h]
    · have hroom : ¬ (IsRecord record ∧ 0 < t.runner.progressQueue.free) := fun hr => hrec hr.1
      have hsame : (queueProgress (t.runner, job) record).1.progressQueue = t.runner.progressQueue := by
        rw [hq]
        split <;> rfl
      simp only [Traffic.step, if_neg hroom, hsame, List.append_nil, h]
  | pop =>
    rw [Traffic.step]
    cases hpop : t.runner.progressQueue.pop noProgress with
    | none => simpa [rtJobrunnerProgressPop, hpop] using h
    | some popped =>
      obtain ⟨out, q⟩ := popped
      rw [Ring.pop_toList hpop] at h
      simpa [rtJobrunnerProgressPop, hpop] using h

theorem traffic_inOrder (ops : List QueueOp) : (traffic ops).InOrder := by
  induction ops using List.reverseRecOn with
  | nil => rfl
  | append_singleton ops op ih =>
    rw [traffic, List.foldl_append]
    exact ih.step op

/-- The partial record is not the queue's business. -/
theorem run_carry (call : ProgressCall) (s : RtJobRunner × RtJob) (p : Bytes) :
    call.run (s.1, { s.2 with progressPartial := p }) = ((call.run s).1, { (call.run s).2 with progressPartial := p }) := by
  cases call with
  | dropped => rfl
  | queue record =>
    simp only [ProgressCall.run, queueProgress]
    split
    · rfl
    · split
      · rfl
      · have hentry : progressEntry { s.2 with progressPartial := p } record = progressEntry s.2 record := rfl
        rw [hentry]
        cases s.1.progressQueue.push (progressEntry s.2 record) <;> rfl

theorem runs_carry (calls : List ProgressCall) (s : RtJobRunner × RtJob) (p : Bytes) :
    calls.foldl ProgressCall.run (s.1, { s.2 with progressPartial := p }) =
      ((calls.foldl ProgressCall.run s).1, { (calls.foldl ProgressCall.run s).2 with progressPartial := p }) := by
  induction calls generalizing s with
  | nil => rfl
  | cons call calls ih => rw [List.foldl_cons, List.foldl_cons, run_carry, ih]

theorem drain_eq (reads : List Bytes) (s : RtJobRunner × RtJob) :
    drainProgressPipe s reads =
      (((readCalls s.2.progressPartial reads).1.foldl ProgressCall.run s).1,
        { ((readCalls s.2.progressPartial reads).1.foldl ProgressCall.run s).2 with
          progressPartial := (readCalls s.2.progressPartial reads).2 }) := by
  induction reads using List.reverseRecOn with
  | nil => rfl
  | append_singleton reads bytes ih =>
    rw [drainProgressPipe, List.foldl_append]
    change drainRead (drainProgressPipe s reads) bytes = _
    rw [ih, readCalls_snoc, List.foldl_append, drainRead]
    dsimp only
    rw [runs_carry]

/-- A child's reads run the calls of its pipe on the runner. -/
theorem drain_calls (reads : List Bytes) (s : RtJobRunner × RtJob) (hfresh : s.2.progressPartial = []) :
    (endProgress (drainProgressPipe s reads)).1 = ((pipeCalls reads).foldl ProgressCall.run s).1 := by
  rw [drain_eq, hfresh, endProgress, pipeCalls, List.foldl_append]
  dsimp only
  split <;> rfl

/-- What a child's whole pipe does to the runner: the records go to the queue in order, behind what is there, and what the
queue has no slot for is counted with the rest. -/
def Drained (reads : List Bytes) : Prop :=
  ∀ (r : RtJobRunner) (job : RtJob), job.progressPartial = [] →
    let r' := (endProgress (drainProgressPipe (r, job) reads)).1
    r'.progressQueue.toList =
        r.progressQueue.toList ++ ((queued (pipeCalls reads)).take r.progressQueue.free).map (progressEntry job) ∧
      r'.progressDropped =
        r.progressDropped + refused (pipeCalls reads) + ((queued (pipeCalls reads)).length - r.progressQueue.free)

/-- The records a child's pipe asks to queue are its lines, whole, in order, every other one counted, just where no read
brings more of a line of which the reads before it brought a whole carry buffer; the queue takes and hands out in order. -/
theorem progress_whole_iff (reads : List Bytes) :
    (Whole reads ∧ Drained reads ∧ ∀ ops, (traffic ops).InOrder) ↔ NoLateOctets reads := by
  have hdrained : Drained reads := by
    intro r job hfresh
    rw [drain_calls reads (r, job) hfresh]
    exact calls_queue (pipeCalls reads) (r, job)
  rw [and_iff_left ⟨hdrained, traffic_inOrder⟩]
  exact whole_iff reads

/-- Of a line that is read in `n`, `n` and more octets, a whole carry buffer comes before the last read. -/
theorem noLateOctets_split {n : Nat} {c : Byte} {bytes : Bytes} (hc : c ≠ ch '\n') (hn : jobProgressPartialCap ≤ n + n)
    (h : NoLateOctets [List.replicate n c, List.replicate n c, bytes]) : lateOctets bytes = [] := by
  refine h [List.replicate n c, List.replicate n c] bytes [] rfl ?_
  have hflat : [List.replicate n c, List.replicate n c].flatten = [] ++ List.replicate (n + n) c := by
    rw [List.flatten_cons, List.flatten_cons, List.flatten_nil, List.append_nil, List.replicate_append_replicate, List.nil_append]
  have hline : ch '\n' ∉ List.replicate (n + n) c := fun hmem => hc (List.eq_of_mem_replicate hmem).symm
  rw [hflat, lined_part hline, List.length_append, List.length_replicate]
  exact Nat.le_trans hn (Nat.le_add_left _ _)

/-- Three reads of one line: the end of it is queued as a record. -/
theorem fragment_queued : ¬ Whole [List.replicate 4096 (ch 'a'), List.replicate 4096 (ch 'a'), lit "b\n"] := fun h =>
  absurd (noLateOctets_split (by decide) (by decide) ((whole_iff _).mp h)) (by decide)

end Floofclaw.Guarantees.ProgressLines
