import Floofclaw.Source.BusIntake

/-!
# The order of intake

Envelopes leave the inbox in the order of their names, among those the scan had
room for. That is the order of their numbers when there is room for all of them,
none refuses to move, and the names sort as the numbers do.
-/

set_option autoImplicit false

namespace Floofclaw.Guarantees.IntakeOrder
open Floofclaw.Lib Floofclaw.Source.Bus Floofclaw.Source.BusIntake

/-- The numbers of the envelopes in the inbox, as `next_envelope_id` gave them out. -/
structure Inbox where
  numbers : List Nat
  nodup : numbers.Nodup
  issued : ∀ n ∈ numbers, 0 < n ∧ n ≤ longMax

/-- A reading of the directory: in any order, and with whatever else lies there. -/
def Inbox.Reads (inbox : Inbox) (entries : List Bytes) : Prop :=
  (entries.filter isCommittedEnvelopeName).Perm (inbox.numbers.map envelopeFile)

/-- Every envelope that is handed over is the lowest of those still in the inbox. -/
def InOrder (inbox : Inbox) (delivered : List Bytes) : Prop :=
  ∀ before n after, n ∈ inbox.numbers → delivered = before ++ envelopeFile n :: after →
    ∀ m ∈ inbox.numbers, envelopeFile m ∉ before → n ≤ m

/-- Intake is first in, first out, in whatever order the directory is read. -/
def Fifo (inbox : Inbox) (moves : Bytes → Bool) : Prop :=
  ∀ entries, inbox.Reads entries →
    (∀ budget stop, InOrder inbox (busDrainInbox budget moves stop entries)) ∧
      InOrder inbox (busPopOldest moves entries).toList

/-! ## Names -/

theorem envelopeFile_inj {n m : Nat} (h : envelopeFile n = envelopeFile m) : n = m :=
  envelopeName_inj (List.append_cancel_right h)

theorem envelopeFile_length {n : Nat} (h : n ≤ longMax) : (envelopeFile n).length < busNameMax := by
  have hlen : (decPadded 6 n).length ≤ max 6 19 := decPadded_length (by decide) (by unfold longMax at h; omega)
  have hlits : (lit "bus_").length = 4 ∧ (lit ".json").length = 5 := ⟨lit_length _, lit_length _⟩
  simp only [envelopeFile, envelopeName, List.length_append, hlits, busNameMax]
  omega

theorem envelopeFile_committed (n : Nat) : isCommittedEnvelopeName (envelopeFile n) = true := by
  have hprefix : (lit "bus_").isPrefixOf (envelopeFile n) = true := by
    rw [envelopeFile, envelopeName, List.append_assoc]
    exact List.isPrefixOf_iff_prefix.mpr (List.prefix_append _ _)
  have hdrop : (envelopeFile n).drop 4 = decPadded 6 n ++ lit ".json" := by
    rw [envelopeFile, envelopeName, List.append_assoc]
    exact List.drop_left' (lit_length _)
  have hdigits := decPadded_digits 6 n
  have hne : decPadded 6 n ≠ [] := by
    intro hnil
    rw [decPadded, List.append_eq_nil_iff] at hnil
    exact decNat_ne_nil n hnil.2
  have htake : (decPadded 6 n ++ lit ".json").takeWhile isDigit = decPadded 6 n := by
    rw [List.takeWhile_append_of_pos hdigits, show (lit ".json").takeWhile isDigit = [] by decide, List.append_nil]
  have hrest : (decPadded 6 n ++ lit ".json").dropWhile isDigit = lit ".json" := by
    rw [List.dropWhile_append_of_pos hdigits, show (lit ".json").dropWhile isDigit = lit ".json" by decide]
  simp [isCommittedEnvelopeName, hprefix, hdrop, htake, hrest, hne]

/-! ## The scan -/

section Scan
variable {inbox : Inbox} {entries : List Bytes}

theorem scan_eq (h : inbox.Reads entries) :
    inboxScanSorted entries = sortNames ((entries.filter isCommittedEnvelopeName).take busNamesCap) := by
  have hwhole : ((entries.filter isCommittedEnvelopeName).take busNamesCap).map (clip busNameMax) =
      (entries.filter isCommittedEnvelopeName).take busNamesCap := by
    refine (List.map_congr_left fun name hname => ?_).trans (List.map_id _)
    obtain ⟨n, hn, rfl⟩ := List.mem_map.mp (h.mem_iff.mp (List.mem_of_mem_take hname))
    exact clip_eq_self (envelopeFile_length (inbox.issued n hn).2)
  rw [inboxScanSorted, hwhole]

theorem scan_sorted (entries : List Bytes) : (inboxScanSorted entries).Pairwise fun s t => strcmpLe s t = true :=
  sortNames_sorted _

/-- A scan with room for the whole inbox finds every envelope in it. -/
theorem mem_scan (h : inbox.Reads entries) (hroom : inbox.numbers.length ≤ busNamesCap) {n : Nat} (hn : n ∈ inbox.numbers) :
    envelopeFile n ∈ inboxScanSorted entries := by
  have hlen : (entries.filter isCommittedEnvelopeName).length ≤ busNamesCap := by
    rw [h.length_eq, List.length_map]
    exact hroom
  rw [scan_eq h, mem_sortNames, List.take_of_length_le hlen]
  exact h.mem_iff.mpr (List.mem_map.mpr ⟨n, hn, rfl⟩)

end Scan

/-! ## The loop -/

theorem drainLoop_moves {moves stop : Bytes → Bool} {names : List Bytes} {x : Bytes} (h : x ∈ drainLoop moves stop names) :
    moves x = true ∧ x ∈ names := by
  induction names with
  | nil => cases h
  | cons name names ih =>
    rw [drainLoop] at h
    split at h
    · rename_i hmoves
      rcases List.mem_cons.mp h with rfl | h
      · exact ⟨hmoves, List.mem_cons_self⟩
      · split at h
        · cases h
        · exact ⟨(ih h).1, List.mem_cons_of_mem _ (ih h).2⟩
    · exact ⟨(ih h).1, List.mem_cons_of_mem _ (ih h).2⟩

/-- What was handed over before a name is what moved of the names in front of it. -/
theorem drainLoop_before {moves stop : Bytes → Bool} {names before after : List Bytes} {x : Bytes}
    (h : drainLoop moves stop names = before ++ x :: after) :
    ∃ p q, names = p ++ x :: q ∧ before = p.filter moves := by
  induction names generalizing before with
  | nil => simp [drainLoop] at h
  | cons name names ih =>
    rw [drainLoop] at h
    split at h
    · rename_i hmoves
      cases before with
      | nil =>
        obtain ⟨rfl, -⟩ := List.cons.inj h
        exact ⟨[], names, rfl, rfl⟩
      | cons y before =>
        obtain ⟨rfl, hrest⟩ := List.cons.inj h
        split at hrest
        · simp at hrest
        · obtain ⟨p, q, rfl, rfl⟩ := ih hrest
          exact ⟨name :: p, q, rfl, by rw [List.filter_cons_of_pos hmoves]⟩
    · rename_i hmoves
      obtain ⟨p, q, rfl, rfl⟩ := ih h
      exact ⟨name :: p, q, rfl, by rw [List.filter_cons_of_neg hmoves]⟩

theorem drainLoop_all (moves : Bytes → Bool) (names : List Bytes) : drainLoop moves (fun _ => false) names = names.filter moves := by
  induction names with
  | nil => rfl
  | cons name names ih =>
    rw [drainLoop, ih]
    split
    · rename_i hmoves
      rw [List.filter_cons_of_pos hmoves]
      rfl
    · rename_i hmoves
      rw [List.filter_cons_of_neg hmoves]

/-! ## First in, first out -/

/-- Of two envelopes of which the younger one moves: there is room for all, the older one moves too, and its name sorts
first. -/
def Orderly (inbox : Inbox) (moves : Bytes → Bool) : Prop :=
  ∀ a ∈ inbox.numbers, ∀ b ∈ inbox.numbers, a < b → moves (envelopeFile b) = true →
    inbox.numbers.length ≤ busNamesCap ∧ moves (envelopeFile a) = true ∧
      strcmpLe (envelopeFile a) (envelopeFile b) = true

section Order
variable {inbox : Inbox} {moves : Bytes → Bool}

theorem Orderly.before (h : Orderly inbox moves) {a b : Nat} (ha : a ∈ inbox.numbers) (hb : b ∈ inbox.numbers) (hlt : a < b)
    (hmoves : moves (envelopeFile b) = true) : strcmpLe (envelopeFile b) (envelopeFile a) = false := by
  obtain ⟨-, -, hle⟩ := h a ha b hb hlt hmoves
  rw [← Bool.not_eq_true]
  intro hge
  have hsame := envelopeFile_inj (strcmpLe_antisymm hle hge)
  omega

theorem Orderly.drain (h : Orderly inbox moves) {entries : List Bytes} (hreads : inbox.Reads entries) (budget : Int)
    (stop : Bytes → Bool) : InOrder inbox (busDrainInbox budget moves stop entries) := by
  intro before n after hn hdelivered m hm hpending
  by_contra hlt
  have hmoves : moves (envelopeFile n) = true := by
    rw [busDrainInbox] at hdelivered
    have hin : envelopeFile n ∈ drainLoop moves stop ((inboxScanSorted entries).take budget.toNat) := by
      rw [hdelivered]
      simp
    exact (drainLoop_moves hin).1
  obtain ⟨hroom, hmovesM, -⟩ := h m hm n hn (by omega) hmoves
  have hfirst := h.before hm hn (by omega) hmoves
  obtain ⟨p, q, hsplit, rfl⟩ := drainLoop_before hdelivered
  have hscan : inboxScanSorted entries = p ++ envelopeFile n :: (q ++ (inboxScanSorted entries).drop budget.toNat) := by
    conv => lhs; rw [← List.take_append_drop budget.toNat (inboxScanSorted entries), hsplit]
    simp
  have hmem : envelopeFile m ∈ p := by
    have hin := mem_scan hreads hroom hm
    have hsorted := scan_sorted entries
    rw [hscan] at hin hsorted
    exact sorted_split hsorted hin hfirst
  exact hpending (List.mem_filter.mpr ⟨hmem, hmovesM⟩)

theorem Orderly.pop (h : Orderly inbox moves) {entries : List Bytes} (hreads : inbox.Reads entries) :
    InOrder inbox (busPopOldest moves entries).toList := by
  intro before n after hn hdelivered m hm hpending
  by_contra hlt
  have hpopped : busPopOldest moves entries = some (envelopeFile n) := by
    cases hpop : busPopOldest moves entries with
    | none => simp [hpop] at hdelivered
    | some x =>
      rw [hpop, Option.toList_some] at hdelivered
      cases before with
      | nil => rw [(List.cons.inj hdelivered).1]
      | cons y before => simp at hdelivered
  obtain ⟨hhead, hmoves⟩ := Option.filter_eq_some_iff.mp hpopped
  obtain ⟨hroom, -, -⟩ := h m hm n hn (by omega) hmoves
  have hfirst := h.before hm hn (by omega) hmoves
  have hin := mem_scan hreads hroom hm
  have hsorted := scan_sorted entries
  obtain ⟨rest, hrest⟩ : ∃ rest, inboxScanSorted entries = [] ++ envelopeFile n :: rest := List.head?_eq_some_iff.mp hhead
  rw [hrest] at hin hsorted
  exact absurd (sorted_split hsorted hin hfirst) (List.not_mem_nil)

theorem Fifo.drain_all (h : Fifo inbox moves) {entries : List Bytes} (hreads : inbox.Reads entries) :
    InOrder inbox ((inboxScanSorted entries).filter moves) := by
  have hdrain := (h entries hreads).1 busNamesCap fun _ => false
  have hlen : (inboxScanSorted entries).length ≤ busNamesCap := by
    rw [inboxScanSorted, (sortNames_perm _).length_eq, List.length_map]
    exact List.length_take_le _ _
  rwa [busDrainInbox, Int.toNat_natCast, List.take_of_length_le hlen, drainLoop_all] at hdrain

/-- An envelope that is found and moves is handed over, and so is every older one before it. -/
theorem Fifo.contradiction (h : Fifo inbox moves) {entries : List Bytes} (hreads : inbox.Reads entries) {a b : Nat}
    (ha : a ∈ inbox.numbers) (hb : b ∈ inbox.numbers) (hlt : a < b) (hmoves : moves (envelopeFile b) = true)
    (hin : envelopeFile b ∈ inboxScanSorted entries)
    (hno : ∀ before after, (inboxScanSorted entries).filter moves = before ++ envelopeFile b :: after →
      envelopeFile a ∉ before) : False := by
  obtain ⟨before, after, hsplit⟩ := List.append_of_mem (List.mem_filter.mpr ⟨hin, hmoves⟩)
  have hle := h.drain_all hreads before b after hb hsplit a ha (hno before after hsplit)
  omega

/-- The files of the inbox in a given order. -/
theorem reads_of_perm {numbers : List Nat} (h : numbers.Perm inbox.numbers) : inbox.Reads (numbers.map envelopeFile) := by
  have hall : (numbers.map envelopeFile).filter isCommittedEnvelopeName = numbers.map envelopeFile := by
    rw [List.filter_eq_self]
    intro name hname
    obtain ⟨n, -, rfl⟩ := List.mem_map.mp hname
    exact envelopeFile_committed n
  rw [Inbox.Reads, hall]
  exact h.map _

/-- With more envelopes than slots, an order of the directory hides the older of two. -/
theorem Fifo.room (h : Fifo inbox moves) {a b : Nat} (ha : a ∈ inbox.numbers) (hb : b ∈ inbox.numbers) (hlt : a < b)
    (hmoves : moves (envelopeFile b) = true) : inbox.numbers.length ≤ busNamesCap := by
  by_contra hfull
  obtain ⟨rest, hperm⟩ : ∃ rest, (b :: (rest ++ [a])).Perm inbox.numbers := by
    have hb' : b ∈ inbox.numbers.erase a := (List.mem_erase_of_ne (by omega)).mpr hb
    refine ⟨(inbox.numbers.erase a).erase b, ?_⟩
    have h1 := List.perm_cons_erase hb'
    have h2 := List.perm_cons_erase ha
    refine List.Perm.trans ?_ h2.symm
    refine List.Perm.trans ?_ (h1.symm.cons a)
    exact (List.perm_append_singleton _ _).cons b |>.trans (List.Perm.swap _ _ _)
  have hreads := reads_of_perm hperm
  have hlen : busNamesCap ≤ rest.length + 1 := by
    have := hperm.length_eq
    simp only [List.length_cons, List.length_append, List.length_nil] at this
    omega
  have htaken : ((b :: (rest ++ [a])).map envelopeFile).take busNamesCap =
      ((b :: rest).map envelopeFile).take busNamesCap := by
    rw [← List.cons_append, List.map_append, List.take_append_of_le_length]
    simpa using hlen
  have hmem : ∀ n, envelopeFile n ∈ inboxScanSorted ((b :: (rest ++ [a])).map envelopeFile) ↔
      envelopeFile n ∈ ((b :: rest).map envelopeFile).take busNamesCap := by
    intro n
    have hall : ((b :: (rest ++ [a])).map envelopeFile).filter isCommittedEnvelopeName =
        (b :: (rest ++ [a])).map envelopeFile := by
      rw [List.filter_eq_self]
      intro name hname
      obtain ⟨n, -, rfl⟩ := List.mem_map.mp hname
      exact envelopeFile_committed n
    rw [scan_eq hreads, mem_sortNames, hall, htaken]
  have hbIn : envelopeFile b ∈ inboxScanSorted ((b :: (rest ++ [a])).map envelopeFile) :=
    (hmem b).mpr (by simp [busNamesCap])
  have haOut : envelopeFile a ∉ inboxScanSorted ((b :: (rest ++ [a])).map envelopeFile) := by
    intro hin
    obtain ⟨n, hn, hname⟩ := List.mem_map.mp (List.mem_of_mem_take ((hmem a).mp hin))
    have hnodup : ((b :: rest) ++ [a]).Nodup := hperm.nodup_iff.mpr inbox.nodup
    exact (List.nodup_append.mp hnodup).2.2 n hn a (by simp) (envelopeFile_inj hname)
  exact h.contradiction hreads ha hb hlt hmoves hbIn fun before after hsplit hin =>
    haOut (List.mem_filter.mp (hsplit ▸ List.mem_append_left _ hin)).1

end Order

/-- Intake is first in, first out exactly for the orderly inboxes. -/
theorem intake_fifo_iff (inbox : Inbox) (moves : Bytes → Bool) : Fifo inbox moves ↔ Orderly inbox moves := by
  constructor
  · intro h a ha b hb hlt hmoves
    have hroom := h.room ha hb hlt hmoves
    have hreads : inbox.Reads (inbox.numbers.map envelopeFile) := reads_of_perm (List.Perm.refl _)
    have hbIn := mem_scan hreads hroom hb
    have hsorted := (scan_sorted (inbox.numbers.map envelopeFile)).sublist (List.filter_sublist (p := moves))
    refine ⟨hroom, ?_, ?_⟩
    · by_contra hstays
      refine h.contradiction hreads ha hb hlt hmoves hbIn fun before after hsplit hin => hstays ?_
      exact (List.mem_filter.mp (hsplit ▸ List.mem_append_left _ hin)).2
    · by_contra hlast
      refine h.contradiction hreads ha hb hlt hmoves hbIn fun before after hsplit hin => hlast ?_
      rw [hsplit] at hsorted
      exact (List.pairwise_append.mp hsorted).2.2 _ hin _ List.mem_cons_self
  · intro h entries hreads
    exact ⟨h.drain hreads, h.pop hreads⟩

/-- The last number of six digits and the first of seven. -/
def lateInbox : Inbox := ⟨[999999, 1000000], by decide, by decide⟩

/-- The seven digits sort first. -/
theorem late_inbox_inverted : ¬ Fifo lateInbox fun _ => true := by
  intro h
  have hreads : lateInbox.Reads (lateInbox.numbers.map envelopeFile) := reads_of_perm (List.Perm.refl _)
  have hpopped : (busPopOldest (fun _ => true) (lateInbox.numbers.map envelopeFile)).toList = [envelopeFile 1000000] := by
    decide +kernel
  have hle := (h _ hreads).2 [] 1000000 [] (by decide) hpopped 999999 (by decide) (List.not_mem_nil)
  omega

end Floofclaw.Guarantees.IntakeOrder
