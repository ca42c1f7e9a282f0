import Floofclaw.Source.Actions

/-!
# The pending queue

What the operations of the ledger do to the queue: no request waits twice, a
terminal takes its request out, a start marks it and moves nothing.
-/

set_option autoImplicit false

namespace Floofclaw.Guarantees.Ledger
open Floofclaw.Lib Floofclaw.Source.Json Floofclaw.Source.Actions

def pendingIds (L : Ledger) : List Bytes := L.pending.map fun p => p.request.requestId

theorem isPending_iff {L : Ledger} {rid : Bytes} : L.isPending rid = true ↔ rid ∈ pendingIds L := by
  simp [Ledger.isPending, pendingIds]

theorem find_mem {L : Ledger} {rid : Bytes} {p : Pending} (h : L.find rid = some p) :
    p ∈ L.pending ∧ p.request.requestId = rid :=
  ⟨List.mem_of_find?_eq_some h, by simpa using List.find?_some h⟩

theorem find_none {L : Ledger} {rid : Bytes} : L.find rid = none ↔ rid ∉ pendingIds L := by
  simp only [Ledger.find, List.find?_eq_none, decide_eq_true_eq, pendingIds, List.mem_map, not_exists, not_and]

/-! ## Starts -/

theorem setStarted_request (b : Bool) (rid : Bytes) (ps : List Pending) :
    (setStarted b rid ps).map Pending.request = ps.map Pending.request := by
  induction ps with
  | nil => rfl
  | cons p rest ih =>
    rw [setStarted]
    split
    · rfl
    · rw [List.map_cons, List.map_cons, ih]

theorem setStarted_sig (b : Bool) (rid : Bytes) (ps : List Pending) :
    (setStarted b rid ps).map Pending.sig = ps.map Pending.sig := by
  induction ps with
  | nil => rfl
  | cons p rest ih =>
    rw [setStarted]
    split
    · rfl
    · rw [List.map_cons, List.map_cons, ih]

theorem noteStarted_ids (L : Ledger) (rid : Bytes) : pendingIds (noteStarted L rid) = pendingIds L := by
  have h := congrArg (List.map Request.requestId) (setStarted_request true rid L.pending)
  rwa [List.map_map, List.map_map] at h

/-! ## Terminals -/

theorem noteTerminal_sublist (L : Ledger) (rid : Bytes) : (noteTerminal L rid).pending.Sublist L.pending :=
  List.eraseP_sublist

theorem noteTerminal_nodup {L : Ledger} {rid : Bytes} (h : (pendingIds L).Nodup) : (pendingIds (noteTerminal L rid)).Nodup :=
  h.sublist ((noteTerminal_sublist L rid).map _)

theorem noteTerminal_absent {L : Ledger} {rid : Bytes} (h : rid ∉ pendingIds L) : (noteTerminal L rid).pending = L.pending := by
  apply List.eraseP_of_forall_not
  intro p hp hrid
  exact h (List.mem_map.mpr ⟨p, hp, by simpa using hrid⟩)

/-- A terminal takes its request out of the queue. -/
theorem noteTerminal_gone {L : Ledger} {rid : Bytes} (h : (pendingIds L).Nodup) : rid ∉ pendingIds (noteTerminal L rid) := by
  unfold pendingIds at h ⊢
  unfold noteTerminal
  dsimp only
  generalize L.pending = ps at h
  induction ps with
  | nil => simp
  | cons p rest ih =>
    rw [List.map_cons, List.nodup_cons] at h
    by_cases hrid : p.request.requestId = rid
    · rw [List.eraseP_cons_of_pos (by simpa using hrid), ← hrid]
      exact h.1
    · rw [List.eraseP_cons_of_neg (by simpa using hrid), List.map_cons, List.mem_cons, not_or]
      exact ⟨fun heq => hrid heq.symm, ih h.2⟩

/-- It leaves the others. -/
theorem noteTerminal_mem {L : Ledger} {rid rid' : Bytes} (h : rid' ∈ pendingIds L) (hne : rid' ≠ rid) :
    rid' ∈ pendingIds (noteTerminal L rid) := by
  obtain ⟨p, hp, rfl⟩ := List.mem_map.mp h
  refine List.mem_map.mpr ⟨p, ?_, rfl⟩
  exact (List.mem_eraseP_of_neg (by simpa using hne)).mpr hp

theorem terminalAdd_twice (ids : List Bytes) (rid : Bytes) : terminalAdd (terminalAdd ids rid) rid = terminalAdd ids rid := by
  by_cases h : rid = [] ∨ rid ∈ ids ∨ ids.length ≥ rtMaxCompletedActions
  · have hsame : terminalAdd ids rid = ids := by simp only [terminalAdd, if_pos h]
    rw [hsame, hsame]
  · have hadded : terminalAdd ids rid = ids ++ [rid] := by simp only [terminalAdd, if_neg h]
    rw [hadded, terminalAdd, if_pos (.inr (.inl (List.mem_append_right _ (List.mem_singleton.mpr rfl))))]

/-- Noting a terminal again changes nothing. -/
theorem noteTerminal_twice {L : Ledger} {rid : Bytes} (h : (pendingIds L).Nodup) :
    noteTerminal (noteTerminal L rid) rid = noteTerminal L rid := by
  have hgone : rid ∉ pendingIds (noteTerminal L rid) := noteTerminal_gone h
  have hpending : (noteTerminal (noteTerminal L rid) rid).pending = (noteTerminal L rid).pending := noteTerminal_absent hgone
  have hfind : (noteTerminal L rid).find rid = none := find_none.mpr hgone
  have hids : terminalAdd (noteTerminal L rid).completedIds rid = (noteTerminal L rid).completedIds :=
    terminalAdd_twice L.completedIds rid
  rw [noteTerminal, hids, hfind]
  exact congrArg (fun ps => { noteTerminal L rid with pending := ps }) hpending

/-! ## Requests -/

/-- An accepted request was not in the queue. -/
theorem accepted_fresh {L : Ledger} {r : Request} (h : noteVerdict L r = .accepted) : r.requestId ∉ pendingIds L := by
  intro hmem
  have hpending : L.isPending r.requestId = true := isPending_iff.mpr hmem
  unfold noteVerdict at h
  dsimp only at h
  rw [if_pos hpending, ite_self] at h
  cases h

theorem accept_ids (L : Ledger) (r : Request) : pendingIds (accept L r) = pendingIds L ++ [r.requestId] := by
  simp [pendingIds, accept]

theorem accept_nodup {L : Ledger} {r : Request} (h : (pendingIds L).Nodup) (hfresh : r.requestId ∉ pendingIds L) :
    (pendingIds (accept L r)).Nodup := by
  rw [accept_ids, List.nodup_append]
  refine ⟨h, List.pairwise_singleton _ _, fun a ha b hb heq => ?_⟩
  rw [List.mem_singleton] at hb
  subst heq
  subst hb
  exact hfresh ha

end Floofclaw.Guarantees.Ledger
