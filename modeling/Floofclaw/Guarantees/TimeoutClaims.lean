import Floofclaw.Guarantees.ResultRuns

/-!
# Timeout claims close their operations

The envelope id of a timeout claim is reserved once and kept on the record; the
claim itself carries the token the record held when it was published. A record
that had none is given one later, by the relaunch of its request, and the claim
on the bus then answers to no token. Where no token is bound behind a published
claim, what the deadline pump leaves on the bus is admitted, and the result it
opens ends the operation.
-/

set_option autoImplicit false

namespace Floofclaw.Guarantees.TimeoutClaims
open Floofclaw.Lib Floofclaw.Source.Operations Floofclaw.Source.Claims Floofclaw.Guarantees.ResultRuns

def bus (s : ClaimState) : List CompletionClaim := s.inbox ++ s.processed

/-- A timeout claim the record's token lets in. -/
structure Closes (o : OperationItem) (c : CompletionClaim) : Prop where
  operation : c.operationId = o.handle
  cause : c.cause = .timeout
  token : o.completionToken ≠ [] → c.completionToken = o.completionToken

/-- A running record whose timeout claim has its envelope id. -/
def Reserved (o : OperationItem) : Prop := o.status = .running ∧ o.claimEnvelopeId ≠ []

structure ClaimsClose (s : ClaimState) : Prop where
  nodup : (s.store.map OperationItem.handle).Nodup
  distinct : ∀ o ∈ s.store, ∀ x ∈ s.store, Reserved o → Reserved x → o.claimEnvelopeId = x.claimEnvelopeId →
    o.handle = x.handle
  claims : ∀ o ∈ s.store, Reserved o → ∀ c ∈ bus s, c.envelopeId = o.claimEnvelopeId → Closes o c

theorem ClaimsClose.same {s : ClaimState} (h : ClaimsClose s) {o x : OperationItem} (ho : o ∈ s.store) (hx : x ∈ s.store)
    (hhandle : x.handle = o.handle) : x = o := List.inj_on_of_nodup_map h.nodup hx ho hhandle

theorem init_claimsClose : ClaimsClose claimInit := ⟨by simp [claimInit], by simp [claimInit], by simp [claimInit]⟩

/-! ## What leaves claims and tokens alone -/

/-- Every reserved record of the second store stands in the first, its token unchanged. -/
structure Carried (st st' : OperationStore) : Prop where
  nodup : (st.map OperationItem.handle).Nodup → (st'.map OperationItem.handle).Nodup
  records : ∀ x ∈ st', Reserved x → ∃ o ∈ st, Reserved o ∧ o.handle = x.handle ∧
    o.claimEnvelopeId = x.claimEnvelopeId ∧ o.completionToken = x.completionToken

theorem Carried.sublist {st st' : OperationStore} (hsub : st'.Sublist st) : Carried st st' :=
  ⟨fun h => h.sublist (hsub.map _), fun x hx hres => ⟨x, hsub.subset hx, hres, rfl, rfl, rfl⟩⟩

theorem Carried.refl (st : OperationStore) : Carried st st := .sublist (List.Sublist.refl st)

theorem Carried.trans {st st1 st2 : OperationStore} (h : Carried st st1) (h' : Carried st1 st2) : Carried st st2 := by
  refine ⟨h'.nodup ∘ h.nodup, fun x hx hres => ?_⟩
  obtain ⟨y, hy, hyres, hh, he, ht⟩ := h'.records x hx hres
  obtain ⟨z, hz, hzres, hh', he', ht'⟩ := h.records y hy hyres
  exact ⟨z, hz, hzres, hh'.trans hh, he'.trans he, ht'.trans ht⟩

/-- A new record has reserved nothing yet. -/
theorem Carried.append {st : OperationStore} {o : OperationItem} (hnew : ∀ x ∈ st, x.handle ≠ o.handle)
    (hfree : ¬ Reserved o) : Carried st (st ++ [o]) := by
  refine ⟨fun h => ?_, fun x hx hres => ?_⟩
  · have hsettled : Settled (fun _ => False) st := ⟨h, nofun⟩
    exact (hsettled.append hnew nofun).nodup
  · rcases List.mem_append.mp hx with hx | hx
    · exact ⟨x, hx, hres, rfl, rfl, rfl⟩
    · rw [List.mem_singleton] at hx
      exact absurd (hx ▸ hres) hfree

theorem update_nodup {st : OperationStore} {id : Bytes} {change : OperationItem → OperationItem}
    (hkeep : ∀ o, (change o).handle = o.handle) (h : (st.map OperationItem.handle).Nodup) :
    ((opUpdate id change st).map OperationItem.handle).Nodup := by
  rw [opUpdate_handles hkeep]
  exact h

/-- A change that ends the record, or keeps what the claim depends on. -/
theorem Carried.update {st : OperationStore} {id : Bytes} {change : OperationItem → OperationItem}
    (hkeep : ∀ o, (change o).handle = o.handle)
    (hchange : ∀ o, Reserved (change o) → Reserved o ∧ (change o).claimEnvelopeId = o.claimEnvelopeId ∧
      (change o).completionToken = o.completionToken) : Carried st (opUpdate id change st) := by
  refine ⟨update_nodup hkeep, fun x hx hres => ?_⟩
  rcases mem_opUpdate hx with hx | ⟨o, ho, -, rfl⟩
  · exact ⟨x, hx, hres, rfl, rfl, rfl⟩
  · obtain ⟨hor, he, ht⟩ := hchange o hres
    exact ⟨o, ho, hor, (hkeep o).symm, he.symm, ht.symm⟩

theorem Carried.finish (st : OperationStore) (id : Bytes) : Carried st (opUpdate id finishItem st) :=
  .update (fun _ => rfl) fun _ hres => nomatch hres.1

theorem applyStarted_carried {keep : Nat} {ev : OperationStarted} {st st' : OperationStore}
    (happly : applyStarted keep ev st = .written st') : Carried st st' := by
  unfold applyStarted at happly
  split at happly
  · cases happly
  rename_i hne
  split at happly
  · split at happly <;> cases happly
  rename_i hnone
  split at happly
  · cases happly
  cases happly
  have hroom : ∀ st1 : OperationStore, st1.Sublist st → Carried st (st1 ++ [startedItem ev]) := by
    intro st1 hsub
    refine (Carried.sublist hsub).trans (.append (fun x hx => ?_) fun hres => hres.2 rfl)
    exact opFind_none hne hnone x (hsub.subset hx)
  refine Carried.trans ?_ (.sublist (purge_sublist keep _))
  split
  · exact hroom _ (dropFinished_sublist 1 st)
  · exact hroom st (List.Sublist.refl st)

theorem applyResult_carried {keep : Nat} {ev : OperationResult} {st st' : OperationStore}
    (happly : applyResult keep ev st = .written st') : Carried st st' := by
  unfold applyResult at happly
  split at happly
  · cases happly
  rename_i hne
  split at happly
  · rename_i hnone
    have hsub : (if st.length ≥ operationMaxItems then purgeFinishedOverCap keep st else st).Sublist st := by
      split
      · exact purge_sublist keep st
      · exact List.Sublist.refl st
    dsimp only at happly
    generalize (if st.length ≥ operationMaxItems then purgeFinishedOverCap keep st else st) = room at hsub happly
    split at happly
    · cases happly
    · cases happly
      refine Carried.trans ((Carried.sublist hsub).trans (.append (fun x hx => ?_) fun hres => hres.2 rfl))
        (.sublist (purge_sublist keep _))
      exact opFind_none hne hnone x (hsub.subset hx)
  · split at happly
    · cases happly
    split at happly
    · cases happly
    · cases happly
      exact (Carried.finish st ev.handle).trans (.sublist (purge_sublist keep _))

theorem setWorkerHandle_carried {op handle : Bytes} {st st' : OperationStore}
    (happly : rtOperationSetWorkerHandle op handle st = .written st') : Carried st st' := by
  unfold rtOperationSetWorkerHandle writeRunning at happly
  split at happly
  · cases happly
  split at happly
  · cases happly
  · cases happly
    exact .update (fun _ => rfl) fun _ hres => ⟨hres, rfl, rfl⟩

theorem closeWithoutResult_carried {keep : Nat} {op : Bytes} {st st' : OperationStore}
    (happly : rtOperationCloseWithoutResult keep op st = .written st') : Carried st st' := by
  unfold rtOperationCloseWithoutResult at happly
  split at happly
  · cases happly
  split at happly
  · cases happly
  · cases happly
    exact (Carried.finish st op).trans (.sublist (purge_sublist keep _))

/-- A store that loads as empty loses its records and keeps no claim waiting for them. -/
theorem storeApply_carried {io : StoreIo} {reduce : OperationStore → Reduced} (st : OperationStore)
    (hreduce : ∀ st1 st2, reduce st1 = .written st2 → Carried st1 st2) : Carried st (storeApply io reduce st).1 := by
  unfold storeApply
  split
  · exact .refl st
  · exact .refl st
  · rename_i st' hst
    split
    · refine Carried.trans ?_ (hreduce _ st' hst)
      split
      · exact .refl st
      · exact .sublist (List.nil_sublist st)
    · exact .refl st

/-- The reserved records stand as before, and no claim has come to the bus. -/
structure Kept (s s' : ClaimState) : Prop where
  store : Carried s.store s'.store
  bus : bus s' ⊆ bus s

theorem Kept.of_eq {s s' : ClaimState} (hstore : s'.store = s.store) (hbus : TimeoutClaims.bus s' ⊆ TimeoutClaims.bus s) :
    Kept s s' := ⟨hstore ▸ .refl _, hbus⟩

theorem Kept.refl (s : ClaimState) : Kept s s := .of_eq rfl (List.Subset.refl _)

theorem Kept.trans {s s1 s2 : ClaimState} (h : Kept s s1) (h' : Kept s1 s2) : Kept s s2 :=
  ⟨h.store.trans h'.store, fun _ hc => h.bus (h'.bus hc)⟩

theorem Kept.claimsClose {s s' : ClaimState} (h : Kept s s') (hs : ClaimsClose s) : ClaimsClose s' := by
  refine ⟨h.store.nodup hs.nodup, fun o ho x hx hor hxr heq => ?_, fun x hx hres c hc hid => ?_⟩
  · obtain ⟨o', ho', hor', hoh, hoe, -⟩ := h.store.records o ho hor
    obtain ⟨x', hx', hxr', hxh, hxe, -⟩ := h.store.records x hx hxr
    rw [← hoh, ← hxh]
    exact hs.distinct o' ho' x' hx' hor' hxr' (hoe.trans (heq.trans hxe.symm))
  · obtain ⟨o, ho, hor, hh, he, ht⟩ := h.store.records x hx hres
    have hcloses := hs.claims o ho hor c (h.bus hc) (hid.trans he.symm)
    exact ⟨hcloses.operation.trans hh, hcloses.cause, ht ▸ hcloses.token⟩

theorem crash_kept (s : ClaimState) : Kept s (crash s) := .of_eq rfl (List.Subset.refl _)

theorem replaceRun_kept (s : ClaimState) (r r' : ClaimRun) : Kept s (replaceRun s r r') :=
  .of_eq rfl (List.Subset.refl _)

theorem setPhase_kept (s : ClaimState) (r : ClaimRun) (phase : ClaimPhase) (live : Bool) :
    Kept s (setPhase s r phase live) := replaceRun_kept s r _

theorem storeStep_kept (s : ClaimState) (io : StoreIo) {reduce : OperationStore → Reduced}
    (hreduce : ∀ st1 st2, reduce st1 = .written st2 → Carried st1 st2) : Kept s (storeStep s io reduce) :=
  ⟨storeApply_carried s.store hreduce, List.Subset.refl _⟩

theorem commit_kept (keep : Nat) (s : ClaimState) (r : ClaimRun) (fate : AppendFate) :
    Kept s (commitInboundEvent keep s r fate).state := by
  unfold commitInboundEvent
  split
  · exact .refl s
  cases fate with
  | unpopulated => exact .refl s
  | crashedBefore => exact replaceRun_kept s r _
  | failed => exact replaceRun_kept s r _
  | reported readable => exact .of_eq rfl (List.Subset.refl _)
  | crashedAfter => exact .of_eq rfl (List.Subset.refl _)
  | appended io => exact ⟨storeApply_carried s.store fun _ _ => applyResult_carried, List.Subset.refl _⟩

theorem settleIntake_kept (c : Committed) : Kept c.state (settleIntake c) := by
  unfold settleIntake
  split
  · exact setPhase_kept _ _ _ _
  split
  · exact .refl _
  split
  · exact setPhase_kept _ _ _ _
  · exact .refl _
  · exact setPhase_kept _ _ _ _

theorem createRun_kept (keep : Nat) (s : ClaimState) (claim : CompletionClaim) (number : Nat) (fate : IntakeFate) :
    Kept s (createRunFromEnvelope keep s claim number fate) := by
  unfold createRunFromEnvelope
  split
  · exact crash_kept s
  · exact .refl s
  split
  · rename_i o _ _
    have hopened : Kept s (openRun s o claim number).1 := .of_eq rfl (List.Subset.refl _)
    dsimp only
    split
    · exact (hopened.trans (commit_kept keep _ _ _)).trans (crash_kept _)
    · exact (hopened.trans (commit_kept keep _ _ _)).trans (settleIntake_kept _)
  · exact .refl s

theorem retry_kept (keep : Nat) (s : ClaimState) (r : ClaimRun) (fate : AppendFate) :
    Kept s (retryWaitingClaim keep s r fate) := by
  unfold retryWaitingClaim
  have hcommit := commit_kept keep s r fate
  split
  · exact setPhase_kept _ _ _ _
  · exact setPhase_kept _ _ _ _
  dsimp only
  split
  · exact hcommit.trans (crash_kept _)
  split
  · exact hcommit
  split
  · exact hcommit.trans (setPhase_kept _ _ _ _)
  · exact hcommit.trans (setPhase_kept _ _ _ _)
  · exact hcommit

theorem restore_kept (keep : Nat) (s : ClaimState) (r : ClaimRun) (fate : AppendFate) :
    Kept s (restoreRunstate keep s r fate) := by
  unfold restoreRunstate
  split
  · exact crash_kept s
  rename_i o _
  dsimp only
  have hreplaced := replaceRun_kept s r { r with expected := resultOf o r.number r.claim }
  have hcommit := hreplaced.trans (commit_kept keep _ { r with expected := resultOf o r.number r.claim } fate)
  split
  · exact hreplaced.trans (setPhase_kept _ _ _ _)
  · exact hreplaced.trans (crash_kept _)
  split
  · exact hcommit.trans (crash_kept _)
  split
  · exact hcommit.trans (setPhase_kept _ _ _ _)
  · exact hcommit.trans (crash_kept _)

theorem takeEnvelope_kept {s : ClaimState} {claim : CompletionClaim} (hclaim : claim ∈ s.inbox) :
    Kept s (takeEnvelope s claim) := by
  refine .of_eq rfl fun c hc => ?_
  simp only [bus, takeEnvelope, List.mem_append, List.mem_cons, List.mem_filter] at hc ⊢
  rcases hc with hc | rfl | ⟨hc, -⟩
  · exact .inl (List.mem_of_mem_erase hc)
  · exact .inl hclaim
  · exact .inr hc

theorem requeue_kept {s : ClaimState} {claim : CompletionClaim} (hclaim : claim ∈ s.processed) :
    Kept s { s with processed := s.processed.erase claim, inbox := s.inbox ++ [claim] } := by
  refine .of_eq rfl fun c hc => ?_
  simp only [bus, List.mem_append, List.mem_singleton] at hc ⊢
  rcases hc with (hc | rfl) | hc
  · exact .inl hc
  · exact .inr hclaim
  · exact .inr (List.mem_of_mem_erase hc)

theorem discard_kept (s : ClaimState) (claim : CompletionClaim) :
    Kept s { s with processed := s.processed.erase claim } := by
  refine .of_eq rfl fun c hc => ?_
  simp only [bus, List.mem_append] at hc ⊢
  rcases hc with hc | hc
  · exact .inl hc
  · exact .inr (List.mem_of_mem_erase hc)

/-! ## Binding and publishing -/

/-- The condition on a step: a token is bound to a running record only while no claim with another token lies under
the record's envelope id, and the bus hands out each envelope id once. -/
def TokenFirst (s : ClaimState) : ClaimInput → Prop
  | .bindSecret op token io =>
    io.loaded = true → io.written = true → ∀ o ∈ opFind s.store op, o.status = .running → o.claimEnvelopeId ≠ [] →
      ∀ c ∈ bus s, c.envelopeId = o.claimEnvelopeId → c.completionToken = token
  | .publish claim => ∀ o ∈ s.store, o.status = .running → o.claimEnvelopeId ≠ claim.envelopeId
  | .timeout op reserved _ =>
    ∀ o ∈ opFind s.store op, o.claimEnvelopeId = [] →
      located s reserved = false ∧ ∀ x ∈ s.store, x.status = .running → x.claimEnvelopeId ≠ reserved
  | _ => True

instance (s : ClaimState) : (i : ClaimInput) → Decidable (TokenFirst s i)
  | .bindSecret .. => inferInstanceAs (Decidable (_ → _))
  | .publish _ => inferInstanceAs (Decidable (∀ o ∈ s.store, _))
  | .timeout op _ _ => inferInstanceAs (Decidable (∀ o ∈ opFind s.store op, _))
  | .started .. | .setWorkerHandle .. | .closeWithoutResult .. | .intake .. | .retry .. | .requeue _ | .discard _
  | .retire _ | .cancel _ | .prune _ | .crash | .recover .. | .start => isTrue trivial

/-- A direct write takes effect on a readable store only, and on the running record it finds. -/
theorem writeRunning_cases (io : StoreIo) (op : Bytes) (change : OperationItem → OperationItem) (st : OperationStore) :
    storeApply io (writeRunning op change) st = (st, false) ∨
      (storeApply io (writeRunning op change) st = (opUpdate op change st, true) ∧ io.loaded = true ∧ io.written = true ∧
        ∃ o, opFind st op = some o ∧ o.status = .running) := by
  unfold storeApply
  by_cases hloaded : io.loaded = true
  · rw [if_pos hloaded]
    unfold writeRunning
    cases hfind : opFind st op with
    | none => exact .inl rfl
    | some o =>
      cases hstatus : o.status with
      | finished => simp [hstatus]
      | running =>
        by_cases hwritten : io.written = true
        · exact .inr ⟨by simp [hstatus, hwritten], hloaded, hwritten, o, rfl, hstatus⟩
        · simp [hstatus, hwritten]
  · rw [if_neg hloaded]
    left
    have hnone : opFind [] op = none := by simp [opFind]
    simp [writeRunning, hnone]

theorem located_false {s : ClaimState} {id : Bytes} (h : located s id = false) : ∀ c ∈ bus s, c.envelopeId ≠ id := by
  intro c hc heq
  rw [located, List.any_eq_false] at h
  exact h c hc (by simpa using heq)

theorem mem_bus_publish {s : ClaimState} {claim c : CompletionClaim} (hc : c ∈ bus (busPublishStable s claim)) :
    c ∈ bus s ∨ (c = claim ∧ located s claim.envelopeId = false) := by
  unfold busPublishStable at hc
  split at hc
  · exact .inl hc
  · rename_i hfree
    simp only [bus, List.mem_append, List.mem_singleton] at hc ⊢
    rcases hc with (hc | rfl) | hc
    · exact .inl (.inl hc)
    · exact .inr ⟨rfl, by simpa using hfree⟩
    · exact .inl (.inr hc)

/-- A stable publication leaves some envelope under its id. -/
theorem publish_located (s : ClaimState) (claim : CompletionClaim) :
    ∃ c ∈ bus (busPublishStable s claim), c.envelopeId = claim.envelopeId := by
  unfold busPublishStable
  split
  · rename_i hfound
    obtain ⟨c, hc, hid⟩ := List.any_eq_true.mp hfound
    exact ⟨c, hc, by simpa using hid⟩
  · exact ⟨claim, by simp [bus], rfl⟩

@[simp] theorem publish_store (s : ClaimState) (claim : CompletionClaim) : (busPublishStable s claim).store = s.store := by
  unfold busPublishStable
  split <;> rfl

theorem publish_claimsClose {s : ClaimState} {claim : CompletionClaim} (h : ClaimsClose s)
    (hnew : located s claim.envelopeId = false → ∀ o ∈ s.store, Reserved o → claim.envelopeId = o.claimEnvelopeId →
      Closes o claim) : ClaimsClose (busPublishStable s claim) := by
  refine ⟨by rw [publish_store]; exact h.nodup, by rw [publish_store]; exact h.distinct, fun o ho hres c hc hid => ?_⟩
  rw [publish_store] at ho
  rcases mem_bus_publish hc with hc | ⟨rfl, hfree⟩
  · exact h.claims o ho hres c hc hid
  · exact hnew hfree o ho hres hid

theorem bindSecret_claimsClose {s : ClaimState} {op token : Bytes} {io : StoreIo} (h : ClaimsClose s)
    (hok : TokenFirst s (.bindSecret op token io)) : ClaimsClose (storeStep s io (rtOperationBindSecret op token)) := by
  unfold storeStep rtOperationBindSecret
  by_cases htoken : token = []
  · simpa [htoken, storeApply] using h
  simp only [htoken, if_false]
  rcases writeRunning_cases io op (fun o => { o with completionToken := token }) s.store with
    heq | ⟨heq, hloaded, hwritten, o, hfind, hrunning⟩
  · rw [heq]
    exact h
  rw [heq]
  obtain ⟨ho, hhandle⟩ := opFind_mem hfind
  -- every record of the new store is an old one, the found one under its new token
  have hold : ∀ x ∈ opUpdate op (fun o => { o with completionToken := token }) s.store, Reserved x →
      ∃ y ∈ s.store, Reserved y ∧ y.handle = x.handle ∧ y.claimEnvelopeId = x.claimEnvelopeId ∧
        (y = x ∨ (y = o ∧ x.completionToken = token)) := by
    intro x hx hres
    rcases mem_opUpdate hx with hx | ⟨y, hy, hyop, rfl⟩
    · exact ⟨x, hx, hres, rfl, rfl, .inl rfl⟩
    · exact ⟨y, hy, hres, rfl, rfl, .inr ⟨h.same ho hy (hyop.trans hhandle.symm), rfl⟩⟩
  refine ⟨?_, fun x hx x' hx' hres hres' hid => ?_, fun x hx hres c hc hid => ?_⟩
  · exact update_nodup (fun _ => rfl) h.nodup
  · obtain ⟨y, hy, hyr, hyh, hye, -⟩ := hold x hx hres
    obtain ⟨y', hy', hyr', hyh', hye', -⟩ := hold x' hx' hres'
    rw [← hyh, ← hyh']
    exact h.distinct y hy y' hy' hyr hyr' (hye.trans (hid.trans hye'.symm))
  · obtain ⟨y, hy, hyr, hyh, hye, heq⟩ := hold x hx hres
    have hcloses := h.claims y hy hyr c hc (hid.trans hye.symm)
    rcases heq with rfl | ⟨rfl, hnew⟩
    · exact hcloses
    · refine ⟨hcloses.operation.trans hyh, hcloses.cause, fun _ => ?_⟩
      rw [hnew]
      exact hok hloaded hwritten y hfind hrunning hyr.2 c hc (hid.trans hye.symm)

/-- What `publish_timeout_claim` puts on the bus for a record. -/
def timeoutClaim (o : OperationItem) (envelopeId : Bytes) : CompletionClaim :=
  { envelopeId := envelopeId, operationId := o.handle
    completionToken := if o.completionToken = [] then lit "expired" else o.completionToken
    cause := .timeout, status := lit "timed_out", text := deadlineText o.action }

theorem timeoutClaim_closes (o : OperationItem) (envelopeId : Bytes) : Closes o (timeoutClaim o envelopeId) :=
  ⟨rfl, rfl, fun h => if_neg h⟩

def bindEnvelope (envelopeId : Bytes) (o : OperationItem) : OperationItem := { o with claimEnvelopeId := envelopeId }

/-- The pump on a running record: it keeps its envelope id, reserves a new one, or fails to. -/
theorem timeout_cases {s : ClaimState} {op : Bytes} {o : OperationItem} (reserved : Bytes) (io : StoreIo)
    (hfind : opFind s.store op = some o) (hrunning : o.status = .running) :
    (o.claimEnvelopeId ≠ [] ∧
      publishTimeoutClaim s op reserved io = busPublishStable s (timeoutClaim o o.claimEnvelopeId)) ∨
    (o.claimEnvelopeId = [] ∧ reserved ≠ [] ∧
      publishTimeoutClaim s op reserved io =
        busPublishStable { s with store := opUpdate op (bindEnvelope reserved) s.store } (timeoutClaim o reserved)) ∨
    (o.claimEnvelopeId = [] ∧ (reserved = [] ∨ io.loaded = false ∨ io.written = false) ∧
      publishTimeoutClaim s op reserved io = s) := by
  obtain ⟨-, hhandle⟩ := opFind_mem hfind
  subst hhandle
  unfold publishTimeoutClaim
  rw [hfind]
  by_cases hkept : o.claimEnvelopeId = []
  · right
    by_cases hempty : reserved = []
    · right
      simp [hkept, hrunning, hempty, rtOperationBindClaimEnvelope, storeApply]
    have hbind : rtOperationBindClaimEnvelope o.handle reserved = writeRunning o.handle (bindEnvelope reserved) := by
      funext st
      simp only [rtOperationBindClaimEnvelope, hempty, if_false]
      rfl
    rw [hbind]
    rcases writeRunning_cases io o.handle (bindEnvelope reserved) s.store with heq | ⟨heq, -⟩
    · right
      have hio : io.loaded = false ∨ io.written = false := by
        by_contra hboth
        rw [not_or, Bool.not_eq_false, Bool.not_eq_false] at hboth
        simp [storeApply, writeRunning, hboth, hfind, hrunning] at heq
      simp [hkept, hrunning, heq, hio]
    · left
      simp [hkept, hrunning, heq, hempty, timeoutClaim]
  · left
    simp [hkept, hrunning, timeoutClaim]

theorem timeout_claimsClose {s : ClaimState} {op reserved : Bytes} {io : StoreIo} (h : ClaimsClose s)
    (hok : TokenFirst s (.timeout op reserved io)) : ClaimsClose (publishTimeoutClaim s op reserved io) := by
  cases hfind : opFind s.store op with
  | none => simpa [publishTimeoutClaim, hfind] using h
  | some o =>
    by_cases hrunning : o.status = .running
    swap
    · simpa [publishTimeoutClaim, hfind, hrunning] using h
    obtain ⟨ho, hhandle⟩ := opFind_mem hfind
    rcases timeout_cases reserved io hfind hrunning with ⟨hkept, heq⟩ | ⟨hkept, hne, heq⟩ | ⟨-, -, heq⟩
    · rw [heq]
      refine publish_claimsClose h fun _ x hx hres hid => ?_
      have hsame : x.handle = o.handle := h.distinct x hx o ho hres ⟨hrunning, hkept⟩ hid.symm
      exact h.same ho hx hsame ▸ timeoutClaim_closes o _
    · obtain ⟨hfree, hunused⟩ := hok o hfind hkept
      have hold : ∀ x ∈ opUpdate op (bindEnvelope reserved) s.store, Reserved x →
          (x ∈ s.store ∧ x.claimEnvelopeId ≠ reserved) ∨ x = bindEnvelope reserved o := by
        intro x hx hres
        rcases mem_opUpdate hx with hx | ⟨y, hy, hyop, rfl⟩
        · exact .inl ⟨hx, hunused x hx hres.1⟩
        · exact .inr (by rw [h.same ho hy (hyop.trans hhandle.symm)])
      have hbound : ClaimsClose { s with store := opUpdate op (bindEnvelope reserved) s.store } := by
        refine ⟨?_, fun x hx x' hx' hres hres' hid => ?_, fun x hx hres c hc hid => ?_⟩
        · exact update_nodup (fun _ => rfl) h.nodup
        · rcases hold x hx hres with ⟨hx, hxne⟩ | rfl
          · rcases hold x' hx' hres' with ⟨hx', -⟩ | rfl
            · exact h.distinct x hx x' hx' hres hres' hid
            · exact absurd hid hxne
          · rcases hold x' hx' hres' with ⟨-, hxne⟩ | rfl
            · exact absurd hid.symm hxne
            · rfl
        · rcases hold x hx hres with ⟨hx, -⟩ | rfl
          · exact h.claims x hx hres c hc hid
          · exact absurd hid (located_false hfree c hc)
      rw [heq]
      refine publish_claimsClose hbound fun _ x hx hres hid => ?_
      rcases hold x hx hres with ⟨-, hxne⟩ | rfl
      · exact absurd hid.symm hxne
      · have hcloses := timeoutClaim_closes o reserved
        exact ⟨hcloses.operation, hcloses.cause, hcloses.token⟩
    · rw [heq]
      exact h

/-! ## Runs -/

/-- One step keeps the invariant. -/
theorem step_claimsClose {keep : Nat} {s s' : ClaimState} {i : ClaimInput} (h : ClaimsClose s) (hok : TokenFirst s i)
    (hstep : claimStep keep s i = some s') : ClaimsClose s' := by
  cases i with
  | started ev io =>
    cases hstep
    exact (storeStep_kept s io fun _ _ => applyStarted_carried).claimsClose h
  | bindSecret op token io =>
    cases hstep
    exact bindSecret_claimsClose h hok
  | setWorkerHandle op handle io =>
    cases hstep
    exact (storeStep_kept s io fun _ _ => setWorkerHandle_carried).claimsClose h
  | closeWithoutResult op io =>
    cases hstep
    exact (storeStep_kept s io fun _ _ => closeWithoutResult_carried).claimsClose h
  | publish claim =>
    cases hstep
    exact publish_claimsClose h fun _ o ho hres hid => absurd hid.symm (hok o ho hres.1)
  | timeout op reserved io =>
    simp only [claimStep, Option.ite_none_right_eq_some, Option.some.injEq] at hstep
    exact hstep.2 ▸ timeout_claimsClose h hok
  | intake envelopeId number fate =>
    simp only [claimStep] at hstep
    split at hstep
    · cases hstep
    rename_i claim hclaim
    simp only [Option.ite_none_right_eq_some, Option.some.injEq] at hstep
    have htaken := takeEnvelope_kept (List.mem_of_find?_eq_some hclaim)
    exact hstep.2 ▸ (htaken.trans (createRun_kept keep _ claim number fate)).claimsClose h
  | retry number fate =>
    simp only [claimStep] at hstep
    split at hstep
    · cases hstep
    simp only [Option.ite_none_right_eq_some, Option.some.injEq] at hstep
    exact hstep.2 ▸ (retry_kept keep s _ fate).claimsClose h
  | requeue envelopeId =>
    simp only [claimStep] at hstep
    split at hstep
    · cases hstep
    rename_i claim hclaim
    simp only [Option.ite_none_right_eq_some, Option.some.injEq] at hstep
    exact hstep.2 ▸ (requeue_kept (List.mem_of_find?_eq_some hclaim)).claimsClose h
  | discard envelopeId =>
    simp only [claimStep] at hstep
    split at hstep
    · cases hstep
    rename_i claim _
    split at hstep
    · cases hstep
    split at hstep
    · cases hstep
    · cases hstep
      exact (discard_kept s claim).claimsClose h
  | retire number =>
    simp only [claimStep] at hstep
    split at hstep
    · cases hstep
    simp only [Option.ite_none_right_eq_some, Option.some.injEq] at hstep
    exact hstep.2 ▸ (setPhase_kept s _ _ _).claimsClose h
  | cancel number =>
    simp only [claimStep] at hstep
    split at hstep
    · cases hstep
    simp only [Option.ite_none_right_eq_some, Option.some.injEq] at hstep
    exact hstep.2 ▸ (setPhase_kept s _ _ _).claimsClose h
  | prune number =>
    simp only [claimStep] at hstep
    split at hstep
    · cases hstep
    rename_i r _
    simp only [Option.ite_none_right_eq_some, Option.some.injEq] at hstep
    have hpruned : Kept s { s with runs := s.runs.filter fun x => x ≠ r } := .of_eq rfl (List.Subset.refl _)
    exact hstep.2 ▸ hpruned.claimsClose h
  | crash =>
    cases hstep
    exact (crash_kept s).claimsClose h
  | recover number fate =>
    simp only [claimStep] at hstep
    split at hstep
    · cases hstep
    simp only [Option.ite_none_right_eq_some, Option.some.injEq] at hstep
    exact hstep.2 ▸ (restore_kept keep s _ fate).claimsClose h
  | start =>
    simp only [claimStep, Option.ite_none_right_eq_some, Option.some.injEq] at hstep
    have hstarted : Kept s { s with up := true } := .of_eq rfl (List.Subset.refl _)
    exact hstep.2 ▸ hstarted.claimsClose h

/-! ## The claim -/

/-- A claim that closes the record it finds is let in. -/
theorem Closes.admitted {st : OperationStore} {o : OperationItem} {c : CompletionClaim} (h : Closes o c)
    (hfind : opFind st c.operationId = some o) (hrunning : o.status = .running) :
    completionClaimDisposition st c = none := by
  unfold completionClaimDisposition
  rw [hfind]
  dsimp only
  rw [if_neg (by simp [hrunning]), h.cause]
  dsimp only
  refine if_neg fun hbad => ?_
  obtain ⟨hbound, hmismatch⟩ := hbad
  have hmatches : rtOperationTokenMatches st c.operationId c.completionToken = true := by
    simp [rtOperationTokenMatches, hfind, h.token hbound, hbound]
  simp [hmatches] at hmismatch

/-- What the pump leaves for an operation: an envelope under the record's id, once the store could be read and
written; every such envelope is let in, and the result it opens leaves no running record. -/
structure Closable (keep : Nat) (s : ClaimState) (op : Bytes) (io : StoreIo) : Prop where
  published : io.loaded = true → io.written = true →
    ∃ o ∈ opFind s.store op, o.claimEnvelopeId ≠ [] ∧ ∃ c ∈ bus s, c.envelopeId = o.claimEnvelopeId
  admitted : ∀ o ∈ opFind s.store op, o.claimEnvelopeId ≠ [] → ∀ c ∈ bus s, c.envelopeId = o.claimEnvelopeId →
    completionClaimDisposition s.store c = none
  closes : ∀ o ∈ opFind s.store op, o.claimEnvelopeId ≠ [] → ∀ c ∈ bus s, c.envelopeId = o.claimEnvelopeId →
    ∀ number, ∀ x ∈ (storeApply {} (applyResult keep (resultOf o number c)) s.store).1, x.handle = op →
      x.status = .finished

theorem opFind_update {st : OperationStore} {op : Bytes} {o : OperationItem} {change : OperationItem → OperationItem}
    (hkeep : ∀ o, (change o).handle = o.handle) (hfind : opFind st op = some o) :
    opFind (opUpdate op change st) op = some (change o) := by
  unfold opFind at hfind ⊢
  split at hfind
  · cases hfind
  rename_i hne
  rw [if_neg hne]
  induction st with
  | nil => cases hfind
  | cons x st ih =>
    rw [List.find?_cons] at hfind
    rw [opUpdate]
    by_cases hx : x.handle = op
    · rw [if_pos hx, List.find?_cons]
      simp only [hx, decide_true, Option.some.injEq] at hfind
      subst hfind
      simp [hkeep, hx]
    · rw [if_neg hx, List.find?_cons]
      simp only [hx, decide_false] at hfind ⊢
      exact ih hfind

/-- The pump leaves the record running, with the envelope id it published under. -/
theorem timeout_record {s : ClaimState} {op : Bytes} (reserved : Bytes) (io : StoreIo) {o : OperationItem}
    (hfind : opFind s.store op = some o) (hrunning : o.status = .running) :
    ∃ o', opFind (publishTimeoutClaim s op reserved io).store op = some o' ∧ o'.status = .running ∧
      (reserved ≠ [] → io.loaded = true → io.written = true →
        o'.claimEnvelopeId ≠ [] ∧ ∃ c ∈ bus (publishTimeoutClaim s op reserved io), c.envelopeId = o'.claimEnvelopeId) := by
  rcases timeout_cases reserved io hfind hrunning with ⟨hkept, heq⟩ | ⟨-, hne, heq⟩ | ⟨-, hfail, heq⟩
  · rw [heq]
    exact ⟨o, by rw [publish_store]; exact hfind, hrunning, fun _ _ _ => ⟨hkept, publish_located s _⟩⟩
  · rw [heq]
    refine ⟨bindEnvelope reserved o, ?_, hrunning, fun _ _ _ => ⟨hne, publish_located _ (timeoutClaim o reserved)⟩⟩
    rw [publish_store]
    exact opFind_update (fun _ => rfl) hfind
  · rw [heq]
    refine ⟨o, hfind, hrunning, fun hne hloaded hwritten => ?_⟩
    rcases hfail with h | h | h
    · exact absurd h hne
    · rw [hloaded] at h
      cases h
    · rw [hwritten] at h
      cases h

theorem ClaimsClose.closable (keep : Nat) {s : ClaimState} {op : Bytes} {io : StoreIo} {o : OperationItem}
    (h : ClaimsClose s) (hfind : opFind s.store op = some o) (hrunning : o.status = .running)
    (hpublished : io.loaded = true → io.written = true →
      o.claimEnvelopeId ≠ [] ∧ ∃ c ∈ bus s, c.envelopeId = o.claimEnvelopeId) : Closable keep s op io := by
  obtain ⟨ho, hhandle⟩ := opFind_mem hfind
  have hcloses : o.claimEnvelopeId ≠ [] → ∀ c ∈ bus s, c.envelopeId = o.claimEnvelopeId → Closes o c :=
    fun hne c hc hid => h.claims o ho ⟨hrunning, hne⟩ c hc hid
  refine ⟨fun hl hw => ⟨o, hfind, hpublished hl hw⟩, fun o' ho' hne c hc hid => ?_,
    fun o' ho' hne c hc hid number x hx hop => ?_⟩
  · obtain rfl : o = o' := Option.some.inj (hfind.symm.trans ho')
    have hc' := hcloses hne c hc hid
    exact hc'.admitted (by rw [hc'.operation, hhandle]; exact hfind) hrunning
  · obtain rfl : o = o' := Option.some.inj (hfind.symm.trans ho')
    have hsettled : Settled (fun _ => False) s.store := ⟨h.nodup, nofun⟩
    have hfound : opFind s.store (resultOf o number c).handle = some o := by
      rw [show (resultOf o number c).handle = op from hhandle]
      exact hfind
    have hresult := storeApply_result keep {} (resultOf o number c) hsettled hfound (resultOf_agrees o number c) rfl
    exact hresult.finished x hx (.inr (hop.trans hhandle.symm))

/-- An operation whose start is on record, and whose token is not bound yet. -/
def startedOnly : ClaimInput :=
  .started
    { handle := lit "op_1", action := lit "build", requestId := lit "1", triggerEventId := [], taskId := []
      contextId := lit "chat:cli", channel := lit "cli", adapterId := [], originEventId := [], refJson := [], workRev := 0
      deadlineMs := 1000 } {}

end Floofclaw.Guarantees.TimeoutClaims
