import Mathlib.Data.List.Induction
import Floofclaw.Source.DiscordRest

/-!
# Posts leave the Discord queue in order

Over every sequence of queued replies and network events: what was queued is
what left, followed by what is still in the ring; an entry leaves after a final
answer, after its second ambiguous post, or because its request could not be
built; at most two posts of an entry that were written whole end without a
readable response, and the retry counters count the posts of the present head.
-/

set_option autoImplicit false

namespace Floofclaw.Guarantees.DiscordPosts
open Floofclaw.Lib Floofclaw.Source.DiscordRest

/-- The entries of the ring, the head first. -/
def pending (a : DcAdapter) : List DcOutbound :=
  (List.range a.outCount).map fun i => a.outq ((a.outHead + i) % dcOutQueueMax)

/-- An answer that ends an entry: success, or a status for which no retry is left. -/
def FinalAnswer (status : Int) (serverErrors : Nat) : Prop :=
  (200 ≤ status ∧ status < 300) ∨
    (¬ (200 ≤ status ∧ status < 300) ∧ status ≠ 429 ∧ ¬ (500 ≤ status ∧ status < 600)) ∨
    ((500 ≤ status ∧ status < 600) ∧ serverErrors = 2)

/-- What an entry that left has behind it. -/
def WellLeft (d : Left) : Prop :=
  d.posted ≤ d.answered + 2 ∧
    match d.why with
    | .answered status => FinalAnswer status d.serverErrors
    | .ambiguous => d.posted = d.answered + 2
    | .unbuildable => True

structure QueueOk (a : DcAdapter) : Prop where
  headOk : a.outHead < dcOutQueueMax
  countOk : a.outCount ≤ dcOutQueueMax
  fifo : a.queued = a.left.map Left.entry ++ pending a
  departed : ∀ d ∈ a.left, WellLeft d

/-- The retry counters against the posts of the present head, of which `inflight` waits for its response. -/
structure CountersOk (inflight : Nat) (a : DcAdapter) : Prop where
  posts : a.restAmbiguousRetries + a.answered + inflight = a.posted
  ambiguous : a.restAmbiguousRetries ≤ dcRestAmbiguousRetryMax
  server : a.restServerRetries = a.serverErrors
  serverOnce : a.serverErrors ≤ 1

def inflight (a : DcAdapter) : Nat := if a.restState = .reading then 1 else 0

structure Posting (a : DcAdapter) : Prop where
  queue : QueueOk a
  counters : CountersOk (inflight a) a
  current : a.restState ≠ .idle → a.outCount ≠ 0 ∧ a.restCur = a.outq a.outHead

/-! ## The ring -/

theorem pending_queueRaw {channelId payload : Bytes} {a a' : DcAdapter}
    (h : dcQueueRaw channelId payload a = some a') :
    ∃ entry, pending a' = pending a ++ [entry] ∧ a'.queued = a.queued ++ [entry] := by
  unfold dcQueueRaw at h
  split at h
  · cases h
  rename_i hroom
  cases h
  refine ⟨⟨clip 128 channelId, clip (dcChunkMax * 2 + 64) payload⟩, ?_, rfl⟩
  simp only [pending, List.range_succ, List.map_append, List.map_singleton, if_true]
  congr 1
  refine List.map_congr_left fun i hi => ?_
  have hlt := List.mem_range.mp hi
  have hne : (a.outHead + i) % dcOutQueueMax ≠ (a.outHead + a.outCount) % dcOutQueueMax := by
    unfold dcOutQueueMax at hroom ⊢
    omega
  exact if_neg hne

theorem queueRaw_same {channelId payload : Bytes} {a a' : DcAdapter} (h : dcQueueRaw channelId payload a = some a')
    (hq : QueueOk a) : QueueOk a' ∧ a' = { a with outq := a'.outq, outCount := a.outCount + 1, queued := a'.queued } ∧
      (a.outCount ≠ 0 → a'.outq a.outHead = a.outq a.outHead) := by
  obtain ⟨entry, hpending, hqueued⟩ := pending_queueRaw h
  unfold dcQueueRaw at h
  split at h
  · cases h
  rename_i hroom
  cases h
  refine ⟨⟨hq.headOk, ?_, ?_, hq.departed⟩, rfl, fun hcount => ?_⟩
  · show a.outCount + 1 ≤ dcOutQueueMax
    omega
  · rw [hpending, hqueued, hq.fifo, List.append_assoc]
  · have := hq.headOk
    have hne : a.outHead ≠ (a.outHead + a.outCount) % dcOutQueueMax := by
      unfold dcOutQueueMax at *
      omega
    exact if_neg hne

theorem queueRaw_posting {channelId payload : Bytes} {a a' : DcAdapter} (h : dcQueueRaw channelId payload a = some a')
    (hp : Posting a) : Posting a' := by
  obtain ⟨hqueue, hsame, hhead⟩ := queueRaw_same h hp.queue
  have hcounters := hp.counters
  have hcurrent := hp.current
  refine ⟨hqueue, ?_, ?_⟩
  · rw [hsame]
    exact ⟨hcounters.posts, hcounters.ambiguous, hcounters.server, hcounters.serverOnce⟩
  · intro hstate
    have hstate' : a.restState ≠ .idle := by
      rw [hsame] at hstate
      exact hstate
    have hcur := hcurrent hstate'
    have h1 : a'.outCount = a.outCount + 1 := by rw [hsame]
    have h2 : a'.restCur = a.restCur := by rw [hsame]
    have h3 : a'.outHead = a.outHead := by rw [hsame]
    refine ⟨by omega, ?_⟩
    rw [h2, h3, hhead hcur.1]
    exact hcur.2

theorem queueChunks_posting {channelId : Bytes} {chunks : List (Option Bytes)} {a a' : DcAdapter}
    (h : queueChunks channelId chunks a = some a') (hp : Posting a) : Posting a' := by
  induction chunks generalizing a with
  | nil =>
    cases h
    exact hp
  | cons chunk chunks ih =>
    cases chunk with
    | none => cases h
    | some payload =>
      obtain ⟨a1, hraw, hrest⟩ := Option.bind_eq_some_iff.mp h
      exact ih hrest (queueRaw_posting hraw hp)

theorem queue_posting {channelId : Bytes} {chunks : List (Option Bytes)} {a : DcAdapter} (hp : Posting a) :
    Posting (dcQueueMessageChunks channelId chunks a) := by
  unfold dcQueueMessageChunks
  split
  · exact hp
  split
  · exact hp
  · rename_i a' h
    exact queueChunks_posting h hp

theorem pending_cons {a : DcAdapter} (hhead : a.outHead < dcOutQueueMax) (hcount : a.outCount ≠ 0) (why : Departure) :
    pending a = a.outq a.outHead :: pending (dcRestCommitHead why a) := by
  obtain ⟨n, hn⟩ := Nat.exists_eq_succ_of_ne_zero hcount
  rw [dcRestCommitHead, if_neg hcount]
  simp only [pending, hn, Nat.succ_eq_add_one, List.range_succ_eq_map, List.map_cons, List.map_map, Nat.add_sub_cancel]
  congr 1
  · rw [Nat.add_zero, Nat.mod_eq_of_lt hhead]
  · refine List.map_congr_left fun i _ => ?_
    have hidx : (a.outHead + Nat.succ i) % dcOutQueueMax = ((a.outHead + 1) % dcOutQueueMax + i) % dcOutQueueMax := by
      unfold dcOutQueueMax
      omega
    exact congrArg a.outq hidx

/-! ## Closing, retrying, leaving -/

theorem close_posting {a : DcAdapter} (hq : QueueOk a) (hc : CountersOk 0 a) : Posting (dcCloseRest a) :=
  ⟨⟨hq.headOk, hq.countOk, hq.fifo, hq.departed⟩, ⟨hc.posts, hc.ambiguous, hc.server, hc.serverOnce⟩,
    fun h => absurd rfl h⟩

theorem retry_posting {nowMs delayMs : Nat} {a : DcAdapter} (hq : QueueOk a) (hc : CountersOk 0 a) :
    Posting (dcRestRetry nowMs delayMs a) := by
  have h := close_posting hq hc
  exact ⟨⟨h.queue.headOk, h.queue.countOk, h.queue.fifo, h.queue.departed⟩,
    ⟨h.counters.posts, h.counters.ambiguous, h.counters.server, h.counters.serverOnce⟩, fun h => absurd rfl h⟩

/-- The head leaves with its history, and the counters start again. -/
theorem commit_posting {why : Departure} {a : DcAdapter} (hq : QueueOk a) (hcount : a.outCount ≠ 0)
    (hleft : WellLeft ⟨a.outq a.outHead, why, a.posted, a.answered, a.serverErrors⟩) :
    Posting (dcRestDropOrCommit why a) := by
  have hpending := pending_cons hq.headOk hcount why
  have hfifo : a.queued = (dcRestCommitHead why a).left.map Left.entry ++ pending (dcRestCommitHead why a) := by
    rw [hq.fifo, hpending, dcRestCommitHead, if_neg hcount]
    simp
  rw [dcRestCommitHead, if_neg hcount] at hfifo
  rw [dcRestDropOrCommit, dcRestCommitHead, if_neg hcount]
  refine close_posting ⟨Nat.mod_lt _ (by decide), ?_, hfifo, fun d hd => ?_⟩ ⟨rfl, Nat.zero_le _, rfl, Nat.zero_le _⟩
  · exact Nat.le_trans (Nat.sub_le _ _) hq.countOk
  · rcases List.mem_append.mp hd with hd | hd
    · exact hq.departed d hd
    · rw [List.mem_singleton.mp hd]
      exact hleft

/-- A post that was written whole ends without a readable response. -/
theorem ambiguous_posting {nowMs : Nat} {a : DcAdapter} (hp : Posting a) (hreading : a.restState = .reading) :
    Posting (dcRestAmbiguousFailure nowMs a) := by
  have hcount := (hp.current (by rw [hreading]; exact nofun)).1
  have hposts := hp.counters.posts
  rw [inflight, if_pos hreading] at hposts
  rw [dcRestAmbiguousFailure, if_neg hcount]
  split
  · rename_i hfirst
    refine retry_posting ⟨hp.queue.headOk, hp.queue.countOk, hp.queue.fifo, hp.queue.departed⟩ ?_
    refine ⟨?_, hfirst, hp.counters.server, hp.counters.serverOnce⟩
    show a.restAmbiguousRetries + 1 + a.answered + 0 = a.posted
    omega
  · rename_i hagain
    have hone := hp.counters.ambiguous
    unfold dcRestAmbiguousRetryMax at hagain hone
    have hposted : a.posted = a.answered + 2 := by omega
    exact commit_posting hp.queue hcount ⟨hposted.le, hposted⟩

theorem QueueOk.counted {a : DcAdapter} (h : QueueOk a) (answered serverErrors serverRetries : Nat) :
    QueueOk { a with answered := answered, serverErrors := serverErrors, restServerRetries := serverRetries } :=
  ⟨h.headOk, h.countOk, h.fifo, h.departed⟩

/-- A readable response ends the post; what it means for the head depends on its status and on what came before. -/
theorem response_posting {nowMs retryDelayMs : Nat} {status : Int} {a : DcAdapter} (hp : Posting a)
    (hreading : a.restState = .reading) : Posting (dcRestApplyResponse nowMs retryDelayMs status a) := by
  have hcount := (hp.current (by rw [hreading]; exact nofun)).1
  have hposts := hp.counters.posts
  rw [inflight, if_pos hreading] at hposts
  have hone := hp.counters.ambiguous
  unfold dcRestAmbiguousRetryMax at hone
  unfold dcRestApplyResponse
  dsimp only
  split
  · rename_i hok
    exact commit_posting (hp.queue.counted _ _ _) hcount ⟨by dsimp only; omega, .inl hok⟩
  rename_i hok
  split
  · exact retry_posting (hp.queue.counted _ _ _) ⟨by dsimp only; omega, hone, hp.counters.server, hp.counters.serverOnce⟩
  rename_i hlimited
  split
  · rename_i hserver
    have hretries := hp.counters.server
    have honce := hp.counters.serverOnce
    split
    · rename_i hfirst
      refine retry_posting (hp.queue.counted _ _ _) ⟨by dsimp only; omega, hone, ?_, ?_⟩
      · show 1 = a.serverErrors + 1
        omega
      · show a.serverErrors + 1 ≤ 1
        omega
    · rename_i hagain
      refine commit_posting (hp.queue.counted _ _ _) hcount ⟨by dsimp only; omega, .inr (.inr ⟨hserver, ?_⟩)⟩
      show a.serverErrors + 1 = 2
      omega
  · rename_i hserver
    exact commit_posting (hp.queue.counted _ _ _) hcount ⟨by dsimp only; omega, .inr (.inl ⟨hok, hlimited, hserver⟩)⟩

/-! ## The connection -/

/-- Outside of reading no post is in flight. -/
theorem Posting.idleCounters {a : DcAdapter} (h : Posting a) (hstate : a.restState ≠ .reading) : CountersOk 0 a := by
  have hcounters := h.counters
  rw [inflight, if_neg hstate] at hcounters
  exact hcounters

theorem retry_stage {nowMs delayMs : Nat} {a : DcAdapter} (h : Posting a) (hstate : a.restState ≠ .reading) :
    Posting (dcRestRetry nowMs delayMs a) :=
  retry_posting h.queue (h.idleCounters hstate)

/-- The connection moves on to a state in which no post is in flight. -/
theorem advance_posting {a : DcAdapter} (h : Posting a) (hstate : a.restState ≠ .reading) (hidle : a.restState ≠ .idle)
    {next : DcRestState} (hnext : next ≠ .reading) : Posting { a with restState := next } := by
  have hcounters := h.idleCounters hstate
  refine ⟨⟨h.queue.headOk, h.queue.countOk, h.queue.fifo, h.queue.departed⟩, ?_, fun _ => h.current hidle⟩
  rw [inflight, if_neg hnext]
  exact ⟨hcounters.posts, hcounters.ambiguous, hcounters.server, hcounters.serverOnce⟩

theorem start_posting {nowMs : Nat} {request : Option Nat} {resolveBegun : Bool} {a : DcAdapter} (h : Posting a) :
    Posting (dcRestStart nowMs request resolveBegun a) := by
  unfold dcRestStart
  split
  · exact h
  rename_i hguard
  simp only [not_or, Decidable.not_not] at hguard
  obtain ⟨hidle, hcount, -⟩ := hguard
  have hcounters := h.idleCounters (by rw [hidle]; exact nofun)
  have hposts := hcounters.posts
  have hone := hcounters.ambiguous
  unfold dcRestAmbiguousRetryMax at hone
  cases request with
  | none =>
    refine commit_posting ⟨h.queue.headOk, h.queue.countOk, h.queue.fifo, h.queue.departed⟩ hcount ⟨?_, trivial⟩
    dsimp only
    omega
  | some len =>
    dsimp only
    split
    · refine ⟨⟨h.queue.headOk, h.queue.countOk, h.queue.fifo, h.queue.departed⟩, ?_, fun _ => ⟨hcount, rfl⟩⟩
      exact ⟨hcounters.posts, hcounters.ambiguous, hcounters.server, hcounters.serverOnce⟩
    · exact close_posting ⟨h.queue.headOk, h.queue.countOk, h.queue.fifo, h.queue.departed⟩
        ⟨hcounters.posts, hcounters.ambiguous, hcounters.server, hcounters.serverOnce⟩

theorem resolve_posting {nowMs : Nat} {rc : ResolveOutcome} {a : DcAdapter} (h : Posting a) :
    Posting (dcDriveRestResolve nowMs rc a) := by
  unfold dcDriveRestResolve
  split
  · exact h
  rename_i hstate
  rw [Decidable.not_not] at hstate
  have hcounters := h.idleCounters (by rw [hstate]; exact nofun)
  have hclosed : Posting (dcCloseRest { a with restRetryAfterMs := nowMs + dcRestRetryMs }) :=
    close_posting ⟨h.queue.headOk, h.queue.countOk, h.queue.fifo, h.queue.departed⟩
      ⟨hcounters.posts, hcounters.ambiguous, hcounters.server, hcounters.serverOnce⟩
  split
  · exact hclosed
  cases rc with
  | pending => exact h
  | connected => exact advance_posting h (by rw [hstate]; exact nofun) (by rw [hstate]; exact nofun) nofun
  | failed => exact hclosed

theorem connectStage_posting {nowMs : Nat} {w : Wake} {a : DcAdapter} (h : Posting a) :
    Posting (connectStage nowMs w a).state := by
  unfold connectStage
  split
  · rename_i hstate
    have hreading : a.restState ≠ .reading := by rw [hstate.1]; exact nofun
    split
    · exact retry_stage h hreading
    · exact advance_posting h hreading (by rw [hstate.1]; exact nofun) nofun
  · exact h

theorem handshakeStage_posting {nowMs : Nat} {w : Wake} {a : DcAdapter} (h : Posting a) :
    Posting (handshakeStage nowMs w a).state := by
  unfold handshakeStage
  split
  · rename_i hstate
    have hreading : a.restState ≠ .reading := by rw [hstate.1]; exact nofun
    split
    · exact advance_posting h hreading (by rw [hstate.1]; exact nofun) nofun
    · exact h
    · exact retry_stage h hreading
  · exact h

theorem writeStage_posting {nowMs : Nat} {w : Wake} {a : DcAdapter} (h : Posting a) :
    Posting (writeStage nowMs w a).state := by
  unfold writeStage
  split
  · rename_i hstate
    have hreading : a.restState ≠ .reading := by rw [hstate.1]; exact nofun
    have hcurrent := h.current (by rw [hstate.1]; exact nofun)
    have hcounters := h.idleCounters hreading
    split
    · exact retry_stage h hreading
    · refine ⟨⟨h.queue.headOk, h.queue.countOk, h.queue.fifo, h.queue.departed⟩, ?_, fun _ => hcurrent⟩
      refine ⟨?_, hcounters.ambiguous, hcounters.server, hcounters.serverOnce⟩
      have hposts := hcounters.posts
      show a.restAmbiguousRetries + a.answered + 1 = a.posted + 1
      omega
    · exact ⟨⟨h.queue.headOk, h.queue.countOk, h.queue.fifo, h.queue.departed⟩,
        ⟨h.counters.posts, h.counters.ambiguous, h.counters.server, h.counters.serverOnce⟩, fun _ => hcurrent⟩
  · exact h

theorem readStage_posting {nowMs : Nat} {w : Wake} {a : DcAdapter} (h : Posting a) :
    Posting (readStage nowMs w a).state := by
  unfold readStage
  split
  · rename_i hstate
    split
    · exact ambiguous_posting h hstate.1
    · split
      · exact ambiguous_posting h hstate.1
      · exact h
      · exact response_posting h hstate.1
  · exact h

theorem bind_posting {s : Stage} {f : DcAdapter → Stage} (hs : Posting s.state)
    (hf : ∀ a, Posting a → Posting (f a).state) : Posting (s.bind f).state := by
  cases s with
  | next a => exact hf a hs
  | done a => exact hs

theorem drive_posting {nowMs : Nat} {w : Wake} {a : DcAdapter} (h : Posting a) : Posting (dcDriveRest nowMs w a) := by
  unfold dcDriveRest
  split
  · exact start_posting h
  · refine bind_posting (bind_posting (bind_posting (bind_posting h ?_) ?_) ?_) ?_
    · exact fun _ => connectStage_posting
    · exact fun _ => handshakeStage_posting
    · exact fun _ => writeStage_posting
    · exact fun _ => readStage_posting

theorem expire_posting {nowMs : Nat} {a : DcAdapter} (h : Posting a) : Posting (dcRestProgressExpired nowMs a) := by
  unfold dcRestProgressExpired
  split
  · rename_i hdue
    exact ambiguous_posting h hdue.1
  · exact h

theorem step_posting {a : DcAdapter} (h : Posting a) (e : DcEvent) : Posting (dcStep a e) := by
  cases e with
  | queue channelId chunks => exact queue_posting h
  | start nowMs request resolveBegun => exact start_posting h
  | resolve nowMs rc => exact resolve_posting h
  | drive nowMs wake => exact drive_posting h
  | expire nowMs => exact expire_posting h

theorem init_posting : Posting dcInit :=
  ⟨⟨by decide, by decide, rfl, nofun⟩, ⟨rfl, by decide, rfl, by decide⟩, fun h => absurd rfl h⟩

/-- The adapter after a sequence of events. -/
def after (events : List DcEvent) : DcAdapter := events.foldl dcStep dcInit

theorem after_posting (events : List DcEvent) : Posting (after events) := by
  induction events using List.reverseRecOn with
  | nil => exact init_posting
  | append_singleton events e ih =>
    rw [after, List.foldl_append]
    exact step_posting ih e

/-- Order, departures and retries over every sequence of events. The two counters are those of the posts of the entry
that now heads the queue. -/
theorem posts_in_order (events : List DcEvent) :
    (after events).queued = (after events).left.map Left.entry ++ pending (after events) ∧
    (∀ d ∈ (after events).left, WellLeft d) ∧
    (after events).posted ≤ (after events).answered + inflight (after events) + 1 ∧
    (after events).restAmbiguousRetries + (after events).answered + inflight (after events) = (after events).posted ∧
    (after events).restServerRetries = (after events).serverErrors := by
  have h := after_posting events
  have hposts := h.counters.posts
  have hone := h.counters.ambiguous
  unfold dcRestAmbiguousRetryMax at hone
  exact ⟨h.queue.fifo, h.queue.departed, by omega, hposts, h.counters.server⟩

/-- The claimed reasons an entry leaves for: a final answer or the second ambiguous post. -/
def ClaimedReason (d : Left) : Prop :=
  match d.why with
  | .answered status => FinalAnswer status d.serverErrors
  | .ambiguous => d.posted = d.answered + 2
  | .unbuildable => False

/-- A head whose request cannot be built leaves without a single post. -/
theorem unbuilt_head_leaves :
    ∃ d ∈ (after [.queue (lit "42") [some (lit "hi")], .start 0 none true]).left, ¬ ClaimedReason d ∧ d.posted = 0 :=
  ⟨⟨⟨lit "42", lit "hi"⟩, .unbuildable, 0, 0, 0⟩, List.mem_singleton.mpr (by (repeat rw [lit_ofList]); decide), nofun, rfl⟩

end Floofclaw.Guarantees.DiscordPosts
