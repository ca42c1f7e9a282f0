import Floofclaw.Lib.Machine
import Floofclaw.Source.DiscordLoop
import Floofclaw.Source.TelegramLoop

/-!
# The reactor between ticks

When the janitor, the watcher, the Telegram module and the Discord module leave
a next deadline behind the time of their tick, so that the poll that follows
does not return at once. The watcher always does; each of the others has states
in which its deadline reads a field its tick does not act on.
-/

set_option autoImplicit false

namespace Floofclaw.Guarantees.Deadlines
open Floofclaw.Lib Floofclaw.Source.Reactor Floofclaw.Source.TelegramLoop Floofclaw.Source.DiscordLoop
open Floofclaw.Source
open Floofclaw.Source.DiscordRest (dcParseProgressTimeoutMs dcResolveTimeoutMs dcRestRetryMs dcRestAmbiguousRetryMax
  dcRestProgressExpired dcDriveRestResolve dcRestStart dcRestAmbiguousFailure
  dcRestDropOrCommit dcRestCommitHead dcRestRetry dcCloseRest dcQueueMessageChunks queueChunks dcQueueRaw)

/-! ## Folding deadlines -/

/-- A fold whose every step keeps to the bound exactly when the element allows it. -/
theorem lt_foldl_iff {α : Type} {f : Nat → α → Nat} {n : Nat} {q : α → Prop}
    (hf : ∀ e d, n < f e d ↔ n < e ∧ q d) (ds : List α) (e : Nat) :
    n < ds.foldl f e ↔ n < e ∧ ∀ d ∈ ds, q d := by
  induction ds generalizing e with
  | nil => simp
  | cons d ds ih =>
    rw [List.foldl_cons, ih, hf]
    simp only [List.mem_cons, forall_eq_or_imp]
    exact and_assoc

/-- A deadline that may not count, taken in when it is the sooner one. -/
theorem lt_sooner_iff {p : Prop} [Decidable p] (n d next : Nat) :
    n < (if p ∧ d < next then d else next) ↔ n < next ∧ (p → n < d) := by
  split
  · rename_i h
    exact ⟨fun hlt => ⟨by omega, fun _ => hlt⟩, fun hlt => hlt.2 h.1⟩
  · rename_i h
    refine ⟨fun hlt => ⟨hlt, fun hp => ?_⟩, And.left⟩
    have : ¬ d < next := fun hd => h ⟨hp, hd⟩
    omega

theorem lt_earliestDeadline_iff (now : Clock) (ds : List Nat) (e : Nat) :
    now.ms < earliestDeadline e ds ↔ now.ms < e ∧ ∀ d ∈ ds, now.ms < d := by
  have hnow := now.bounded
  have hnone : fcNoDeadline = 2 ^ 64 - 1 := rfl
  refine lt_foldl_iff (fun e d => ?_) ds e
  split <;> omega

/-- The poll returns at once exactly when a module's deadline is not behind the present. -/
theorem pollTimeoutMs_eq_zero_iff {defaultTimeoutMs : Nat} (hdefault : 0 < defaultTimeoutMs) (now : Clock)
    (ds : List Nat) : pollTimeoutMs now defaultTimeoutMs ds = 0 ↔ ¬ ∀ d ∈ ds, now.ms < d := by
  have hlt := lt_earliestDeadline_iff now ds (now.ms + defaultTimeoutMs)
  rw [pollTimeoutMs]
  split
  · rename_i hle
    have : ¬ ∀ d ∈ ds, now.ms < d := fun h => by
      have := hlt.mpr ⟨by omega, h⟩
      omega
    simpa using this
  · rename_i hgt
    have : ∀ d ∈ ds, now.ms < d := (hlt.mp (by omega)).2
    constructor
    · intro hzero
      omega
    · exact fun h => absurd this h

/-! ## The janitor -/

/-- Before its own tick is due no task is due; when it is due, each due task is set to a time to come, or to none. -/
def JanitorRests (now : Clock) (s : JanitorState) : Prop :=
  if now.ms < s.nextTickMs then ∀ t ∈ s.tasks, t.enabled = true → t.nextRunMs ≠ 0 → now.ms < t.nextRunMs
  else ∀ t ∈ s.tasks, t.enabled = true → t.nextRunMs ≤ now.ms →
    (now.ms + t.intervalMs) % word64 ≠ 0 → now.ms < (now.ms + t.intervalMs) % word64

theorem lt_janitorNextDeadlineMs_iff (now : Clock) (s : JanitorState) :
    now.ms < janitorNextDeadlineMs s ↔
      now.ms < s.nextTickMs ∧ ∀ t ∈ s.tasks, t.enabled = true → t.nextRunMs ≠ 0 → now.ms < t.nextRunMs := by
  refine lt_foldl_iff (fun e t => ?_) s.tasks s.nextTickMs
  split
  · rename_i h
    simp only [h.1, h.2.1, ne_eq, not_false_eq_true, true_imp_iff]
    omega
  · rename_i h
    simp only [not_and, not_lt] at h
    refine ⟨fun hlt => ⟨hlt, fun hen hne => ?_⟩, And.left⟩
    have := h hen hne
    omega

theorem runTask_later (now : Clock) (t : JanitorTask) :
    ((runTask now t).enabled = true → (runTask now t).nextRunMs ≠ 0 → now.ms < (runTask now t).nextRunMs) ↔
      (t.enabled = true → t.nextRunMs ≤ now.ms →
        (now.ms + t.intervalMs) % word64 ≠ 0 → now.ms < (now.ms + t.intervalMs) % word64) := by
  rw [runTask]
  split
  · rename_i h
    rcases h with hoff | hlater
    · simp [hoff]
    · refine ⟨fun _ _ hle => absurd hle (by omega), fun _ _ _ => hlater⟩
  · rename_i h
    simp only [not_or, Bool.not_eq_false, not_lt] at h
    simp [h.1, h.2]

theorem janitor_sleeps_iff (now : Clock) (s : JanitorState) :
    now.ms < janitorNextDeadlineMs (janitorTick now s) ↔ JanitorRests now s := by
  rw [lt_janitorNextDeadlineMs_iff, JanitorRests, janitorTick]
  split
  · rename_i hearly
    exact ⟨And.right, fun h => ⟨hearly, h⟩⟩
  · simp only [List.forall_mem_map, runTask_later]
    refine ⟨And.right, fun h => ⟨?_, h⟩⟩
    rw [janitorTickMs]
    omega

theorem watcher_sleeps (now : Clock) (s : WatcherState) : now.ms < watcherNextDeadlineMs (watcherTick now s) := by
  rw [watcherNextDeadlineMs, watcherTick, affairWatcherTickMs]
  split
  · assumption
  · show now.ms < now.ms + 5000
    omega

/-! ## Telegram -/

/-- Between two polls, or with one that gets as far as its connection; a poll in flight that this tick does not end, or
whose successor is not due. -/
def PollRests (now : Clock) (io : TgIo) (a : TgAdapter) : Prop :=
  match a.poll.state with
  | .idle => now.ms < a.pollNextMs ∨
      a.poll.retryAfterMs ≤ now.ms ∧ io.poll.resolveBegun = true ∧ io.poll.requestBuilt = true ∧ io.poll.resolved ≠ .failed
  | .resolving => now.ms < a.poll.resolveDeadlineMs ∧ io.poll.resolved ≠ .failed ∨ now.ms < a.pollNextMs
  | .reading => netProgressTimedOut a.poll.readStartedMs now tgProgressTimeoutMs = false ∨ now.ms < a.pollNextMs
  | _ => True

/-- No send is in flight, or this tick gives it up. -/
def SendRests (now : Clock) (io : TgIo) (c : TgConn) : Prop :=
  match c.state with
  | .idle => True
  | .resolving => c.resolveDeadlineMs ≤ now.ms ∨ io.send.resolved = .failed
  | .reading => netProgressTimedOut c.readStartedMs now tgProgressTimeoutMs = true
  | _ => False

/-- The update in hand is not published by this tick. -/
def PendingStays (now : Clock) (io : TgIo) (a : TgAdapter) : Prop :=
  a.pending.active = true ∧
    ¬(a.pending.mediaCount ≤ a.pending.resolveIndex ∧ a.file.retryAfterMs ≤ now.ms ∧ io.published = true)

/-- Nothing is queued or picked up, and neither a send nor a poll is kept waiting. -/
def TelegramRests (now : Clock) (io : TgIo) (a : TgAdapter) : Prop :=
  a.outCount = 0 ∧ (∀ chunks ∈ io.deliveries, chunks = 0) ∧ SendRests now io a.send ∧
    (PendingStays now io a ∨ PollRests now io a)

/-! ### What each part of the tick keeps -/

theorem publishPending_keeps (now : Clock) (io : TgIo) (a : TgAdapter) :
    (publishPending now io a).poll = a.poll ∧ (publishPending now io a).pollNextMs = a.pollNextMs ∧
      (publishPending now io a).send = a.send ∧ (publishPending now io a).outCount = a.outCount := by
  rw [publishPending]
  split
  · split <;> exact ⟨rfl, rfl, rfl, rfl⟩
  · exact ⟨rfl, rfl, rfl, rfl⟩

theorem startFile_keeps (now : Clock) (io : TgIo) (a : TgAdapter) :
    (startFile now io a).poll = a.poll ∧ (startFile now io a).pollNextMs = a.pollNextMs ∧ (startFile now io a).send = a.send ∧
      (startFile now io a).outCount = a.outCount ∧ (startFile now io a).pending = a.pending := by
  rw [startFile]
  split <;> exact ⟨rfl, rfl, rfl, rfl, rfl⟩

theorem startPoll_keeps (now : Clock) (io : TgIo) (a : TgAdapter) :
    (startPoll now io a).file = a.file ∧ (startPoll now io a).pollNextMs = a.pollNextMs ∧ (startPoll now io a).send = a.send ∧
      (startPoll now io a).outCount = a.outCount ∧ (startPoll now io a).pending = a.pending := by
  rw [startPoll]
  split <;> exact ⟨rfl, rfl, rfl, rfl, rfl⟩

theorem startPoll_poll (now : Clock) (io : TgIo) (a : TgAdapter) :
    (startPoll now io a).poll = if a.pending.active = false ∧ a.poll.state = .idle ∧ a.pollNextMs ≤ now.ms then
      tgConnStart now io.poll a.poll else a.poll := by
  simp only [startPoll, Bool.not_eq_true']
  split <;> rfl

theorem driveSend_keeps (now : Clock) (io : TgIo) (a : TgAdapter) :
    (driveSend now io a).poll = a.poll ∧ (driveSend now io a).file = a.file ∧ (driveSend now io a).pollNextMs = a.pollNextMs ∧
      (driveSend now io a).outCount = a.outCount ∧ (driveSend now io a).pending = a.pending := by
  rw [driveSend]
  split <;> exact ⟨rfl, rfl, rfl, rfl, rfl⟩

theorem driveSend_send (now : Clock) (io : TgIo) (a : TgAdapter) :
    (driveSend now io a).send = if a.send.state = .idle ∧ 0 < a.outCount then tgConnStart now io.send a.send else a.send := by
  rw [driveSend]
  split <;> rfl

/-- The adapter behind the reads a tick starts. -/
def readsStarted (now : Clock) (io : TgIo) (a : TgAdapter) : TgAdapter :=
  startPoll now io (startFile now io (publishPending now io a))

theorem readsStarted_keeps (now : Clock) (io : TgIo) (a : TgAdapter) :
    (readsStarted now io a).pollNextMs = a.pollNextMs ∧ (readsStarted now io a).send = a.send ∧
      (readsStarted now io a).outCount = a.outCount ∧ (readsStarted now io a).pending = (publishPending now io a).pending := by
  obtain ⟨-, hnext, hsend, hout⟩ := publishPending_keeps now io a
  obtain ⟨-, fnext, fsend, fout, fpending⟩ := startFile_keeps now io (publishPending now io a)
  obtain ⟨-, pnext, psend, pout, ppending⟩ := startPoll_keeps now io (startFile now io (publishPending now io a))
  exact ⟨pnext.trans (fnext.trans hnext), psend.trans (fsend.trans hsend), pout.trans (fout.trans hout), ppending.trans fpending⟩

/-- The adapter when the tick comes to its queue. -/
def drained (now : Clock) (io : TgIo) (a : TgAdapter) : TgAdapter :=
  tgDrainDeliveries io (driveResolves now io (expireReads now (readsStarted now io a)))

theorem tgTick_eq (now : Clock) (io : TgIo) (a : TgAdapter) :
    tgTick now io a = expireSend now (driveSend now io (drained now io a)) := rfl

theorem expireSend_eq (now : Clock) (a : TgAdapter) : expireSend now a = { a with send := tgConnExpire now a.send } := rfl

/-! ### The fields a tick leaves -/

theorem tgTick_pollNextMs (now : Clock) (io : TgIo) (a : TgAdapter) : (tgTick now io a).pollNextMs = a.pollNextMs := by
  rw [tgTick_eq, expireSend_eq]
  exact (driveSend_keeps now io (drained now io a)).2.2.1.trans (readsStarted_keeps now io a).1

theorem tgTick_outCount (now : Clock) (io : TgIo) (a : TgAdapter) :
    (tgTick now io a).outCount = io.deliveries.foldl tgQueueChunks a.outCount := by
  rw [tgTick_eq, expireSend_eq, ← (readsStarted_keeps now io a).2.2.1]
  exact (driveSend_keeps now io (drained now io a)).2.2.2.1

theorem tgTick_pending (now : Clock) (io : TgIo) (a : TgAdapter) :
    (tgTick now io a).pending = (publishPending now io a).pending := by
  rw [tgTick_eq, expireSend_eq]
  exact (driveSend_keeps now io (drained now io a)).2.2.2.2.trans (readsStarted_keeps now io a).2.2.2

theorem tgTick_poll (now : Clock) (io : TgIo) (a : TgAdapter) :
    (tgTick now io a).poll = tgConnDriveResolve now io.poll (tgConnExpire now
      (if (publishPending now io a).pending.active = false ∧ a.poll.state = .idle ∧ a.pollNextMs ≤ now.ms then
        tgConnStart now io.poll a.poll else a.poll)) := by
  obtain ⟨hpoll, hnext, -⟩ := publishPending_keeps now io a
  obtain ⟨fpoll, fnext, -, -, fpending⟩ := startFile_keeps now io (publishPending now io a)
  have hstart := startPoll_poll now io (startFile now io (publishPending now io a))
  rw [fpoll, fnext, fpending, hpoll, hnext] at hstart
  rw [← hstart, tgTick_eq, expireSend_eq]
  exact (driveSend_keeps now io (drained now io a)).1

theorem tgTick_file (now : Clock) (io : TgIo) (a : TgAdapter) :
    (tgTick now io a).file =
      tgConnDriveResolve now io.file (tgConnExpire now (startFile now io (publishPending now io a)).file) := by
  rw [← (startPoll_keeps now io (startFile now io (publishPending now io a))).1, tgTick_eq, expireSend_eq]
  exact (driveSend_keeps now io (drained now io a)).2.1

theorem tgTick_send (now : Clock) (io : TgIo) (a : TgAdapter) :
    (tgTick now io a).send = tgConnExpire now
      (if (tgConnDriveResolve now io.send a.send).state = .idle ∧ 0 < io.deliveries.foldl tgQueueChunks a.outCount then
        tgConnStart now io.send (tgConnDriveResolve now io.send a.send) else tgConnDriveResolve now io.send a.send) := by
  obtain ⟨-, hsend, hout, -⟩ := readsStarted_keeps now io a
  rw [← hsend, ← hout, tgTick_eq, expireSend_eq]
  exact congrArg (tgConnExpire now) (driveSend_send now io (drained now io a))

/-- A connection that is idle waits for its retry time. -/
def Waits (now : Clock) (c : TgConn) : Prop := c.state = .idle → now.ms < c.retryAfterMs

theorem tgConnRetry_waits (now : Clock) (c : TgConn) : Waits now (tgConnRetry now c) := by
  intro _
  show now.ms < now.ms + tgRetryMs
  rw [tgRetryMs]
  omega

theorem tgConnStart_waits (now : Clock) (io : ConnIo) (c : TgConn) : Waits now (tgConnStart now io c) := by
  rw [tgConnStart]
  split
  · rename_i h
    intro hidle
    rcases h with h | h
    · exact absurd hidle h
    · exact h
  · split
    · exact fun _ => by show now.ms < now.ms + tgRetryMs; rw [tgRetryMs]; omega
    · dsimp only
      split
      · nofun
      · exact tgConnRetry_waits now _

theorem tgConnExpire_waits {now : Clock} {c : TgConn} (h : Waits now c) : Waits now (tgConnExpire now c) := by
  rw [tgConnExpire]
  split
  · exact tgConnRetry_waits now c
  · exact h

theorem tgConnDriveResolve_waits {now : Clock} {io : ConnIo} {c : TgConn} (h : Waits now c) :
    Waits now (tgConnDriveResolve now io c) := by
  rw [tgConnDriveResolve]
  split_ifs
  · exact h
  · exact tgConnRetry_waits now c
  · cases io.resolved with
    | pending => exact h
    | connected => nofun
    | failed => exact tgConnRetry_waits now c

/-- What is still resolved has time left. -/
theorem tgConnDriveResolve_deadline (now : Clock) (io : ConnIo) (c : TgConn)
    (h : (tgConnDriveResolve now io c).state = .resolving) :
    now.ms < (tgConnDriveResolve now io c).resolveDeadlineMs := by
  rw [tgConnDriveResolve] at h ⊢
  split_ifs at h ⊢ with hstate hdue
  · exact absurd h hstate
  · cases h
  · revert h
    cases io.resolved with
    | pending => exact fun _ => not_le.mp hdue
    | connected => nofun
    | failed => nofun

/-- While an update is pending, the lookup of its file waits for a time to come when it is not under way. -/
theorem startFile_waits (now : Clock) (io : TgIo) (a : TgAdapter)
    (h : (publishPending now io a).pending.active = true) : Waits now (startFile now io (publishPending now io a)).file := by
  intro hidle
  rw [startFile] at hidle ⊢
  split at hidle
  · rename_i hdue
    rw [if_pos hdue]
    exact tgConnStart_waits now io.file _ hidle
  · rename_i hnot
    rw [if_neg hnot]
    by_contra hlate
    have hmedia : ¬ (publishPending now io a).pending.resolveIndex < (publishPending now io a).pending.mediaCount :=
      fun hlt => hnot ⟨h, hlt, hidle, by omega⟩
    revert h hmedia hlate
    rw [publishPending]
    split_ifs with hready hpublished
    · simp
    · have hretry : now.ms < now.ms + tgRetryMs := by rw [tgRetryMs]; omega
      exact fun _ hlate => absurd hretry hlate
    · exact fun h hlate hmedia => absurd ⟨h, by omega, by omega⟩ hready

theorem file_waits (now : Clock) (io : TgIo) (a : TgAdapter) (h : (tgTick now io a).pending.active = true) :
    Waits now (tgTick now io a).file := by
  rw [tgTick_pending] at h
  rw [tgTick_file]
  exact tgConnDriveResolve_waits (tgConnExpire_waits (startFile_waits now io a h))

theorem pending_iff (now : Clock) (io : TgIo) (a : TgAdapter) :
    (tgTick now io a).pending.active = true ↔ PendingStays now io a := by
  rw [tgTick_pending, publishPending, PendingStays]
  split_ifs with hready hpublished
  · exact ⟨nofun, fun h => absurd ⟨hready.2.1, hready.2.2, hpublished⟩ h.2⟩
  · exact ⟨fun h => ⟨h, fun hall => hpublished hall.2.2⟩, And.left⟩
  · exact ⟨fun h => ⟨h, fun hall => hready ⟨h, hall.1, hall.2.1⟩⟩, And.left⟩

/-- A connection that may start stays idle exactly when one of its calls fails at once. -/
theorem started_idle_iff {now : Clock} {io : ConnIo} {c : TgConn} (hidle : c.state = .idle)
    (hretry : c.retryAfterMs ≤ now.ms) :
    (tgConnDriveResolve now io (tgConnExpire now (tgConnStart now io c))).state = .idle ↔
      ¬(io.resolveBegun = true ∧ io.requestBuilt = true ∧ io.resolved ≠ .failed) := by
  have hstart : ¬(c.state ≠ .idle ∨ now.ms < c.retryAfterMs) := by
    rw [not_or, not_not]
    exact ⟨hidle, by omega⟩
  rw [tgConnStart, if_neg hstart]
  cases hbegun : io.resolveBegun with
  | false => simp [tgConnExpire, tgConnDriveResolve, hidle]
  | true =>
    cases hbuilt : io.requestBuilt with
    | false => simp [tgConnExpire, tgConnDriveResolve, tgConnRetry, tgConnClose]
    | true =>
      have hearly : ¬ now.ms + tgResolveTimeoutMs ≤ now.ms := by rw [tgResolveTimeoutMs]; omega
      cases hres : io.resolved <;> simp [tgConnExpire, tgConnDriveResolve, tgConnRetry, tgConnClose, hres, hearly]

theorem resolving_idle_iff {now : Clock} {io : ConnIo} {c : TgConn} (h : c.state = .resolving) :
    (tgConnDriveResolve now io (tgConnExpire now c)).state = .idle ↔
      ¬(now.ms < c.resolveDeadlineMs ∧ io.resolved ≠ .failed) := by
  have hexpire : tgConnExpire now c = c := if_neg (by simp [h])
  rw [hexpire, tgConnDriveResolve, if_neg (by simp [h])]
  split
  · simp only [tgConnRetry, tgConnClose, true_iff, not_and]
    omega
  · rename_i hearly
    rw [not_le] at hearly
    cases hres : io.resolved <;> simp [tgConnRetry, tgConnClose, h, hearly]

theorem reading_idle_iff {now : Clock} {io : ConnIo} {c : TgConn} (h : c.state = .reading) :
    (tgConnDriveResolve now io (tgConnExpire now c)).state = .idle ↔
      ¬ netProgressTimedOut c.readStartedMs now tgProgressTimeoutMs = false := by
  rw [tgConnExpire]
  cases netProgressTimedOut c.readStartedMs now tgProgressTimeoutMs <;>
    simp [tgConnDriveResolve, tgConnRetry, tgConnClose, h]

/-- Where no update is pending, the poll after the tick is under way or due later exactly when the poll rests. -/
theorem poll_iff (now : Clock) (io : TgIo) (a : TgAdapter) (h : (tgTick now io a).pending.active = false) :
    ((tgTick now io a).poll.state = .idle → now.ms < a.pollNextMs) ↔ PollRests now io a := by
  rw [tgTick_pending] at h
  rw [tgTick_poll, h, PollRests]
  cases hstate : a.poll.state with
  | idle =>
    by_cases hnext : a.pollNextMs ≤ now.ms
    · rw [if_pos ⟨rfl, rfl, hnext⟩]
      by_cases hretry : now.ms < a.poll.retryAfterMs
      · have hstay : tgConnStart now io.poll a.poll = a.poll := if_pos (.inr hretry)
        rw [hstay]
        simp only [tgConnExpire, tgConnDriveResolve, hstate, reduceCtorEq, false_and, if_false, ne_eq, not_false_eq_true,
          if_true, true_imp_iff]
        exact ⟨.inl, fun h => h.elim id fun h => by omega⟩
      · rw [started_idle_iff hstate (by omega)]
        refine ⟨fun h => ?_, fun h hnot => ?_⟩
        · exact .inr ⟨by omega, by_contra fun hnot => absurd (h hnot) (by omega)⟩
        · exact h.elim id fun h => absurd h.2 hnot
    · simp only [hnext, and_false, if_false]
      exact ⟨fun _ => .inl (by omega), fun _ _ => by omega⟩
  | resolving =>
    rw [if_neg (by simp), resolving_idle_iff hstate]
    exact Decidable.imp_iff_not_or.trans (or_congr_left Decidable.not_not)
  | reading =>
    rw [if_neg (by simp), reading_idle_iff hstate]
    exact Decidable.imp_iff_not_or.trans (or_congr_left Decidable.not_not)
  | tcp => simp [tgConnDriveResolve, tgConnExpire, hstate]
  | tls => simp [tgConnDriveResolve, tgConnExpire, hstate]
  | writing => simp [tgConnDriveResolve, tgConnExpire, hstate]

/-- With an empty queue, no send is under way after the tick exactly when sending rests. -/
theorem send_iff (now : Clock) (io : TgIo) (a : TgAdapter) (h : io.deliveries.foldl tgQueueChunks a.outCount = 0) :
    (tgTick now io a).send.state = .idle ↔ SendRests now io a.send := by
  rw [tgTick_send, h, SendRests]
  simp only [Nat.lt_irrefl, and_false, if_false]
  cases hstate : a.send.state with
  | idle => simp [tgConnDriveResolve, tgConnExpire, hstate]
  | resolving =>
    rw [tgConnDriveResolve, if_neg (by simp [hstate])]
    split
    · rename_i hdue
      simp [tgConnExpire, tgConnRetry, tgConnClose, hdue]
    · rename_i hearly
      cases hres : io.send.resolved <;> simp [tgConnExpire, tgConnRetry, tgConnClose, hstate, hearly]
  | reading =>
    cases hout : netProgressTimedOut a.send.readStartedMs now tgProgressTimeoutMs <;>
      simp [tgConnDriveResolve, tgConnExpire, tgConnRetry, tgConnClose, hstate, hout]
  | tcp => simp [tgConnDriveResolve, tgConnExpire, hstate]
  | tls => simp [tgConnDriveResolve, tgConnExpire, hstate]
  | writing => simp [tgConnDriveResolve, tgConnExpire, hstate]

theorem tgQueueChunks_eq_zero_iff (outCount chunks : Nat) : tgQueueChunks outCount chunks = 0 ↔ outCount = 0 ∧ chunks = 0 := by
  have hmax : tgOutQueueMax = 64 := rfl
  rw [tgQueueChunks]
  split <;> omega

theorem drained_eq_zero_iff (deliveries : List Nat) (outCount : Nat) :
    deliveries.foldl tgQueueChunks outCount = 0 ↔ outCount = 0 ∧ ∀ chunks ∈ deliveries, chunks = 0 := by
  induction deliveries generalizing outCount with
  | nil => simp
  | cons chunks deliveries ih =>
    rw [List.foldl_cons, ih, tgQueueChunks_eq_zero_iff, List.forall_mem_cons, and_assoc]

/-- What the deadline is later than the present for. -/
theorem lt_tgNextDeadline_iff (now : Clock) (a : TgAdapter) :
    now.ms < tgNextDeadline now a ↔
      (a.outCount = 0 ∧ a.send.state = .idle) ∧
        ((a.pending.active = true → Waits now a.file) ∧
          (a.pending.active = false → a.poll.state = .idle → now.ms < a.pollNextMs)) ∧
        (a.poll.state = .resolving → now.ms < a.poll.resolveDeadlineMs) ∧
        (a.file.state = .resolving → now.ms < a.file.resolveDeadlineMs) := by
  have hnow := now.bounded
  have hnone : fcNoDeadline = 2 ^ 64 - 1 := rfl
  rw [tgNextDeadline]
  by_cases hbusy : 0 < a.outCount ∨ a.send.state ≠ .idle
  · rw [if_pos hbusy]
    refine ⟨fun h => absurd h (Nat.lt_irrefl _), fun h => ?_⟩
    rcases hbusy with hout | hsend
    · exact absurd h.1.1 (by omega)
    · exact absurd h.1.2 hsend
  · have hfree : a.outCount = 0 ∧ a.send.state = .idle := by
      rw [not_or, not_not] at hbusy
      exact ⟨by omega, hbusy.2⟩
    rw [if_neg hbusy]
    dsimp only
    rw [lt_sooner_iff, lt_sooner_iff, and_assoc, and_iff_right hfree]
    refine and_congr_left fun _ => ?_
    rw [Waits]
    cases a.pending.active <;> cases a.file.state <;> cases a.poll.state <;> simp <;> omega

theorem telegram_sleeps_iff (now : Clock) (io : TgIo) (a : TgAdapter) :
    now.ms < tgNextDeadline now (tgTick now io a) ↔ TelegramRests now io a := by
  rw [lt_tgNextDeadline_iff, TelegramRests, tgTick_outCount, tgTick_pollNextMs]
  have hpoll : (tgTick now io a).poll.state = .resolving → now.ms < (tgTick now io a).poll.resolveDeadlineMs := by
    rw [tgTick_poll]
    exact tgConnDriveResolve_deadline now io.poll _
  have hfile : (tgTick now io a).file.state = .resolving → now.ms < (tgTick now io a).file.resolveDeadlineMs := by
    rw [tgTick_file]
    exact tgConnDriveResolve_deadline now io.file _
  have hmain : ((tgTick now io a).pending.active = true → Waits now (tgTick now io a).file) ∧
      ((tgTick now io a).pending.active = false → (tgTick now io a).poll.state = .idle → now.ms < a.pollNextMs) ↔
      PendingStays now io a ∨ PollRests now io a := by
    rw [← pending_iff]
    cases hpending : (tgTick now io a).pending.active with
    | true => simp [file_waits now io a hpending]
    | false => simp [poll_iff now io a hpending]
  rw [hmain, drained_eq_zero_iff]
  constructor
  · rintro ⟨⟨hempty, hsend⟩, hrest, -⟩
    exact ⟨hempty.1, hempty.2, (send_iff now io a ((drained_eq_zero_iff _ _).mpr hempty)).mp hsend, hrest⟩
  · rintro ⟨hout, hdeliveries, hsend, hrest⟩
    have hempty := (drained_eq_zero_iff io.deliveries a.outCount).mpr ⟨hout, hdeliveries⟩
    exact ⟨⟨⟨hout, hdeliveries⟩, (send_iff now io a hempty).mpr hsend⟩, hrest, hpoll, hfile⟩

/-! ## Discord: the gateway -/

theorem le_nominalDelayLoop (left : Nat) {delay : Nat} (h : fcReconnectBaseMs ≤ delay) :
    fcReconnectBaseMs ≤ nominalDelayLoop left delay := by
  induction left generalizing delay with
  | zero => exact h
  | succ left ih =>
    rw [nominalDelayLoop]
    split_ifs
    · decide
    · exact ih (by omega)
    · exact h

/-- A reconnect is never scheduled for the present. -/
theorem fcReconnectBackoffNext_pos (now : Clock) (b : FcReconnectBackoff) : 0 < (fcReconnectBackoffNext now b).1 := by
  have hnominal : ∀ attempt, fcReconnectBaseMs ≤ nominalDelay attempt := fun attempt =>
    le_min (le_nominalDelayLoop _ (Nat.le_refl _)) (by decide)
  have hbase : fcReconnectBaseMs = 1000 := rfl
  have hcap : fcReconnectCapMs = 300000 := rfl
  rw [fcReconnectBackoffNext]
  dsimp only
  generalize nextRandom _ = random
  have := hnominal (if (fcReconnectBackoffMaybeReset now b).attempt < 2 ^ 32 - 1 then
    (fcReconnectBackoffMaybeReset now b).attempt + 1 else (fcReconnectBackoffMaybeReset now b).attempt)
  omega

/-- The times of a gateway that are set are later than the present. -/
structure GatewayRests (now : Clock) (g : DcGateway) : Prop where
  reconnect : g.state = .disconnected → now.ms < g.nextReconnectMs
  resolve : g.state = .resolving → now.ms < g.resolveDeadlineMs
  parse : waitingForParse g = true → 0 < g.parseProgressMs → now.ms < g.parseProgressMs + dcParseProgressTimeoutMs
  heartbeat : g.state = .gatewayOpen → 0 < g.heartbeatIntervalMs → now.ms < g.nextHeartbeatMs

theorem scheduled_rests {now at' : Clock} (hle : now.ms ≤ at'.ms) {g : DcGateway} (h : g.state = .disconnected) :
    GatewayRests now (dcScheduleReconnect at' g) := by
  have hpos := fcReconnectBackoffNext_pos at' g.backoff
  have hstate : (dcScheduleReconnect at' g).state = .disconnected := h
  have hnext : (dcScheduleReconnect at' g).nextReconnectMs = at'.ms + (fcReconnectBackoffNext at' g.backoff).1 := rfl
  have hwaiting : waitingForParse (dcScheduleReconnect at' g) = false := by
    rw [waitingForParse, hstate]
    simp
  constructor
  · intro _
    omega
  · exact fun h' => absurd (hstate.symm.trans h') nofun
  · exact fun h' => absurd (hwaiting.symm.trans h') nofun
  · exact fun h' => absurd (hstate.symm.trans h') nofun

theorem closed_rests {now at' : Clock} (hle : now.ms ≤ at'.ms) (g : DcGateway) :
    GatewayRests now (dcCloseGateway at' g) := scheduled_rests hle rfl

/-- The parse deadline of what an expiry leaves open. -/
theorem expired_parse (now : Clock) (io : GatewayIo now) (g : DcGateway)
    (hw : waitingForParse (dcGatewayProgressExpired now io g) = true)
    (hp : 0 < (dcGatewayProgressExpired now io g).parseProgressMs) :
    now.ms < (dcGatewayProgressExpired now io g).parseProgressMs + dcParseProgressTimeoutMs := by
  rw [dcGatewayProgressExpired] at hw hp ⊢
  split_ifs at hw hp ⊢ with hexpired
  · exact (closed_rests io.closedAt.le g).parse hw hp
  · rw [netProgressTimedOut, decide_eq_true_eq] at hexpired
    by_contra hlate
    exact hexpired ⟨hw, by omega, by omega, by omega⟩

/-- A resolution that the tick advances leaves the other states alone. -/
theorem driveResolve_cases (now : Clock) (rc : DiscordRest.ResolveOutcome) (g : DcGateway) :
    (g.state ≠ .resolving ∧ dcDriveResolve now rc g = g) ∨ (g.state = .resolving ∧ GatewayRests now (dcDriveResolve now rc g)) := by
  unfold dcDriveResolve
  split_ifs with hstate hdue
  · exact .inl ⟨hstate, rfl⟩
  · exact .inr ⟨not_not.mp hstate, scheduled_rests (Nat.le_refl _) rfl⟩
  · have hresolving := not_not.mp hstate
    refine .inr ⟨hresolving, ?_⟩
    cases rc with
    | pending =>
      constructor
      · exact fun h => absurd (hresolving.symm.trans h) nofun
      · exact fun _ => not_le.mp hdue
      · simp [waitingForParse, hresolving]
      · exact fun h => absurd (hresolving.symm.trans h) nofun
    | connected => exact ⟨nofun, nofun, fun h => by simp [waitingForParse] at h, nofun⟩
    | failed => exact scheduled_rests (Nat.le_refl _) rfl

theorem reconnect_rests (now : Clock) (io : GatewayIo now) {g : DcGateway}
    (hresolve : g.state = .resolving → now.ms < g.resolveDeadlineMs)
    (hparse : waitingForParse g = true → 0 < g.parseProgressMs → now.ms < g.parseProgressMs + dcParseProgressTimeoutMs)
    (hopen : g.state ≠ .gatewayOpen) : GatewayRests now (reconnectIfDue now io g) := by
  rw [reconnectIfDue]
  split
  · rename_i hdue
    rw [dcGatewayStartConnect]
    split
    · refine ⟨nofun, fun _ => ?_, fun h => by simp [waitingForParse] at h, nofun⟩
      show now.ms < now.ms + dcResolveTimeoutMs
      rw [dcResolveTimeoutMs]
      omega
    · exact scheduled_rests (Nat.le_refl _) hdue.1
  · rename_i hnot
    refine ⟨fun h => ?_, hresolve, hparse, fun h => absurd h hopen⟩
    by_contra hlate
    exact hnot ⟨h, by omega⟩

/-- A heartbeat that was due is sent again later, or the gateway is closed. -/
theorem heartbeat_rests (now : Clock) (io : GatewayIo now) {g : DcGateway} (hopen : g.state = .gatewayOpen)
    (hparse : waitingForParse g = true → 0 < g.parseProgressMs → now.ms < g.parseProgressMs + dcParseProgressTimeoutMs) :
    GatewayRests now (heartbeatIfDue now io g) := by
  have hnot : g.state ≠ .disconnected ∧ g.state ≠ .resolving := by
    rw [hopen]
    exact ⟨nofun, nofun⟩
  have hdriven := io.drivenAt.le
  have hdropped : now.ms ≤ io.droppedAt.clock.ms := hdriven.trans io.droppedAt.le
  rw [heartbeatIfDue, if_pos hopen]
  dsimp only
  split
  · rename_i hdue
    rw [dcHeartbeat]
    split_ifs with hflush hlate hdrop
    · exact closed_rests hdropped _
    · have : io.drivenAt.clock.ms < g.nextHeartbeatMs := hlate.resolve_left (by simpa using hdue.1)
      have hdue' : g.nextHeartbeatMs ≤ now.ms := hdue.2
      omega
    · exact closed_rests hdropped _
    · refine ⟨fun h => absurd h hnot.1, fun h => absurd h hnot.2, hparse, fun _ hinterval => ?_⟩
      show now.ms < io.drivenAt.clock.ms + g.heartbeatIntervalMs.toNat
      have : 0 < g.heartbeatIntervalMs := hinterval
      omega
  · rename_i hdue
    refine ⟨fun h => absurd h hnot.1, fun h => absurd h hnot.2, hparse, fun _ hinterval => ?_⟩
    by_contra hlate
    exact hdue ⟨hinterval, not_lt.mp hlate⟩

theorem gatewayTick_rests (now : Clock) (io : GatewayIo now) (g : DcGateway) : GatewayRests now (gatewayTick now io g) := by
  have hparse := expired_parse now io g
  rw [gatewayTick]
  generalize dcGatewayProgressExpired now io g = g1 at hparse ⊢
  have hdriven := driveResolve_cases now io.resolved g1
  generalize hg2 : dcDriveResolve now io.resolved g1 = g2 at hdriven ⊢
  have hparse2 : waitingForParse g2 = true → 0 < g2.parseProgressMs →
      now.ms < g2.parseProgressMs + dcParseProgressTimeoutMs := by
    rcases hdriven with ⟨-, rfl⟩ | ⟨-, hrests⟩
    · exact hparse
    · exact hrests.parse
  have hresolve2 : g2.state = .resolving → now.ms < g2.resolveDeadlineMs := by
    rcases hdriven with ⟨hstate, rfl⟩ | ⟨-, hrests⟩
    · exact fun h => absurd h hstate
    · exact hrests.resolve
  by_cases hopen : g2.state = .gatewayOpen
  · have hstay : reconnectIfDue now io g2 = g2 := if_neg (by simp [hopen])
    rw [hstay]
    exact heartbeat_rests now io hopen hparse2
  · have hrests := reconnect_rests now io hresolve2 hparse2 hopen
    have hstill : (reconnectIfDue now io g2).state ≠ .gatewayOpen := by
      rw [reconnectIfDue, dcGatewayStartConnect]
      split_ifs
      · nofun
      · exact hopen
      · exact hopen
    rw [heartbeatIfDue, if_neg hstill]
    exact hrests

/-! ## Discord: the posts -/

/-- What the queue does not touch. -/
def SameTimes (a a' : DiscordRest.DcAdapter) : Prop :=
  a'.restState = a.restState ∧ a'.restResolveDeadlineMs = a.restResolveDeadlineMs ∧
    a'.restRetryAfterMs = a.restRetryAfterMs ∧ a'.restReadStartedMs = a.restReadStartedMs

theorem queueChunks_same {channelId : Bytes} {chunks : List (Option Bytes)} {a a' : DiscordRest.DcAdapter}
    (h : queueChunks channelId chunks a = some a') : SameTimes a a' := by
  induction chunks generalizing a with
  | nil =>
    cases h
    exact ⟨rfl, rfl, rfl, rfl⟩
  | cons chunk chunks ih =>
    cases chunk with
    | none => cases h
    | some payload =>
      obtain ⟨a1, hraw, hrest⟩ := Option.bind_eq_some_iff.mp h
      rw [dcQueueRaw] at hraw
      split at hraw
      · cases hraw
      · cases hraw
        have hsame := ih hrest
        exact hsame

theorem dcQueueMessageChunks_same (channelId : Bytes) (chunks : List (Option Bytes)) (a : DiscordRest.DcAdapter) :
    SameTimes a (dcQueueMessageChunks channelId chunks a) := by
  rw [dcQueueMessageChunks]
  split
  · exact ⟨rfl, rfl, rfl, rfl⟩
  · split
    · exact ⟨rfl, rfl, rfl, rfl⟩
    · rename_i h
      exact queueChunks_same h

theorem dcDrainDeliveries_same (deliveries : List (Bytes × List (Option Bytes))) (a : DiscordRest.DcAdapter) :
    SameTimes a (dcDrainDeliveries deliveries a) := by
  induction deliveries generalizing a with
  | nil => exact ⟨rfl, rfl, rfl, rfl⟩
  | cons d deliveries ih =>
    obtain ⟨h1, h2, h3, h4⟩ := dcQueueMessageChunks_same d.1 d.2 a
    obtain ⟨k1, k2, k3, k4⟩ := ih (dcQueueMessageChunks d.1 d.2 a)
    exact ⟨k1.trans h1, k2.trans h2, k3.trans h3, k4.trans h4⟩

/-- No response is waited for, or one that this tick gives up with its post, and the next post is not held back. -/
def PostDue (now : Clock) (a : DiscordRest.DcAdapter) : Prop :=
  a.restState = .idle ∧ a.restRetryAfterMs ≤ now.ms ∨
    a.restState = .reading ∧ netProgressTimedOut a.restReadStartedMs now dcParseProgressTimeoutMs = true ∧
      (a.outCount = 0 ∧ a.restRetryAfterMs ≤ now.ms ∨ a.outCount ≠ 0 ∧ dcRestAmbiguousRetryMax ≤ a.restAmbiguousRetries)

/-- A post is due whose request cannot be built, and another one waits behind it. -/
def Unpostable (now : Clock) (io : DcIo now) (a : DiscordRest.DcAdapter) : Prop :=
  io.request = none ∧ PostDue now a ∧ 2 ≤ (restQueue now io a).outCount

def DiscordRests (now : Clock) (io : DcIo now) (m : DcModule) : Prop := m.enabled = true → ¬ Unpostable now io m.rest

/-- The times of the post machine that are set are later than the present. -/
structure PostsRest (now : Clock) (a : DiscordRest.DcAdapter) : Prop where
  resolve : a.restState = .resolving → now.ms < a.restResolveDeadlineMs
  retry : a.restState = .idle → 0 < a.outCount → now.ms < a.restRetryAfterMs
  read : a.restState = .reading → 0 < a.restReadStartedMs → now.ms < a.restReadStartedMs + dcParseProgressTimeoutMs

theorem expire_timedOut {now : Clock} {a : DiscordRest.DcAdapter} (h : a.restState = .reading) :
    dcRestProgressExpired now.ms a =
      if netProgressTimedOut a.restReadStartedMs now dcParseProgressTimeoutMs = true then dcRestAmbiguousFailure now.ms a
      else a := by
  rw [dcRestProgressExpired, netProgressTimedOut]
  simp only [h, true_and, decide_eq_true_eq]

theorem expire_other {now : Clock} {a : DiscordRest.DcAdapter} (h : a.restState ≠ .reading) :
    dcRestProgressExpired now.ms a = a := if_neg fun hall => h hall.1

theorem postDue_iff (now : Clock) (a : DiscordRest.DcAdapter) :
    (dcRestProgressExpired now.ms a).restState = .idle ∧ (dcRestProgressExpired now.ms a).restRetryAfterMs ≤ now.ms ↔
      PostDue now a := by
  by_cases hreading : a.restState = .reading
  · rw [expire_timedOut hreading, PostDue, hreading]
    cases netProgressTimedOut a.restReadStartedMs now dcParseProgressTimeoutMs with
    | false => simp [hreading]
    | true =>
      rw [if_pos rfl, dcRestAmbiguousFailure]
      split_ifs with hout hretries
      · simp [dcCloseRest, hout]
      · simp [dcRestRetry, dcCloseRest, dcRestRetryMs, hout]
        omega
      · simp [dcRestDropOrCommit, dcCloseRest, hout, not_lt.mp hretries]
  · rw [expire_other hreading, PostDue]
    simp [hreading]

/-- What is still read from has made progress in time. -/
theorem expire_read (now : Clock) (a : DiscordRest.DcAdapter) (h : (dcRestProgressExpired now.ms a).restState = .reading)
    (hstarted : 0 < (dcRestProgressExpired now.ms a).restReadStartedMs) :
    now.ms < (dcRestProgressExpired now.ms a).restReadStartedMs + dcParseProgressTimeoutMs := by
  rw [dcRestProgressExpired] at h hstarted ⊢
  split_ifs at h hstarted ⊢ with hexpired
  · revert h
    rw [dcRestAmbiguousFailure]
    split_ifs <;> nofun
  · by_contra hlate
    exact hexpired ⟨h, by omega, by omega, by omega⟩

theorem retried_rests {now : Clock} (a : DiscordRest.DcAdapter) (hidle : a.restState = .idle)
    (hretry : a.restRetryAfterMs = now.ms + dcRestRetryMs) : PostsRest now a := by
  refine ⟨fun h => absurd (hidle.symm.trans h) nofun, fun _ _ => ?_, fun h => absurd (hidle.symm.trans h) nofun⟩
  rw [hretry, dcRestRetryMs]
  omega

/-- A start from an idle machine leaves a time to come, unless the request cannot be built with another post behind. -/
theorem start_iff (now : Clock) (request : Option Nat) (begun : Bool) {a : DiscordRest.DcAdapter} (hidle : a.restState = .idle) :
    PostsRest now (dcRestStart now.ms request begun a) ↔
      ¬(request = none ∧ a.restRetryAfterMs ≤ now.ms ∧ 2 ≤ a.outCount) := by
  unfold dcRestStart
  split
  · rename_i hskip
    have hwait : a.outCount = 0 ∨ now.ms < a.restRetryAfterMs := hskip.resolve_left (not_not.mpr hidle)
    constructor
    · rintro - ⟨-, hretry, hcount⟩
      omega
    · refine fun _ => ⟨fun h => absurd (hidle.symm.trans h) nofun, fun _ _ => by omega,
        fun h => absurd (hidle.symm.trans h) nofun⟩
  · rename_i hskip
    simp only [not_or, not_not, not_lt] at hskip
    obtain ⟨-, hcount, hretry⟩ := hskip
    cases request with
    | none =>
      have hleft : (dcRestDropOrCommit .unbuildable { a with restCur := a.outq a.outHead, restHasCur := true }).outCount =
          a.outCount - 1 := by
        simp [dcRestDropOrCommit, dcCloseRest, dcRestCommitHead, hcount]
      constructor
      · rintro h ⟨-, -, htwo⟩
        exact absurd (h.retry rfl (by rw [hleft]; omega)) (Nat.not_lt_zero _)
      · refine fun hnot => ⟨nofun, fun _ hpos => ?_, nofun⟩
        rw [hleft] at hpos
        exact absurd ⟨rfl, hretry, by omega⟩ hnot
    | some len =>
      simp only [reduceCtorEq, false_and, not_false_eq_true, iff_true]
      cases begun with
      | true =>
        refine ⟨fun _ => ?_, nofun, nofun⟩
        show now.ms < now.ms + dcResolveTimeoutMs
        rw [dcResolveTimeoutMs]
        omega
      | false => exact retried_rests _ rfl rfl

/-- What is not idle before the resolver is driven is left with a time to come, and no post is started. -/
theorem busy_rests (now : Clock) (rc : DiscordRest.ResolveOutcome) (request : Option Nat) (begun : Bool)
    {q : DiscordRest.DcAdapter} (hbusy : q.restState ≠ .idle)
    (hread : q.restState = .reading → 0 < q.restReadStartedMs → now.ms < q.restReadStartedMs + dcParseProgressTimeoutMs) :
    PostsRest now (dcRestStart now.ms request begun (dcDriveRestResolve now.ms rc q)) := by
  have hretried : ∀ a : DiscordRest.DcAdapter, a.restState = .idle → a.restRetryAfterMs = now.ms + dcRestRetryMs →
      PostsRest now (dcRestStart now.ms request begun a) := fun a hidle hretry =>
    (start_iff now request begun hidle).mpr fun h => by
      have hlater : dcRestRetryMs = 1500 := rfl
      omega
  have hkept : ∀ a : DiscordRest.DcAdapter, a.restState ≠ .idle → dcRestStart now.ms request begun a = a :=
    fun a h => if_pos (.inl h)
  unfold dcDriveRestResolve
  split_ifs with hstate hdue
  · rw [hkept q hbusy]
    exact ⟨fun h => absurd h hstate, fun h => absurd h hbusy, hread⟩
  · exact hretried _ rfl rfl
  · cases rc with
    | pending =>
      dsimp only
      rw [hkept q hbusy]
      exact ⟨fun _ => not_le.mp hdue, fun h => absurd h hbusy, hread⟩
    | connected =>
      have hconnecting : ({ q with restState := .tcpConnecting } : DiscordRest.DcAdapter).restState ≠ .idle := nofun
      dsimp only
      rw [hkept _ hconnecting]
      exact ⟨nofun, nofun, nofun⟩
    | failed => exact hretried _ rfl rfl

theorem restTick_iff (now : Clock) (io : DcIo now) (a : DiscordRest.DcAdapter) :
    PostsRest now (restTick now io a) ↔ ¬ Unpostable now io a := by
  obtain ⟨hstate, -, hretry, hstarted⟩ := dcDrainDeliveries_same io.deliveries (dcRestProgressExpired now.ms a)
  change (restQueue now io a).restState = _ at hstate
  change (restQueue now io a).restRetryAfterMs = _ at hretry
  change (restQueue now io a).restReadStartedMs = _ at hstarted
  have hread := expire_read now a
  rw [Unpostable, ← postDue_iff, ← hstate, ← hretry]
  rw [← hstate, ← hstarted] at hread
  clear hstate hretry hstarted
  rw [restTick]
  generalize restQueue now io a = q at hread ⊢
  by_cases hidle : q.restState = .idle
  · have hstay : dcDriveRestResolve now.ms io.restResolved q = q := if_pos (by simp [hidle])
    rw [hstay, start_iff now io.request io.restResolveBegun hidle]
    simp only [hidle, true_and]
  · exact iff_of_true (busy_rests now io.restResolved io.request io.restResolveBegun hidle hread) fun h => hidle h.2.1.1

theorem lt_dcNextDeadline_iff (now : Clock) {m : DcModule} (h : m.enabled = true) :
    now.ms < dcNextDeadline m ↔ GatewayRests now m.gateway ∧ PostsRest now m.rest := by
  have hnow := now.bounded
  have hnone : now.ms < fcNoDeadline := by
    have : fcNoDeadline = 2 ^ 64 - 1 := rfl
    omega
  have hfold := lt_foldl_iff (f := fun d (c : Bool × Nat) => if c.1 = true ∧ c.2 < d then c.2 else d)
    (q := fun c => c.1 = true → now.ms < c.2) (fun e c => lt_sooner_iff now.ms c.2 e) (dcDeadlines m) fcNoDeadline
  rw [dcNextDeadline, if_pos h, hfold]
  simp only [hnone, true_and, dcDeadlines, List.forall_mem_cons, List.not_mem_nil, false_imp_iff, implies_true, and_true,
    decide_eq_true_eq, Bool.and_eq_true, and_imp]
  constructor
  · rintro ⟨h1, h2, h3, h4, h5, h6, h7⟩
    exact ⟨⟨h1, h2, h4, h5⟩, ⟨h3, h6, h7⟩⟩
  · rintro ⟨hg, hr⟩
    exact ⟨hg.reconnect, hg.resolve, hr.resolve, hg.parse, hg.heartbeat, hr.retry, hr.read⟩

theorem discord_sleeps_iff (now : Clock) (io : DcIo now) (m : DcModule) :
    now.ms < dcNextDeadline (dcTick now io m) ↔ DiscordRests now io m := by
  rw [dcTick, DiscordRests]
  cases h : m.enabled with
  | false =>
    have hnow := now.bounded
    have hnone : fcNoDeadline = 2 ^ 64 - 1 := rfl
    have : dcNextDeadline m = fcNoDeadline := if_neg (by simp [h])
    simp only [Bool.false_eq_true, if_false, this, false_imp_iff, iff_true]
    omega
  | true =>
    rw [if_pos rfl, lt_dcNextDeadline_iff now rfl, restTick_iff]
    exact ⟨fun h _ => h.2, fun h => ⟨gatewayTick_rests now io.gateway m.gateway, h rfl⟩⟩

/-! ## The reactor's passes -/

structure Modules where
  janitor : JanitorState
  watcher : WatcherState
  telegram : TgAdapter
  discord : DcModule

/-- What the calls of one pass give the two adapters. -/
structure PassIo (now : Clock) where
  telegram : TgIo
  discord : DcIo now

/-- The ticks of one pass of `fc_reactor_run`. -/
def tickModules (now : Clock) (io : PassIo now) (m : Modules) : Modules :=
  { janitor := janitorTick now m.janitor
    watcher := watcherTick now m.watcher
    telegram := tgTick now io.telegram m.telegram
    discord := dcTick now io.discord m.discord }

def nextDeadlines (now : Clock) (m : Modules) : List Nat :=
  [janitorNextDeadlineMs m.janitor, watcherNextDeadlineMs m.watcher, tgNextDeadline now m.telegram,
    dcNextDeadline m.discord]

/-- When a pass leaves every module with a deadline to come. -/
def PassRests (now : Clock) (io : PassIo now) (m : Modules) : Prop :=
  JanitorRests now m.janitor ∧ TelegramRests now io.telegram m.telegram ∧ DiscordRests now io.discord m.discord

theorem tickModules_sleep_iff (now : Clock) (io : PassIo now) (m : Modules) :
    (∀ d ∈ nextDeadlines now (tickModules now io m), now.ms < d) ↔ PassRests now io m := by
  simp only [nextDeadlines, tickModules, List.forall_mem_cons, List.not_mem_nil, false_imp_iff, implies_true, and_true,
    janitor_sleeps_iff, telegram_sleeps_iff, discord_sleeps_iff, watcher_sleeps, true_and, PassRests]

/-- One turn of the loop: the descriptors' handlers may leave the two adapters that have descriptors in any state before
the ticks. -/
structure Turn where
  now : Clock
  io : PassIo now
  ready : Option (TgAdapter × DcModule) := none

/-- The modules and the time of the last ticks. -/
structure Loop where
  modules : Modules
  ticked : Option Clock := none

/-- The modules as the ticks of a turn meet them. -/
def met (s : Loop) (t : Turn) : Modules :=
  match t.ready with
  | none => s.modules
  | some (telegram, discord) => { s.modules with telegram, discord }

def turn (s : Loop) (t : Turn) : Option Loop :=
  some { modules := tickModules t.now t.io (met s t), ticked := some t.now }

def TurnRests (s : Loop) (t : Turn) : Prop := PassRests t.now t.io (met s t)

/-- The loop as it starts: the janitor reads its config, the adapters are as their own init left them. -/
def start (config : Option Bytes) (telegram : TgAdapter) (discord : DcModule) : Loop :=
  { modules := { janitor := janitorInit config, watcher := {}, telegram, discord } }

/-- After the last ticks no deadline is due, and the poll that follows does not return at once. -/
def Sleeps (s : Loop) : Prop :=
  ∀ now ∈ s.ticked, (∀ d ∈ nextDeadlines now s.modules, now.ms < d) ∧
    ∀ defaultTimeoutMs, 0 < defaultTimeoutMs → pollTimeoutMs now defaultTimeoutMs (nextDeadlines now s.modules) ≠ 0

theorem turn_sleeps (s : Loop) (t : Turn) (s' : Loop) (hrests : TurnRests s t) (hstep : turn s t = some s') : Sleeps s' := by
  cases hstep
  intro now hnow
  cases hnow
  have hall := (tickModules_sleep_iff t.now t.io (met s t)).mpr hrests
  exact ⟨hall, fun _ hdefault hzero => (pollTimeoutMs_eq_zero_iff hdefault t.now _).mp hzero hall⟩

/-- Which states each module's tick leaves without a deadline that is due, and that a loop whose turns all meet such
states never polls without waiting. -/
theorem reactor_sleeps (config : Option Bytes) (telegram : TgAdapter) (discord : DcModule) :
    (∀ now s, now.ms < janitorNextDeadlineMs (janitorTick now s) ↔ JanitorRests now s) ∧
      (∀ now s, now.ms < watcherNextDeadlineMs (watcherTick now s)) ∧
      (∀ now io a, now.ms < tgNextDeadline now (tgTick now io a) ↔ TelegramRests now io a) ∧
      (∀ now io m, now.ms < dcNextDeadline (dcTick now io m) ↔ DiscordRests now io m) ∧
      ∀ turns s, Run turn TurnRests (start config telegram discord) turns s → Sleeps s :=
  ⟨janitor_sleeps_iff, watcher_sleeps, telegram_sleeps_iff, discord_sleeps_iff, fun _ _ hrun =>
    hrun.invariant nofun fun s t s' _ => turn_sleeps s t s'⟩

/-! ## A loop that spins -/

/-- A turn in which the calls succeed and no lookup ends. -/
def quietTurn (now : Clock) : Turn :=
  { now := now
    io := { telegram := {}, discord := { gateway := ⟨⟨now, Nat.le_refl _⟩, ⟨now, Nat.le_refl _⟩, ⟨now, Nat.le_refl _⟩,
      true, .pending, true, true⟩ } } }

/-- A worker store that is checked every second: the task's time passes long before the janitor's next tick. -/
theorem janitor_spins :
    ¬ ∀ config telegram discord turns s, exec turn (start config telegram discord) turns = some s →
      (∀ t ∈ turns, t.ready = none) → Sleeps s := by
  intro h
  let config := lit "\x7b\"appliance\":\x7b\"codex_ops\":\x7b\"check_interval_ms\":1000\x7d\x7d\x7d"
  have hspin := h (some config) {} ⟨false, {}, DiscordRest.dcInit⟩
    [quietTurn ⟨100000, by decide⟩, quietTurn ⟨102000, by decide⟩] _ rfl (by simp [quietTurn]) _ rfl
  have hdue : janitorNextDeadlineMs (janitorTick ⟨102000, by decide⟩ (janitorTick ⟨100000, by decide⟩
      (janitorInit (some config)))) = 101000 := by decide +kernel
  have := hspin.1 _ (List.mem_cons_self ..)
  exact absurd (this.trans_eq hdue) (by decide)

end Floofclaw.Guarantees.Deadlines
