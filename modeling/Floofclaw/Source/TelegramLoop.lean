import Floofclaw.Source.Reactor

/-!
# The Telegram module in the reactor

Model of `tg_tick` and `tg_next_deadline` of `telegram_adapter.c` with what they
call: `tg_conn_start`, the resolving part of `tg_conn_drive`, and the idle part
of `tg_drive_send` in `telegram_outbox.c`. Of a connection stands what decides
its next time; a lookup is in flight exactly while it is resolving. Resolver,
request builders and publication are outcomes of the tick, as is what the
delivery log adds to the queue.
-/

set_option autoImplicit false

namespace Floofclaw.Source.TelegramLoop
open Floofclaw.Source.Reactor

def tgRetryMs : Nat := 5000
def tgProgressTimeoutMs : Nat := 90000
def tgResolveTimeoutMs : Nat := 30000
def tgOutQueueMax : Nat := 64

inductive TgConnState
  | idle | resolving | tcp | tls | writing | reading
  deriving DecidableEq, Repr

structure TgConn where
  state : TgConnState := .idle
  resolveDeadlineMs : Nat := 0
  readStartedMs : Nat := 0
  retryAfterMs : Nat := 0
  deriving DecidableEq

/-- The update that waits for its media to be looked up, and then for its publication. -/
structure TgPending where
  active : Bool := false
  resolveIndex : Nat := 0
  mediaCount : Nat := 0
  deriving DecidableEq

structure TgAdapter where
  poll : TgConn := {}
  pollNextMs : Nat := 0
  file : TgConn := {}
  pending : TgPending := {}
  send : TgConn := {}
  outCount : Nat := 0
  deriving DecidableEq

/-- What `net_resolve_connect` returns. -/
inductive ResolveOutcome
  | pending | connected | failed
  deriving DecidableEq, Repr

/-- What the calls made for one connection give in one tick. -/
structure ConnIo where
  resolveBegun : Bool := true
  requestBuilt : Bool := true
  resolved : ResolveOutcome := .pending
  deriving DecidableEq

structure TgIo where
  published : Bool := true
  poll : ConnIo := {}
  file : ConnIo := {}
  send : ConnIo := {}
  /-- The chunks of each delivery the tick picks up. -/
  deliveries : List Nat := []
  deriving DecidableEq

/-! ## One connection -/

def tgConnClose (c : TgConn) : TgConn := { c with state := .idle, readStartedMs := 0 }

/-- The connection is closed and tried again later. -/
def tgConnRetry (now : Clock) (c : TgConn) : TgConn := { tgConnClose c with retryAfterMs := now.ms + tgRetryMs }

/-- `tg_conn_start`, and the request its callers build while the name is looked up. -/
def tgConnStart (now : Clock) (io : ConnIo) (c : TgConn) : TgConn :=
  if c.state ≠ .idle ∨ now.ms < c.retryAfterMs then c
  else if !io.resolveBegun then { c with retryAfterMs := now.ms + tgRetryMs }
  else
    let c := { c with state := .resolving, resolveDeadlineMs := now.ms + tgResolveTimeoutMs }
    if io.requestBuilt then c else tgConnRetry now c

/-- `tg_conn_drive` on a connection that is resolving. -/
def tgConnDriveResolve (now : Clock) (io : ConnIo) (c : TgConn) : TgConn :=
  if c.state ≠ .resolving then c
  else if c.resolveDeadlineMs ≤ now.ms then tgConnRetry now c
  else
    match io.resolved with
    | .pending => c
    | .connected => { c with state := .tcp }
    | .failed => tgConnRetry now c

/-- A connection that is read from without progress is given up. -/
def tgConnExpire (now : Clock) (c : TgConn) : TgConn :=
  if c.state = .reading ∧ netProgressTimedOut c.readStartedMs now tgProgressTimeoutMs then tgConnRetry now c else c

/-! ## The tick -/

/-- `tg_publish_pending`: the update is acknowledged once its envelope is published. -/
def publishPending (now : Clock) (io : TgIo) (a : TgAdapter) : TgAdapter :=
  if a.pending.active ∧ a.pending.mediaCount ≤ a.pending.resolveIndex ∧ a.file.retryAfterMs ≤ now.ms then
    if io.published then { a with pending := {} }
    else { a with file := { a.file with retryAfterMs := now.ms + tgRetryMs } }
  else a

def startFile (now : Clock) (io : TgIo) (a : TgAdapter) : TgAdapter :=
  if a.pending.active ∧ a.pending.resolveIndex < a.pending.mediaCount ∧ a.file.state = .idle ∧
      a.file.retryAfterMs ≤ now.ms then { a with file := tgConnStart now io.file a.file }
  else a

def startPoll (now : Clock) (io : TgIo) (a : TgAdapter) : TgAdapter :=
  if !a.pending.active ∧ a.poll.state = .idle ∧ a.pollNextMs ≤ now.ms then
    { a with poll := tgConnStart now io.poll a.poll }
  else a

def expireReads (now : Clock) (a : TgAdapter) : TgAdapter :=
  { a with poll := tgConnExpire now a.poll, file := tgConnExpire now a.file }

def driveResolves (now : Clock) (io : TgIo) (a : TgAdapter) : TgAdapter :=
  { a with
    poll := tgConnDriveResolve now io.poll a.poll
    file := tgConnDriveResolve now io.file a.file
    send := tgConnDriveResolve now io.send a.send }

/-- `tg_queue_chunks`: what does not fit the queue is dropped. -/
def tgQueueChunks (outCount chunks : Nat) : Nat := if outCount < tgOutQueueMax then min (outCount + chunks) tgOutQueueMax else outCount

def tgDrainDeliveries (io : TgIo) (a : TgAdapter) : TgAdapter :=
  { a with outCount := io.deliveries.foldl tgQueueChunks a.outCount }

/-- The idle part of `tg_drive_send`. -/
def driveSend (now : Clock) (io : TgIo) (a : TgAdapter) : TgAdapter :=
  if a.send.state = .idle ∧ 0 < a.outCount then { a with send := tgConnStart now io.send a.send } else a

def expireSend (now : Clock) (a : TgAdapter) : TgAdapter := { a with send := tgConnExpire now a.send }

def tgTick (now : Clock) (io : TgIo) (a : TgAdapter) : TgAdapter :=
  expireSend now (driveSend now io (tgDrainDeliveries io (driveResolves now io (expireReads now
    (startPoll now io (startFile now io (publishPending now io a)))))))

/-- `tg_next_deadline`. -/
def tgNextDeadline (now : Clock) (a : TgAdapter) : Nat :=
  let next :=
    if a.pending.active ∧ a.file.state = .idle then max a.file.retryAfterMs now.ms
    else if !a.pending.active ∧ a.poll.state = .idle then max a.pollNextMs now.ms
    else fcNoDeadline
  if 0 < a.outCount ∨ a.send.state ≠ .idle then now.ms
  else
    let next := if a.poll.state = .resolving ∧ a.poll.resolveDeadlineMs < next then a.poll.resolveDeadlineMs else next
    if a.file.state = .resolving ∧ a.file.resolveDeadlineMs < next then a.file.resolveDeadlineMs else next

end Floofclaw.Source.TelegramLoop
