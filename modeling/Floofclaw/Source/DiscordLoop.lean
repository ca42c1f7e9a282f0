import Floofclaw.Source.DiscordRest
import Floofclaw.Source.Reactor

/-!
# The Discord module in the reactor

Model of `dc_tick` and `dc_next_deadline` of `discord_adapter.c` over the post
machine, with the parts of `discord_gateway.c` they drive: the reconnect, the
name lookup, the parse timeout and the heartbeat. The clock is read again where
the source reads it again.
-/

set_option autoImplicit false

namespace Floofclaw.Source.DiscordLoop
open Floofclaw.Lib Floofclaw.Source.Reactor
open Floofclaw.Source.DiscordRest (dcParseProgressTimeoutMs dcResolveTimeoutMs dcQueueMessageChunks dcRestProgressExpired
  dcDriveRestResolve dcRestStart)

inductive DcGatewayState
  | disconnected | resolving | tcpConnecting | tlsHandshake | wsHandshake | gatewayOpen
  deriving DecidableEq, Repr

structure DcGateway where
  state : DcGatewayState := .disconnected
  nextReconnectMs : Nat := 0
  resolveDeadlineMs : Nat := 0
  rxLen : Nat := 0
  parseProgressMs : Nat := 0
  /-- The interval the server asked for, a `long long`. -/
  heartbeatIntervalMs : Int := 0
  heartbeatLong : heartbeatIntervalMs < 2 ^ 63 := by decide
  nextHeartbeatMs : Nat := 0
  heartbeatAckPending : Bool := false
  backoff : FcReconnectBackoff := {}

structure DcModule where
  enabled : Bool
  gateway : DcGateway := {}
  rest : DiscordRest.DcAdapter

/-- Another reading of the clock within one tick. -/
structure Later (now : Clock) where
  clock : Clock
  le : now.ms ≤ clock.ms

/-- What the gateway's calls give in one tick. -/
structure GatewayIo (now : Clock) where
  closedAt : Later now
  drivenAt : Later now
  droppedAt : Later drivenAt.clock
  resolveBegun : Bool := true
  resolved : DiscordRest.ResolveOutcome := .pending
  /-- Whether `dc_gw_flush` keeps the connection. -/
  flushed : Bool := true
  heartbeatQueued : Bool := true

structure DcIo (now : Clock) where
  gateway : GatewayIo now
  /-- The messages the delivery log adds, each with its channel and chunks. -/
  deliveries : List (Bytes × List (Option Bytes)) := []
  restResolved : DiscordRest.ResolveOutcome := .pending
  request : Option Nat := some 1
  restResolveBegun : Bool := true

/-! ## The gateway -/

/-- `dc_schedule_reconnect` and `dc_schedule_dns_reconnect`: they differ in their narration. -/
def dcScheduleReconnect (now : Clock) (g : DcGateway) : DcGateway :=
  { g with
    nextReconnectMs := now.ms + (fcReconnectBackoffNext now g.backoff).1
    backoff := (fcReconnectBackoffNext now g.backoff).2 }

/-- `dc_close_gateway_with_cause`. -/
def dcCloseGateway (now : Clock) (g : DcGateway) : DcGateway :=
  dcScheduleReconnect now { g with state := .disconnected, rxLen := 0, parseProgressMs := 0, heartbeatAckPending := false }

/-- What waits to be parsed. -/
def waitingForParse (g : DcGateway) : Bool := g.state = .wsHandshake ∨ g.state = .gatewayOpen ∧ 0 < g.rxLen

def dcGatewayProgressExpired (now : Clock) (io : GatewayIo now) (g : DcGateway) : DcGateway :=
  if waitingForParse g ∧ netProgressTimedOut g.parseProgressMs now dcParseProgressTimeoutMs then
    dcCloseGateway io.closedAt.clock g
  else g

def dcDriveResolve (now : Clock) (rc : DiscordRest.ResolveOutcome) (g : DcGateway) : DcGateway :=
  if g.state ≠ .resolving then g
  else if g.resolveDeadlineMs ≤ now.ms then dcScheduleReconnect now { g with state := .disconnected }
  else
    match rc with
    | .pending => g
    | .connected => { g with state := .tcpConnecting }
    | .failed => dcScheduleReconnect now { g with state := .disconnected }

def dcGatewayStartConnect (now : Clock) (resolveBegun : Bool) (g : DcGateway) : DcGateway :=
  if resolveBegun then { g with state := .resolving, resolveDeadlineMs := now.ms + dcResolveTimeoutMs }
  else dcScheduleReconnect now g

/-- `dc_drive_gateway` of an open gateway that is only told it may write: what waits is flushed, then the heartbeat is
due or not. -/
def dcHeartbeat (drivenAt droppedAt : Clock) (flushed heartbeatQueued : Bool) (g : DcGateway) : DcGateway :=
  if !flushed then dcCloseGateway droppedAt g
  else if g.heartbeatIntervalMs ≤ 0 ∨ drivenAt.ms < g.nextHeartbeatMs then g
  else if g.heartbeatAckPending ∨ !heartbeatQueued then dcCloseGateway droppedAt g
  else { g with heartbeatAckPending := true, nextHeartbeatMs := drivenAt.ms + g.heartbeatIntervalMs.toNat }

def reconnectIfDue (now : Clock) (io : GatewayIo now) (g : DcGateway) : DcGateway :=
  if g.state = .disconnected ∧ g.nextReconnectMs ≤ now.ms then dcGatewayStartConnect now io.resolveBegun g else g

def heartbeatIfDue (now : Clock) (io : GatewayIo now) (g : DcGateway) : DcGateway :=
  if g.state = .gatewayOpen then
    let g := { g with backoff := fcReconnectBackoffMaybeReset now g.backoff }
    if 0 < g.heartbeatIntervalMs ∧ g.nextHeartbeatMs ≤ now.ms then
      dcHeartbeat io.drivenAt.clock io.droppedAt.clock io.flushed io.heartbeatQueued g
    else g
  else g

def gatewayTick (now : Clock) (io : GatewayIo now) (g : DcGateway) : DcGateway :=
  heartbeatIfDue now io (reconnectIfDue now io (dcDriveResolve now io.resolved (dcGatewayProgressExpired now io g)))

/-! ## The posts -/

/-- `dc_drain_deliveries`, message by message. -/
def dcDrainDeliveries (deliveries : List (Bytes × List (Option Bytes))) (a : DiscordRest.DcAdapter) :
    DiscordRest.DcAdapter :=
  deliveries.foldl (fun a d => dcQueueMessageChunks d.1 d.2 a) a

/-- The queue as the tick meets it: an expired response given up, the new deliveries behind. -/
def restQueue (now : Clock) (io : DcIo now) (a : DiscordRest.DcAdapter) : DiscordRest.DcAdapter :=
  dcDrainDeliveries io.deliveries (dcRestProgressExpired now.ms a)

def restTick (now : Clock) (io : DcIo now) (a : DiscordRest.DcAdapter) : DiscordRest.DcAdapter :=
  dcRestStart now.ms io.request io.restResolveBegun (dcDriveRestResolve now.ms io.restResolved (restQueue now io a))

/-! ## The module -/

/-- `dc_tick`: the gateway's steps and the posts' do not touch each other's fields. -/
def dcTick (now : Clock) (io : DcIo now) (m : DcModule) : DcModule :=
  if m.enabled then { m with gateway := gatewayTick now io.gateway m.gateway, rest := restTick now io m.rest } else m

/-- The deadlines `dc_next_deadline` takes the earliest of, each with whether it counts. -/
def dcDeadlines (m : DcModule) : List (Bool × Nat) :=
  [ (m.gateway.state = .disconnected, m.gateway.nextReconnectMs),
    (m.gateway.state = .resolving, m.gateway.resolveDeadlineMs),
    (m.rest.restState = .resolving, m.rest.restResolveDeadlineMs),
    (waitingForParse m.gateway && decide (0 < m.gateway.parseProgressMs),
      m.gateway.parseProgressMs + dcParseProgressTimeoutMs),
    (m.gateway.state = .gatewayOpen ∧ 0 < m.gateway.heartbeatIntervalMs, m.gateway.nextHeartbeatMs),
    (m.rest.restState = .idle ∧ 0 < m.rest.outCount, m.rest.restRetryAfterMs),
    (m.rest.restState = .reading ∧ 0 < m.rest.restReadStartedMs, m.rest.restReadStartedMs + dcParseProgressTimeoutMs) ]

/-- `dc_next_deadline`. -/
def dcNextDeadline (m : DcModule) : Nat :=
  if m.enabled then (dcDeadlines m).foldl (fun d c => if c.1 ∧ c.2 < d then c.2 else d) fcNoDeadline else fcNoDeadline

end Floofclaw.Source.DiscordLoop
