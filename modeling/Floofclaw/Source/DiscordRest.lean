import Floofclaw.Source.JsonFields

/-!
# The Discord post machine

Model of `discord_rest.c` and of the outbound queue of `discord_adapter.c`: a
ring of entries whose head is posted over one connection at a time. The network
decides every outcome, so outcomes are arguments: of the resolver, the
connect, the handshake, each write, each read, and what the HTTP parser makes of
the octets received. Beside the adapter's own fields the state keeps a history:
what was queued, what left the queue and why, and how many posts of the present
head were written whole and how many of these were answered.
-/

set_option autoImplicit false

namespace Floofclaw.Source.DiscordRest
open Floofclaw.Lib Floofclaw.Source.Json

def dcChunkMax : Nat := 2000
def dcOutQueueMax : Nat := 32
def dcRestRetryMs : Nat := 1500
def dcRestAmbiguousRetryMax : Nat := 1
def dcParseProgressTimeoutMs : Nat := 30000
def dcResolveTimeoutMs : Nat := 30000

structure DcOutbound where
  channelId : Bytes
  payload : Bytes
  deriving DecidableEq

inductive DcRestState
  | idle | resolving | tcpConnecting | tlsHandshake | writing | reading
  deriving DecidableEq, Repr

/-- Why an entry left the queue. -/
inductive Departure
  | answered (status : Int)
  | ambiguous
  | unbuildable
  deriving DecidableEq, Repr

/-- The record of an entry that left: its posts that were written whole, those with a readable response, and those
answered by a server error. -/
structure Left where
  entry : DcOutbound
  why : Departure
  posted : Nat
  answered : Nat
  serverErrors : Nat
  deriving DecidableEq

structure DcAdapter where
  outq : Nat → DcOutbound
  outHead : Nat := 0
  outCount : Nat := 0
  restState : DcRestState := .idle
  restResolveDeadlineMs : Nat := 0
  restRetryAfterMs : Nat := 0
  restServerRetries : Nat := 0
  restAmbiguousRetries : Nat := 0
  restCur : DcOutbound := ⟨[], []⟩
  restHasCur : Bool := false
  restTxLen : Nat := 0
  restReadStartedMs : Nat := 0
  queued : List DcOutbound := []
  left : List Left := []
  posted : Nat := 0
  answered : Nat := 0
  serverErrors : Nat := 0

/-! ## The queue -/

/-- `dc_queue_raw`; `none` is its failure. -/
def dcQueueRaw (channelId payload : Bytes) (a : DcAdapter) : Option DcAdapter :=
  if channelId = [] ∨ dcOutQueueMax ≤ a.outCount then none
  else
    let entry : DcOutbound := ⟨clip 128 channelId, clip (dcChunkMax * 2 + 64) payload⟩
    let idx := (a.outHead + a.outCount) % dcOutQueueMax
    some { a with
      outq := fun i => if i = idx then entry else a.outq i
      outCount := a.outCount + 1
      queued := a.queued ++ [entry] }

/-- The chunks of one message; a chunk without a payload could not be escaped. -/
def queueChunks (channelId : Bytes) : List (Option Bytes) → DcAdapter → Option DcAdapter
  | [], a => some a
  | none :: _, _ => none
  | some payload :: chunks, a => (dcQueueRaw channelId payload a).bind (queueChunks channelId chunks)

/-- `dc_queue_message_chunks`: all chunks or none. A failure puts the count back, and the slots behind it are not read
before they are filled again. -/
def dcQueueMessageChunks (channelId : Bytes) (chunks : List (Option Bytes)) (a : DcAdapter) : DcAdapter :=
  if channelId = [] ∨ dcOutQueueMax - a.outCount < max 1 chunks.length then a
  else
    match queueChunks channelId (if chunks = [] then [some (lit "\x7b\"content\":\" \"\x7d")] else chunks) a with
    | none => a
    | some a' => a'

/-! ## Leaving the queue -/

def dcCloseRest (a : DcAdapter) : DcAdapter :=
  { a with restState := .idle, restTxLen := 0, restReadStartedMs := 0, restHasCur := false }

def dcRestCommitHead (why : Departure) (a : DcAdapter) : DcAdapter :=
  if a.outCount = 0 then a
  else
    { a with
      outHead := (a.outHead + 1) % dcOutQueueMax
      outCount := a.outCount - 1
      left := a.left ++ [⟨a.outq a.outHead, why, a.posted, a.answered, a.serverErrors⟩]
      posted := 0
      answered := 0
      serverErrors := 0 }

def dcRestDropOrCommit (why : Departure) (a : DcAdapter) : DcAdapter :=
  dcCloseRest { dcRestCommitHead why a with restServerRetries := 0, restAmbiguousRetries := 0, restRetryAfterMs := 0 }

def dcRestRetry (nowMs delayMs : Nat) (a : DcAdapter) : DcAdapter :=
  { dcCloseRest a with restRetryAfterMs := nowMs + delayMs }

def dcRestAmbiguousFailure (nowMs : Nat) (a : DcAdapter) : DcAdapter :=
  if a.outCount = 0 then dcCloseRest a
  else if a.restAmbiguousRetries < dcRestAmbiguousRetryMax then
    dcRestRetry nowMs dcRestRetryMs { a with restAmbiguousRetries := a.restAmbiguousRetries + 1 }
  else dcRestDropOrCommit .ambiguous a

/-- `dc_rest_apply_response` for the status of a readable response; the delay is the one a rate limit asks for. -/
def dcRestApplyResponse (nowMs retryDelayMs : Nat) (status : Int) (a : DcAdapter) : DcAdapter :=
  let a := { a with answered := a.answered + 1 }
  if 200 ≤ status ∧ status < 300 then dcRestDropOrCommit (.answered status) a
  else if status = 429 then dcRestRetry nowMs retryDelayMs a
  else if 500 ≤ status ∧ status < 600 then
    let a := { a with serverErrors := a.serverErrors + 1 }
    if a.restServerRetries = 0 then dcRestRetry nowMs dcRestRetryMs { a with restServerRetries := 1 }
    else dcRestDropOrCommit (.answered status) a
  else dcRestDropOrCommit (.answered status) a

/-! ## The connection -/

/-- `dc_rest_start`: the length of the request, when it could be built, and whether the resolver began. -/
def dcRestStart (nowMs : Nat) (request : Option Nat) (resolveBegun : Bool) (a : DcAdapter) : DcAdapter :=
  if a.restState ≠ .idle ∨ a.outCount = 0 ∨ nowMs < a.restRetryAfterMs then a
  else
    let a := { a with restCur := a.outq a.outHead, restHasCur := true }
    match request with
    | none => dcRestDropOrCommit .unbuildable a
    | some len =>
      let a := { a with restTxLen := len }
      if resolveBegun then { a with restState := .resolving, restResolveDeadlineMs := nowMs + dcResolveTimeoutMs }
      else dcCloseRest { a with restRetryAfterMs := nowMs + dcRestRetryMs }

/-- What `net_resolve_connect` returns. -/
inductive ResolveOutcome
  | pending | connected | failed
  deriving DecidableEq, Repr

def dcDriveRestResolve (nowMs : Nat) (rc : ResolveOutcome) (a : DcAdapter) : DcAdapter :=
  if a.restState ≠ .resolving then a
  else if a.restResolveDeadlineMs ≤ nowMs then dcCloseRest { a with restRetryAfterMs := nowMs + dcRestRetryMs }
  else
    match rc with
    | .pending => a
    | .connected => { a with restState := .tcpConnecting }
    | .failed => dcCloseRest { a with restRetryAfterMs := nowMs + dcRestRetryMs }

/-- What one `fc_tls_write` does. -/
inductive WriteOutcome
  | wrote (octets : Nat)
  | want
  | error
  deriving DecidableEq, Repr

/-- `dc_rest_flush`: what is left to send, and whether the connection holds. -/
def dcRestFlush : List WriteOutcome → Nat → Nat × Bool
  | _, 0 => (0, true)
  | [], n + 1 => (n + 1, true)
  | .wrote octets :: ws, n + 1 => dcRestFlush ws (n + 1 - octets)
  | .want :: _, n + 1 => (n + 1, true)
  | .error :: _, n + 1 => (n + 1, false)

/-- What `fc_http1_parse_response` makes of the octets so far. -/
inductive HttpParse
  | bad
  | needMore (status : Int)
  | done (status : Int)
  deriving DecidableEq, Repr

/-- What `dc_rest_read` and the parser after it give. -/
inductive ReadOutcome
  | error
  | received (peerClosed : Bool) (parse : HttpParse)
  deriving DecidableEq, Repr

inductive Response
  | malformed
  | incomplete
  | readable (status : Int)
  deriving DecidableEq, Repr

/-- `dc_rest_response`: without framing, the end of the connection ends the response. -/
def dcRestResponse (peerClosed : Bool) : HttpParse → Response
  | .bad => .malformed
  | .done status => .readable status
  | .needMore status => if peerClosed then (if 0 < status then .readable status else .malformed) else .incomplete

inductive HandshakeOutcome
  | ok | want | failed
  deriving DecidableEq, Repr

/-- One wake of the descriptor: the events polled and what each operation would give. -/
structure Wake where
  pollIn : Bool
  pollOut : Bool
  pollHup : Bool
  connected : Bool
  tlsMade : Bool
  handshake : HandshakeOutcome
  writes : List WriteOutcome
  read : ReadOutcome
  retryDelayMs : Nat
  request : Option Nat
  resolveBegun : Bool
  deriving DecidableEq

/-- A stage of `dc_drive_rest` goes on to the next one or returns. -/
inductive Stage
  | next (a : DcAdapter)
  | done (a : DcAdapter)

def Stage.bind (s : Stage) (f : DcAdapter → Stage) : Stage :=
  match s with
  | .next a => f a
  | .done a => .done a

def Stage.state : Stage → DcAdapter
  | .next a => a
  | .done a => a

def connectStage (nowMs : Nat) (w : Wake) (a : DcAdapter) : Stage :=
  if a.restState = .tcpConnecting ∧ (w.pollOut ∨ w.pollHup) then
    if !w.connected ∨ !w.tlsMade then .done (dcRestRetry nowMs dcRestRetryMs a)
    else .next { a with restState := .tlsHandshake }
  else .next a

def handshakeStage (nowMs : Nat) (w : Wake) (a : DcAdapter) : Stage :=
  if a.restState = .tlsHandshake ∧ (w.pollIn ∨ w.pollOut) then
    match w.handshake with
    | .ok => .next { a with restState := .writing }
    | .want => .next a
    | .failed => .done (dcRestRetry nowMs dcRestRetryMs a)
  else .next a

def writeStage (nowMs : Nat) (w : Wake) (a : DcAdapter) : Stage :=
  if a.restState = .writing ∧ w.pollOut then
    match dcRestFlush w.writes a.restTxLen with
    | (_, false) => .done (dcRestRetry nowMs dcRestRetryMs a)
    | (0, true) => .next { a with restTxLen := 0, restState := .reading, restReadStartedMs := nowMs, posted := a.posted + 1 }
    | (n + 1, true) => .next { a with restTxLen := n + 1 }
  else .next a

def readStage (nowMs : Nat) (w : Wake) (a : DcAdapter) : Stage :=
  if a.restState = .reading ∧ w.pollIn then
    match w.read with
    | .error => .done (dcRestAmbiguousFailure nowMs a)
    | .received peerClosed parse =>
      match dcRestResponse peerClosed parse with
      | .malformed => .done (dcRestAmbiguousFailure nowMs a)
      | .incomplete => .next a
      | .readable status => .next (dcRestApplyResponse nowMs w.retryDelayMs status a)
  else .next a

def dcDriveRest (nowMs : Nat) (w : Wake) (a : DcAdapter) : DcAdapter :=
  if a.restState = .idle then dcRestStart nowMs w.request w.resolveBegun a
  else
    ((((Stage.next a).bind (connectStage nowMs w)).bind (handshakeStage nowMs w)).bind (writeStage nowMs w)).bind
      (readStage nowMs w) |>.state

/-- `dc_rest_progress_expired`. -/
def dcRestProgressExpired (nowMs : Nat) (a : DcAdapter) : DcAdapter :=
  if a.restState = .reading ∧ a.restReadStartedMs ≠ 0 ∧ a.restReadStartedMs ≤ nowMs ∧
      dcParseProgressTimeoutMs ≤ nowMs - a.restReadStartedMs then dcRestAmbiguousFailure nowMs a
  else a

inductive DcEvent
  | queue (channelId : Bytes) (chunks : List (Option Bytes))
  | start (nowMs : Nat) (request : Option Nat) (resolveBegun : Bool)
  | resolve (nowMs : Nat) (rc : ResolveOutcome)
  | drive (nowMs : Nat) (wake : Wake)
  | expire (nowMs : Nat)

def dcStep (a : DcAdapter) : DcEvent → DcAdapter
  | .queue channelId chunks => dcQueueMessageChunks channelId chunks a
  | .start nowMs request resolveBegun => dcRestStart nowMs request resolveBegun a
  | .resolve nowMs rc => dcDriveRestResolve nowMs rc a
  | .drive nowMs wake => dcDriveRest nowMs wake a
  | .expire nowMs => dcRestProgressExpired nowMs a

def dcInit : DcAdapter := { outq := fun _ => ⟨[], []⟩ }

end Floofclaw.Source.DiscordRest
