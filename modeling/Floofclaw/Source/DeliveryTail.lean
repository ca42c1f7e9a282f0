import Floofclaw.Lib.Lines
import Floofclaw.Source.Inbound

/-!
# Delivery tailers

Model of the five readers of `deliveries.jsonl`: `drain_deliveries` of the IRC,
WebSocket and Telegram adapters, `dc_drain_deliveries`, and the CLI waiter's
`find_delivery_since`. A tick of an adapter measures the file and then opens and
reads it, so that writers and the janitor can come in between. The janitor
renames the live file away, and the next append makes a new one.
-/

set_option autoImplicit false

namespace Floofclaw.Source.DeliveryTail
open Floofclaw.Lib Floofclaw.Source.Json

def rtMessageTextMax : Nat := 8192
def dcReplyMax : Nat := 16384

inductive Tailer
  | irc | ws | telegram | discord | cli
  deriving DecidableEq, Repr

/-- What a relay is given: a destination and a text. -/
structure Delivery where
  target : Bytes
  text : Bytes
  deriving DecidableEq

/-- What a tailer compares with: its module id and where unsolicited messages go, or the event and channel a client
waits for. -/
structure Address where
  moduleId : Bytes
  home : Option Bytes
  originEventId : Bytes
  channel : Bytes

/-! ## Addressed lines -/

/-- The test the three chat adapters make, with their own names and buffers. -/
def deliveryForUs (channelName : Bytes) (channelCap : Nat) (refKey : Bytes) (targetCap textCap : Nat) (a : Address)
    (line : Bytes) : Option Delivery := do
  let root ← jsonRefFirstObject line
  let delivery ← jsonRefObjectGetObject root (lit "delivery")
  let channel ← jsonRefObjectGetString delivery (lit "channel") channelCap
  guard (channel = channelName)
  let adapter ← jsonRefObjectGetString delivery (lit "adapter_id") 64
  guard (adapter = a.moduleId)
  let text ← jsonRefObjectGetString delivery (lit "text") textCap
  match (jsonRefObjectGetObject delivery (lit "ref")).bind fun ref => jsonRefObjectGetString ref refKey targetCap with
  | some target => return { target, text }
  | none => a.home.map fun home => { target := clip targetCap home, text }

def lineToDeliveryForUs : Address → Bytes → Option Delivery :=
  deliveryForUs (lit "irc") 64 (lit "target") 256 (rtMessageTextMax + 1)

def dcDeliveryForUs : Address → Bytes → Option Delivery :=
  deliveryForUs (lit "discord") 32 (lit "channel_id") 128 dcReplyMax

def tgDeliveryForUs : Address → Bytes → Option Delivery :=
  deliveryForUs (lit "telegram") 32 (lit "chat_id") 64 (rtMessageTextMax + 1)

/-- `delivery_line_matches` for a client that waits for one event; the target is the run. -/
def deliveryLineMatches (a : Address) (line : Bytes) : Option Delivery := do
  let root ← jsonRefFirstObject line
  let delivery ← jsonRefObjectGetObject root (lit "delivery")
  let origin ← jsonRefObjectGetString delivery (lit "origin_event_id") rtSmall
  let channel ← jsonRefObjectGetString delivery (lit "channel") rtSmall
  guard (origin = a.originEventId ∧ channel = a.channel)
  let text ← jsonRefObjectGetString delivery (lit "text") (rtMessageTextMax + 1)
  return { target := (jsonRefObjectGetString root (lit "run_id") rtSmall).getD [], text }

/-- A piece of the file as a C string without its newline. -/
def chomp (piece : Bytes) : Bytes :=
  if (cstr piece).getLast? = some (ch '\n') then (cstr piece).dropLast else cstr piece

/-- What a tailer makes of one `fgets`. The WebSocket adapter hands every line to `reconcile_delivery`. -/
def handed (t : Tailer) (a : Address) (piece : Bytes) : Option Delivery :=
  match t with
  | .irc => lineToDeliveryForUs a (chomp piece)
  | .ws => some { target := [], text := chomp piece }
  | .telegram => tgDeliveryForUs a (chomp piece)
  | .discord => dcDeliveryForUs a (chomp piece)
  | .cli => deliveryLineMatches a (cstr piece)

/-! ## One read -/

/-- The pieces Discord gets through while its queue takes `room` more messages: it stops in front of the next. -/
def takeRoom (hand : Bytes → Option Delivery) : Nat → List Bytes → List Bytes
  | _, [] => []
  | room, piece :: pieces =>
    if (hand piece).isSome then
      match room with
      | 0 => []
      | room + 1 => piece :: takeRoom hand room pieces
    else piece :: takeRoom hand room pieces

/-- The pieces up to the first that matches, which the waiter returns with. -/
def takeFirst (hand : Bytes → Option Delivery) : List Bytes → List Bytes
  | [] => []
  | piece :: pieces => if (hand piece).isSome then [piece] else piece :: takeFirst hand pieces

def taken (t : Tailer) (a : Address) (room : Nat) (pieces : List Bytes) : List Bytes :=
  match t with
  | .discord => takeRoom (handed t a) room pieces
  | .cli => takeFirst (handed t a) pieces
  | _ => pieces

structure State where
  log : Option Bytes
  /-- Unset until the first tick, or until the client starts to wait. -/
  cursor : Option Nat
  /-- The size a tick in progress has measured. -/
  measured : Option Nat
  relayed : List Delivery
  deriving DecidableEq

inductive Step
  | append (text : Bytes)
  | rotate
  | measure
  | read (opens : Bool) (room : Nat)
  deriving DecidableEq

/-- The head of a tick: the end of the file, and whether the file was rotated. -/
def tickMeasure (t : Tailer) (s : State) : Option State :=
  match s.cursor with
  | none => some { s with cursor := some ((s.log.map List.length).getD 0) }
  | some cursor =>
    if t = .cli ∨ s.measured.isSome then none
    else match s.log with
      | none => some s
      | some text =>
        let cursor := if text.length < cursor then 0 else cursor
        some { s with cursor := some cursor, measured := if text.length ≤ cursor then none else some text.length }

/-- The rest of the tick: from the cursor to the end of the file. -/
def tickRead (t : Tailer) (a : Address) (opens : Bool) (room : Nat) (s : State) : Option State :=
  match s.cursor with
  | none => none
  | some cursor =>
    if t ≠ .cli ∧ s.measured = none then none
    else match if opens then s.log else none with
      | none => some { s with measured := none }
      | some text =>
        let pieces := taken t a room (fgetsLines rtXl (text.drop cursor))
        some { s with
          measured := none, relayed := s.relayed ++ pieces.filterMap (handed t a)
          cursor := some (match t with
            | .discord | .cli => cursor + pieces.flatten.length
            | _ => s.measured.getD cursor) }

def step (t : Tailer) (a : Address) (s : State) : Step → Option State
  | .append text => some { s with log := some (s.log.getD [] ++ text) }
  | .rotate => s.log.map fun _ => { s with log := none }
  | .measure => tickMeasure t s
  | .read opens room => tickRead t a opens room s

end Floofclaw.Source.DeliveryTail
