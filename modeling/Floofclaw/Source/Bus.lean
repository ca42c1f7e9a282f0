import Floofclaw.Source.Inbound

/-!
# The bus

Model of the publishing half of `bus/bus.c`. The two directories are maps from
envelope ids to the texts of their files, a later entry hidden by an earlier
one of the same id; what is on disk can be read. Callers hand over C strings,
so the texts of a publication have no NUL. An unset member of a routing is the
empty text, as the code treats both alike.
-/

set_option autoImplicit false

namespace Floofclaw.Source.Bus
open Floofclaw.Lib Floofclaw.Source.Json Floofclaw.Source.Inbound

def busIdMax : Nat := 32
def busPayloadMax : Nat := 16384
def busRoutingJsonMax : Nat := 2048

structure BusRouting where
  adapterId : Bytes
  contextId : Bytes
  refJson : Bytes
  deriving DecidableEq

/-- The arguments of `bus_publish_stable_routed`; a missing routing is an empty one. -/
structure Publication where
  envelopeId : Bytes
  channel : Bytes
  type : Bytes
  payloadJson : Bytes
  routing : BusRouting
  nulFree : ∀ s ∈ [envelopeId, channel, type, payloadJson, routing.adapterId, routing.contextId, routing.refJson],
    NulFree s

abbrev Dir := List (Bytes × Bytes)

structure BusDisk where
  inbox : Dir
  processed : Dir
  deriving DecidableEq

def validEnvelopeId (id : Bytes) : Bool :=
  decide (id.length < busIdMax) && (lit "bus_").isPrefixOf id && !(id.drop 4).isEmpty && (id.drop 4).all isDigit

/-- The members `routing_json` writes. -/
def routingMembers (eadapter econtext cref : Option Bytes) : List (Bytes × Bytes) :=
  (eadapter.map fun e => (lit "adapter_id", quoted e)).toList ++
    ((econtext.map fun e => (lit "context_id", quoted e)).toList ++ (cref.map fun r => (lit "ref", r)).toList)

/-- A member of the routing in its own buffer: nothing for an unset one, `none` when it is refused. -/
def routingMember (maxBytes : Nat) (write : Bytes → Option Bytes) (text : Bytes) : Option (Option Bytes) :=
  if text = [] then some none
  else if text.length > maxBytes then none
  else (write text).map some

/-- `routing_json`: the block, empty when there is nothing to carry. -/
def routingJson (routing : BusRouting) : Option Bytes := do
  let eadapter ← routingMember busRoutingAdapterMax (mirror (busRoutingAdapterMax * 6 + 8)) routing.adapterId
  let econtext ← routingMember busRoutingContextMax (mirror (busRoutingContextMax * 6 + 8)) routing.contextId
  let cref ← routingMember busRoutingRefMax (jsonCompact (busRoutingRefMax + 1)) routing.refJson
  if routingMembers eadapter econtext cref = [] then return []
  guard ((objText (routingMembers eadapter econtext cref)).length < busRoutingJsonMax)
  return objText (routingMembers eadapter econtext cref)

/-- The routing block found in an envelope; one that does not fit its buffers counts as none. -/
def storedRouting (root : JsonRef) : Bytes :=
  match (jsonRefObjectGetObject root (lit "routing")).bind fun v =>
      (jsonRefValueCopy busRoutingJsonMax v).bind (jsonCompact busRoutingJsonMax) with
  | none => []
  | some block => block

/-- `existing_envelope_matches` on the text of the file. -/
def existingEnvelopeMatches (text : Bytes) (p : Publication) (routingExpected : Bytes) : Bool :=
  match (do
    let root ← jsonRefTopObject text
    let actualId ← jsonRefObjectGetString root (lit "event_id") busIdMax
    let actualChannel ← jsonRefObjectGetString root (lit "channel") busChannelMax
    let actualType ← jsonRefObjectGetString root (lit "type") busTypeMax
    let payload ← jsonRefObjectGet root (lit "payload")
    let actualRaw ← jsonRefValueCopy busPayloadMax payload
    let actualPayload ← jsonCompact busPayloadMax actualRaw
    let expectedPayload ← jsonCompact busPayloadMax p.payloadJson
    return (actualId, actualChannel, actualType, actualPayload, expectedPayload, storedRouting root)) with
  | none => false
  | some (actualId, actualChannel, actualType, actualPayload, expectedPayload, actualRouting) =>
    actualId = p.envelopeId && actualChannel = p.channel && actualType = p.type && actualPayload = expectedPayload &&
      actualRouting = routingExpected

/-- The text of an envelope file. -/
def envelopeText (id : Bytes) (ts : Stamp) (ec et routingBlock compactPayload : Bytes) : Bytes :=
  objText ([(lit "event_id", quoted id), (lit "ts", quoted ts.text), (lit "channel", quoted ec), (lit "type", quoted et)] ++
    ((if routingBlock = [] then [] else [(lit "routing", routingBlock)]) ++ [(lit "payload", compactPayload)])) ++ lit "\n"

/-- What a call finds around it: the clock, and whether the directories and the file can be written. -/
structure BusIo where
  ts : Stamp
  directories : Bool
  writable : Bool

inductive PublishResult
  | committed | conflict | failed
  deriving DecidableEq, Repr

/-- The branch that commits a new envelope; the log line beside it is diagnostic. -/
def commitEnvelope (io : BusIo) (disk : BusDisk) (p : Publication) (routingBlock : Bytes) : Option BusDisk := do
  guard io.directories
  let ec ← mirror busChannelMax p.channel
  let et ← mirror busTypeMax p.type
  let compactPayload ← jsonCompact busPayloadMax p.payloadJson
  guard io.writable
  return { disk with inbox := (p.envelopeId, envelopeText p.envelopeId io.ts ec et routingBlock compactPayload) :: disk.inbox }

def busPublishStableRouted (io : BusIo) (disk : BusDisk) (p : Publication) : PublishResult × BusDisk :=
  if !validEnvelopeId p.envelopeId then (.failed, disk)
  else match routingJson p.routing with
    | none => (.failed, disk)
    | some routingBlock =>
      -- a block below its own bound always fits the field around it
      if routingBlock ≠ [] ∧ (lit ",\"routing\":" ++ routingBlock).length ≥ busRoutingJsonMax + 16 then (.failed, disk)
      else match disk.inbox.lookup p.envelopeId, disk.processed.lookup p.envelopeId with
        | some _, some _ => (.conflict, disk)
        | some text, none | none, some text =>
          if existingEnvelopeMatches text p routingBlock then (.committed, disk) else (.conflict, disk)
        | none, none =>
          match commitEnvelope io disk p routingBlock with
          | none => (.failed, disk)
          | some disk => (.committed, disk)

/-- A rename from one directory into the other. -/
def moveEntry (id : Bytes) (src dst : Dir) : Option (Dir × Dir) :=
  (src.lookup id).map fun text => (src.filter fun e => e.1 ≠ id, (id, text) :: dst)

/-- One envelope leaves the inbox for the processed directory. -/
def processEnvelope (id : Bytes) (disk : BusDisk) : BusDisk :=
  match moveEntry id disk.inbox disk.processed with
  | none => disk
  | some (inbox, processed) => { inbox, processed }

/-- `bus_requeue_processed`. -/
def busRequeueProcessed (id : Bytes) (disk : BusDisk) : BusDisk :=
  match disk.inbox.lookup id with
  | some _ => disk
  | none =>
    match moveEntry id disk.processed disk.inbox with
    | none => disk
    | some (processed, inbox) => { inbox, processed }

/-! ## Numbered envelopes -/

/-- `bus_%06ld`. -/
def envelopeName (n : Nat) : Bytes := lit "bus_" ++ decPadded 6 n

theorem envelopeName_inj {n m : Nat} (h : envelopeName n = envelopeName m) : n = m := by
  have hdigits : decPadded 6 n = decPadded 6 m := List.append_cancel_left h
  simpa using congrArg decValue hdigits

/-- A publication touches no other name than its own. -/
theorem busPublishStableRouted_other (io : BusIo) (disk : BusDisk) (p : Publication) {id : Bytes} (h : id ≠ p.envelopeId) :
    (busPublishStableRouted io disk p).2.inbox.lookup id = disk.inbox.lookup id ∧
      (busPublishStableRouted io disk p).2.processed.lookup id = disk.processed.lookup id := by
  unfold busPublishStableRouted
  repeat' split
  all_goals try exact ⟨rfl, rfl⟩
  rename_i disk' hcommit
  simp only [commitEnvelope, Option.bind_eq_bind, Option.bind_eq_some_iff, Option.pure_def, Option.some.injEq] at hcommit
  obtain ⟨-, -, ec, -, et, -, c, -, -, -, rfl⟩ := hcommit
  refine ⟨?_, rfl⟩
  rw [List.lookup_cons, show (id == p.envelopeId) = false by simpa using h]

/-- The bus with its counter file: no number above the counter names a file. -/
structure BusState where
  disk : BusDisk
  counter : Nat
  issued : ∀ n, counter < n → disk.inbox.lookup (envelopeName n) = none ∧ disk.processed.lookup (envelopeName n) = none

/-- What becomes of a reservation: the lock or the counter fails, the number is written and then lost, or it is handed
out. -/
inductive Reservation
  | refused | lost | granted
  deriving DecidableEq, Repr

def longMax : Nat := 9223372036854775807

/-- A number passed over. -/
def BusState.skip (bus : BusState) : BusState :=
  { bus with counter := bus.counter + 1, issued := fun n hn => bus.issued n (by omega) }

theorem envelopeName_nulFree (n : Nat) : NulFree (envelopeName n) := by
  intro c hc
  rcases List.mem_append.mp hc with hc | hc
  · have hlit : (lit "bus_").all (· ≠ 0) = true := lit_all (by decide)
    simpa using List.all_eq_true.mp hlit c hc
  · exact isDigit_ne_zero (decPadded_digits 6 n c hc)

/-- The publication of C strings under a number, without a routing block. -/
def numbered (n : Nat) (channel type payloadJson : Bytes) : Publication :=
  { envelopeId := envelopeName n, channel := cstr channel, type := cstr type, payloadJson := cstr payloadJson
    routing := ⟨[], [], []⟩
    nulFree := by
      intro s hs
      simp only [List.mem_cons, List.not_mem_nil, or_false] at hs
      rcases hs with rfl | rfl | rfl | rfl | rfl | rfl | rfl
      · exact envelopeName_nulFree n
      · exact cstr_nulFree _
      · exact cstr_nulFree _
      · exact cstr_nulFree _
      all_goals nofun }

/-- `bus_publish`: a fresh number, and a publication under it. -/
def busPublish (r : Reservation) (io : BusIo) (bus : BusState) (channel type payloadJson : Bytes) : Bool × BusState :=
  if bus.counter ≥ longMax then (false, bus)
  else match r with
    | .refused => (false, bus)
    | .lost => (false, bus.skip)
    | .granted =>
      let published := busPublishStableRouted io bus.disk (numbered (bus.counter + 1) channel type payloadJson)
      (published.1 = .committed,
        { disk := published.2, counter := bus.counter + 1
          issued := by
            intro n hn
            have hname : envelopeName n ≠ envelopeName (bus.counter + 1) := fun h => by
              have := envelopeName_inj h
              omega
            obtain ⟨hinbox, hprocessed⟩ := busPublishStableRouted_other io bus.disk
              (numbered (bus.counter + 1) channel type payloadJson) hname
            obtain ⟨hi, hp⟩ := bus.issued n (by omega)
            exact ⟨hinbox.trans hi, hprocessed.trans hp⟩ })

end Floofclaw.Source.Bus
