import Floofclaw.Source.Janitor

/-!
# Publication records

Model of `record_serialize` of `publication_outbox.c`; `record_load` is the
`recordLoad` of retention. Allocations succeed, and both payloads are there.
-/

set_option autoImplicit false

namespace Floofclaw.Source.PublicationRecords
open Floofclaw.Lib Floofclaw.Source.Json Floofclaw.Source.Inbound
open Floofclaw.Source.Outbox (PublicationRecord)

/-- The largest length `snprintf` reports. -/
def intMax : Nat := 2147483647

/-- `claimed_field`: only a bound record has the member. -/
def claimedField (claimedRunId : Bytes) : Option (List (Bytes × Bytes)) :=
  if claimedRunId = [] then some []
  else
    (mirror rtMed claimedRunId).bind fun eclaimed =>
      if (lit ",\"claimed_run_id\":").length + (quoted eclaimed).length ≥ rtMed + 32 then none
      else some [(lit "claimed_run_id", quoted eclaimed)]

/-- `record_serialize`; the wake id is put down as it is. -/
def recordSerialize (record : PublicationRecord) : Option Bytes := do
  let erun ← mirror rtMed record.sourceRunId
  let esourceId ← mirror rtMed record.sourceEventId
  let esourceType ← mirror rtMed record.sourceType
  let echannel ← mirror (busChannelMax * 2) record.channel
  let ewakeType ← mirror (busTypeMax * 2) record.wakeType
  let claimed ← claimedField record.claimedRunId
  let text := objText ([(lit "wake_id", quoted record.wakeId), (lit "source_run_id", quoted erun),
    (lit "source_event_id", quoted esourceId), (lit "source_type", quoted esourceType),
    (lit "source_payload", record.sourcePayload), (lit "channel", quoted echannel),
    (lit "wake_type", quoted ewakeType), (lit "wake_payload", record.wakePayload)] ++ claimed) ++ lit "\n"
  if text.length > intMax then none else some text

end Floofclaw.Source.PublicationRecords
