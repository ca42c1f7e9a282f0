import Floofclaw.Source.DiscordRest
import Floofclaw.Source.JsonWrite

/-!
# The Discord outbox

Model of the chunking of `discord_adapter.c`: a reply is sanitized, the chunks
it needs are counted, and if the ring has that many slots they are queued one
after the other.
-/

set_option autoImplicit false

namespace Floofclaw.Source.DiscordOutbox
open Floofclaw.Lib Floofclaw.Source.Json Floofclaw.Source.DiscordRest

def dcReplyMax : Nat := 16384

/-- What `dc_sanitize_text` writes for an octet. -/
def dcCleanOctet (c : Byte) : Bytes :=
  if c = ch '\r' then [ch '\n'] else if c < 32 ∧ c ≠ ch '\n' ∧ c ≠ ch '\t' then [] else [c]

def dcSanitizeLoop (outLen : Nat) : Bytes → Bytes → Bytes
  | [], out => out
  | c :: s, out => if out.length + 1 < outLen then dcSanitizeLoop outLen s (out ++ dcCleanOctet c) else out

/-- `dc_sanitize_text` into a buffer of the given size. -/
def dcSanitizeText (outLen : Nat) (src : Bytes) : Bytes := dcSanitizeLoop outLen (cstr src) []

/-- Backwards from an index down to the first: where the octet stands. -/
def searchBack (c : Byte) (s : Bytes) : Nat → Option Nat
  | 0 => none
  | i + 1 => if s[i + 1]? = some c then some (i + 1) else searchBack c s i

def dcChooseChunkLen (s : Bytes) (maxLen : Nat) : Nat :=
  if s.length ≤ maxLen then s.length
  else ((searchBack (ch '\n') s maxLen).or (searchBack (ch ' ') s maxLen)).getD maxLen

/-- The blanks between two chunks. -/
def isBlank (c : Byte) : Bool := c = ch ' ' || c = ch '\n'

def dcSkip (s : Bytes) : Bytes := s.dropWhile isBlank

theorem dcSkip_shorter {s : Bytes} (hne : s ≠ []) (hlen : dcChooseChunkLen s dcChunkMax ≠ 0) :
    (dcSkip (s.drop (dcChooseChunkLen s dcChunkMax))).length < s.length := by
  have hskip : (dcSkip (s.drop (dcChooseChunkLen s dcChunkMax))).length ≤ (s.drop (dcChooseChunkLen s dcChunkMax)).length :=
    (List.dropWhile_suffix _).length_le
  have hpos := List.length_pos_iff.mpr hne
  rw [List.length_drop] at hskip
  omega

/-- The counting pass. -/
def dcCountLoop (s : Bytes) : Nat :=
  if s = [] then 0
  else if dcChooseChunkLen s dcChunkMax = 0 then 0
  else 1 + dcCountLoop (dcSkip (s.drop (dcChooseChunkLen s dcChunkMax)))
termination_by s.length
decreasing_by exact dcSkip_shorter ‹_› ‹_›

/-- The payload of a chunk, in the buffers it is built in. -/
def dcPayload (chunk : Bytes) : Option Bytes :=
  let (esc, fits) := jsonEscape (dcChunkMax * 2 + 8) chunk
  let payload := lit "\x7b\"content\":\"" ++ (esc ++ lit "\"\x7d")
  if fits && payload.length < dcChunkMax * 2 + 64 then some payload else none

/-- The emitting pass, with the number of chunks it queued. -/
def dcEmitLoop (channelId : Bytes) (s : Bytes) (a : DcAdapter) (count : Nat) : Option (DcAdapter × Nat) :=
  if s = [] then some (a, count)
  else if dcChooseChunkLen s dcChunkMax = 0 then some (a, count)
  else
    match (dcPayload (s.take (dcChooseChunkLen s dcChunkMax))).bind fun payload => dcQueueRaw channelId payload a with
    | none => none
    | some a => dcEmitLoop channelId (dcSkip (s.drop (dcChooseChunkLen s dcChunkMax))) a (count + 1)
termination_by s.length
decreasing_by exact dcSkip_shorter ‹_› ‹_›

inductive DcQueueRc
  | ok | full | failed
  deriving DecidableEq, Repr

/-- What the function does behind the emitting pass. A failure puts the count back. -/
def dcQueueFinish (channelId : Bytes) (a : DcAdapter) : Option (DcAdapter × Nat) → DcQueueRc × DcAdapter
  | none => (.failed, a)
  | some (a', 0) =>
    match dcQueueRaw channelId (lit "\x7b\"content\":\" \"\x7d") a' with
    | none => (.failed, a)
    | some a'' => (.ok, a'')
  | some (a', _ + 1) => (.ok, a')

/-- `dc_queue_message_chunks` from the text on. -/
def dcQueueText (channelId text : Bytes) (a : DcAdapter) : DcQueueRc × DcAdapter :=
  if channelId = [] ∨ dcOutQueueMax < a.outCount then (.failed, a)
  else if dcOutQueueMax - a.outCount < max 1 (dcCountLoop (dcSanitizeText dcReplyMax text)) then (.full, a)
  else dcQueueFinish channelId a (dcEmitLoop channelId (dcSanitizeText dcReplyMax text) a 0)

end Floofclaw.Source.DiscordOutbox
