import Floofclaw.Lib.Ring
import Floofclaw.Lib.Utf8
import Floofclaw.Source.Http1
import Floofclaw.Source.JsonFields

/-!
# The Telegram outbox

Model of the outbound half of `telegram_outbox.c`: a reply is cut at the message
cap and queued piece by piece in a ring, and the request of a queued piece is
built from the bot token. The token is what the secret store gives.
-/

set_option autoImplicit false

namespace Floofclaw.Source.TelegramOutbox
open Floofclaw.Lib Floofclaw.Source.Json Floofclaw.Source.Http1

def tgMessageChunk : Nat := 4096
def tgOutQueueMax : Nat := 64
def tgTxMax : Nat := 16384

structure TgOutbound where
  chatId : Bytes
  text : Bytes
  deriving DecidableEq, Repr

abbrev TgQueue := Ring TgOutbound tgOutQueueMax

/-- From a place back to the last octet that starts a code point. -/
def backOff (s : Bytes) : Nat → Nat
  | 0 => 0
  | n + 1 => if s[n + 1]?.any isCont then backOff s n else n + 1

/-- What the next piece takes. -/
def tgTake (s : Bytes) : Nat :=
  if s.length > tgMessageChunk then
    match backOff s tgMessageChunk with
    | 0 => tgMessageChunk
    | n + 1 => n + 1
  else s.length

def tgSlot (chatId piece : Bytes) : TgOutbound := ⟨clip 64 chatId, piece⟩

/-- The loop of `tg_queue_chunks`, with the octets that are left as its measure. -/
def tgQueueLoop (chatId : Bytes) : Nat → TgQueue → Bytes → TgQueue × Bool
  | 0, q, _ => (q, true)
  | _ + 1, q, [] => (q, true)
  | n + 1, q, c :: s =>
    match q.push (tgSlot chatId ((c :: s).take (tgTake (c :: s)))) with
    | none => (q, false)
    | some q => tgQueueLoop chatId n q ((c :: s).drop (tgTake (c :: s)))

/-- `tg_queue_chunks`: the queue, and whether the call succeeded. -/
def tgQueueChunks (q : TgQueue) (chatId text : Bytes) : TgQueue × Bool := tgQueueLoop chatId text.length q text

/-- The host header of the adapter, in its buffer. -/
structure TgHost where
  header : Bytes
  fits : header.length < 160

def fclawVersion : Bytes := lit "0.32.0"

def tgSendPath (token : Bytes) : Bytes := lit "/bot" ++ token ++ lit "/sendMessage"

def tgSendBody (chatId etext : Bytes) : Bytes := lit "\x7b\"chat_id\":\"" ++ chatId ++ lit "\",\"text\":\"" ++ etext ++ lit "\"\x7d"

/-- `tg_build_send_request` with the token the store resolves. -/
def tgBuildSendRequest (host : TgHost) (token : Option Bytes) (msg : TgOutbound) : Option Bytes := do
  let token ← token
  guard ((tgSendPath token).length < 256)
  let etext ← mirror (tgMessageChunk * 2 + 16) msg.text
  guard ((tgSendBody msg.chatId etext).length < tgMessageChunk * 2 + 256)
  fcHttp1BuildRequest tgTxMax (lit "POST") (tgSendPath token) host.header (lit "floofclaw/" ++ fclawVersion) none
    (some (lit "application/json")) (some (tgSendBody msg.chatId etext))

end Floofclaw.Source.TelegramOutbox
