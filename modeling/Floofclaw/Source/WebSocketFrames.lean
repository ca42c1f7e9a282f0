import Floofclaw.Lib.MaskedFrame

/-!
# WebSocket frames

`ws_adapter.c`: how an open connection's receive buffer is filled by reads and
taken apart into frames, and the frame of a text that is sent. An access outside
an array is an outcome of its own; a growing output buffer is taken to grow.
-/

set_option autoImplicit false

namespace Floofclaw.Source

open Floofclaw.Lib

def wsRxBuf : Nat := 16384

/-- The receive buffer of a client: the array, and how much of it was received. -/
structure WsRx where
  rx : Bytes
  rxLen : Nat
  size : rx.length = wsRxBuf
  room : rxLen < wsRxBuf

/-- What was received and not yet consumed. -/
def WsRx.bytes (c : WsRx) : Bytes := c.rx.take c.rxLen

/-- Why there is no frame: octets are missing, the connection is refused, or an array was left. -/
inductive WsStop
  | more | refused | fault
deriving DecidableEq

/-- An array's element. -/
def octetAt (s : Bytes) (i : Nat) : Except WsStop Byte :=
  match s[i]? with
  | some b => .ok b
  | none => .error .fault

/-- Eight octets shifted into a 64-bit number, from the given index on. -/
def shiftIn (c : WsRx) (i : Nat) : Nat → Nat → Except WsStop Nat
  | 0, n => .ok n
  | k + 1, n => (octetAt c.rx i).bind fun b => shiftIn c (i + 1) k ((n * 256 + b.toNat) % 2 ^ 64)

/-- The declared length, and where the mask stands. -/
def payloadLength (c : WsRx) (b1 : Byte) : Except WsStop (Nat × Nat) :=
  if (b1 &&& 0x7f).toNat = 126 then
    if c.rxLen < 4 then .error .more else (shiftIn c 2 2 0).bind fun n => .ok (n, 4)
  else if (b1 &&& 0x7f).toNat = 127 then
    if c.rxLen < 10 then .error .more else (shiftIn c 2 8 0).bind fun n => .ok (n, 10)
  else .ok ((b1 &&& 0x7f).toNat, 2)

/-- Octets of the buffer are unmasked one behind the other into an array of `textOutMax`. -/
def unmaskLoop (c : WsRx) (mask : Bytes) (header textOutMax : Nat) : Nat → Bytes → Except WsStop Bytes
  | 0, out => .ok out
  | n + 1, out =>
    (octetAt c.rx (header + out.length)).bind fun b => (octetAt mask (out.length % 4)).bind fun m =>
      if out.length < textOutMax then unmaskLoop c mask header textOutMax n (out ++ [b ^^^ m]) else .error .fault

/-- `memmove` of what is left to the front; the array keeps what it had behind that. -/
def WsRx.consume (c : WsRx) (used : Nat) : WsRx where
  rx := (c.rx.drop used).take (c.rxLen - used) ++ c.rx.drop (c.rxLen - used)
  rxLen := c.rxLen - used
  size := by
    have hsize := c.size
    have hroom := c.room
    rw [List.length_append, List.length_take, List.length_drop, List.length_drop]
    omega
  room := Nat.lt_of_le_of_lt (Nat.sub_le _ _) c.room

/-- What `extract_frame` hands out, and the buffer it leaves. -/
structure WsFrame where
  text : Bytes
  opcode : Nat
  rest : WsRx

/-- The payload behind the mask, with the terminator's place in the text checked. -/
def extractPayload (c : WsRx) (textOutMax opcode payloadLen header : Nat) : Except WsStop WsFrame :=
  if textOutMax < (payloadLen + 1) % 2 ^ 64 then .error .refused
  else if c.rxLen < (header + 4 + payloadLen) % 2 ^ 64 then .error .more
  else
    (unmaskLoop c ((c.rx.drop header).take 4) (header + 4) textOutMax payloadLen []).bind fun text =>
      if text.length < textOutMax then .ok ⟨text, opcode, c.consume ((header + 4 + payloadLen) % 2 ^ 64)⟩ else .error .fault

def extractFrame (c : WsRx) (textOutMax : Nat) : Except WsStop WsFrame :=
  if c.rxLen < 2 then .error .more
  else
    (octetAt c.rx 0).bind fun b0 => (octetAt c.rx 1).bind fun b1 =>
      if b0 &&& 0x70 ≠ 0 ∨ b0 &&& 0x80 = 0 then .error .refused
      else
        (payloadLength c b1).bind fun (payloadLen, header) =>
          if b1 &&& 0x80 = 0 then .error .refused
          else if c.rxLen < header + 4 then .error .more
          else extractPayload c textOutMax (b0 &&& 0x0f).toNat payloadLen header

/-- A read's octets behind what is there, unless they leave no room. -/
def WsRx.append (c : WsRx) (chunk : Bytes) : Option WsRx :=
  if h : wsRxBuf - c.rxLen ≤ chunk.length then none
  else some {
    rx := c.rx.take c.rxLen ++ (chunk ++ c.rx.drop (c.rxLen + chunk.length))
    rxLen := c.rxLen + chunk.length
    size := by
      have hsize := c.size
      have hroom := c.room
      rw [List.length_append, List.length_append, List.length_take, List.length_drop]
      omega
    room := by omega }

inductive WsState
  | opened | closed | undefined
deriving DecidableEq

/-- An open connection: its buffer, and the texts handed to the protocol. -/
structure WsSession where
  rx : WsRx
  texts : List Bytes
  state : WsState

/-- Whether a connection is left open by the protocol after these texts, and by a pong. -/
structure WsHost where
  protocol : List Bytes → Bool
  pong : List Bytes → Bool

/-- Frames are taken out while the connection is open. -/
def wsDrain (host : WsHost) : Nat → WsSession → WsSession
  | 0, s => s
  | fuel + 1, s =>
    match s.state with
    | .closed => s
    | .undefined => s
    | .opened =>
      match extractFrame s.rx wsRxBuf with
      | .error .more => s
      | .error .refused => { s with state := .closed }
      | .error .fault => { s with state := .undefined }
      | .ok f =>
        if f.opcode = 8 then { s with rx := f.rest, state := .closed }
        else if f.opcode = 9 then
          wsDrain host fuel { s with rx := f.rest, state := if host.pong s.texts then .opened else .closed }
        else if f.opcode ≠ 1 then { s with rx := f.rest, state := .closed }
        else
          wsDrain host fuel { rx := f.rest, texts := s.texts ++ [f.text], state := if host.protocol (s.texts ++ [f.text]) then .opened else .closed }

/-- The reads of one wake-up, then the frames. Every frame takes octets, so as many turns as octets are enough. -/
def wsReadable (host : WsHost) (s : WsSession) (reads : List Bytes) : WsSession :=
  match s.state with
  | .closed => s
  | .undefined => s
  | .opened =>
    match reads.foldlM WsRx.append s.rx with
    | none => { s with state := .closed }
    | some rx => wsDrain host (rx.rxLen + 1) { s with rx := rx }

/-- A connection that was just opened, with an empty buffer. -/
def WsSession.fresh : WsSession := ⟨⟨List.replicate wsRxBuf 0, 0, List.length_replicate, by decide⟩, [], .opened⟩

def wsTxCap : Nat := 512 * 1024 + 2048

def connAppendTx (tx bytes : Bytes) : Option Bytes :=
  if bytes.length > wsTxCap ∨ tx.length + bytes.length > wsTxCap then none else some (tx ++ bytes)

/-- The head `send_text_frame` writes. -/
def textFrameHead (len : Nat) : Bytes :=
  if len < 126 then [0x81, UInt8.ofNat len] else [0x81, 126, UInt8.ofNat (len >>> 8), UInt8.ofNat len]

def sendTextFrame (tx text : Bytes) : Option Bytes :=
  if text.length > 65535 then none
  else (connAppendTx tx (textFrameHead text.length)).bind fun tx => if text = [] then some tx else connAppendTx tx text

end Floofclaw.Source
