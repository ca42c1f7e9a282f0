import Floofclaw.Lib.FrameStream
import Floofclaw.Lib.MaskedFrame

/-!
# Frames of the Discord gateway

Model of the WebSocket client in `discord_gateway.c`: the masked frame it
queues, and the frames it takes off its receive buffer, masked or not. The mask
is what the generator returned.
-/

set_option autoImplicit false

namespace Floofclaw.Source
open Floofclaw.Lib

def dcRxMax : Nat := 65536
def dcTxMax : Nat := 65536

/-- The head `dc_queue_ws_frame` writes in front of the mask. -/
def dcFrameHead (opcode : Byte) (payloadLen : Nat) : Bytes :=
  (0x80 ||| (opcode &&& 0x0f)) ::
    if payloadLen < 126 then [0x80 ||| UInt8.ofNat payloadLen]
    else [0x80 ||| 126, UInt8.ofNat ((payloadLen >>> 8) &&& 0xff), UInt8.ofNat (payloadLen &&& 0xff)]

/-- `dc_queue_ws_frame`: the output buffer behind the frame. -/
def dcQueueWsFrame (gwTx mask : Bytes) (opcode : Byte) (payload : Bytes) : Option Bytes :=
  if payload.length > 0xffff then none
  else
    let hdr := dcFrameHead opcode payload.length ++ mask
    if gwTx.length + (hdr.length + payload.length) > dcTxMax then none
    else some (gwTx ++ hdr ++ payload.mapIdx fun i b => b ^^^ mask.getD (i &&& 3) 0)

/-- The length a head declares and where it ends; `none` while the head is not there. -/
def dcFrameLength (gwRx : Bytes) : Option (Nat × Nat) :=
  let len := (gwRx.getD 1 0 &&& 0x7f).toNat
  if len = 126 then if gwRx.length < 4 then none else some (readBE ((gwRx.drop 2).take 2), 4)
  else if len = 127 then if gwRx.length < 10 then none else some (readBE ((gwRx.drop 2).take 8), 10)
  else some (len, 2)

/-- The payload behind a head that ends at `header`. -/
def dcFramePayload (gwRx mask : Bytes) (masked : Bool) (header len payloadLen : Nat) : Pull (Nat × Bytes) Bytes :=
  if payloadLen = 0 ∨ len > payloadLen - 1 then .refused
  else if len > gwRx.length - header then .more
  else
    let body := (gwRx.drop header).take len
    .item ((gwRx.getD 0 0 &&& 0x0f).toNat, if masked then body.mapIdx fun i b => b ^^^ mask.getD (i &&& 3) 0 else body)
      (gwRx.drop (header + len))

/-- `dc_extract_frame` over what is in the receive buffer, into a payload of `payloadLen` octets. -/
def dcExtractFrame (gwRx : Bytes) (payloadLen : Nat) : Pull (Nat × Bytes) Bytes :=
  if gwRx.length < 2 then .more
  else
    match dcFrameLength gwRx with
    | none => .more
    | some (len, header) =>
      if gwRx.getD 1 0 &&& 0x80 ≠ 0 then
        if gwRx.length < header + 4 then .more
        else dcFramePayload gwRx ((gwRx.drop header).take 4) true (header + 4) len payloadLen
      else dcFramePayload gwRx [] false header len payloadLen

/-- One arrival in `dc_gw_read_available`: a buffer that is full before the next read closes the connection. -/
def dcGwRead (gwRx chunk : Bytes) : Option Bytes :=
  if gwRx.length + chunk.length < dcRxMax - 1 then some (gwRx ++ chunk) else none

end Floofclaw.Source
