import Floofclaw.Source.DiscordFrames
import Floofclaw.Guarantees.FrameDecoder

/-!
# The two WebSocket ends

The client's encoder writes the masked frame whose length form is the shortest,
the server's decoder takes it back; the server's encoder writes the same frame
without a mask, which the client's decoder takes back. Lists of messages follow
from the law of streams, whatever the buffers are flushed and filled with.
-/

set_option autoImplicit false

namespace Floofclaw.Guarantees.FramePairs
open Floofclaw.Lib Floofclaw.Source Floofclaw.Guarantees.FrameDecoder

/-! ## The client's frames -/

/-- What the client queues: an opcode of four bits, a text, and the mask that was drawn. -/
structure ClientMessage where
  opcode : Nat
  text : Bytes
  mask : Bytes
  opcode_lt : opcode < 16
  text_le : text.length ≤ 65535
  mask_length : mask.length = 4

/-- The shortest form of a length. -/
def shortestForm (n : Nat) : LengthForm := if n < 126 then .short else .medium

def ClientMessage.frame (m : ClientMessage) : MaskedFrame where
  opcode := m.opcode
  mask := m.mask
  payload := m.text
  form := shortestForm m.text.length
  opcode_lt := m.opcode_lt
  mask_length := m.mask_length
  holds := by
    have hle := m.text_le
    unfold shortestForm
    split
    · assumption
    · exact Nat.lt_succ_of_le hle

def clientQueue (gwTx : Bytes) (m : ClientMessage) : Option Bytes := dcQueueWsFrame gwTx m.mask (UInt8.ofNat m.opcode) m.text

theorem mask_index (i : Nat) : i &&& 3 = i % 4 := Nat.and_two_pow_sub_one_eq_mod i 2

theorem masked_eq (mask payload : Bytes) : (payload.mapIdx fun i b => b ^^^ mask.getD (i &&& 3) 0) = xorMask mask payload := by
  simp only [xorMask, mask_index]

theorem opcode_octet {n : Nat} (h : n < 16) : 0x80 ||| (UInt8.ofNat n &&& 0x0f) = UInt8.ofNat (128 + n) := by
  have htable : ∀ k : Fin 16, (0x80 ||| (UInt8.ofNat k &&& 0x0f) : Byte) = UInt8.ofNat (128 + k) := by decide
  exact htable ⟨n, h⟩

theorem short_octet {n : Nat} (h : n < 126) :
    (0x80 ||| UInt8.ofNat n : Byte) = UInt8.ofNat (128 + n) ∧ (UInt8.ofNat n &&& 0x7f).toNat = n ∧ UInt8.ofNat n &&& 0x80 = 0 := by
  have htable : ∀ k : Fin 126, (0x80 ||| UInt8.ofNat k : Byte) = UInt8.ofNat (128 + k) ∧ (UInt8.ofNat k &&& 0x7f).toNat = k ∧
      (UInt8.ofNat k &&& 0x80 : Byte) = 0 := by decide
  exact htable ⟨n, h⟩

theorem length_octets (n : Nat) : [UInt8.ofNat ((n >>> 8) &&& 0xff), UInt8.ofNat (n &&& 0xff)] = beOctets 2 n := by
  have hlow : ∀ k : Nat, k &&& 0xff = k % 256 := fun k => Nat.and_two_pow_sub_one_eq_mod k 8
  rw [hlow, hlow, Nat.shiftRight_eq_div_pow]
  rfl

theorem dcFrameHead_eq {opcode n : Nat} (ho : opcode < 16) :
    dcFrameHead (UInt8.ofNat opcode) n =
      UInt8.ofNat (128 + opcode) :: UInt8.ofNat (128 + (shortestForm n).mark n) :: beOctets (shortestForm n).width n := by
  rw [dcFrameHead, opcode_octet ho]
  unfold shortestForm
  by_cases h : n < 126
  · rw [if_pos h, if_pos h, (short_octet h).1]
    rfl
  · have hmark : (0x80 ||| 126 : Byte) = UInt8.ofNat (128 + 126) := by decide
    rw [if_neg h, if_neg h, length_octets, hmark]
    rfl

/-- A frame that finds room is queued as it is meant. -/
theorem clientQueue_eq (gwTx : Bytes) (m : ClientMessage) :
    clientQueue gwTx m = if gwTx.length + m.frame.encode.length > dcTxMax then none else some (gwTx ++ m.frame.encode) := by
  have henc : m.frame.encode = dcFrameHead (UInt8.ofNat m.opcode) m.text.length ++ m.mask ++ xorMask m.mask m.text := by
    rw [dcFrameHead_eq m.opcode_lt, MaskedFrame.encode]
    simp [ClientMessage.frame]
  have hle := m.text_le
  rw [clientQueue, dcQueueWsFrame, if_neg (by omega)]
  dsimp only
  rw [masked_eq, henc]
  have hlen : (dcFrameHead (UInt8.ofNat m.opcode) m.text.length ++ m.mask ++ xorMask m.mask m.text).length =
      (dcFrameHead (UInt8.ofNat m.opcode) m.text.length ++ m.mask).length + m.text.length := by
    rw [List.length_append, xorMask_length]
  rw [hlen]
  simp only [List.append_assoc]

theorem clientQueue_some (gwTx : Bytes) (m : ClientMessage) (tx : Bytes) (h : clientQueue gwTx m = some tx) : tx = gwTx ++ m.frame.encode := by
  rw [clientQueue_eq] at h
  split at h
  · cases h
  · exact (Option.some.inj h).symm

/-- The server's end. -/
def server : Receiver (Nat × Bytes) WsRx where
  bytes := WsRx.bytes
  append := WsRx.append
  pull c :=
    match extractFrame c wsRxBuf with
    | .ok f => .item (f.opcode, f.text) f.rest
    | .error .more => .more
    | .error _ => .refused

/-- The frame fits the server's receive buffer. -/
def ClientMessage.Fits (m : ClientMessage) : Prop := m.frame.encode.length < wsRxBuf

theorem ClientMessage.Fits.payload {m : ClientMessage} (h : m.Fits) : m.frame.payload.length < wsRxBuf := by
  have hlen := m.frame.encode_length
  unfold ClientMessage.Fits at h
  omega

theorem server_append {c c' : WsRx} {chunk : Bytes} (h : c.append chunk = some c') : c'.bytes = c.bytes ++ chunk := by
  have hroom : c.bytes.length + chunk.length < wsRxBuf := by
    have hlt := c.room
    rw [bytes_length]
    by_contra hfull
    rw [WsRx.append, dif_pos (by omega)] at h
    cases h
  obtain ⟨c'', hc, hbytes⟩ := append_some chunk hroom
  rw [hc] at h
  exact Option.some.inj h ▸ hbytes

theorem encode_ne_nil (f : MaskedFrame) : f.encode ≠ [] := List.cons_ne_nil _ _

theorem server_decodes :
    server.Decodes (fun m : ClientMessage => m.frame.encode) (fun m => (m.opcode, m.text)) ClientMessage.Fits where
  appends _ _ _ h := server_append h
  idle c h := by
    have htiny : c.bytes = [] := h
    have hmore : extractFrame c wsRxBuf = .error .more := extractFrame_tiny _ (by rw [htiny]; exact Nat.zero_lt_two)
    simp only [server, hmore]
  whole c m rest hfits h := by
    obtain ⟨c', hframe, hrest⟩ := extract_whole h hfits.payload
    exact ⟨c', by simp only [server, hframe]; rfl, hrest⟩
  front c m more hfits h hne := by
    have hmore := extract_partial h hne hfits.payload
    simp only [server, hmore]
  some_octet m := encode_ne_nil m.frame

/-! ## The server's frames -/

/-- What the server sends. -/
structure ServerText where
  text : Bytes
  text_le : text.length ≤ 65535

def ServerText.encode (t : ServerText) : Bytes := textFrameHead t.text.length ++ t.text

def serverSend (tx : Bytes) (t : ServerText) : Option Bytes := sendTextFrame tx t.text

theorem connAppendTx_some {tx bytes tx' : Bytes} (h : connAppendTx tx bytes = some tx') : tx' = tx ++ bytes := by
  unfold connAppendTx at h
  split at h
  · cases h
  · exact (Option.some.inj h).symm

theorem serverSend_some (tx : Bytes) (t : ServerText) (tx' : Bytes) (h : serverSend tx t = some tx') : tx' = tx ++ t.encode := by
  unfold serverSend sendTextFrame at h
  split at h
  · cases h
  · obtain ⟨mid, hmid, hrest⟩ := Option.bind_eq_some_iff.mp h
    rw [connAppendTx_some hmid] at hrest
    rw [ServerText.encode]
    split at hrest
    · rename_i hnil
      rw [hnil, List.append_nil]
      rw [hnil] at hrest
      exact (Option.some.inj hrest).symm
    · rw [connAppendTx_some hrest, List.append_assoc]

/-- The client's end. -/
def client : Receiver (Nat × Bytes) Bytes where
  bytes := id
  append := dcGwRead
  pull gwRx := dcExtractFrame gwRx dcRxMax

/-- The head of a sent text, octet by octet. -/
theorem textFrameHead_cases (n : Nat) :
    (n < 126 ∧ textFrameHead n = [0x81, UInt8.ofNat n]) ∨
      (126 ≤ n ∧ textFrameHead n = 0x81 :: 126 :: beOctets 2 n) := by
  unfold textFrameHead
  by_cases hs : n < 126
  · exact .inl ⟨hs, if_pos hs⟩
  · refine .inr ⟨Nat.le_of_not_lt hs, ?_⟩
    rw [if_neg hs, ← length_octets]
    have hlow : UInt8.ofNat n = UInt8.ofNat (n &&& 0xff) := by
      apply UInt8.toNat_inj.mp
      have hmod : n &&& 0xff = n % 256 := Nat.and_two_pow_sub_one_eq_mod n 8
      simp [hmod]
    have hhigh : UInt8.ofNat (n >>> 8) = UInt8.ofNat ((n >>> 8) &&& 0xff) := by
      apply UInt8.toNat_inj.mp
      have hmod : (n >>> 8) &&& 0xff = (n >>> 8) % 256 := Nat.and_two_pow_sub_one_eq_mod _ 8
      simp [hmod]
    rw [hlow, hhigh]

/-- What the client reads off a head, as far as it has arrived: `wire` is the head and what follows it. -/
theorem dcExtractFrame_head {n : Nat} (hn : n ≤ 65535) (tail : Bytes) :
    dcExtractFrame (textFrameHead n ++ tail) dcRxMax =
      if tail.length < n then .more else .item (1, tail.take n) (tail.drop n) := by
  have hcap : ¬ (dcRxMax = 0 ∨ n > dcRxMax - 1) := by
    have hmax : dcRxMax = 65536 := rfl
    omega
  rcases textFrameHead_cases n with ⟨hs, hhead⟩ | ⟨hs, hhead⟩
  · obtain ⟨-, hlow, hclear⟩ := short_octet hs
    have hlength : dcFrameLength (textFrameHead n ++ tail) = some (n, 2) := by
      rw [hhead, dcFrameLength]
      simp only [List.cons_append, List.nil_append, List.getD_cons_succ, List.getD_cons_zero, hlow]
      rw [if_neg (by omega), if_neg (by omega)]
    have hsecond : (textFrameHead n ++ tail).getD 1 0 = UInt8.ofNat n := by rw [hhead]; rfl
    have hlen : (textFrameHead n ++ tail).length = 2 + tail.length := by rw [hhead, List.length_append]; rfl
    have hfirst : (textFrameHead n ++ tail).getD 0 0 = 0x81 := by rw [hhead]; rfl
    have hdrop : (textFrameHead n ++ tail).drop 2 = tail := by rw [hhead]; rfl
    rw [dcExtractFrame, if_neg (by omega), hlength]
    dsimp only
    rw [hsecond, if_neg (not_not.mpr hclear), dcFramePayload, if_neg hcap, hlen, hfirst, ← List.drop_drop, hdrop, Nat.add_sub_cancel_left]
    rfl
  · have hlength : dcFrameLength (textFrameHead n ++ tail) = some (n, 4) := by
      have htwo := beOctets_length 2 n
      have htake : ((textFrameHead n ++ tail).drop 2).take 2 = beOctets 2 n := by
        rw [hhead]
        exact List.take_left' htwo
      have hread : readBE (beOctets 2 n) = n := readBE_beOctets (by omega)
      have hsecond : (textFrameHead n ++ tail).getD 1 0 = 126 := by rw [hhead]; rfl
      have hmark : ((126 : Byte) &&& 0x7f).toNat = 126 := by decide
      simp only [dcFrameLength, hsecond, hmark, htake, hread]
      rw [if_pos trivial, if_neg]
      rw [hhead]
      simp only [List.cons_append, List.length_cons, List.length_append, htwo]
      omega
    have hfour : (textFrameHead n).length = 4 := by
      rw [hhead, List.length_cons, List.length_cons, beOctets_length]
    have hsecond : (textFrameHead n ++ tail).getD 1 0 = 126 := by rw [hhead]; rfl
    have hfirst : (textFrameHead n ++ tail).getD 0 0 = 0x81 := by rw [hhead]; rfl
    have hlen : (textFrameHead n ++ tail).length = 4 + tail.length := by rw [List.length_append, hfour]
    have hdrop : (textFrameHead n ++ tail).drop 4 = tail := by rw [← hfour]; exact List.drop_left
    rw [dcExtractFrame, if_neg (by omega), hlength]
    dsimp only
    rw [hsecond, if_neg (by decide), dcFramePayload, if_neg hcap, hlen, hfirst, ← List.drop_drop, hdrop, Nat.add_sub_cancel_left]
    rfl

/-- The head itself is waited for. -/
theorem dcExtractFrame_part {n : Nat} {front more : Bytes} (h : front ++ more = textFrameHead n) (hne : more ≠ []) (cap : Nat) :
    dcExtractFrame front cap = .more := by
  have hpos := List.length_pos_iff.mpr hne
  by_cases htiny : front.length < 2
  · rw [dcExtractFrame, if_pos htiny]
  rcases textFrameHead_cases n with ⟨hs, hhead⟩ | ⟨hs, hhead⟩
  · have hlen := congrArg List.length h
    rw [hhead, List.length_append] at hlen
    exact absurd hlen (by simp only [List.length_cons, List.length_nil]; omega)
  · have hlen := congrArg List.length h
    rw [hhead, List.length_append, List.length_cons, List.length_cons, beOctets_length] at hlen
    have hmark : (front.getD 1 0 &&& 0x7f).toNat = 126 := by
      obtain ⟨a, b, u, rfl⟩ : ∃ a b u, front = a :: b :: u := by
        rcases front with _ | ⟨a, _ | ⟨b, u⟩⟩
        · exact absurd Nat.zero_lt_two htiny
        · exact absurd Nat.one_lt_two htiny
        · exact ⟨a, b, u, rfl⟩
      rw [hhead, List.cons_append, List.cons_append, List.cons.injEq, List.cons.injEq] at h
      rw [h.2.1]
      exact (by decide : ((126 : Byte) &&& 0x7f).toNat = 126)
    have hlength : dcFrameLength front = none := by
      simp only [dcFrameLength, hmark]
      rw [if_pos trivial, if_pos (by omega)]
    rw [dcExtractFrame, if_neg htiny, hlength]

theorem client_decodes : client.Decodes ServerText.encode (fun t => (1, t.text)) fun _ => True where
  appends c chunk c' h := by
    change dcGwRead c chunk = some c' at h
    unfold dcGwRead at h
    split at h
    · exact (Option.some.inj h).symm
    · cases h
  idle c h := by
    obtain rfl : c = [] := h
    rfl
  whole c t rest _ h := by
    refine ⟨rest, ?_, rfl⟩
    change dcExtractFrame c dcRxMax = _
    rw [show c = textFrameHead t.text.length ++ (t.text ++ rest) from (h : c = t.encode ++ rest).trans (List.append_assoc _ _ _),
      dcExtractFrame_head t.text_le, if_neg (by rw [List.length_append]; omega), List.take_left, List.drop_left]
  front c t more _ h hne := by
    change dcExtractFrame c dcRxMax = .more
    change c ++ more = textFrameHead t.text.length ++ t.text at h
    by_cases hlen : (textFrameHead t.text.length).length ≤ c.length
    · obtain ⟨u, rfl⟩ : ∃ u, c = textFrameHead t.text.length ++ u := by
        refine ⟨c.drop (textFrameHead t.text.length).length, ?_⟩
        have htake := congrArg (List.take (textFrameHead t.text.length).length) h
        rw [List.take_append_of_le_length hlen, List.take_left] at htake
        conv => rhs; lhs; rw [← htake]
        exact (List.take_append_drop _ _).symm
      rw [List.append_assoc] at h
      have hrest := congrArg List.length (List.append_cancel_left h)
      have hpos := List.length_pos_iff.mpr hne
      rw [List.length_append] at hrest
      rw [dcExtractFrame_head t.text_le, if_pos (by omega)]
    · have htake := congrArg (List.take c.length) h
      rw [List.take_left, List.take_append_of_le_length (Nat.le_of_not_le hlen)] at htake
      refine dcExtractFrame_part (n := t.text.length) ?_ (fun hnil => hlen (List.drop_eq_nil_iff.mp hnil)) _
      conv => lhs; lhs; rw [htake]
      exact List.take_append_drop _ _
  some_octet t := by
    rw [ServerText.encode, textFrameHead]
    split <;> exact List.cons_ne_nil _ _

/-! ## Streams -/

/-- However a sender's run is cut, after every arrival the receiver has handed out the messages whose frames are complete and
waits for more, nothing being left behind the last one; and no read that fits behind any frame is refused. -/
def Understood {ι κ β : Type} (r : Receiver ι β) (fresh : β) (cap : Nat) (queue : Bytes → κ → Option Bytes) (enc : κ → Bytes) (view : κ → ι)
    (Fits : κ → Prop) : Prop :=
  ∀ (ops : List (SendOp κ)) (out : Sender), sends queue ops = some out → (∀ x ∈ queuedOf ops, Fits x) →
    ∀ (chunks : List Bytes) (left : Bytes), chunks.flatten ++ left = out.wire ++ out.tx →
      r.Follows enc view (queuedOf ops) left (chunks.foldl r.receive (.ok [] fresh)) ∧
        ((∀ x ∈ queuedOf ops, ∀ chunk ∈ chunks, (enc x).length + chunk.length ≤ cap) →
          chunks.foldl r.receive (.ok [] fresh) ≠ .overflow)

theorem understood_of_decodes {ι κ β : Type} {r : Receiver ι β} {fresh : β} {cap : Nat} {queue : Bytes → κ → Option Bytes}
    {enc : κ → Bytes} {view : κ → ι} {Fits : κ → Prop} (h : r.Decodes enc view Fits) (hfresh : r.bytes fresh = []) (hcap : 0 < cap)
    (happ : ∀ c chunk, (r.bytes c).length + chunk.length < cap → (r.append c chunk).isSome)
    (hqueue : ∀ tx x tx', queue tx x = some tx' → tx' = tx ++ enc x) : Understood r fresh cap queue enc view Fits := by
  intro ops out hsent hfits chunks left hcut
  have hstream : chunks.flatten ++ left = (queuedOf ops).flatMap enc := hcut.trans (sends_frames hqueue hsent)
  exact ⟨h.follows hfits hfresh chunks hstream,
    fun hsize => h.roomy_run hfits hcap happ hsize nofun (h.follows_init hfresh hstream)⟩

def greeting : ClientMessage := ⟨1, lit "hi", [1, 2, 3, 4], by decide, by decide, rfl⟩

end Floofclaw.Guarantees.FramePairs
