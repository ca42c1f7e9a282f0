import Floofclaw.Source.WebSocketFrames

/-!
# WebSocket frame decoder

Every receive buffer is waited on, refused or taken apart exactly, except one
whose frame declares the largest length there is: its terminator's place and its
end are computed past the 64-bit range, and the unmasking leaves both arrays.
-/

set_option autoImplicit false

namespace Floofclaw.Guarantees.FrameDecoder

open Floofclaw.Lib Floofclaw.Source

/-! ## The head of a buffer -/

theorem octetAt_of_bytes {c : WsRx} (pre : Bytes) {post : Bytes} {b : Byte} (h : c.bytes = pre ++ b :: post) : octetAt c.rx pre.length = .ok b := by
  have hget : c.bytes[pre.length]? = some b := by
    rw [h, List.getElem?_append_right (Nat.le_refl _), Nat.sub_self]
    rfl
  rw [WsRx.bytes, List.getElem?_take] at hget
  split at hget
  · rw [octetAt, hget]
  · cases hget

@[simp] theorem bytes_length (c : WsRx) : c.bytes.length = c.rxLen := by
  have hsize := c.size
  have hroom := c.room
  rw [WsRx.bytes, List.length_take]
  omega

/-- The form a second octet announces. -/
def formOf (b1 : Byte) : LengthForm :=
  if (b1 &&& 0x7f).toNat = 126 then .medium else if (b1 &&& 0x7f).toNat = 127 then .long else .short

/-- The length a head declares. -/
def declared (b1 : Byte) (field : Bytes) : Nat := if formOf b1 = .short then (b1 &&& 0x7f).toNat else readBE field

theorem shiftIn_readBE {c : WsRx} (pre done : Bytes) {field post : Bytes} (h : c.bytes = pre ++ (field ++ post)) (hsize : done.length + field.length ≤ 8) :
    shiftIn c pre.length field.length (readBE done) = .ok (readBE (done ++ field)) := by
  induction field generalizing pre done with
  | nil => rw [List.append_nil, List.length_nil, shiftIn]
  | cons b field ih =>
    have hoctet : octetAt c.rx pre.length = .ok b := octetAt_of_bytes pre h
    have hlt := readBE_lt (done ++ [b])
    have hbound : 256 ^ (done ++ [b]).length ≤ 256 ^ 8 := by
      apply Nat.pow_le_pow_right (by decide)
      simp only [List.length_append, List.length_cons, List.length_nil] at hsize ⊢
      omega
    rw [readBE_snoc] at hlt
    have hmod : (readBE done * 256 + b.toNat) % 2 ^ 64 = readBE (done ++ [b]) := by
      rw [readBE_snoc]
      exact Nat.mod_eq_of_lt (Nat.lt_of_lt_of_le hlt hbound)
    have hpre : c.bytes = (pre ++ [b]) ++ (field ++ post) := by simpa using h
    have hrest := ih (pre ++ [b]) (done ++ [b]) hpre (by simp only [List.length_append, List.length_cons, List.length_nil] at hsize ⊢; omega)
    rw [List.length_append, List.length_singleton] at hrest
    rw [List.length_cons, shiftIn, hoctet]
    show shiftIn c (pre.length + 1) field.length ((readBE done * 256 + b.toNat) % 2 ^ 64) = _
    rw [hmod, hrest, List.append_assoc, List.singleton_append]

variable {c : WsRx} {b0 b1 : Byte} {tail : Bytes}

theorem rxLen_of (h : c.bytes = b0 :: b1 :: tail) : c.rxLen = tail.length + 2 := by
  rw [← bytes_length, h]
  rfl

theorem payloadLength_more (h : c.bytes = b0 :: b1 :: tail) (hshort : tail.length < (formOf b1).width) :
    payloadLength c b1 = .error .more := by
  have hlen := rxLen_of h
  rw [payloadLength]
  unfold formOf at hshort
  split at hshort
  · rw [if_pos ‹_›, if_pos (by simp only [LengthForm.width] at hshort; omega)]
  · split at hshort
    · rw [if_neg ‹_›, if_pos ‹_›, if_pos (by simp only [LengthForm.width] at hshort; omega)]
    · cases hshort

theorem payloadLength_declared {field post : Bytes} (h : c.bytes = b0 :: b1 :: (field ++ post)) (hfield : field.length = (formOf b1).width) :
    payloadLength c b1 = .ok (declared b1 field, 2 + (formOf b1).width) := by
  have hlen := rxLen_of h
  have hread : field.length ≤ 8 → shiftIn c 2 field.length 0 = .ok (readBE field) := fun hle =>
    shiftIn_readBE [b0, b1] [] h (by simpa using hle)
  rw [List.length_append] at hlen
  rw [payloadLength, declared]
  by_cases hmedium : (b1 &&& 0x7f).toNat = 126
  · have hform : formOf b1 = .medium := if_pos hmedium
    rw [hform] at hfield ⊢
    have htwo : field.length = 2 := hfield
    rw [htwo] at hread
    rw [if_pos hmedium, if_neg (by omega), hread (by decide)]
    rfl
  by_cases hlong : (b1 &&& 0x7f).toNat = 127
  · have hform : formOf b1 = .long := (if_neg hmedium).trans (if_pos hlong)
    rw [hform] at hfield ⊢
    have height : field.length = 8 := hfield
    rw [height] at hread
    rw [if_neg hmedium, if_pos hlong, if_neg (by omega), hread (by decide)]
    rfl
  · have hform : formOf b1 = .short := (if_neg hmedium).trans (if_neg hlong)
    rw [hform, if_neg hmedium, if_neg hlong]
    rfl

/-- Bits of the first octet a decoder refuses. -/
def BadHead (b0 : Byte) : Prop := b0 &&& 0x70 ≠ 0 ∨ b0 &&& 0x80 = 0

instance (b0 : Byte) : Decidable (BadHead b0) := inferInstanceAs (Decidable (_ ∨ _))

/-- What the decoder does with two octets and what stands behind them. -/
theorem extractFrame_eq (textOutMax : Nat) (h : c.bytes = b0 :: b1 :: tail) :
    extractFrame c textOutMax =
      if BadHead b0 then .error .refused
      else if tail.length < (formOf b1).width then .error .more
      else if b1 &&& 0x80 = 0 then .error .refused
      else if tail.length < (formOf b1).width + 4 then .error .more
      else extractPayload c textOutMax (b0 &&& 0x0f).toNat (declared b1 (tail.take (formOf b1).width)) (2 + (formOf b1).width) := by
  have hlen := rxLen_of h
  have h0 : octetAt c.rx 0 = .ok b0 := octetAt_of_bytes [] h
  have h1 : octetAt c.rx 1 = .ok b1 := octetAt_of_bytes [b0] h
  rw [extractFrame, if_neg (by omega), h0, h1]
  show (if BadHead b0 then _ else _) = _
  by_cases hbad : BadHead b0
  · rw [if_pos hbad, if_pos hbad]
  rw [if_neg hbad, if_neg hbad]
  by_cases hwidth : tail.length < (formOf b1).width
  · rw [payloadLength_more h hwidth, if_pos hwidth]
    rfl
  have htail : c.bytes = b0 :: b1 :: (tail.take (formOf b1).width ++ tail.drop (formOf b1).width) := by
    rw [List.take_append_drop]
    exact h
  have hfield : (tail.take (formOf b1).width).length = (formOf b1).width := List.length_take_of_le (Nat.le_of_not_lt hwidth)
  rw [payloadLength_declared htail hfield, if_neg hwidth]
  show (if b1 &&& 0x80 = 0 then _ else if c.rxLen < 2 + (formOf b1).width + 4 then _ else _) = _
  have hmask : c.rxLen < 2 + (formOf b1).width + 4 ↔ tail.length < (formOf b1).width + 4 := by omega
  simp only [hmask]

theorem extractFrame_tiny (textOutMax : Nat) (h : c.bytes.length < 2) : extractFrame c textOutMax = .error .more := by
  rw [bytes_length] at h
  rw [extractFrame, if_pos h]

/-! ## Unmasking -/

theorem unmaskLoop_text {mask pre body rest : Bytes} (done : Bytes) {textOutMax : Nat} (h : c.bytes = pre ++ (body ++ rest)) (hmask : mask.length = 4)
    {header : Nat} (hpre : pre.length = header + done.length) (hfits : done.length + body.length ≤ textOutMax) :
    unmaskLoop c mask header textOutMax body.length (done) = .ok (done ++ (body.mapIdx fun i b => b ^^^ mask.getD ((done.length + i) % 4) 0)) := by
  induction body generalizing pre done with
  | nil => rw [List.mapIdx_nil, List.append_nil, List.length_nil, unmaskLoop]
  | cons b body ih =>
    have hoctet : octetAt c.rx pre.length = .ok b := octetAt_of_bytes pre h
    have hlt : done.length % 4 < mask.length := by
      rw [hmask]
      exact Nat.mod_lt _ (by decide)
    have hm : octetAt mask (done.length % 4) = .ok (mask.getD (done.length % 4) 0) := by
      rw [octetAt, List.getElem?_eq_getElem hlt, List.getD_eq_getElem?_getD, List.getElem?_eq_getElem hlt]
      rfl
    rw [List.length_cons] at hfits
    have hnext : c.bytes = (pre ++ [b]) ++ (body ++ rest) := by simpa using h
    have hrest := ih (done ++ [b ^^^ mask.getD (done.length % 4) 0]) hnext
      (by simp only [List.length_append, List.length_singleton]; omega) (by simp only [List.length_append, List.length_singleton]; omega)
    rw [List.length_cons, unmaskLoop, ← hpre, hoctet, hm]
    show (if done.length < textOutMax then _ else _) = _
    rw [if_pos (by omega), hrest, List.mapIdx_cons, List.append_assoc, List.singleton_append, List.length_append, List.length_singleton]
    simp only [Nat.add_zero, Nat.add_assoc, Nat.add_comm 1]

/-- A loop that is to write more than the array holds leaves it. -/
theorem unmaskLoop_fault {mask : Bytes} {header textOutMax n : Nat} {done : Bytes} (h : textOutMax < done.length + n) (hdone : done.length ≤ textOutMax) :
    unmaskLoop c mask header textOutMax n done = .error .fault := by
  induction n generalizing done with
  | zero => omega
  | succ n ih =>
    rw [unmaskLoop]
    have hread : ∀ (s : Bytes) (i : Nat), (∃ b, octetAt s i = .ok b) ∨ octetAt s i = .error .fault := by
      intro s i
      rw [octetAt]
      cases s[i]? with
      | none => exact .inr rfl
      | some b => exact .inl ⟨b, rfl⟩
    rcases hread c.rx (header + done.length) with ⟨b, hb⟩ | hb
    · rcases hread mask (done.length % 4) with ⟨m, hm⟩ | hm
      · rw [hb, hm]
        show (if done.length < textOutMax then _ else _) = _
        by_cases hroom : done.length < textOutMax
        · rw [if_pos hroom]
          exact ih (by rw [List.length_append, List.length_singleton]; omega) (by rw [List.length_append, List.length_singleton]; omega)
        · rw [if_neg hroom]
      · rw [hb, hm]
        rfl
    · rw [hb]
      rfl

theorem consume_bytes {head rest : Bytes} (h : c.bytes = head ++ rest) : (c.consume head.length).bytes = rest := by
  have hlen := congrArg List.length h
  rw [bytes_length, List.length_append] at hlen
  have hsize := c.size
  have hroom := c.room
  have hfront : ((c.rx.drop head.length).take (c.rxLen - head.length)) = rest := by
    rw [← List.drop_take]
    show c.bytes.drop head.length = rest
    rw [h, List.drop_left]
  show List.take (c.rxLen - head.length) (((c.rx.drop head.length).take (c.rxLen - head.length)) ++ c.rx.drop (c.rxLen - head.length)) = rest
  rw [hfront, List.take_append_of_le_length (by omega), List.take_of_length_le (by omega)]

/-- A payload that fits comes out unmasked, and what stood behind it is left. -/
theorem extractPayload_text {head mask body rest : Bytes} {textOutMax : Nat} (opcode : Nat) (h : c.bytes = head ++ (mask ++ (body ++ rest)))
    (hmask : mask.length = 4) (hfits : body.length < textOutMax) (hmax : textOutMax < 2 ^ 64) :
    ∃ c', extractPayload c textOutMax opcode body.length head.length = .ok ⟨xorMask mask body, opcode, c'⟩ ∧ c'.bytes = rest := by
  have hlen := congrArg List.length h
  rw [bytes_length] at hlen
  simp only [List.length_append] at hlen
  have hroom := c.room
  have hsmall : wsRxBuf < 2 ^ 64 := by decide
  have hplace : (body.length + 1) % 2 ^ 64 = body.length + 1 := Nat.mod_eq_of_lt (by omega)
  have hend : (head.length + 4 + body.length) % 2 ^ 64 = head.length + 4 + body.length := Nat.mod_eq_of_lt (by omega)
  have hread : (c.rx.drop head.length).take 4 = mask := by
    have hwhole : (c.bytes.drop head.length).take 4 = mask := by
      rw [h, List.drop_left, ← hmask, List.take_left]
    rw [WsRx.bytes, List.drop_take, List.take_take, Nat.min_eq_left (by omega)] at hwhole
    exact hwhole
  have hbody : c.bytes = (head ++ mask) ++ (body ++ rest) := by simpa using h
  have hpre : (head ++ mask).length = head.length + 4 + ([] : Bytes).length := by rw [List.length_append, hmask]; rfl
  have hloop := unmaskLoop_text [] hbody hmask hpre (by simpa using Nat.le_of_lt hfits)
  have htext : (body.mapIdx fun i b => b ^^^ mask.getD ((([] : Bytes).length + i) % 4) 0) = xorMask mask body := by
    simp only [List.length_nil, Nat.zero_add, xorMask]
  rw [List.nil_append, htext] at hloop
  refine ⟨c.consume (head.length + 4 + body.length), ?_, ?_⟩
  · rw [extractPayload, hplace, hend, if_neg (by omega), if_neg (by omega), hread, hloop]
    show (if (xorMask mask body).length < textOutMax then _ else _) = _
    rw [xorMask_length, if_pos hfits]
  · have hused : (head ++ mask ++ body).length = head.length + 4 + body.length := by
      simp only [List.length_append, hmask]
    rw [← hused]
    exact consume_bytes (by simpa using h)

/-! ## Frames -/

theorem forall_byte {p : Byte → Prop} [DecidablePred p] (h : ∀ n : Fin 256, p (UInt8.ofNat n)) (b : Byte) : p b := by
  have hb := h ⟨b.toNat, b.toNat_lt⟩
  rwa [UInt8.ofNat_toNat] at hb

theorem head_fine (b0 : Byte) : BadHead b0 ∨ UInt8.ofNat (128 + (b0 &&& 0x0f).toNat) = b0 ∧ (b0 &&& 0x0f).toNat < 16 := by
  revert b0
  exact forall_byte (by decide +kernel)

theorem opcode_fine {n : Nat} (h : n < 16) : ¬ BadHead (UInt8.ofNat (128 + n)) ∧ (UInt8.ofNat (128 + n) &&& 0x0f).toNat = n := by
  have htable : ∀ k : Fin 16, ¬ BadHead (UInt8.ofNat (128 + k)) ∧ (UInt8.ofNat (128 + k) &&& 0x0f).toNat = k := by decide
  exact htable ⟨n, h⟩

theorem mark_fine {n : Nat} (h : n < 128) : UInt8.ofNat (128 + n) &&& 0x80 ≠ 0 ∧ (UInt8.ofNat (128 + n) &&& 0x7f).toNat = n := by
  have htable : ∀ k : Fin 128, UInt8.ofNat (128 + k) &&& 0x80 ≠ 0 ∧ (UInt8.ofNat (128 + k) &&& 0x7f).toNat = k := by decide
  exact htable ⟨n, h⟩

theorem second_fine (b1 : Byte) : b1 &&& 0x80 = 0 ∨ UInt8.ofNat (128 + (b1 &&& 0x7f).toNat) = b1 ∧ (b1 &&& 0x7f).toNat < 128 := by
  revert b1
  exact forall_byte (by decide +kernel)

example : declared 0x85 [] = 5 := by decide +kernel

theorem formOf_mark {n : Nat} {form : LengthForm} (h : form.Holds n) : formOf (UInt8.ofNat (128 + form.mark n)) = form := by
  have hmark := (mark_fine h.mark_lt).2
  rw [formOf, hmark]
  cases form with
  | short =>
    have hn : n < 126 := h
    rw [if_neg (by simp only [LengthForm.mark]; omega), if_neg (by simp only [LengthForm.mark]; omega)]
  | medium => rfl
  | long => rfl

/-- What the front of a frame says, as far as it was received. -/
theorem head_of_frame {f : MaskedFrame} {more : Bytes} (h : f.encode <+: b0 :: b1 :: (tail ++ more)) :
    ¬ BadHead b0 ∧ (b0 &&& 0x0f).toNat = f.opcode ∧ b1 &&& 0x80 ≠ 0 ∧ formOf b1 = f.form ∧
      (f.form.width ≤ tail.length → declared b1 (tail.take f.form.width) = f.payload.length) := by
  obtain ⟨rest, hrest⟩ := h
  obtain ⟨hb0, hb1, htail⟩ : UInt8.ofNat (128 + f.opcode) = b0 ∧ UInt8.ofNat (128 + f.form.mark f.payload.length) = b1 ∧
      beOctets f.form.width f.payload.length ++ (f.mask ++ xorMask f.mask f.payload) ++ rest = tail ++ more := by
    rw [MaskedFrame.encode, List.cons_append, List.cons_append, List.cons.injEq, List.cons.injEq] at hrest
    exact hrest
  have hform := formOf_mark f.holds
  have hmark := mark_fine f.holds.mark_lt
  subst hb0 hb1
  refine ⟨(opcode_fine f.opcode_lt).1, (opcode_fine f.opcode_lt).2, hmark.1, hform, fun hwidth => ?_⟩
  have htake : tail.take f.form.width = beOctets f.form.width f.payload.length := by
    have hfront := congrArg (List.take f.form.width) htail
    rw [List.take_append_of_le_length hwidth, List.append_assoc] at hfront
    rw [← hfront]
    have hlen := beOctets_length f.form.width f.payload.length
    rw [List.take_append_of_le_length (Nat.le_of_eq hlen.symm), List.take_of_length_le (Nat.le_of_eq hlen)]
  rw [declared, hform, htake, hmark.2]
  by_cases hshort : f.form = .short
  · rw [if_pos hshort, hshort]
    rfl
  · rw [if_neg hshort]
    exact f.holds.readBE hshort

/-- A payload's length that needs all its 64 bits. -/
def maxPayload : Nat := 2 ^ 64 - 1

/-- The buffer begins with a whole head that declares the largest length there is. -/
def Endless (c : WsRx) : Prop :=
  ∃ (b0 : Byte) (mask rest : Bytes), c.bytes = b0 :: 0xff :: (List.replicate 8 0xff ++ (mask ++ rest)) ∧ mask.length = 4 ∧ ¬ BadHead b0

theorem declared_max {b1 : Byte} {field : Bytes} (hmask : b1 &&& 0x80 ≠ 0) (hfield : field.length = (formOf b1).width)
    (hmax : maxPayload ≤ declared b1 field) : b1 = 0xff ∧ field = List.replicate 8 0xff := by
  rcases second_fine b1 with hclear | ⟨hb1, hlow⟩
  · exact absurd hclear hmask
  have hlt := readBE_lt field
  rw [declared] at hmax
  unfold formOf at hfield hmax
  by_cases hmedium : (b1 &&& 0x7f).toNat = 126
  · rw [if_pos hmedium, if_neg nofun] at hmax
    rw [if_pos hmedium] at hfield
    rw [hfield] at hlt
    exact absurd (Nat.lt_of_le_of_lt hmax hlt) (by decide)
  by_cases hlong : (b1 &&& 0x7f).toNat = 127
  · rw [if_neg hmedium, if_pos hlong, if_neg nofun] at hmax
    rw [if_neg hmedium, if_pos hlong] at hfield
    have height : field.length = 8 := hfield
    refine ⟨by rw [← hb1, hlong]; rfl, ?_⟩
    have hvalue : readBE field = 2 ^ 64 - 1 := by
      rw [height] at hlt
      have hmax' : 2 ^ 64 - 1 ≤ readBE field := hmax
      omega
    rw [← beOctets_readBE field, hvalue, height]
    decide
  · rw [if_neg hmedium, if_neg hlong, if_pos rfl] at hmax
    exact absurd (Nat.lt_of_le_of_lt hmax hlow) (by decide)

/-- A frame that declares less than the largest length: what the payload's branch does. -/
theorem extractPayload_cases {head tail : Bytes} {textOutMax opcode n : Nat} (h : c.bytes = head ++ tail) (htail : 4 ≤ tail.length)
    (hmax : textOutMax < 2 ^ 63) (hn : n < maxPayload) :
    extractPayload c textOutMax opcode n head.length =
      if textOutMax ≤ n then .error .refused
      else if tail.length < 4 + n then .error .more
      else extractPayload c textOutMax opcode ((tail.drop 4).take n).length head.length := by
  have hlen := congrArg List.length h
  have hroom := c.room
  have hsmall : wsRxBuf < 2 ^ 63 := by decide
  rw [bytes_length, List.length_append] at hlen
  have hlast : maxPayload + 1 = 2 ^ 64 := by decide
  have hplace : (n + 1) % 2 ^ 64 = n + 1 := Nat.mod_eq_of_lt (by omega)
  by_cases hbig : textOutMax ≤ n
  · rw [extractPayload, hplace, if_pos (by omega), if_pos hbig]
  · have hend : (head.length + 4 + n) % 2 ^ 64 = head.length + 4 + n := Nat.mod_eq_of_lt (by omega)
    rw [if_neg hbig]
    by_cases hshort : tail.length < 4 + n
    · rw [extractPayload, hplace, hend, if_neg (by omega), if_pos (by omega), if_pos hshort]
    · have hbody : ((tail.drop 4).take n).length = n := by
        rw [List.length_take, List.length_drop]
        omega
      rw [if_neg hshort, hbody]

theorem encode_split (f : MaskedFrame) (rest : Bytes) :
    f.encode ++ rest = UInt8.ofNat (128 + f.opcode) :: UInt8.ofNat (128 + f.form.mark f.payload.length) ::
      (beOctets f.form.width f.payload.length ++ (f.mask ++ (xorMask f.mask f.payload ++ rest))) := by
  rw [MaskedFrame.encode, List.cons_append, List.cons_append, List.append_assoc, List.append_assoc]

/-- A whole frame is handed out, and the buffer keeps what follows it. -/
theorem extract_whole {f : MaskedFrame} {rest : Bytes} (h : c.bytes = f.encode ++ rest) (hfits : f.payload.length < wsRxBuf) :
    ∃ c', extractFrame c wsRxBuf = .ok ⟨f.payload, f.opcode, c'⟩ ∧ c'.bytes = rest := by
  rw [encode_split] at h
  have hfront : f.encode <+: UInt8.ofNat (128 + f.opcode) :: UInt8.ofNat (128 + f.form.mark f.payload.length) ::
      ((beOctets f.form.width f.payload.length ++ (f.mask ++ (xorMask f.mask f.payload ++ rest))) ++ []) := by
    rw [List.append_nil, ← encode_split]
    exact List.prefix_append _ _
  obtain ⟨hgood, hopcode, hmasked, hform, hlength⟩ := head_of_frame hfront
  have hmask := f.mask_length
  have hfield := beOctets_length f.form.width f.payload.length
  rw [extractFrame_eq wsRxBuf h, if_neg hgood, if_neg (by simp only [hform, List.length_append]; omega), if_neg hmasked,
    if_neg (by simp only [hform, List.length_append]; omega), hform, hopcode, hlength (by rw [List.length_append]; omega)]
  have hbody : c.bytes = (UInt8.ofNat (128 + f.opcode) :: UInt8.ofNat (128 + f.form.mark f.payload.length) ::
      beOctets f.form.width f.payload.length) ++ (f.mask ++ (xorMask f.mask f.payload ++ rest)) := h
  have hfits' : (xorMask f.mask f.payload).length < wsRxBuf := by rwa [xorMask_length]
  obtain ⟨c', htext, hrest⟩ := extractPayload_text f.opcode hbody hmask hfits' (by decide)
  rw [xorMask_twice, xorMask_length, List.length_cons, List.length_cons, hfield, Nat.add_assoc, Nat.add_comm f.form.width] at htext
  exact ⟨c', htext, hrest⟩

/-- The front of a frame is waited on. -/
theorem extract_partial {f : MaskedFrame} {more : Bytes} (h : c.bytes ++ more = f.encode) (hmore : more ≠ []) (hfits : f.payload.length < wsRxBuf) :
    extractFrame c wsRxBuf = .error .more := by
  have hlen := congrArg List.length h
  have hpos := List.length_pos_iff.mpr hmore
  rw [List.length_append, f.encode_length] at hlen
  rcases hbytes : c.bytes with _ | ⟨b0, _ | ⟨b1, tail⟩⟩
  · exact extractFrame_tiny _ (by rw [hbytes]; exact Nat.zero_lt_two)
  · exact extractFrame_tiny _ (by rw [hbytes]; exact Nat.one_lt_two)
  rw [hbytes] at h hlen
  have hfront : f.encode <+: b0 :: b1 :: (tail ++ more) := by
    rw [← h]
    exact List.prefix_rfl
  obtain ⟨hgood, hopcode, hmasked, hform, hlength⟩ := head_of_frame hfront
  rw [extractFrame_eq wsRxBuf hbytes, if_neg hgood, hform]
  by_cases hwidth : tail.length < f.form.width
  · rw [if_pos hwidth]
  rw [if_neg hwidth, if_neg hmasked]
  by_cases hroom : tail.length < f.form.width + 4
  · rw [if_pos hroom]
  rw [if_neg hroom, hlength (Nat.le_of_not_lt hwidth)]
  have hsplit : c.bytes = (b0 :: b1 :: tail.take f.form.width) ++ tail.drop f.form.width := by
    rw [List.cons_append, List.cons_append, List.take_append_drop]
    exact hbytes
  have hhead : (b0 :: b1 :: tail.take f.form.width).length = 2 + f.form.width := by
    rw [List.length_cons, List.length_cons, List.length_take]
    omega
  have hlast : wsRxBuf < maxPayload := by decide
  rw [← hhead, extractPayload_cases hsplit (by rw [List.length_drop]; omega) (by decide) (by omega), if_neg (by omega), if_pos]
  simp only [List.length_cons] at hlen
  rw [List.length_drop]
  omega

/-! ## Every buffer -/

/-- What a decoder's answer has to be for a buffer: no frame is there, none can come, or the first one is handed out exactly. -/
def Owed (c : WsRx) : Except WsStop WsFrame → Prop
  | .error .more => ∀ f : MaskedFrame, ¬ f.encode <+: c.bytes
  | .error .refused => ∀ f : MaskedFrame, f.payload.length < wsRxBuf → ∀ more, ¬ f.encode <+: c.bytes ++ more
  | .error .fault => False
  | .ok fr => ∃ f : MaskedFrame, f.payload = fr.text ∧ f.opcode = fr.opcode ∧ c.bytes = f.encode ++ fr.rest.bytes

/-- The decoder answers as owed. -/
def Exact (c : WsRx) : Prop := ∃ answer, extractFrame c wsRxBuf = answer ∧ Owed c answer

theorem exact_more (h : extractFrame c wsRxBuf = .error .more) (hnone : ∀ f : MaskedFrame, ¬ f.encode <+: c.bytes) : Exact c :=
  ⟨_, h, hnone⟩

theorem exact_refused (h : extractFrame c wsRxBuf = .error .refused)
    (hnone : ∀ f : MaskedFrame, f.payload.length < wsRxBuf → ∀ more, ¬ f.encode <+: c.bytes ++ more) : Exact c :=
  ⟨_, h, hnone⟩

/-- Too few octets for a frame that starts like this. -/
theorem no_frame {n : Nat} (h : c.bytes = b0 :: b1 :: tail) (hform : ∀ f : MaskedFrame, formOf b1 = f.form → f.form.width ≤ tail.length →
    declared b1 (tail.take f.form.width) = f.payload.length → n ≤ f.payload.length) (hshort : tail.length < (formOf b1).width + 4 + n)
    (f : MaskedFrame) : ¬ f.encode <+: c.bytes := by
  intro hfront
  have hle := hfront.length_le
  rw [h] at hfront hle
  rw [f.encode_length, List.length_cons, List.length_cons] at hle
  rw [← List.append_nil tail] at hfront
  obtain ⟨-, -, -, hf, hlength⟩ := head_of_frame hfront
  rw [hf] at hshort
  by_cases hwidth : tail.length < f.form.width
  · omega
  · have hn := hform f hf (Nat.le_of_not_lt hwidth) (hlength (Nat.le_of_not_lt hwidth))
    omega

/-- The frame a whole buffer starts with. -/
theorem frame_of_head {field mask body rest : Bytes} (h : c.bytes = b0 :: b1 :: (field ++ (mask ++ (body ++ rest)))) (hgood : ¬ BadHead b0)
    (hmasked : b1 &&& 0x80 ≠ 0) (hfield : field.length = (formOf b1).width) (hmask : mask.length = 4) (hbody : declared b1 field = body.length) :
    ∃ f : MaskedFrame, f.payload = xorMask mask body ∧ f.opcode = (b0 &&& 0x0f).toNat ∧ c.bytes = f.encode ++ rest := by
  obtain ⟨hb0, hopcode⟩ := (head_fine b0).resolve_left hgood
  obtain ⟨hb1, hlow⟩ := (second_fine b1).resolve_left hmasked
  have hlt := readBE_lt field
  have hwritten : (formOf b1).Holds body.length ∧ (formOf b1).mark body.length = (b1 &&& 0x7f).toNat ∧
      beOctets (formOf b1).width body.length = field := by
    rw [declared] at hbody
    have hback := beOctets_readBE field
    unfold formOf at hfield hbody ⊢
    by_cases hmedium : (b1 &&& 0x7f).toNat = 126
    · rw [if_pos hmedium, if_neg nofun] at hbody
      rw [if_pos hmedium] at hfield
      rw [hfield] at hlt hback
      rw [if_pos hmedium, ← hbody]
      exact ⟨hlt, hmedium.symm, hback⟩
    by_cases hlong : (b1 &&& 0x7f).toNat = 127
    · rw [if_neg hmedium, if_pos hlong, if_neg nofun] at hbody
      rw [if_neg hmedium, if_pos hlong] at hfield
      rw [hfield] at hlt hback
      rw [if_neg hmedium, if_pos hlong, ← hbody]
      exact ⟨hlt, hlong.symm, hback⟩
    · rw [if_neg hmedium, if_neg hlong, if_pos rfl] at hbody
      rw [if_neg hmedium, if_neg hlong] at hfield
      rw [if_neg hmedium, if_neg hlong, ← hbody]
      refine ⟨?_, rfl, (List.length_eq_zero_iff.mp hfield).symm⟩
      show (b1 &&& 0x7f).toNat < 126
      omega
  obtain ⟨hholds, hmark, hoctets⟩ := hwritten
  refine ⟨⟨(b0 &&& 0x0f).toNat, mask, xorMask mask body, formOf b1, hopcode, hmask, by rwa [xorMask_length]⟩, rfl, rfl, ?_⟩
  rw [encode_split]
  simp only [xorMask_length, xorMask_twice]
  rw [hmark, hoctets, hb0, hb1]
  exact h

/-- Every buffer but an endless one is decoded exactly. -/
theorem exact_of_ended (h : ¬ Endless c) : Exact c := by
  rcases hbytes : c.bytes with _ | ⟨b0, _ | ⟨b1, tail⟩⟩
  · exact exact_more (extractFrame_tiny _ (by rw [hbytes]; exact Nat.zero_lt_two)) (by
      intro f hf
      have hle := hf.length_le
      rw [hbytes, f.encode_length, List.length_nil] at hle
      omega)
  · exact exact_more (extractFrame_tiny _ (by rw [hbytes]; exact Nat.one_lt_two)) (by
      intro f hf
      have hle := hf.length_le
      rw [hbytes, f.encode_length, List.length_singleton] at hle
      omega)
  have heq := extractFrame_eq wsRxBuf hbytes
  by_cases hbad : BadHead b0
  · rw [if_pos hbad] at heq
    refine exact_refused heq fun f _ more hf => ?_
    rw [hbytes] at hf
    exact (head_of_frame hf).1 hbad
  rw [if_neg hbad] at heq
  by_cases hwidth : tail.length < (formOf b1).width
  · rw [if_pos hwidth] at heq
    exact exact_more heq (no_frame (n := 0) hbytes (fun _ _ _ _ => Nat.zero_le _) (by omega))
  rw [if_neg hwidth] at heq
  by_cases hclear : b1 &&& 0x80 = 0
  · rw [if_pos hclear] at heq
    refine exact_refused heq fun f _ more hf => ?_
    rw [hbytes] at hf
    exact (head_of_frame hf).2.2.1 hclear
  rw [if_neg hclear] at heq
  by_cases hroom : tail.length < (formOf b1).width + 4
  · rw [if_pos hroom] at heq
    exact exact_more heq (no_frame (n := 0) hbytes (fun _ _ _ _ => Nat.zero_le _) (by omega))
  rw [if_neg hroom] at heq
  obtain ⟨field, rest, hfield, rfl⟩ : ∃ field rest : Bytes, field.length = (formOf b1).width ∧ tail = field ++ rest :=
    ⟨tail.take _, tail.drop _, List.length_take_of_le (Nat.le_of_not_lt hwidth), (List.take_append_drop _ _).symm⟩
  rw [List.length_append] at hroom
  rw [List.take_append_of_le_length (Nat.le_of_eq hfield.symm), List.take_of_length_le (Nat.le_of_eq hfield)] at heq
  have hsplit : c.bytes = (b0 :: b1 :: field) ++ rest := hbytes
  have hhead : (b0 :: b1 :: field).length = 2 + (formOf b1).width := by
    rw [List.length_cons, List.length_cons, hfield]
    omega
  have hdeclared : declared b1 field < maxPayload := by
    by_contra hmax
    obtain ⟨rfl, rfl⟩ := declared_max hclear hfield (Nat.le_of_not_lt hmax)
    refine h ⟨b0, rest.take 4, rest.drop 4, ?_, List.length_take_of_le (by omega), hbad⟩
    rw [List.take_append_drop]
    exact hbytes
  rw [← hhead, extractPayload_cases hsplit (by omega) (by decide) hdeclared] at heq
  by_cases hbig : wsRxBuf ≤ declared b1 field
  · rw [if_pos hbig] at heq
    refine exact_refused heq fun f hfits more hf => ?_
    rw [hbytes] at hf
    obtain ⟨-, -, -, hform, hlength⟩ := head_of_frame hf
    rw [← hform, List.take_append_of_le_length (Nat.le_of_eq hfield.symm), List.take_of_length_le (Nat.le_of_eq hfield)] at hlength
    have hn := hlength (by rw [List.length_append]; omega)
    omega
  rw [if_neg hbig] at heq
  by_cases hshort : rest.length < 4 + declared b1 field
  · rw [if_pos hshort] at heq
    refine exact_more heq (no_frame (n := declared b1 field) hbytes ?_ (by rw [List.length_append]; omega))
    intro f hform _ hn
    rw [← hform, List.take_append_of_le_length (Nat.le_of_eq hfield.symm), List.take_of_length_le (Nat.le_of_eq hfield)] at hn
    omega
  rw [if_neg hshort] at heq
  have hmask : (rest.take 4).length = 4 := List.length_take_of_le (by omega)
  have hbody : ((rest.drop 4).take (declared b1 field)).length = declared b1 field := by
    rw [List.length_take, List.length_drop]
    omega
  have hparts : rest = rest.take 4 ++ ((rest.drop 4).take (declared b1 field) ++ (rest.drop 4).drop (declared b1 field)) := by
    rw [List.take_append_drop, List.take_append_drop]
  rw [hparts] at hsplit hbytes
  obtain ⟨c', htext, hrest⟩ := extractPayload_text (b0 &&& 0x0f).toNat hsplit hmask (by omega : _ < wsRxBuf) (by decide)
  rw [htext] at heq
  obtain ⟨f, hpayload, hopcode, hcode⟩ := frame_of_head hbytes hbad hclear hfield hmask hbody.symm
  exact ⟨_, heq, f, hpayload, hopcode, by rw [hrest]; exact hcode⟩

/-- The largest declared length sends the unmasking over both arrays. -/
theorem endless_fault (h : Endless c) : extractFrame c wsRxBuf = .error .fault := by
  obtain ⟨b0, mask, rest, hbytes, hmask, hgood⟩ := h
  have hlen := rxLen_of hbytes
  have hform : formOf 0xff = .long := rfl
  have hones : (List.replicate 8 (0xff : Byte)).length = 8 := List.length_replicate
  have hnumber : declared 0xff (List.replicate 8 0xff) = maxPayload := by decide
  have hwidth : LengthForm.long.width = 8 := rfl
  simp only [List.length_append, hones, hmask] at hlen
  rw [extractFrame_eq wsRxBuf hbytes, if_neg hgood, hform, hwidth, if_neg (by simp only [List.length_append, hones]; omega), if_neg (by decide),
    if_neg (by simp only [List.length_append, hones, hmask]; omega), List.take_left' hones, hnumber, extractPayload]
  have hplace : (maxPayload + 1) % 2 ^ 64 = 0 := by decide
  have hend : (2 + 8 + 4 + maxPayload) % 2 ^ 64 = 13 := by decide
  have hloop : ∀ m, unmaskLoop c m (2 + 8 + 4) wsRxBuf maxPayload [] = .error .fault := fun m => by
    have hmany : wsRxBuf < ([] : Bytes).length + maxPayload := by decide
    exact unmaskLoop_fault hmany (Nat.zero_le _)
  rw [hplace, hend, if_neg (Nat.not_lt_zero _), if_neg (by omega), hloop]
  rfl

theorem exact_iff (c : WsRx) : Exact c ↔ ¬ Endless c := by
  refine ⟨?_, exact_of_ended⟩
  rintro ⟨answer, hanswer, howed⟩ hendless
  rw [endless_fault hendless] at hanswer
  subst hanswer
  exact howed

/-! ## A client's stream -/

theorem append_some (chunk : Bytes) (h : c.bytes.length + chunk.length < wsRxBuf) : ∃ c', c.append chunk = some c' ∧ c'.bytes = c.bytes ++ chunk := by
  rw [bytes_length] at h
  have hlen := bytes_length c
  refine ⟨_, dif_neg (by omega), ?_⟩
  show List.take (c.rxLen + chunk.length) (c.bytes ++ (chunk ++ c.rx.drop (c.rxLen + chunk.length))) = _
  rw [← List.append_assoc, List.take_left']
  rw [List.length_append, hlen]

theorem reads_some (reads : List Bytes) (h : c.bytes.length + reads.flatten.length < wsRxBuf) :
    ∃ c', reads.foldlM WsRx.append c = some c' ∧ c'.bytes = c.bytes ++ reads.flatten := by
  induction reads generalizing c with
  | nil => exact ⟨c, rfl, (List.append_nil _).symm⟩
  | cons chunk reads ih =>
    rw [List.flatten_cons, List.length_append] at h
    obtain ⟨c₁, hc₁, hbytes₁⟩ := append_some chunk (c := c) (by omega)
    obtain ⟨c₂, hc₂, hbytes₂⟩ := ih (c := c₁) (by rw [hbytes₁, List.length_append]; omega)
    refine ⟨c₂, ?_, by rw [hbytes₂, hbytes₁, List.append_assoc, List.flatten_cons]⟩
    rw [List.foldlM_cons, hc₁]
    exact hc₂

/-- The payloads a stream has completed after some octets, and what it has of the next frame. -/
def arrived : List MaskedFrame → Bytes → List Bytes × Bytes
  | [], wire => ([], wire)
  | f :: fs, wire =>
    if f.encode.length ≤ wire.length then (f.payload :: (arrived fs (wire.drop f.encode.length)).1, (arrived fs (wire.drop f.encode.length)).2)
    else ([], wire)

/-- A frame that a client sends with text, below the limit. -/
def IsText (f : MaskedFrame) : Prop := f.opcode = 1 ∧ f.encode.length < wsRxBuf

theorem IsText.fits {f : MaskedFrame} (h : IsText f) : f.payload.length < wsRxBuf := by
  have hlen := f.encode_length
  have hlt := h.2
  omega

/-- How a session stands after the payloads of its stream: all handed over, or closed by the protocol behind one of them. -/
def Handed (host : WsHost) (s : WsSession) (before payloads : List Bytes) (left : Bytes) : Prop :=
  (s.state = .opened ∧ s.texts = before ++ payloads ∧ s.rx.bytes = left) ∨
    (s.state = .closed ∧ ∃ front, front ≠ [] ∧ front <+: payloads ∧ s.texts = before ++ front ∧ host.protocol s.texts = false)

theorem Handed.later {host : WsHost} {s : WsSession} {before payloads left} {p : Bytes} (h : Handed host s (before ++ [p]) payloads left) :
    Handed host s before (p :: payloads) left := by
  rcases h with ⟨hopen, htexts, hleft⟩ | ⟨hclosed, front, -, hfront, htexts, hhost⟩
  · refine .inl ⟨hopen, ?_, hleft⟩
    rw [htexts, List.append_assoc, List.singleton_append]
  · refine .inr ⟨hclosed, p :: front, List.cons_ne_nil _ _, (List.cons_prefix_cons).mpr ⟨rfl, hfront⟩, ?_, hhost⟩
    rw [htexts, List.append_assoc, List.singleton_append]

/-- Draining hands over the frames that are complete. -/
theorem wsDrain_handed (host : WsHost) {fs : List MaskedFrame} (hfs : ∀ f ∈ fs, IsText f) {s : WsSession} (hopen : s.state = .opened)
    (hwire : s.rx.bytes <+: fs.flatMap MaskedFrame.encode) {fuel : Nat} (hfuel : s.rx.rxLen < fuel) :
    Handed host (wsDrain host fuel s) s.texts (arrived fs s.rx.bytes).1 (arrived fs s.rx.bytes).2 := by
  induction fs generalizing s fuel with
  | nil =>
    rw [List.flatMap_nil, List.prefix_nil] at hwire
    cases fuel with
    | zero => exact absurd hfuel (Nat.not_lt_zero _)
    | succ fuel =>
      have hmore : extractFrame s.rx wsRxBuf = .error .more := extractFrame_tiny _ (by rw [hwire]; exact Nat.zero_lt_two)
      rw [wsDrain, hopen]
      simp only [hmore]
      exact .inl ⟨hopen, (List.append_nil _).symm, rfl⟩
  | cons f fs ih =>
    obtain ⟨hf, hrest⟩ := List.forall_mem_cons.mp hfs
    rw [List.flatMap_cons] at hwire
    cases fuel with
    | zero => exact absurd hfuel (Nat.not_lt_zero _)
    | succ fuel =>
      rw [wsDrain, hopen, arrived]
      by_cases hwhole : f.encode.length ≤ s.rx.bytes.length
      · obtain ⟨left, hleft⟩ := List.prefix_of_prefix_length_le (List.prefix_append _ _) hwire hwhole
        obtain ⟨c', hframe, hc'⟩ := extract_whole hleft.symm hf.fits
        have hdrop : s.rx.bytes.drop f.encode.length = left := by rw [← hleft, List.drop_left]
        have hless : c'.rxLen < fuel := by
          have hlen := congrArg List.length hleft
          have hsize := f.encode_length
          rw [List.length_append, bytes_length] at hlen
          rw [← bytes_length c', hc']
          omega
        have hnext : c'.bytes <+: fs.flatMap MaskedFrame.encode := by
          rw [hc']
          rw [← hleft] at hwire
          exact (List.prefix_append_right_inj _).mp hwire
        have hopcode := hf.1
        simp only [hframe, hopcode, if_neg (by decide : ¬ (1 = 8)), if_neg (by decide : ¬ (1 = 9)), ne_eq, not_true_eq_false, if_false]
        rw [if_pos hwhole, hdrop, ← hc']
        cases hhost : host.protocol (s.texts ++ [f.payload]) with
        | true => exact (ih hrest rfl hnext hless).later
        | false =>
          cases fuel with
          | zero => exact absurd hless (Nat.not_lt_zero _)
          | succ fuel => exact .inr ⟨rfl, [f.payload], List.cons_ne_nil _ _, (List.cons_prefix_cons).mpr ⟨rfl, List.nil_prefix⟩, rfl, hhost⟩
      · obtain ⟨more, hmore⟩ := List.prefix_of_prefix_length_le hwire (List.prefix_append _ _) (Nat.le_of_lt (Nat.lt_of_not_le hwhole))
        have hnil : more ≠ [] := by
          rintro rfl
          rw [List.append_nil] at hmore
          exact hwhole (Nat.le_of_eq (congrArg List.length hmore.symm))
        simp only [ extract_partial hmore hnil hf.fits]
        rw [if_neg hwhole]
        exact .inl ⟨hopen, (List.append_nil _).symm, rfl⟩

/-- More octets complete more frames, starting from what was left. -/
theorem arrived_append (fs : List MaskedFrame) (w w' : Bytes) :
    arrived fs (w ++ w') =
      ((arrived fs w).1 ++ (arrived (fs.drop (arrived fs w).1.length) ((arrived fs w).2 ++ w')).1,
        (arrived (fs.drop (arrived fs w).1.length) ((arrived fs w).2 ++ w')).2) := by
  induction fs generalizing w with
  | nil => rfl
  | cons f fs ih =>
    by_cases hwhole : f.encode.length ≤ w.length
    · have hmore : f.encode.length ≤ (w ++ w').length := by
        rw [List.length_append]
        omega
      have hone : arrived (f :: fs) w = (f.payload :: (arrived fs (w.drop f.encode.length)).1, (arrived fs (w.drop f.encode.length)).2) :=
        if_pos hwhole
      rw [hone]
      rw [arrived, if_pos hmore, List.drop_append_of_le_length hwhole, ih]
      rfl
    · have hnone : arrived (f :: fs) w = ([], w) := if_neg hwhole
      rw [hnone]
      rfl

theorem arrived_left {fs : List MaskedFrame} {w w' : Bytes} (h : w ++ w' <+: fs.flatMap MaskedFrame.encode) :
    (arrived fs w).2 ++ w' <+: (fs.drop (arrived fs w).1.length).flatMap MaskedFrame.encode := by
  induction fs generalizing w with
  | nil => exact h
  | cons f fs ih =>
    by_cases hwhole : f.encode.length ≤ w.length
    · have hone : arrived (f :: fs) w = (f.payload :: (arrived fs (w.drop f.encode.length)).1, (arrived fs (w.drop f.encode.length)).2) :=
        if_pos hwhole
      rw [hone, List.length_cons, List.drop_succ_cons]
      apply ih
      rw [List.flatMap_cons] at h
      obtain ⟨w₂, rfl⟩ := List.prefix_of_prefix_length_le (List.prefix_append _ _) ((List.prefix_append w w').trans h) hwhole
      rw [List.drop_left]
      rw [List.append_assoc] at h
      exact (List.prefix_append_right_inj _).mp h
    · have hnone : arrived (f :: fs) w = ([], w) := if_neg hwhole
      rw [hnone]
      exact h

/-- At no wake-up do the unread octets fill the buffer. -/
def Paced (fs : List MaskedFrame) : Bytes → List (List Bytes) → Prop
  | _, [] => True
  | done, reads :: wakes => (arrived fs done).2.length + reads.flatten.length < wsRxBuf ∧ Paced fs (done ++ reads.flatten) wakes

theorem readable_closed (host : WsHost) {s : WsSession} (h : s.state = .closed) (wakes : List (List Bytes)) : wakes.foldl (wsReadable host) s = s := by
  induction wakes with
  | nil => rfl
  | cons reads wakes ih =>
    have hstill : wsReadable host s reads = s := by rw [wsReadable, h]
    rw [List.foldl_cons, hstill, ih]

/-- Wake after wake, the frames completed so far have been handed over. -/
theorem readable_handed (host : WsHost) {fs : List MaskedFrame} (hfs : ∀ f ∈ fs, IsText f) {wakes : List (List Bytes)} (done : Bytes) {s : WsSession}
    (hopen : s.state = .opened) (htexts : s.texts = (arrived fs done).1) (hrx : s.rx.bytes = (arrived fs done).2)
    (hwire : done ++ wakes.flatten.flatten <+: fs.flatMap MaskedFrame.encode) (hpaced : Paced fs done wakes) :
    Handed host (wakes.foldl (wsReadable host) s) [] (arrived fs (done ++ wakes.flatten.flatten)).1 (arrived fs (done ++ wakes.flatten.flatten)).2 := by
  induction wakes generalizing done s with
  | nil =>
    rw [List.flatten_nil, List.flatten_nil, List.append_nil]
    exact .inl ⟨hopen, htexts, hrx⟩
  | cons reads wakes ih =>
    obtain ⟨hroom, hlater⟩ := hpaced
    rw [List.flatten_cons, List.flatten_append, ← List.append_assoc] at hwire ⊢
    obtain ⟨c', hreads, hbytes⟩ := reads_some reads (c := s.rx) (by rw [hrx]; exact hroom)
    have hfront : done ++ reads.flatten <+: fs.flatMap MaskedFrame.encode := (List.prefix_append _ _).trans hwire
    have hleft := arrived_left hfront
    rw [← hrx, ← hbytes] at hleft
    have hdrain := wsDrain_handed host (fun f hf => hfs f (List.mem_of_mem_drop hf)) (s := { s with rx := c' }) hopen hleft (Nat.lt_succ_self _)
    have hstep : wsReadable host s reads = wsDrain host (c'.rxLen + 1) { s with rx := c' } := by
      rw [wsReadable, hopen]
      simp only [hreads]
    have hsplit := arrived_append fs done reads.flatten
    rw [← hrx, ← hbytes] at hsplit
    rw [List.foldl_cons, hstep]
    rcases hdrain with ⟨hopen', htexts', hrx'⟩ | ⟨hclosed, front, hne, hfr, htexts', hhost⟩
    · refine ih (done ++ reads.flatten) hopen' ?_ ?_ hwire hlater
      · rw [htexts', htexts, hsplit]
      · rw [hrx', hsplit]
    · rw [readable_closed host hclosed]
      refine .inr ⟨hclosed, s.texts ++ front, fun hnil => hne (List.append_eq_nil_iff.mp hnil).2, ?_, htexts', hhost⟩
      rw [arrived_append fs (done ++ reads.flatten), hsplit, htexts]
      exact ((List.prefix_append_right_inj _).mpr hfr).trans (List.prefix_append _ _)

theorem arrived_left_length (fs : List MaskedFrame) (w : Bytes) : (arrived fs w).2.length ≤ w.length := by
  induction fs generalizing w with
  | nil => exact Nat.le_refl _
  | cons f fs ih =>
    rw [arrived]
    split
    · have hrest := ih (w.drop f.encode.length)
      rw [List.length_drop] at hrest
      exact Nat.le_trans hrest (Nat.sub_le _ _)
    · exact Nat.le_refl _

/-- One frame below the limit never fills the buffer, however it is split. -/
theorem paced_of_short {fs : List MaskedFrame} {done : Bytes} {wakes : List (List Bytes)} (h : (done ++ wakes.flatten.flatten).length < wsRxBuf) :
    Paced fs done wakes := by
  induction wakes generalizing done with
  | nil => trivial
  | cons reads wakes ih =>
    rw [List.flatten_cons, List.flatten_append, ← List.append_assoc] at h
    have hleft := arrived_left_length fs done
    refine ⟨?_, ih h⟩
    simp only [List.length_append] at h
    omega

/-- What a masking client sends comes out as it was, whatever the reads are. -/
def Lossless : Prop :=
  (∀ (host : WsHost) (f : MaskedFrame) (wakes : List (List Bytes)), IsText f → wakes.flatten.flatten = f.encode →
    (wakes.foldl (wsReadable host) .fresh).texts = [f.payload]) ∧
  ∀ (host : WsHost) (fs : List MaskedFrame) (wakes : List (List Bytes)), (∀ f ∈ fs, IsText f) →
    wakes.flatten.flatten <+: fs.flatMap MaskedFrame.encode → Paced fs [] wakes →
      Handed host (wakes.foldl (wsReadable host) .fresh) [] (arrived fs wakes.flatten.flatten).1 (arrived fs wakes.flatten.flatten).2

theorem fresh_arrived (fs : List MaskedFrame) (hfs : ∀ f ∈ fs, IsText f) : (arrived fs []).1 = [] ∧ (arrived fs []).2 = [] := by
  cases fs with
  | nil => exact ⟨rfl, rfl⟩
  | cons f fs =>
    have hlen := f.encode_length
    rw [arrived, if_neg (by rw [List.length_nil]; omega)]
    exact ⟨rfl, rfl⟩

theorem stream_lossless : Lossless := by
  have hstream : ∀ (host : WsHost) (fs : List MaskedFrame) (wakes : List (List Bytes)), (∀ f ∈ fs, IsText f) →
      wakes.flatten.flatten <+: fs.flatMap MaskedFrame.encode → Paced fs [] wakes →
        Handed host (wakes.foldl (wsReadable host) .fresh) [] (arrived fs wakes.flatten.flatten).1 (arrived fs wakes.flatten.flatten).2 := by
    intro host fs wakes hfs hwire hpaced
    obtain ⟨hnone, hleft⟩ := fresh_arrived fs hfs
    exact readable_handed host hfs [] rfl hnone.symm hleft.symm hwire hpaced
  refine ⟨fun host f wakes hf hwire => ?_, hstream⟩
  have hone : (arrived [f] f.encode) = ([f.payload], []) := by
    rw [arrived, if_pos (Nat.le_refl _), List.drop_length]
    rfl
  have hpaced : Paced [f] [] wakes := paced_of_short (by rw [List.nil_append, hwire]; exact hf.2)
  have hhanded := hstream host [f] wakes (by simpa using hf) ⟨[], by rw [List.append_nil, hwire, List.flatMap_singleton]⟩ hpaced
  rw [hwire, hone] at hhanded
  rcases hhanded with ⟨-, htexts, -⟩ | ⟨-, front, hne, hfront, htexts, -⟩
  · exact htexts
  · cases front with
    | nil => exact absurd rfl hne
    | cons p front =>
      obtain ⟨rfl, hnil⟩ := List.cons_prefix_cons.mp hfront
      rw [List.prefix_nil] at hnil
      rw [htexts, hnil]
      rfl

/-- The decoder is exact on a buffer, and loses nothing of a client's stream, unless the buffer declares the largest length. -/
theorem frames_exact_iff (c : WsRx) : (Exact c ∧ Lossless) ↔ ¬ Endless c :=
  ⟨fun h => (exact_iff c).mp h.1, fun h => ⟨(exact_iff c).mpr h, stream_lossless⟩⟩

/-- Ten octets of header with all of the length's bits, and a mask. -/
def endlessRx : WsRx where
  rx := [0x81, 0xff, 0xff, 0xff, 0xff, 0xff, 0xff, 0xff, 0xff, 0xff, 0, 0, 0, 0] ++ List.replicate (wsRxBuf - 14) 0
  rxLen := 14
  size := by rw [List.length_append, List.length_replicate]; exact Nat.add_sub_of_le (by decide : 14 ≤ wsRxBuf)
  room := by decide

theorem endlessRx_endless : Endless endlessRx :=
  ⟨0x81, [0, 0, 0, 0], [], List.take_left' rfl, rfl, by decide⟩

/-- A buffer of 14 octets is not decoded exactly. -/
theorem endless_buffer : ¬ Exact endlessRx := fun h => (exact_iff endlessRx).mp h endlessRx_endless

end Floofclaw.Guarantees.FrameDecoder
