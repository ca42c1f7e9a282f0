import Floofclaw.Lib.Pieces
import Floofclaw.Source.TelegramOutbox

/-!
# Telegram replies

What the outbox makes of a reply. Its pieces are the reply, and a text in UTF-8
is cut between code points. A full queue takes the front of the pieces only, and
a piece whose escape outgrows the buffer has no request: outside of these two,
all of the reply is queued or none, and all that is queued can be sent.
-/

set_option autoImplicit false

namespace Floofclaw.Guarantees.TelegramReplies
open Floofclaw.Lib Floofclaw.Source.Json Floofclaw.Source.Http1 Floofclaw.Source.TelegramOutbox

/-! ## Pieces -/

theorem atStart_drop (s : Bytes) (n : Nat) : AtStart (s.drop n) ↔ s[n]?.any isCont = false := by
  rw [← List.head?_drop]
  cases s.drop n with
  | nil => simpa using AtStart.nil
  | cons c t =>
    rw [List.head?_cons, Option.any_some]
    exact ⟨fun h => h c t rfl, AtStart.cons⟩

theorem backOff_le (s : Bytes) (n : Nat) : backOff s n ≤ n := by
  induction n with
  | zero => exact Nat.le_refl 0
  | succ n ih =>
    rw [backOff]
    split
    · exact Nat.le_succ_of_le ih
    · exact Nat.le_refl _

/-- The place it stops at is the start or starts a code point. -/
theorem backOff_start (s : Bytes) (n : Nat) : backOff s n = 0 ∨ AtStart (s.drop (backOff s n)) := by
  induction n with
  | zero => exact .inl rfl
  | succ n ih =>
    rw [backOff]
    split
    · exact ih
    · rename_i h
      exact .inr ((atStart_drop s (n + 1)).mpr (Bool.eq_false_iff.mpr h))

/-- It goes back no further than it has to. -/
theorem backOff_ge {s : Bytes} {n k : Nat} (hk : k ≤ n) (h : AtStart (s.drop k)) : k ≤ backOff s n := by
  induction n with
  | zero => omega
  | succ n ih =>
    rw [backOff]
    split
    · rename_i hcont
      have hne : k ≠ n + 1 := by
        rintro rfl
        rw [(atStart_drop s (n + 1)).mp h] at hcont
        cases hcont
      exact ih (by omega)
    · exact hk

theorem tgTake_cases (s : Bytes) : (s.length ≤ tgMessageChunk ∧ tgTake s = s.length) ∨
    (tgMessageChunk < s.length ∧ tgTake s = if backOff s tgMessageChunk = 0 then tgMessageChunk else backOff s tgMessageChunk) := by
  unfold tgTake
  split
  · rename_i hlong
    refine .inr ⟨hlong, ?_⟩
    split
    · rename_i hzero
      rw [if_pos hzero]
    · rename_i n hn
      rw [hn, if_neg (by omega)]
  · rename_i hshort
    exact .inl ⟨Nat.le_of_not_lt hshort, rfl⟩

theorem tgTake_bounds {s : Bytes} (hs : s ≠ []) : 0 < tgTake s ∧ tgTake s ≤ s.length ∧ tgTake s ≤ tgMessageChunk := by
  have hpos := List.length_pos_iff.mpr hs
  have hback := backOff_le s tgMessageChunk
  have hchunk : 0 < tgMessageChunk := by decide
  rcases tgTake_cases s with ⟨hshort, htake⟩ | ⟨hlong, htake⟩
  · omega
  · rw [htake]
    split <;> omega

theorem tgTake_advances : Advances tgTake (fun s => s) where
  some s hs := (tgTake_bounds hs).1
  within s := by
    cases s with
    | nil => decide
    | cons c s => exact (tgTake_bounds (by simp)).2.1
  suffix s := List.suffix_refl s

/-- A text in UTF-8 is cut between code points. -/
theorem tgTake_utf8 {s : Bytes} (h : Utf8 s) : Utf8 (s.take (tgTake s)) ∧ Utf8 (s.drop (tgTake s)) := by
  have hstart : AtStart (s.drop (tgTake s)) := by
    rcases tgTake_cases s with ⟨-, htake⟩ | ⟨hlong, htake⟩
    · rw [htake, List.drop_length]
      exact .nil
    · obtain ⟨k, hk, -, hnear⟩ := h.near (n := tgMessageChunk) (by omega)
      have hfar : tgMessageChunk - k ≤ backOff s tgMessageChunk := backOff_ge (by omega) hnear
      have hchunk : 3 < tgMessageChunk := by decide
      have hne : backOff s tgMessageChunk ≠ 0 := by omega
      rw [htake, if_neg hne]
      exact (backOff_start s tgMessageChunk).resolve_left hne
  exact Utf8.cut (by rwa [List.take_append_drop]) hstart

/-- The pieces of a reply. -/
def tgPieces (text : Bytes) : List Bytes := pieces tgTake (fun s => s) text.length text

theorem tgPieces_join (text : Bytes) : (tgPieces text).flatten = text := by
  have hgap : ∀ s : Bytes, ∃ g, g = [] ∧ s = g ++ s := fun s => ⟨[], rfl, rfl⟩
  exact Tiles.join (pieces_tile tgTake_advances hgap (Nat.le_refl _))

theorem tgPieces_size (text : Bytes) : ∀ p ∈ tgPieces text, 1 ≤ p.length ∧ p.length ≤ tgMessageChunk := by
  refine pieces_forall (fun _ => True) _ (fun s hs _ => ⟨?_, trivial⟩) trivial
  obtain ⟨hpos, hwithin, hchunk⟩ := tgTake_bounds hs
  rw [List.length_take]
  omega

theorem tgPieces_utf8 {text : Bytes} (h : Utf8 text) : ∀ p ∈ tgPieces text, Utf8 p :=
  pieces_forall Utf8 Utf8 (fun _ _ hs => tgTake_utf8 hs) h

theorem tgPieces_nulFree {text : Bytes} (h : NulFree text) : ∀ p ∈ tgPieces text, NulFree p :=
  pieces_forall NulFree NulFree (fun _ _ hs => ⟨hs.take _, fun c hc => hs c (List.mem_of_mem_drop hc)⟩) h

/-! ## The queue -/

/-- The loop queues one piece after the other, as long as there is a slot. -/
theorem tgQueueLoop_eq (chatId : Bytes) (n : Nat) (q : TgQueue) (s : Bytes) :
    tgQueueLoop chatId n q s = q.pushAll ((pieces tgTake (fun s => s) n s).map (tgSlot chatId)) := by
  induction n generalizing q s with
  | zero => rfl
  | succ n ih =>
    cases s with
    | nil => rfl
    | cons c s =>
      rw [tgQueueLoop, pieces, List.map_cons, Ring.pushAll]
      split
      · rename_i h
        rw [h]
      · rename_i q' h
        rw [h]
        exact ih q' _

theorem tgQueueChunks_toList (q : TgQueue) (chatId text : Bytes) :
    (tgQueueChunks q chatId text).1.toList = q.toList ++ ((tgPieces text).map (tgSlot chatId)).take q.free := by
  rw [tgQueueChunks, tgQueueLoop_eq]
  exact (q.pushAll_spec _).1

/-! ## Requests -/

theorem guard_passes {α : Type} {p : Prop} [Decidable p] (h : p) (f : Unit → Option α) : (guard p >>= f) = f () := by
  rw [guard, if_pos h]
  rfl

/-- The octets that fit the buffer a piece is escaped into. -/
def escapeRoom : Nat := 8207

theorem request_fits {path host body : Bytes} (hpath : path.length ≤ 144) (hhost : host.length < 160) (hbody : body.length < 8448) :
    (fcHttp1BuildRequest tgTxMax (lit "POST") path host (lit "floofclaw/" ++ fclawVersion) none (some (lit "application/json"))
      (some body)).isSome = true := by
  have hdigits : (decNat body.length).length ≤ 4 := decFuel_length _ _ (by decide) (Nat.lt_trans hbody (by decide))
  have hname : lit "floofclaw/" ++ fclawVersion ≠ [] := by rw [lit_ofList]; decide
  have hlits : (lit "Content-Length: ").length = 16 ∧ (lit "\r\n").length = 2 ∧ (lit "Content-Type: ").length = 14 ∧
      (lit "application/json").length = 16 ∧ (lit "POST").length = 4 ∧ (lit " ").length = 1 ∧ (lit " HTTP/1.1\r\nHost: ").length = 17 ∧
      (lit "\r\nUser-Agent: ").length = 14 ∧ (lit "floofclaw/").length = 10 ∧ fclawVersion.length = 6 ∧
      (lit "\r\nAccept: */*\r\n").length = 15 := by (repeat rw [lit_ofList]); decide
  obtain ⟨h1, h2, h3, h4, h5, h6, h7, h8, h9, h10, h11⟩ := hlits
  have hmax : tgTxMax = 16384 := rfl
  simp only [fcHttp1BuildRequest, Option.map_some, Option.getD_some, Option.isSome_some, if_true, Option.getD_none, if_neg hname]
  have hlength : (lit "Content-Length: " ++ decNat body.length ++ lit "\r\n").length < 64 := by
    simp only [List.length_append]
    omega
  have htype : (lit "Content-Type: " ++ lit "application/json" ++ lit "\r\n").length < 128 := by
    simp only [List.length_append]
    omega
  rw [guard_passes hlength, guard_passes htype, guard_passes]
  · rfl
  · simp only [List.length_append, List.length_nil]
    omega

/-- A piece has a request exactly when its escape fits. -/
theorem tgBuildSendRequest_iff (host : TgHost) {token chatId piece : Bytes} (htoken : token.length ≤ 128) (hpiece : NulFree piece) :
    (tgBuildSendRequest host (some token) (tgSlot chatId piece)).isSome = true ↔ (escaped piece).length ≤ escapeRoom := by
  have hpath : (tgSendPath token).length ≤ 144 := by
    have hlits : (lit "/bot").length = 4 ∧ (lit "/sendMessage").length = 12 := ⟨lit_length _, lit_length _⟩
    simp only [tgSendPath, List.length_append]
    omega
  have hshort : (tgSendPath token).length < 256 := by omega
  have hcap : tgMessageChunk * 2 + 16 = escapeRoom + 1 := rfl
  have hrest : tgBuildSendRequest host (some token) (tgSlot chatId piece) = (mirror (tgMessageChunk * 2 + 16) piece).bind fun etext =>
      (guard ((tgSendBody (clip 64 chatId) etext).length < tgMessageChunk * 2 + 256) : Option Unit) >>= fun _ =>
        fcHttp1BuildRequest tgTxMax (lit "POST") (tgSendPath token) host.header (lit "floofclaw/" ++ fclawVersion) none
          (some (lit "application/json")) (some (tgSendBody (clip 64 chatId) etext)) := guard_passes hshort _
  rw [hrest, mirror_eq hpiece, hcap]
  by_cases hfits : (escaped piece).length < escapeRoom + 1
  · have hbody : (tgSendBody (clip 64 chatId) (escaped piece)).length < 8448 := by
      have hlits : (lit "\x7b\"chat_id\":\"").length = 12 ∧ (lit "\",\"text\":\"").length = 10 ∧ (lit "\"\x7d").length = 2 := ⟨lit_length _, lit_length _, lit_length _⟩
      have hchat := clip_length_lt (by decide : 0 < 64) chatId
      have hroom : escapeRoom = 8207 := rfl
      simp only [tgSendBody, List.length_append]
      omega
    have hpass := guard_passes hbody fun _ => fcHttp1BuildRequest tgTxMax (lit "POST") (tgSendPath token) host.header
      (lit "floofclaw/" ++ fclawVersion) none (some (lit "application/json")) (some (tgSendBody (clip 64 chatId) (escaped piece)))
    rw [if_pos hfits]
    refine iff_of_true ?_ (Nat.lt_succ_iff.mp hfits)
    exact (congrArg Option.isSome hpass).trans (request_fits hpath host.fits hbody)
  · rw [if_neg hfits]
    exact iff_of_false (by simp) fun h => hfits (Nat.lt_succ_of_le h)

/-! ## Replies -/

/-- All of the reply is queued, in pieces a request holds and cut between code points, or none of it. -/
def AllOrNone (q q' : TgQueue) (chatId reply : Bytes) : Prop :=
  (∃ ps : List Bytes, q'.toList = q.toList ++ ps.map (tgSlot chatId) ∧ ps.flatten = reply ∧ (∀ p ∈ ps, 1 ≤ p.length ∧ p.length ≤ tgMessageChunk) ∧
    (Utf8 reply → ∀ p ∈ ps, Utf8 p)) ∨ q'.toList = q.toList

/-- What is queued behind the old entries can be sent with any token of that size. -/
def Sendable (host : TgHost) (q q' : TgQueue) : Prop :=
  ∀ m ∈ q'.toList.drop q.toList.length, ∀ token : Bytes, token.length ≤ 128 → (tgBuildSendRequest host (some token) m).isSome = true

theorem slots_inj {chatId : Bytes} {ps qs : List Bytes} {n : Nat} (h : ps.map (tgSlot chatId) = (qs.map (tgSlot chatId)).take n) :
    ps = qs.take n := by
  have htexts := congrArg (List.map TgOutbound.text) h
  rw [← List.map_take, List.map_map, List.map_map] at htexts
  have hid : TgOutbound.text ∘ tgSlot chatId = id := rfl
  rwa [hid, List.map_id, List.map_id] at htexts

/-- Fewer pieces than a reply has are not the reply. -/
theorem cut_short {reply : Bytes} {ps : List Bytes} {n : Nat} (hn : n < (tgPieces reply).length) (hps : ps = (tgPieces reply).take n)
    (hjoin : ps.flatten = reply) : False := by
  have hwhole := tgPieces_join reply
  rw [← List.take_append_drop n (tgPieces reply), List.flatten_append, ← hps, hjoin, List.append_right_eq_self] at hwhole
  have hlast := List.getElem_mem hn
  have hdrop : (tgPieces reply)[n] ∈ (tgPieces reply).drop n := by
    rw [List.drop_eq_getElem_cons hn]
    exact List.mem_cons_self
  have hempty := List.flatten_eq_nil_iff.mp hwhole _ hdrop
  have hsize := (tgPieces_size reply _ hlast).1
  rw [hempty] at hsize
  cases hsize

/-- A reply goes out whole exactly when no slot is free, or its pieces have slots and every escape fits. -/
theorem reply_sendable_iff (host : TgHost) (q : TgQueue) (chatId : Bytes) {reply : Bytes} (hreply : NulFree reply) :
    (AllOrNone q (tgQueueChunks q chatId reply).1 chatId reply ∧ Sendable host q (tgQueueChunks q chatId reply).1) ↔
      q.free = 0 ∨ ((tgPieces reply).length ≤ q.free ∧ ∀ p ∈ tgPieces reply, (escaped p).length ≤ escapeRoom) := by
  have hqueued := tgQueueChunks_toList q chatId reply
  have hnew : (tgQueueChunks q chatId reply).1.toList.drop q.toList.length = ((tgPieces reply).map (tgSlot chatId)).take q.free := by
    rw [hqueued, List.drop_left]
  have hfree := tgPieces_nulFree hreply
  constructor
  · rintro ⟨hall, hsend⟩
    by_cases hzero : q.free = 0
    · exact .inl hzero
    · refine .inr ?_
      have hslots : (tgPieces reply).length ≤ q.free := by
        by_contra hmany
        rcases hall with ⟨ps, hps, hjoin, -, -⟩ | hnone
        · exact cut_short (Nat.lt_of_not_le hmany) (slots_inj (List.append_cancel_left (hps.symm.trans hqueued))) hjoin
        · rw [hqueued, List.append_right_eq_self, List.take_eq_nil_iff, List.map_eq_nil_iff] at hnone
          rcases hnone with hzero' | hnil
          · exact hzero hzero'
          · rw [hnil] at hmany
            exact hmany (Nat.zero_le _)
      refine ⟨hslots, fun p hp => ?_⟩
      have hmem : tgSlot chatId p ∈ (tgQueueChunks q chatId reply).1.toList.drop q.toList.length := by
        rw [hnew, List.take_of_length_le (by rwa [List.length_map])]
        exact List.mem_map_of_mem hp
      have htoken : ([] : Bytes).length ≤ 128 := Nat.zero_le _
      exact (tgBuildSendRequest_iff host htoken (hfree p hp)).mp (hsend _ hmem [] htoken)
  · rintro (hzero | ⟨hslots, hescape⟩)
    · have hsame : (tgQueueChunks q chatId reply).1.toList = q.toList := by
        rw [hqueued, hzero, List.take_zero, List.append_nil]
      refine ⟨.inr hsame, ?_⟩
      intro m hm
      rw [hsame, List.drop_length] at hm
      cases hm
    · rw [List.take_of_length_le (by rwa [List.length_map])] at hqueued hnew
      refine ⟨.inl ⟨tgPieces reply, hqueued, tgPieces_join reply, tgPieces_size reply, tgPieces_utf8⟩, ?_⟩
      intro m hm token htoken
      rw [hnew] at hm
      obtain ⟨p, hp, rfl⟩ := List.mem_map.mp hm
      exact (tgBuildSendRequest_iff host htoken (hfree p hp)).mpr (hescape p hp)

/-- A queue of nothing. -/
def emptyQueue : TgQueue := ⟨List.replicate 64 ⟨[], []⟩, 0, 0, rfl, by decide, by decide⟩

/-- A short greeting goes out whole. -/
theorem reply_sendable_greeting :
    AllOrNone emptyQueue (tgQueueChunks emptyQueue (lit "42") (lit "hello")).1 (lit "42") (lit "hello") ∧
      Sendable ⟨lit "api.telegram.org", by rw [lit_ofList]; decide⟩ emptyQueue (tgQueueChunks emptyQueue (lit "42") (lit "hello")).1 :=
  (reply_sendable_iff ⟨lit "api.telegram.org", by decide⟩ emptyQueue (lit "42") (.of_all (lit_all (by decide)))).mpr
    (.inr ⟨by decide, by decide⟩)

/-- A text of control octets grows sixfold. -/
theorem escaped_control (n : Nat) : (escaped (List.replicate n (1 : Byte))).length = n * 6 := by
  induction n with
  | zero => rfl
  | succ n ih =>
    rw [List.replicate_succ, escaped, List.flatMap_cons, List.length_append, ← escaped, ih]
    have hone : (escapeByte 1).length = 6 := rfl
    omega

/-- 1368 control octets are one piece of a reply, and its request outgrows the buffer. -/
theorem control_reply_stuck :
    ¬ (∀ (host : TgHost) (q : TgQueue) (chatId reply : Bytes), NulFree reply → reply.length ≤ 8192 →
      AllOrNone q (tgQueueChunks q chatId reply).1 chatId reply ∧ Sendable host q (tgQueueChunks q chatId reply).1) := by
  intro hclaim
  have hnul : NulFree (List.replicate 1368 (1 : Byte)) := by
    intro c hc
    rw [List.eq_of_mem_replicate hc]
    decide
  have hlen : (List.replicate 1368 (1 : Byte)).length ≤ 8192 := by
    rw [List.length_replicate]
    decide
  obtain ⟨-, hsend⟩ := hclaim ⟨lit "api.telegram.org", by rw [lit_ofList]; decide⟩ emptyQueue (lit "42") _ hnul hlen
  have hqueued := tgQueueChunks_toList emptyQueue (lit "42") (List.replicate 1368 1)
  have htake : tgTake (List.replicate 1368 (1 : Byte)) = 1368 := by
    rw [tgTake, List.length_replicate, if_neg (by decide)]
  have hpieces : tgPieces (List.replicate 1368 (1 : Byte)) = [List.replicate 1368 1] := by
    have hcons : List.replicate 1368 (1 : Byte) = 1 :: List.replicate 1367 1 := rfl
    rw [tgPieces, List.length_replicate]
    show pieces tgTake (fun s => s) (1367 + 1) (1 :: List.replicate 1367 1) = _
    have hfit : (List.replicate 1368 (1 : Byte)).length ≤ 1368 := Nat.le_of_eq List.length_replicate
    rw [pieces, ← hcons, htake, List.take_of_length_le hfit, List.drop_of_length_le hfit]
    rfl
  have hempty : emptyQueue.toList = [] := rfl
  have hfree : emptyQueue.free = 64 := rfl
  rw [hpieces, hempty, hfree, List.nil_append, List.map_cons, List.map_nil] at hqueued
  have hmem : tgSlot (lit "42") (List.replicate 1368 1) ∈ (tgQueueChunks emptyQueue (lit "42") (List.replicate 1368 1)).1.toList.drop 0 := by
    rw [hqueued]
    exact List.mem_singleton_self _
  have htoken : ([] : Bytes).length ≤ 128 := Nat.zero_le _
  have hroom := (tgBuildSendRequest_iff ⟨lit "api.telegram.org", by rw [lit_ofList]; decide⟩ htoken hnul).mp (hsend _ hmem [] htoken)
  rw [escaped_control] at hroom
  exact absurd hroom (by decide)

end Floofclaw.Guarantees.TelegramReplies
