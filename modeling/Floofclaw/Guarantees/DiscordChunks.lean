import Floofclaw.Lib.Pieces
import Floofclaw.Lib.Utf8
import Floofclaw.Source.DiscordOutbox
import Floofclaw.Guarantees.DiscordPosts

/-!
# Discord chunks

A reply is queued whole or not at all, in chunks whose contents join to the
sanitized text up to the blanks between them, and the two passes agree. A chunk
that finds no blank is cut at the limit, which may be inside a code point.
-/

set_option autoImplicit false

namespace Floofclaw.Guarantees.DiscordChunks
open Floofclaw.Lib Floofclaw.Source Floofclaw.Source.Json Floofclaw.Source.DiscordRest Floofclaw.Source.DiscordOutbox
open Floofclaw.Guarantees.DiscordPosts (pending pending_queueRaw)

/-! ## One cut -/

theorem searchBack_some {c : Byte} {s : Bytes} {n i : Nat} (h : searchBack c s n = some i) : 1 ≤ i ∧ i ≤ n ∧ s[i]? = some c := by
  induction n with
  | zero => cases h
  | succ n ih =>
    rw [searchBack] at h
    split at h
    · cases h
      exact ⟨by omega, Nat.le_refl _, ‹_›⟩
    · obtain ⟨h1, hn, hc⟩ := ih h
      exact ⟨h1, by omega, hc⟩

theorem searchBack_none {c : Byte} {s : Bytes} {n : Nat} (h : searchBack c s n = none) {i : Nat} (h1 : 1 ≤ i) (hn : i ≤ n) : s[i]? ≠ some c := by
  induction n with
  | zero => omega
  | succ n ih =>
    rw [searchBack] at h
    split at h
    · cases h
    · by_cases hlast : i = n + 1
      · rwa [hlast]
      · exact ih h (by omega)

/-- A chunk has to be cut at the limit: there is no blank in reach. -/
def HardCut (s : Bytes) : Prop := dcChunkMax < s.length ∧ ∀ i, 1 ≤ i → i ≤ dcChunkMax → s[i]? ≠ some (ch '\n') ∧ s[i]? ≠ some (ch ' ')

/-- A chunk is the whole text, ends in front of a blank, or is cut at the limit. -/
theorem choose_cases (s : Bytes) :
    (s.length ≤ dcChunkMax ∧ dcChooseChunkLen s dcChunkMax = s.length) ∨
      (∃ i c, 1 ≤ i ∧ i ≤ dcChunkMax ∧ s[i]? = some c ∧ isBlank c = true ∧ dcChooseChunkLen s dcChunkMax = i) ∨
      (HardCut s ∧ dcChooseChunkLen s dcChunkMax = dcChunkMax) := by
  unfold dcChooseChunkLen
  by_cases hshort : s.length ≤ dcChunkMax
  · exact .inl ⟨hshort, if_pos hshort⟩
  rw [if_neg hshort]
  cases hline : searchBack (ch '\n') s dcChunkMax with
  | some i =>
    obtain ⟨h1, hn, hc⟩ := searchBack_some hline
    exact .inr (.inl ⟨i, _, h1, hn, hc, rfl, rfl⟩)
  | none =>
    cases hspace : searchBack (ch ' ') s dcChunkMax with
    | some i =>
      obtain ⟨h1, hn, hc⟩ := searchBack_some hspace
      exact .inr (.inl ⟨i, _, h1, hn, hc, rfl, rfl⟩)
    | none =>
      exact .inr (.inr ⟨⟨Nat.lt_of_not_le hshort, fun i h1 hn => ⟨searchBack_none hline h1 hn, searchBack_none hspace h1 hn⟩⟩, rfl⟩)

theorem choose_bounds {s : Bytes} (hs : s ≠ []) :
    1 ≤ dcChooseChunkLen s dcChunkMax ∧ dcChooseChunkLen s dcChunkMax ≤ s.length ∧ dcChooseChunkLen s dcChunkMax ≤ dcChunkMax := by
  have hpos := List.length_pos_iff.mpr hs
  have hmax : 1 ≤ dcChunkMax := by decide
  rcases choose_cases s with ⟨hshort, hlen⟩ | ⟨i, c, h1, hn, hc, -, hlen⟩ | ⟨⟨hlong, -⟩, hlen⟩
  · omega
  · have hlt := (List.getElem?_eq_some_iff.mp hc).1
    omega
  · omega

theorem choose_advances : Advances (fun s => dcChooseChunkLen s dcChunkMax) dcSkip where
  some s hs := (choose_bounds hs).1
  within s := by
    cases s with
    | nil => exact Nat.le_refl _
    | cons c s => exact (choose_bounds (List.cons_ne_nil c s)).2.1
  suffix s := List.dropWhile_suffix _

theorem isBlank_ascii {c : Byte} (h : isBlank c = true) : c < 0x80 := by
  rw [isBlank, Bool.or_eq_true, decide_eq_true_eq, decide_eq_true_eq] at h
  rcases h with rfl | rfl <;> decide

theorem ascii_notCont {c : Byte} (h : c < 0x80) : isCont c = false :=
  Bool.eq_false_iff.mpr fun hc => absurd h (UInt8.not_lt.mpr (isCont_ge hc))

/-- The cut leaves a text whose first octet starts a code point. -/
def CleanCut (s : Bytes) : Prop := HardCut s → AtStart (s.drop dcChunkMax)

theorem cleanCut_iff (s : Bytes) : CleanCut s ↔ AtStart (s.drop (dcChooseChunkLen s dcChunkMax)) := by
  rcases choose_cases s with ⟨hshort, hlen⟩ | ⟨i, c, h1, hn, hc, hblank, hlen⟩ | ⟨hhard, hlen⟩
  · rw [hlen, List.drop_length]
    exact iff_of_true (fun hhard => absurd hhard.1 (Nat.not_lt.mpr hshort)) .nil
  · rw [hlen]
    refine iff_of_true (fun hhard => ?_) ?_
    · obtain ⟨hline, hspace⟩ := hhard.2 i h1 hn
      rw [isBlank, Bool.or_eq_true, decide_eq_true_eq, decide_eq_true_eq] at hblank
      rcases hblank with rfl | rfl
      · exact absurd hc hspace
      · exact absurd hc hline
    · obtain ⟨hlt, hget⟩ := List.getElem?_eq_some_iff.mp hc
      rw [List.drop_eq_getElem_cons hlt, hget]
      exact .cons (ascii_notCont (isBlank_ascii hblank))
  · rw [hlen]
    exact ⟨fun h => h hhard, fun h _ => h⟩

/-! ## The pieces of a text -/

def dcPieces (s : Bytes) : List Bytes := pieces (fun s => dcChooseChunkLen s dcChunkMax) dcSkip s.length s

/-- What is left of a text where its chunks start. -/
def dcStarts (s : Bytes) : List Bytes := starts (fun s => dcChooseChunkLen s dcChunkMax) dcSkip s.length s

theorem dcStarts_self {s : Bytes} (h : s ≠ []) : s ∈ dcStarts s := by
  cases s with
  | nil => exact absurd rfl h
  | cons c s => exact List.mem_cons_self

theorem dcPieces_length (s : Bytes) : (dcPieces s).length = (dcStarts s).length := by
  rw [dcPieces, pieces_eq_map, List.length_map]
  rfl

theorem dcPieces_size (s : Bytes) : ∀ p ∈ dcPieces s, 1 ≤ p.length ∧ p.length ≤ dcChunkMax := by
  refine pieces_forall (fun _ => True) _ (fun s hs _ => ⟨?_, trivial⟩) trivial
  obtain ⟨hpos, hwithin, hmax⟩ := choose_bounds hs
  rw [List.length_take]
  omega

/-- What may stand between two pieces. -/
def Blanks (g : Bytes) : Prop := ∀ c ∈ g, isBlank c = true

theorem dcPieces_tile (s : Bytes) : Tiles Blanks s (dcPieces s) := by
  refine pieces_tile choose_advances (fun s => ⟨s.takeWhile isBlank, fun c hc => List.mem_takeWhile_imp hc, ?_⟩) (Nat.le_refl _)
  exact (List.takeWhile_append_dropWhile).symm

/-- The pieces are texts in UTF-8 exactly when no hard cut is inside a code point. -/
theorem dcPieces_utf8 {s : Bytes} (h : Utf8 s) : (∀ p ∈ dcPieces s, Utf8 p) ↔ ∀ t ∈ dcStarts s, CleanCut t := by
  have hsplit : ∀ t : Bytes, t.take (dcChooseChunkLen t dcChunkMax) ++ t.drop (dcChooseChunkLen t dcChunkMax) = t := fun t =>
    List.take_append_drop _ t
  refine pieces_forall_iff Utf8 Utf8 CleanCut (fun t _ ht => ?_) (fun t _ ht hcut => ?_) h
  · rw [cleanCut_iff]
    refine ⟨fun hpiece => (hpiece.rest (by rwa [hsplit])).atStart, fun hstart => ?_⟩
    exact (Utf8.cut (by rwa [hsplit]) hstart).1
  · have hrest := (Utf8.cut (by rwa [hsplit]) ((cleanCut_iff t).mp hcut)).2
    have hgap : Utf8 ((t.drop (dcChooseChunkLen t dcChunkMax)).takeWhile isBlank) :=
      .of_ascii fun c hc => isBlank_ascii (List.mem_takeWhile_imp hc)
    refine hgap.rest ?_
    rwa [dcSkip, List.takeWhile_append_dropWhile]

/-! ## The two passes -/

theorem dcCountLoop_pieces {n : Nat} {s : Bytes} (hn : s.length ≤ n) :
    dcCountLoop s = (pieces (fun s => dcChooseChunkLen s dcChunkMax) dcSkip n s).length := by
  induction n generalizing s with
  | zero =>
    rw [Nat.le_zero, List.length_eq_zero_iff] at hn
    rw [dcCountLoop, if_pos hn, pieces]
    rfl
  | succ n ih =>
    cases s with
    | nil =>
      rw [dcCountLoop, if_pos rfl, pieces]
      rfl
    | cons c s =>
      have hne := List.cons_ne_nil c s
      have hsome := (choose_bounds hne).1
      have hshorter := choose_advances.shorter hne
      rw [dcCountLoop, if_neg hne, if_neg (by omega), ih (by omega), pieces, List.length_cons, Nat.add_comm]

/-- The emitting pass queues the payloads of the same pieces. -/
theorem dcEmitLoop_pieces (channelId : Bytes) {n : Nat} {s : Bytes} (hn : s.length ≤ n) (a : DcAdapter) (count : Nat) :
    dcEmitLoop channelId s a count =
      (queueChunks channelId ((pieces (fun s => dcChooseChunkLen s dcChunkMax) dcSkip n s).map dcPayload) a).map
        fun a' => (a', count + (pieces (fun s => dcChooseChunkLen s dcChunkMax) dcSkip n s).length) := by
  induction n generalizing s a count with
  | zero =>
    rw [Nat.le_zero, List.length_eq_zero_iff] at hn
    rw [dcEmitLoop, if_pos hn]
    rfl
  | succ n ih =>
    cases s with
    | nil =>
      rw [dcEmitLoop, if_pos rfl]
      rfl
    | cons c s =>
      have hne := List.cons_ne_nil c s
      have hsome := (choose_bounds hne).1
      have hshorter := choose_advances.shorter hne
      rw [dcEmitLoop, if_neg hne, if_neg (by omega), pieces, List.map_cons]
      cases hpayload : dcPayload ((c :: s).take (dcChooseChunkLen (c :: s) dcChunkMax)) with
      | none => rfl
      | some payload =>
        rw [Option.bind_some, queueChunks]
        cases hraw : dcQueueRaw channelId payload a with
        | none => rfl
        | some a' =>
          rw [Option.bind_some]
          simp only
          rw [ih (by omega) a' (count + 1), List.length_cons]
          simp only [Nat.add_assoc, Nat.add_comm 1]

/-! ## Sanitized text -/

def dcClean (text : Bytes) : Bytes := text.flatMap dcCleanOctet

theorem dcCleanOctet_length (c : Byte) : (dcCleanOctet c).length ≤ 1 := by
  unfold dcCleanOctet
  split
  · exact Nat.le_refl _
  · split
    · exact Nat.zero_le _
    · exact Nat.le_refl _

theorem dcSanitizeLoop_eq {outLen : Nat} {s out : Bytes} (h : out.length + s.length < outLen) :
    dcSanitizeLoop outLen s out = out ++ s.flatMap dcCleanOctet := by
  induction s generalizing out with
  | nil => rw [dcSanitizeLoop, List.flatMap_nil, List.append_nil]
  | cons c s ih =>
    have hone := dcCleanOctet_length c
    rw [List.length_cons] at h
    rw [dcSanitizeLoop, if_pos (by omega), ih (by rw [List.length_append]; omega), List.append_assoc, List.flatMap_cons]

theorem dcSanitizeText_eq {text : Bytes} (hnul : NulFree text) (hlen : text.length < dcReplyMax) : dcSanitizeText dcReplyMax text = dcClean text := by
  rw [dcSanitizeText, cstr_eq_self hnul, dcSanitizeLoop_eq (by simpa using hlen), List.nil_append, dcClean]

/-- The octets a sanitized text is made of. -/
def IsClean (s : Bytes) : Prop := ∀ c ∈ s, 32 ≤ c ∨ c = ch '\n' ∨ c = ch '\t'

theorem dcClean_isClean (text : Bytes) : IsClean (dcClean text) := by
  intro c hc
  obtain ⟨b, -, hb⟩ := List.mem_flatMap.mp hc
  unfold dcCleanOctet at hb
  split at hb
  · exact .inr (.inl (List.mem_singleton.mp hb))
  · split at hb
    · cases hb
    · rename_i hkeep
      obtain rfl := List.mem_singleton.mp hb
      by_cases hprint : 32 ≤ c
      · exact .inl hprint
      · refine .inr ?_
        by_contra hother
        exact hkeep ⟨UInt8.not_le.mp hprint, fun h => hother (.inl h), fun h => hother (.inr h)⟩

theorem IsClean.nulFree {s : Bytes} (h : IsClean s) : NulFree s := by
  rintro c hc rfl
  rcases h 0 hc with h0 | h0 | h0 <;> exact absurd h0 (by decide)

theorem dcPieces_clean {s : Bytes} (h : IsClean s) : ∀ p ∈ dcPieces s, IsClean p :=
  pieces_forall IsClean IsClean
    (fun _ _ ht => ⟨fun c hc => ht c (List.mem_of_mem_take hc), fun c hc => ht c (List.mem_of_mem_drop ((List.dropWhile_suffix _).subset hc))⟩) h

theorem dcClean_utf8 {text : Bytes} (h : Utf8 text) : Utf8 (dcClean text) := by
  refine h.flatMap (fun a ha => ?_) (fun a ha => ?_)
  · unfold dcCleanOctet
    split
    · exact .singleton (by decide)
    · split
      · exact .nil
      · exact .singleton ha
  · have hhigh : a ≠ ch '\r' := by
      rintro rfl
      exact absurd ha (by decide)
    have hprint : ¬ (a < 32 ∧ a ≠ ch '\n' ∧ a ≠ ch '\t') := fun hctl => absurd (UInt8.lt_of_lt_of_le hctl.1 (by decide : (32 : Byte) ≤ 0x80)) (UInt8.not_lt.mpr ha)
    rw [dcCleanOctet, if_neg hhigh, if_neg hprint]

/-! ## Payloads -/

/-- The object a chunk is sent as. -/
def contentText (p : Bytes) : Bytes := objText [(lit "content", quoted (escaped p))]

/-- What a receiver reads of a payload. -/
def contentOf (payload : Bytes) : Option Bytes :=
  (jsonRefTopObject payload).bind fun obj => jsonRefObjectGetString obj (lit "content") dcReplyMax

theorem escapeByte_clean {c : Byte} (h : 32 ≤ c ∨ c = ch '\n' ∨ c = ch '\t') : (escapeByte c).length ≤ 2 := by
  have htable : ∀ n : Fin 256, (32 ≤ UInt8.ofNat n ∨ UInt8.ofNat n = ch '\n' ∨ UInt8.ofNat n = ch '\t') → (escapeByte (UInt8.ofNat n)).length ≤ 2 := by
    decide +kernel
  have hc := htable ⟨c.toNat, c.toNat_lt⟩
  simp only [UInt8.ofNat_toNat] at hc
  exact hc h

example : dcPieces (lit "one two") = [lit "one two"] := by decide +kernel

theorem escaped_clean {s : Bytes} (h : IsClean s) : (escaped s).length ≤ 2 * s.length := by
  induction s with
  | nil => exact Nat.le_refl _
  | cons c s ih =>
    obtain ⟨hc, hs⟩ := List.forall_mem_cons.mp h
    have hone := escapeByte_clean hc
    have hrest := ih hs
    rw [escaped, List.flatMap_cons, List.length_append, ← escaped, List.length_cons]
    omega

theorem contentText_eq (p : Bytes) : contentText p = lit "\x7b\"content\":\"" ++ (escaped p ++ lit "\"\x7d") := by
  have hopen : lit "\x7b\"content\":\"" = ch '{' :: (quoted (lit "content") ++ ch ':' :: [ch '"']) := rfl
  rw [hopen, contentText, objText, membersText, quoted, quoted]
  simp only [List.cons_append, List.append_assoc, List.nil_append]
  rfl

theorem contentText_length (p : Bytes) : (contentText p).length = (escaped p).length + 14 := by
  have hopen : (lit "\x7b\"content\":\"").length = 12 := rfl
  have hclose : (lit "\"\x7d").length = 2 := rfl
  rw [contentText_eq, List.length_append, List.length_append, hopen, hclose]
  omega

theorem dcPayload_eq {p : Bytes} (hp : IsClean p) (hlen : p.length ≤ dcChunkMax) : dcPayload p = some (contentText p) := by
  have hescape := escaped_clean hp
  have hchunk : dcChunkMax = 2000 := rfl
  have hnul := cstr_eq_self hp.nulFree
  have hfull : jsonEscape (dcChunkMax * 2 + 8) p = (escaped p, true) := by
    rw [jsonEscape_complete (by rw [hnul]; omega), hnul]
  have hsize := contentText_length p
  have hfits : (contentText p).length < dcChunkMax * 2 + 64 := by omega
  rw [dcPayload, hfull]
  simp only [← contentText_eq, Bool.true_and, decide_eq_true hfits, if_true]

theorem contentText_object (p : Bytes) : ObjText (contentText p) [(lit "content", quoted (escaped p))] := by
  have hkey : plainKey (lit "content") = true := plainKey_lit (by decide)
  refine objText_reads fun m hm => ?_
  obtain rfl := List.mem_singleton.mp hm
  exact ⟨plainKey_strBody hkey, .str (escaped_strBody p)⟩

theorem contentOf_contentText {p : Bytes} (hp : NulFree p) (hlen : p.length < dcReplyMax) : contentOf (contentText p) = some p := by
  have hnul : NulFree (contentText p) := by
    rw [contentText_eq]
    exact NulFree.append (.of_all (lit_all (by decide))) ((escaped_nulFree p).append (.of_all (by decide)))
  have hkey : plainKey (lit "content") = true := plainKey_lit (by decide)
  have hget : memberLookup (lit "content") [(lit "content", quoted (escaped p))] = some (quoted (escaped p)) := by
    rw [memberLookup, plainKey_copy hkey]
    exact if_pos rfl
  rw [contentOf, jsonRefTopObject_complete (contentText_object p) hnul, Option.bind_some, jsonRefObjectGetString,
    jsonRefObjectGet_eq (contentText_object p), hget, Option.bind_some]
  exact jsonRefStringCopy_escaped hp hlen

/-! ## The queue -/

/-- The entry a payload becomes. -/
def dcSlot (channelId payload : Bytes) : DcOutbound := ⟨clip 128 channelId, clip (dcChunkMax * 2 + 64) payload⟩

theorem queueRaw_entry (payload : Bytes) {channelId : Bytes} {a : DcAdapter} (hchannel : channelId ≠ []) (hroom : a.outCount < dcOutQueueMax) :
    ∃ a', dcQueueRaw channelId payload a = some a' ∧ pending a' = pending a ++ [dcSlot channelId payload] ∧ a'.outCount = a.outCount + 1 := by
  have hopen : ¬ (channelId = [] ∨ dcOutQueueMax ≤ a.outCount) := fun h => h.elim hchannel (Nat.not_le.mpr hroom)
  obtain ⟨a', ha'⟩ : ∃ a', dcQueueRaw channelId payload a = some a' := ⟨_, if_neg hopen⟩
  have hraw := ha'
  obtain ⟨entry, hpending, hqueued⟩ := pending_queueRaw ha'
  rw [dcQueueRaw, if_neg hopen, Option.some.injEq] at ha'
  have hentry : entry = dcSlot channelId payload := by
    rw [← ha'] at hqueued
    exact (List.cons.inj (List.append_cancel_left hqueued)).1.symm
  rw [hentry] at hpending
  exact ⟨a', hraw, hpending, by rw [← ha']⟩

theorem queueChunks_all {channelId : Bytes} (hchannel : channelId ≠ []) (payloads : List Bytes) {a : DcAdapter}
    (hroom : a.outCount + payloads.length ≤ dcOutQueueMax) :
    ∃ a', queueChunks channelId (payloads.map some) a = some a' ∧ pending a' = pending a ++ payloads.map (dcSlot channelId) := by
  induction payloads generalizing a with
  | nil => exact ⟨a, rfl, (List.append_nil _).symm⟩
  | cons payload payloads ih =>
    rw [List.length_cons] at hroom
    obtain ⟨a₁, hraw, hpending₁, hcount⟩ := queueRaw_entry payload hchannel (by omega : a.outCount < dcOutQueueMax)
    obtain ⟨a₂, hrest, hpending₂⟩ := ih (a := a₁) (by omega)
    refine ⟨a₂, ?_, ?_⟩
    · rw [List.map_cons, queueChunks, hraw, Option.bind_some, hrest]
    · rw [hpending₂, hpending₁, List.map_cons, List.append_assoc, List.singleton_append]

/-- The contents a text is sent as: its pieces, or one space. -/
def dcContents (clean : Bytes) : List Bytes := if clean = [] then [lit " "] else dcPieces clean

theorem dcContents_length (clean : Bytes) : (dcContents clean).length = max 1 (dcCountLoop clean) := by
  have hcount := dcCountLoop_pieces (Nat.le_refl clean.length)
  rw [dcContents]
  cases clean with
  | nil =>
    rw [if_pos rfl, hcount]
    rfl
  | cons c s =>
    rw [if_neg (List.cons_ne_nil c s), hcount, dcPieces, List.length_cons, pieces, List.length_cons]
    omega

/-- What one call does. -/
theorem dcQueueText_spec {text : Bytes} (hnul : NulFree text) (hlen : text.length < dcReplyMax) (channelId : Bytes) (a : DcAdapter) :
    if channelId = [] ∨ dcOutQueueMax < a.outCount then dcQueueText channelId text a = (.failed, a)
    else if dcOutQueueMax < a.outCount + (dcContents (dcClean text)).length then dcQueueText channelId text a = (.full, a)
    else ∃ a', dcQueueText channelId text a = (.ok, a') ∧
      pending a' = pending a ++ (dcContents (dcClean text)).map fun p => dcSlot channelId (contentText p) := by
  have hclean := dcClean_isClean text
  rw [dcContents_length, dcQueueText, dcSanitizeText_eq hnul hlen]
  split
  · rfl
  rename_i hargs
  rw [not_or] at hargs
  have hfree : dcOutQueueMax - a.outCount < max 1 (dcCountLoop (dcClean text)) ↔ dcOutQueueMax < a.outCount + max 1 (dcCountLoop (dcClean text)) := by omega
  simp only [hfree]
  split
  · rfl
  rename_i hroom
  rw [← dcContents_length] at hroom
  rw [dcEmitLoop_pieces channelId (Nat.le_refl _)]
  have hpayloads : (dcPieces (dcClean text)).map dcPayload = ((dcPieces (dcClean text)).map contentText).map some := by
    rw [List.map_map]
    exact List.map_congr_left fun p hp => dcPayload_eq (dcPieces_clean hclean p hp) (dcPieces_size _ p hp).2
  show ∃ a', dcQueueFinish channelId a ((queueChunks channelId ((dcPieces (dcClean text)).map dcPayload) a).map
    fun a' => (a', 0 + (dcPieces (dcClean text)).length)) = (.ok, a') ∧ _
  rw [hpayloads]
  rw [dcContents] at hroom ⊢
  by_cases hempty : dcClean text = []
  · rw [if_pos hempty] at hroom ⊢
    rw [hempty]
    obtain ⟨a', hraw, hpending, -⟩ := queueRaw_entry (lit "\x7b\"content\":\" \"\x7d") hargs.1
      (Nat.lt_of_succ_le (by simpa using hroom))
    refine ⟨a', ?_, hpending⟩
    have hfinish : dcQueueFinish channelId a (some (a, 0)) = (.ok, a') := by
      unfold dcQueueFinish
      simp only [hraw]
    exact hfinish
  · rw [if_neg hempty] at hroom ⊢
    obtain ⟨a', hchunks, hpending⟩ := queueChunks_all hargs.1 ((dcPieces (dcClean text)).map contentText) (a := a)
      (by rw [List.length_map]; omega)
    have hsome : ∃ n, 0 + (dcPieces (dcClean text)).length = n + 1 := by
      cases htext : dcClean text with
      | nil => exact absurd htext hempty
      | cons c s => exact ⟨_, Nat.zero_add _⟩
    obtain ⟨n, hn⟩ := hsome
    refine ⟨a', ?_, by rw [hpending, List.map_map]; rfl⟩
    rw [hchunks, Option.map_some, hn]
    rfl

/-! ## Whole replies -/

/-- The reply is in the queue behind what was there, as whole objects whose contents are the given texts. -/
structure Chunked (channelId text : Bytes) (a a' : DcAdapter) (ps : List Bytes) : Prop where
  entries : ∃ payloads : List Bytes, pending a' = pending a ++ payloads.map (fun payload => ⟨clip 128 channelId, payload⟩) ∧
    (∀ payload ∈ payloads, ∃ ms, ObjText payload ms) ∧ payloads.map contentOf = ps.map some
  sizes : ∀ p ∈ ps, 1 ≤ p.length ∧ p.length ≤ dcChunkMax
  utf8 : Utf8 text → ∀ p ∈ ps, Utf8 p
  joins : Tiles Blanks (dcClean text) ps ∨ (dcClean text = [] ∧ ps = [lit " "])
  agree : ps.length = max 1 (dcCountLoop (dcClean text))

/-- A call queues the whole reply, or reports what is missing and leaves the queue as it was. -/
def AllOrNone (channelId text : Bytes) (a : DcAdapter) (r : DcQueueRc × DcAdapter) : Prop :=
  (r = (.failed, a) ∧ (channelId = [] ∨ dcOutQueueMax < a.outCount)) ∨
    (r = (.full, a) ∧ dcOutQueueMax < a.outCount + max 1 (dcCountLoop (dcClean text))) ∨
    ∃ a' ps, r = (.ok, a') ∧ Chunked channelId text a a' ps

theorem contentText_fits {p : Bytes} (hp : IsClean p) (hlen : p.length ≤ dcChunkMax) : (contentText p).length < dcChunkMax * 2 + 64 := by
  have hescape := escaped_clean hp
  have hsize := contentText_length p
  omega

theorem dcContents_clean {clean : Bytes} (h : IsClean clean) : ∀ p ∈ dcContents clean, IsClean p ∧ 1 ≤ p.length ∧ p.length ≤ dcChunkMax := by
  intro p hp
  rw [dcContents] at hp
  split at hp
  · obtain rfl := List.mem_singleton.mp hp
    refine ⟨fun c hc => ?_, by decide, by decide⟩
    obtain rfl := List.mem_singleton.mp hc
    exact .inl (by decide)
  · exact ⟨dcPieces_clean h p hp, dcPieces_size _ p hp⟩

theorem dcSlot_contentText {p : Bytes} (hp : IsClean p) (hlen : p.length ≤ dcChunkMax) (channelId : Bytes) :
    dcSlot channelId (contentText p) = ⟨clip 128 channelId, contentText p⟩ := by
  rw [dcSlot, clip_eq_self (contentText_fits hp hlen)]

theorem contents_read {clean : Bytes} (h : IsClean clean) : ((dcContents clean).map contentText).map contentOf = (dcContents clean).map some := by
  have hmax : dcChunkMax < dcReplyMax := by decide
  rw [List.map_map]
  refine List.map_congr_left fun p hp => ?_
  obtain ⟨hclean, -, hlen⟩ := dcContents_clean h p hp
  rw [Function.comp_apply]
  exact contentOf_contentText hclean.nulFree (Nat.lt_of_le_of_lt hlen hmax)

theorem contents_entries {clean : Bytes} (h : IsClean clean) (channelId : Bytes) :
    (dcContents clean).map (fun p => dcSlot channelId (contentText p)) =
      ((dcContents clean).map contentText).map fun payload => ⟨clip 128 channelId, payload⟩ := by
  rw [List.map_map]
  refine List.map_congr_left fun p hp => ?_
  obtain ⟨hclean, -, hlen⟩ := dcContents_clean h p hp
  exact dcSlot_contentText hclean hlen channelId

/-- What a queued reply was cut into. -/
theorem Chunked.contents {channelId text : Bytes} {a a' : DcAdapter} {ps : List Bytes} (h : Chunked channelId text a a' ps)
    (hpending : pending a' = pending a ++ (dcContents (dcClean text)).map fun p => dcSlot channelId (contentText p)) : ps = dcContents (dcClean text) := by
  obtain ⟨payloads, hentries, -, hread⟩ := h.entries
  have hclean := dcClean_isClean text
  rw [contents_entries hclean] at hpending
  have hsame := List.append_cancel_left (hentries.symm.trans hpending)
  have hpayloads : payloads = (dcContents (dcClean text)).map contentText := by
    have hmap := congrArg (List.map DcOutbound.payload) hsame
    rw [List.map_map, List.map_map] at hmap
    have hid : DcOutbound.payload ∘ (fun payload => (⟨clip 128 channelId, payload⟩ : DcOutbound)) = id := rfl
    rwa [hid, List.map_id, List.map_id] at hmap
  rw [hpayloads, contents_read hclean] at hread
  exact (List.map_injective_iff.mpr (fun _ _ => Option.some.inj) hread).symm

theorem chunked_of_utf8 {channelId text : Bytes} {a a' : DcAdapter}
    (hpending : pending a' = pending a ++ (dcContents (dcClean text)).map fun p => dcSlot channelId (contentText p))
    (hutf8 : Utf8 text → ∀ p ∈ dcPieces (dcClean text), Utf8 p) : Chunked channelId text a a' (dcContents (dcClean text)) where
  entries := by
    refine ⟨(dcContents (dcClean text)).map contentText, ?_, fun payload hpayload => ?_, contents_read (dcClean_isClean text)⟩
    · rw [hpending, contents_entries (dcClean_isClean text)]
    · obtain ⟨p, -, rfl⟩ := List.mem_map.mp hpayload
      exact ⟨_, contentText_object p⟩
  sizes p hp := (dcContents_clean (dcClean_isClean text) p hp).2
  utf8 htext p hp := by
    rw [dcContents] at hp
    split at hp
    · obtain rfl := List.mem_singleton.mp hp
      exact .singleton (by decide)
    · exact hutf8 htext p hp
  joins := by
    rw [dcContents]
    split
    · exact .inr ⟨‹_›, rfl⟩
    · exact .inl (dcPieces_tile _)
  agree := dcContents_length _

/-- A queued text in UTF-8 has none of its pieces cut inside a code point. -/
theorem allOrNone_pieces {channelId text : Bytes} (hnul : NulFree text) (hlen : text.length < dcReplyMax) {a : DcAdapter}
    (h : AllOrNone channelId text a (dcQueueText channelId text a)) (hchannel : channelId ≠ [])
    (hroom : a.outCount + max 1 (dcCountLoop (dcClean text)) ≤ dcOutQueueMax) (htext : Utf8 text) : ∀ t ∈ dcStarts (dcClean text), CleanCut t := by
  have hspec := dcQueueText_spec hnul hlen channelId a
  rw [if_neg (by rintro (hc | hc); exact hchannel hc; omega), dcContents_length, if_neg (by omega)] at hspec
  obtain ⟨a', hok, hpending⟩ := hspec
  rw [hok] at h
  rcases h with ⟨heq, -⟩ | ⟨heq, -⟩ | ⟨a'', ps, heq, hchunked⟩
  · cases heq
  · cases heq
  · cases heq
    have hps := hchunked.contents hpending
    have hutf8 := hchunked.utf8 htext
    rw [hps, dcContents] at hutf8
    refine (dcPieces_utf8 (dcClean_utf8 htext)).mp fun p hp => ?_
    split at hutf8
    · rename_i hempty
      rw [hempty] at hp
      cases hp
    · exact hutf8 p hp

theorem dcStarts_count (clean : Bytes) : (dcStarts clean).length = dcCountLoop clean := by
  rw [dcCountLoop_pieces (Nat.le_refl _), ← dcPieces_length]
  rfl

/-- A reply is chunked as promised exactly when it is not queued, is no UTF-8 text, or no hard cut is inside a code point. -/
theorem reply_chunked_iff (channelId : Bytes) (a : DcAdapter) {text : Bytes} (hnul : NulFree text) (hlen : text.length < dcReplyMax) :
    AllOrNone channelId text a (dcQueueText channelId text a) ↔
      channelId = [] ∨ dcOutQueueMax < a.outCount + max 1 (dcStarts (dcClean text)).length ∨ ¬ Utf8 text ∨
        ∀ t ∈ dcStarts (dcClean text), CleanCut t := by
  rw [dcStarts_count]
  constructor
  · intro h
    by_cases hchannel : channelId = []
    · exact .inl hchannel
    by_cases hroom : dcOutQueueMax < a.outCount + max 1 (dcCountLoop (dcClean text))
    · exact .inr (.inl hroom)
    by_cases htext : Utf8 text
    · exact .inr (.inr (.inr (allOrNone_pieces hnul hlen h hchannel (Nat.le_of_not_lt hroom) htext)))
    · exact .inr (.inr (.inl htext))
  · intro h
    have hspec := dcQueueText_spec hnul hlen channelId a
    rw [dcContents_length] at hspec
    split at hspec
    · exact .inl ⟨hspec, ‹_›⟩
    rename_i hargs
    rw [not_or] at hargs
    split at hspec
    · exact .inr (.inl ⟨hspec, ‹_›⟩)
    obtain ⟨a', hok, hpending⟩ := hspec
    refine .inr (.inr ⟨a', _, hok, chunked_of_utf8 hpending fun htext => ?_⟩)
    rcases h with hchannel | hroom | hother | hcuts
    · exact absurd hchannel hargs.1
    · exact absurd hroom ‹_›
    · exact absurd htext hother
    · exact (dcPieces_utf8 (dcClean_utf8 htext)).mpr hcuts

/-- An adapter with nothing queued. -/
def idleAdapter : DcAdapter := { outq := fun _ => ⟨[], []⟩ }

/-- A short greeting is one chunk. -/
theorem reply_chunked_greeting : AllOrNone (lit "42") (lit "hello") idleAdapter (dcQueueText (lit "42") (lit "hello") idleAdapter) :=
  (reply_chunked_iff (lit "42") idleAdapter (.of_all (lit_all (by decide))) (by decide)).mpr
    (.inr (.inr (.inr fun t ht hhard => by
      have hstarts : dcStarts (dcClean (lit "hello")) = [lit "hello"] := by decide
      rw [hstarts, List.mem_singleton] at ht
      rw [ht] at hhard
      exact absurd hhard.1 (by decide))))

/-- A long word whose last letter lies across the limit. -/
def longWord : Bytes := List.replicate 1999 (ch 'a') ++ [0xC3, 0xA9]

theorem longWord_octets : ∀ c ∈ longWord, c = ch 'a' ∨ c = 0xC3 ∨ c = 0xA9 := by
  intro c hc
  rcases List.mem_append.mp hc with ha | he
  · exact .inl (List.eq_of_mem_replicate ha)
  · rcases List.mem_cons.mp he with rfl | he
    · exact .inr (.inl rfl)
    · exact .inr (.inr (List.mem_singleton.mp he))

theorem longWord_length : longWord.length = 2001 := by
  rw [longWord, List.length_append, List.length_replicate]
  rfl

theorem longWord_ne_nil : longWord ≠ [] := by
  rw [ne_eq, ← List.length_eq_zero_iff, longWord_length]
  decide

theorem longWord_clean : dcClean longWord = longWord := by
  have hsame : ∀ c ∈ longWord, dcCleanOctet c = [c] := by
    intro c hc
    rcases longWord_octets c hc with rfl | rfl | rfl <;> decide
  rw [dcClean, List.flatMap_def, List.map_congr_left hsame, ← List.flatMap_def, List.flatMap_singleton']

theorem longWord_hardCut : HardCut longWord := by
  have hplain : ∀ {i : Nat} {c : Byte}, longWord[i]? = some c → c ≠ ch '\n' ∧ c ≠ ch ' ' := by
    intro i c hc
    rcases longWord_octets c (List.mem_of_getElem? hc) with rfl | rfl | rfl <;> decide
  refine ⟨by rw [longWord_length]; decide, fun i _ _ => ⟨fun h => (hplain h).1 rfl, fun h => (hplain h).2 rfl⟩⟩

theorem longWord_tail : longWord.drop dcChunkMax = [0xA9] := by
  have hlen : (List.replicate 1999 (ch 'a') ++ [(0xC3 : Byte)]).length = dcChunkMax := by
    rw [List.length_append, List.length_replicate]
    rfl
  have hsplit : longWord = (List.replicate 1999 (ch 'a') ++ [0xC3]) ++ [0xA9] := by
    rw [longWord, List.append_assoc]
    rfl
  rw [hsplit, List.drop_left' hlen]

/-- The long word is valid UTF-8, and its first chunk is not. -/
theorem long_word_split :
    ¬ ∀ (channelId text : Bytes) (a : DcAdapter), NulFree text → text.length ≤ 8192 → AllOrNone channelId text a (dcQueueText channelId text a) := by
  intro hclaim
  have hnul : NulFree longWord := by
    intro c hc
    rcases longWord_octets c hc with rfl | rfl | rfl <;> decide
  have hlen : longWord.length < dcReplyMax := by
    rw [longWord_length]
    decide
  have htext : Utf8 longWord := by
    refine Utf8.append (.of_ascii fun c hc => ?_) (.cons (.two (by decide) (by decide) (by decide)) .nil)
    rw [List.eq_of_mem_replicate hc]
    decide
  have hcount : dcCountLoop longWord = (dcStarts longWord).length := (dcStarts_count longWord).symm
  have hroom : idleAdapter.outCount + max 1 (dcCountLoop (dcClean longWord)) ≤ dcOutQueueMax := by
    rw [longWord_clean, dcCountLoop, if_neg longWord_ne_nil]
    split
    · decide
    · rename_i hsome
      have hlast : dcChooseChunkLen longWord dcChunkMax = dcChunkMax := by
        rcases choose_cases longWord with ⟨hshort, -⟩ | ⟨i, c, h1, hn, hc, hblank, -⟩ | ⟨-, h⟩
        · exact absurd hshort (Nat.not_le.mpr longWord_hardCut.1)
        · rcases longWord_octets c (List.mem_of_getElem? hc) with rfl | rfl | rfl <;> exact absurd hblank (by decide)
        · exact h
      rw [hlast, longWord_tail]
      decide +kernel
  have hcuts := allOrNone_pieces hnul hlen (hclaim (lit "42") longWord idleAdapter hnul (by rw [longWord_length]; decide)) (by decide) hroom htext
  have hfirst := dcStarts_self longWord_ne_nil
  rw [longWord_clean] at hcuts
  have hstart := hcuts longWord hfirst longWord_hardCut
  rw [longWord_tail] at hstart
  exact absurd (hstart _ _ rfl) (by decide)

end Floofclaw.Guarantees.DiscordChunks
