import Floofclaw.Source.AffairWatcher
import Floofclaw.Guarantees.AffairStoreText
import Floofclaw.Guarantees.OperationRecords
import Floofclaw.Guarantees.StablePublication

/-!
# Affair reviews

A review envelope always fits its buffers and is read back by intake as the
review of its affair, in the context that the channel and the adapter make. A
tick takes up each affair at most once, so what it clears and what it publishes
can be compared turn by turn.
-/

set_option autoImplicit false

namespace Floofclaw.Guarantees.AffairReviews
open Floofclaw.Lib Floofclaw.Source.Json Floofclaw.Source.Inbound Floofclaw.Source.AffairState Floofclaw.Source.Bus
open Floofclaw.Source.AffairWatcher
open Floofclaw.Source.StoreFile hiding writeStore
open Floofclaw.Guarantees.AffairStoreText Floofclaw.Guarantees.StablePublication
open Floofclaw.Guarantees.OperationRecords (getString_printed stringField_printed zero_inLong)
open Floofclaw.Guarantees.StoreText (fsReadText_some)

/-! ## The text of a review -/

def reviewHead : Bytes := lit "(affair review) Check on this affair and respond: "

theorem reviewHead_plain : reviewHead.length = 50 ∧ ∀ c ∈ reviewHead, isPlain c = true := by
  have hall : reviewHead.all isPlain = true := by decide
  exact ⟨by decide, fun c hc => List.all_eq_true.mp hall c hc⟩

theorem reviewHead_nulFree : NulFree reviewHead := fun c hc => isPlain_ne_zero (reviewHead_plain.2 c hc)

section Text
variable {manage : Bytes} (hmanage : TextField rtMed manage)
include hmanage

theorem reviewText_eq : reviewText manage = reviewHead ++ manage := by
  have hlen := hmanage.fits
  have hhead := reviewHead_plain.1
  refine clip_eq_self (s := reviewHead ++ manage) ?_
  rw [List.length_append]
  simp only [rtMed, rtLarge] at *
  omega

theorem reviewText_nulFree : NulFree (reviewText manage) := by
  rw [reviewText_eq hmanage]
  exact reviewHead_nulFree.append hmanage.nulFree

theorem reviewText_escaped : (escaped (reviewText manage)).length ≤ 50 + 6 * 511 := by
  have hlen := hmanage.fits
  have hescaped := (escaped_length manage).2
  rw [reviewText_eq hmanage, escaped_append, List.length_append, escaped_plain reviewHead_plain.2, reviewHead_plain.1]
  simp only [rtMed] at hlen
  omega

end Text

theorem reviewText_length (manage : Bytes) : (reviewText manage).length < rtLarge := clip_length_lt (by decide) _

/-! ## The payload -/

def payloadMembers (text affairId adapter : Bytes) : List (Bytes × Bytes) :=
  [(lit "text", quoted (escaped text)), (lit "affair_id", quoted (escaped affairId)),
    (lit "adapter_id", quoted (escaped adapter))]

theorem payloadMembers_written (text affairId adapter : Bytes) : WrittenMembers (payloadMembers text affairId adapter) :=
  .key (by decide) (.text _) <| .key (by decide) (.text _) <| .key (by decide) (.text _) .nil

theorem payload_length {manage affairId adapter : Bytes} (hmanage : TextField rtMed manage)
    (haffair : (escaped affairId).length < rtMed) (hadapter : (escaped adapter).length < rtMed) :
    (objText (payloadMembers (reviewText manage) affairId adapter)).length < rtLarge + 256 := by
  have htext := reviewText_escaped hmanage
  have hkeys : (lit "text").length = 4 ∧ (lit "affair_id").length = 9 ∧ (lit "adapter_id").length = 10 := ⟨lit_length _, lit_length _, lit_length _⟩
  have hbody := membersText_length_le (payloadMembers (reviewText manage) affairId adapter)
  simp only [payloadMembers, List.map_cons, List.map_nil, List.sum_cons, List.sum_nil, quoted, List.length_cons,
    List.length_append, List.length_nil, hkeys] at hbody
  simp only [objText, List.length_cons, List.length_append, List.length_nil, rtLarge]
  simp only [rtMed] at haffair hadapter
  simp only [payloadMembers, quoted]
  omega

theorem payload_compact (text affairId adapter : Bytes) :
    CompactObject (objText (payloadMembers text affairId adapter)) (objText (payloadMembers text affairId adapter)) := by
  have hms := payloadMembers_written text affairId adapter
  have hstable : Squeezes (objText (payloadMembers text affairId adapter)) (objText (payloadMembers text affairId adapter)) := by
    refine Squeezes.objText fun m hm => ⟨plainKey_strBody (hms m hm).1, ?_⟩
    simp only [payloadMembers, List.mem_cons, List.not_mem_nil, or_false] at hm
    rcases hm with rfl | rfl | rfl
    all_goals exact .text _
  exact ⟨hstable, hstable, ObjText.inferType hms.objText, .objText hms⟩

/-! ## The channel and the adapter -/

def channelUsed (contextId : Bytes) : Bytes :=
  if reviewChannel contextId = [] then lit "tests" else reviewChannel contextId

theorem takeWhile_nulFree {s : Bytes} (h : NulFree s) (p : Byte → Bool) : NulFree (s.takeWhile p) :=
  fun c hc => h c ((List.takeWhile_sublist p).subset hc)

theorem drop_nulFree {s : Bytes} (h : NulFree s) (n : Nat) : NulFree (s.drop n) := fun c hc => h c (List.mem_of_mem_drop hc)

theorem channelUsed_nulFree {contextId : Bytes} (h : NulFree contextId) : NulFree (channelUsed contextId) := by
  unfold channelUsed
  split
  · exact .of_all (lit_all (by decide))
  · unfold reviewChannel
    split
    · exact clip_nulFree (takeWhile_nulFree (drop_nulFree h 5) _)
    · exact fun _ hmem => by cases hmem

theorem channelUsed_ne_nil (contextId : Bytes) : channelUsed contextId ≠ [] := by
  unfold channelUsed
  split
  · decide
  · assumption

theorem reviewAdapter_text {contextId : Bytes} (h : NulFree contextId) : TextField rtSmall (reviewAdapter contextId) := by
  unfold reviewAdapter
  split
  · split
    · rename_i c rest hrest
      split
      · refine clip_text (by decide) fun x hx => ?_
        have hmem : x ∈ (contextId.drop 5).drop (reviewChannel contextId).length := by
          rw [hrest]
          exact List.mem_cons_of_mem _ hx
        exact drop_nulFree (drop_nulFree h 5) _ x hmem
      · exact textField_nil (by decide)
    · exact textField_nil (by decide)
  · exact textField_nil (by decide)

/-! ## Publishing -/

/-- The bus takes a review of this affair in this context. -/
def publishable (turn : Turn) (bus : BusState) (affairId contextId : Bytes) : Bool :=
  (escaped affairId).length < rtMed && (escaped (reviewAdapter contextId)).length < rtMed &&
    (escaped (channelUsed contextId)).length < busChannelMax && turn.reservation = .granted && bus.counter < longMax &&
    turn.bus.directories && turn.bus.writable

/-- The publication of a review. -/
def reviewPublication (n : Nat) (affairId contextId manage : Bytes) : Publication :=
  numbered n (channelUsed contextId) (lit "affair_review")
    (objText (payloadMembers (reviewText manage) affairId (reviewAdapter contextId)))

/-- The members of the envelope a review is committed as. -/
def reviewMembers (n : Nat) (ts : Stamp) (affairId contextId manage : Bytes) : List (Bytes × Bytes) :=
  envelopeMembers (reviewPublication n affairId contextId manage) ts []
    (objText (payloadMembers (reviewText manage) affairId (reviewAdapter contextId)))

def reviewEnvelope (n : Nat) (ts : Stamp) (affairId contextId manage : Bytes) : Bytes × Bytes :=
  (envelopeName n, objText (reviewMembers n ts affairId contextId manage) ++ lit "\n")

theorem envelopeName_valid {n : Nat} (h : n ≤ longMax) : validEnvelopeId (envelopeName n) = true := by
  have hlen : (decPadded 6 n).length ≤ max 6 19 := decPadded_length (by decide) (by unfold longMax at h; omega)
  have hdrop : (envelopeName n).drop 4 = decPadded 6 n := List.drop_left' (by decide)
  have hprefix : (lit "bus_").isPrefixOf (envelopeName n) = true := List.isPrefixOf_iff_prefix.mpr (List.prefix_append _ _)
  have hne : decPadded 6 n ≠ [] := by
    intro hnil
    rw [decPadded, List.append_eq_nil_iff] at hnil
    exact decNat_ne_nil n hnil.2
  have hall : (decPadded 6 n).all isDigit = true := List.all_eq_true.mpr (decPadded_digits 6 n)
  have hfits : (envelopeName n).length < busIdMax := by
    rw [envelopeName, List.length_append, show (lit "bus_").length = 4 from lit_length _]
    unfold busIdMax
    omega
  simp [validEnvelopeId, hdrop, hprefix, hne, hall, hfits]

theorem reviewPublication_eq (n : Nat) (affairId : Bytes) {contextId : Bytes} (hcontext : NulFree contextId) (manage : Bytes) :
    (reviewPublication n affairId contextId manage).channel = channelUsed contextId ∧
      (reviewPublication n affairId contextId manage).type = lit "affair_review" ∧
      (reviewPublication n affairId contextId manage).payloadJson =
        objText (payloadMembers (reviewText manage) affairId (reviewAdapter contextId)) := by
  refine ⟨cstr_eq_self (channelUsed_nulFree hcontext), cstr_eq_self (.of_all (lit_all (by decide))), ?_⟩
  exact cstr_eq_self (CleanValue.objText (payloadMembers_written _ _ _)).nulFree

theorem reviewPublication_admissible {n : Nat} (hn : n ≤ longMax) {affairId contextId : Bytes} (hcontext : NulFree contextId)
    (manage : Bytes) : Admissible (reviewPublication n affairId contextId manage) := by
  refine ⟨envelopeName_valid hn, ?_, .inl rfl, Nat.zero_le _, Nat.zero_le _, Nat.zero_le _⟩
  rw [(reviewPublication_eq n affairId hcontext manage).2.2]
  have hms := payloadMembers_written (reviewText manage) affairId (reviewAdapter contextId)
  exact ⟨_, jsonRefTopObject_complete hms.objText (CleanValue.objText hms).nulFree⟩

theorem affairReview_type : escaped (lit "affair_review") = lit "affair_review" ∧ (lit "affair_review").length = 13 :=
  ⟨escaped_plain (fun c hc => List.all_eq_true.mp (by decide : (lit "affair_review").all isPlain = true) c hc), by decide⟩

/-- A review under a fresh name is committed exactly when the bus can write it and its channel fits. -/
theorem publish_fresh (io : BusIo) {disk : BusDisk} {n : Nat} (hn : n ≤ longMax) {affairId contextId manage : Bytes}
    (hcontext : NulFree contextId) (hmanage : TextField rtMed manage) (h1 : (escaped affairId).length < rtMed)
    (h2 : (escaped (reviewAdapter contextId)).length < rtMed) (hin : disk.inbox.lookup (envelopeName n) = none)
    (hpr : disk.processed.lookup (envelopeName n) = none) :
    (busPublishStableRouted io disk (reviewPublication n affairId contextId manage)).2.inbox =
      if (escaped (channelUsed contextId)).length < busChannelMax && io.directories && io.writable then
        reviewEnvelope n io.ts affairId contextId manage :: disk.inbox
      else disk.inbox := by
  have hp : Admissible (reviewPublication n affairId contextId manage) := reviewPublication_admissible hn hcontext manage
  obtain ⟨hchannel, htype, hpayload⟩ := reviewPublication_eq n affairId hcontext manage
  have hid : (reviewPublication n affairId contextId manage).envelopeId = envelopeName n := rfl
  have hrouting : routingJson (reviewPublication n affairId contextId manage).routing = some [] := rfl
  have hcompact := payload_compact (reviewText manage) affairId (reviewAdapter contextId)
  have hlen := payload_length hmanage h1 h2
  have hsqueezed : jsonCompact busPayloadMax (objText (payloadMembers (reviewText manage) affairId (reviewAdapter contextId))) =
      some (objText (payloadMembers (reviewText manage) affairId (reviewAdapter contextId))) := by
    rw [hcompact.compact hcompact.clean.nulFree, if_pos]
    unfold busPayloadMax
    unfold rtLarge at hlen
    omega
  have hkind : mirror busTypeMax (lit "affair_review") = some (lit "affair_review") := by
    obtain ⟨hplain, hshort⟩ := affairReview_type
    rw [mirror_eq (.of_all (lit_all (by decide))), hplain, hshort]
    rfl
  have htext := envelopeText_eq hp io.ts []
    (objText (payloadMembers (reviewText manage) affairId (reviewAdapter contextId)))
  rw [hchannel, htype, affairReview_type.1, hid] at htext
  have hcommit : commitEnvelope io disk (reviewPublication n affairId contextId manage) [] =
      if (escaped (channelUsed contextId)).length < busChannelMax && io.directories && io.writable then
        some { disk with inbox := reviewEnvelope n io.ts affairId contextId manage :: disk.inbox }
      else none := by
    simp only [commitEnvelope, hchannel, htype, hpayload, hsqueezed, hkind, mirror_eq (channelUsed_nulFree hcontext), hid,
      Option.bind_eq_bind, Option.bind_some, Option.pure_def]
    cases hdir : io.directories with
    | false => simp [guard]
    | true =>
      by_cases hfits : (escaped (channelUsed contextId)).length < busChannelMax
      · cases hwr : io.writable with
        | false => simp [guard, hfits]
        | true => simp [guard, hfits, htext, reviewEnvelope, reviewMembers]
      · simp [guard, hfits]
  unfold busPublishStableRouted
  rw [if_neg (by simpa using hp.validId), hrouting]
  dsimp only
  rw [if_neg (by simp), hid, hin, hpr]
  dsimp only
  rw [hcommit]
  generalize ((escaped (channelUsed contextId)).length < busChannelMax && io.directories && io.writable : Bool) = written
  cases written <;> rfl

/-- What a review leaves in the inbox. -/
theorem publishReview_inbox {turn : Turn} {bus : BusState} {affairId contextId manage : Bytes} (haffair : NulFree affairId)
    (hcontext : NulFree contextId) (hmanage : TextField rtMed manage) :
    (publishReview turn bus affairId contextId manage).disk.inbox =
      if publishable turn bus affairId contextId then
        reviewEnvelope (bus.counter + 1) turn.bus.ts affairId contextId manage :: bus.disk.inbox
      else bus.disk.inbox := by
  have htext : mirror rtLarge (reviewText manage) = some (escaped (reviewText manage)) := by
    have hlen := reviewText_escaped hmanage
    rw [mirror_eq (reviewText_nulFree hmanage), if_pos (by unfold rtLarge; omega)]
  unfold publishReview
  rw [htext, mirror_eq haffair, mirror_eq (reviewAdapter_text hcontext).nulFree]
  by_cases h1 : (escaped affairId).length < rtMed
  swap
  · simp [publishable, h1]
  by_cases h2 : (escaped (reviewAdapter contextId)).length < rtMed
  swap
  · simp [publishable, h2]
  rw [if_pos h1, if_pos h2]
  have hclip := clip_eq_self (payload_length hmanage h1 h2)
  rw [payloadMembers] at hclip
  dsimp only
  rw [hclip]
  change (busPublish turn.reservation turn.bus bus (channelUsed contextId) (lit "affair_review")
    (objText (payloadMembers (reviewText manage) affairId (reviewAdapter contextId)))).2.disk.inbox = _
  unfold busPublish
  by_cases h3 : bus.counter < longMax
  swap
  · rw [if_pos (by omega)]
    simp [publishable, h3]
  rw [if_neg (by omega)]
  cases hres : turn.reservation with
  | refused => simp [publishable, hres]
  | lost => simp [publishable, hres, BusState.skip]
  | granted =>
    obtain ⟨hin, hpr⟩ := bus.issued (bus.counter + 1) (by omega)
    have hfresh := publish_fresh turn.bus (n := bus.counter + 1) (by omega) hcontext hmanage h1 h2 hin hpr
    simp only [publishable, h1, h2, h3, hres, decide_true, Bool.true_and, Bool.and_true]
    exact hfresh

/-! ## Intake -/

section Intake
variable (read : FcMediaManifestRef → Option Bytes) (heap runId : Bytes)

/-- The affair an envelope asks to review and the context its run gets. -/
def intake (text : Bytes) : Option (Bytes × Bytes) :=
  match parseInboundEnvelope read text with
  | .error _ => none
  | .ok env =>
    if env.kind = .affairReview then
      (populateInboundContext heap runId none env).map fun inbound => (inbound.inboundAffairId, inbound.contextId)
    else none

/-- The context intake makes of the channel and the adapter of a review. -/
def rebuilt (contextId : Bytes) : Bytes :=
  lit "chat:" ++ channelUsed contextId ++ if reviewAdapter contextId = [] then [] else lit ":" ++ reviewAdapter contextId

section Members
variable {n : Nat} {ts : Stamp} {affairId contextId manage : Bytes}

theorem reviewMembers_written : WrittenMembers (reviewMembers n ts affairId contextId manage) :=
  envelopeMembers_written _ ts (.inl rfl) (CleanValue.objText (payloadMembers_written _ _ _))

theorem payload_get (key : Bytes) :
    jsonRefObjectGet (objText (payloadMembers (reviewText manage) affairId (reviewAdapter contextId))) key =
      assoc key (payloadMembers (reviewText manage) affairId (reviewAdapter contextId)) :=
  (payloadMembers_written _ _ _).get key

/-- What the parser makes of the payload. -/
theorem payload_body (hmanage : TextField rtMed manage) (haffair : TextField rtSmall affairId) (hne : affairId ≠ []) :
    parseAffairReview (objText (payloadMembers (reviewText manage) affairId (reviewAdapter contextId))) =
      .ok { affairId := affairId, userText := reviewText manage } := by
  have haff : jsonRefObjectGetString (objText (payloadMembers (reviewText manage) affairId (reviewAdapter contextId)))
      (lit "affair_id") rtSmall = some affairId := getString_printed haffair (payload_get _)
  have htext : stringField (objText (payloadMembers (reviewText manage) affairId (reviewAdapter contextId))) (lit "text")
      rtLarge [] = reviewText manage :=
    stringField_printed ⟨reviewText_nulFree hmanage, reviewText_length manage⟩ (payload_get _) []
  have hsome : reviewText manage ≠ [] := by
    rw [reviewText_eq hmanage]
    exact List.append_ne_nil_of_left_ne_nil (by decide) _
  have hrequired : requiredString (objText (payloadMembers (reviewText manage) affairId (reviewAdapter contextId)))
      (lit "affair_id") rtSmall = some affairId := by
    rw [requiredString, haff]
    simp [hne]
  rw [parseAffairReview, hrequired]
  simp only [htext, if_neg hsome]

theorem payload_route (hcontext : NulFree contextId) :
    payloadRoute (objText (payloadMembers (reviewText manage) affairId (reviewAdapter contextId))) =
      { adapterId := reviewAdapter contextId } := by
  have hadapter : stringField (objText (payloadMembers (reviewText manage) affairId (reviewAdapter contextId)))
      (lit "adapter_id") rtSmall [] = reviewAdapter contextId :=
    stringField_printed (reviewAdapter_text hcontext) (payload_get _) []
  have hcontextId : jsonRefObjectGet (objText (payloadMembers (reviewText manage) affairId (reviewAdapter contextId)))
      (lit "context_id") = none := payload_get _
  have href : jsonRefObjectGet (objText (payloadMembers (reviewText manage) affairId (reviewAdapter contextId)))
      (lit "ref") = none := payload_get _
  rw [payloadRoute, hadapter, stringField, hcontextId, jsonRefObjectGetObject, href]
  rfl

/-- The parsed form of a committed review; its first field is the id found in the text. -/
def parsedReview (envelopeId affairId contextId manage : Bytes) : ParsedEnvelope :=
  { kind := .affairReview, envelopeId := envelopeId, originEventId := [], type := lit "affair_review"
    channel := channelUsed contextId, userText := reviewText manage, adapterId := reviewAdapter contextId, contextId := []
    ref := none, affairId := affairId, action := [], actionTaskId := [], actionArgs := []
    payload := objText (payloadMembers (reviewText manage) affairId (reviewAdapter contextId)), mediaRef := none
    operationId := [], completionToken := [], claimCause := [] }

/-- The parser reads a committed review back. -/
theorem parse_review (hcontext : NulFree contextId) (hmanage : TextField rtMed manage)
    (haffair : TextField rtSmall affairId) (hne : affairId ≠ []) (h1 : (escaped affairId).length < rtMed)
    (h2 : (escaped (reviewAdapter contextId)).length < rtMed)
    (h3 : (escaped (channelUsed contextId)).length < busChannelMax) :
    ∃ id, parseInboundEnvelope read (reviewEnvelope n ts affairId contextId manage).2 =
      .ok (parsedReview id affairId contextId manage) := by
  have hms : WrittenMembers (reviewMembers n ts affairId contextId manage) := reviewMembers_written
  obtain ⟨hchannel, htype, -⟩ := reviewPublication_eq n affairId hcontext manage
  have hpayloadLen := payload_length hmanage h1 h2
  have hfirst := jsonRefFirstObject_line hms
  have hkind : jsonRefObjectGetString (objText (reviewMembers n ts affairId contextId manage)) (lit "type") busTypeMax =
      some (lit "affair_review") := by
    refine getString_printed ⟨.of_all (lit_all (by decide)), by decide⟩ ?_
    rw [hms.get, ← htype]
    rfl
  have hpayload : jsonRefObjectGet (objText (reviewMembers n ts affairId contextId manage)) (lit "payload") =
      some (objText (payloadMembers (reviewText manage) affairId (reviewAdapter contextId))) := by
    rw [hms.get]
    rfl
  have hobject : jsonRefObjectGetObject (objText (reviewMembers n ts affairId contextId manage)) (lit "payload") =
      some (objText (payloadMembers (reviewText manage) affairId (reviewAdapter contextId))) := by
    rw [jsonRefObjectGetObject, hpayload, Option.filter_some,
      if_pos (by simpa using ObjText.inferType (payloadMembers_written _ _ _).objText)]
  have hcopy : jsonRefValueCopy rtEventPayloadMax
      (objText (payloadMembers (reviewText manage) affairId (reviewAdapter contextId))) =
      some (objText (payloadMembers (reviewText manage) affairId (reviewAdapter contextId))) := by
    rw [jsonRefValueCopy, if_neg]
    unfold rtEventPayloadMax
    unfold rtLarge at hpayloadLen
    omega
  have hchannelField : channelField (objText (reviewMembers n ts affairId contextId manage)) = channelUsed contextId := by
    have hprinted : stringField (objText (reviewMembers n ts affairId contextId manage)) (lit "channel") busChannelMax
        (lit "bus") = channelUsed contextId :=
      stringField_printed ⟨channelUsed_nulFree hcontext, Nat.lt_of_le_of_lt (escaped_length _).1 h3⟩
        (by rw [hms.get, ← hchannel]; rfl) _
    rw [channelField, hprinted, if_neg (channelUsed_ne_nil contextId)]
  have hname : envelopeKind (lit "affair_review") = .ok .affairReview := by rw [lit_ofList]; decide
  refine ⟨stringField (objText (reviewMembers n ts affairId contextId manage)) (lit "event_id") rtSmall [], ?_⟩
  rw [parseInboundEnvelope, reviewEnvelope]
  simp only [hfirst, hkind, hname, hobject, hcopy, parseBody, payload_body hmanage haffair hne, payload_route hcontext,
    hchannelField, reduceCtorEq, if_false, parsedReview]

theorem inboundContextId_review (id : Bytes) (hcontext : NulFree contextId)
    (h3 : (escaped (channelUsed contextId)).length < busChannelMax) :
    inboundContextId (parsedReview id affairId contextId manage) = rebuilt contextId := by
  have hlen := Nat.lt_of_le_of_lt (escaped_length (channelUsed contextId)).1 h3
  have hadapterLen := (reviewAdapter_text hcontext).fits
  have hlits : (lit "chat:").length = 5 ∧ (lit ":").length = 1 := ⟨lit_length _, lit_length _⟩
  change (if reviewAdapter contextId ≠ [] then
    clip rtMed (lit "chat:" ++ channelUsed contextId ++ lit ":" ++ reviewAdapter contextId)
    else clip rtMed (lit "chat:" ++ channelUsed contextId)) = rebuilt contextId
  unfold rebuilt
  unfold busChannelMax at hlen
  unfold rtSmall at hadapterLen
  by_cases hnone : reviewAdapter contextId = []
  · rw [if_neg (not_not.mpr hnone), if_pos hnone, List.append_nil, clip_eq_self]
    simp only [List.length_append, hlits, rtMed]
    omega
  · rw [if_pos hnone, if_neg hnone, clip_eq_self, List.append_assoc _ (lit ":")]
    simp only [List.length_append, hlits, rtMed]
    omega

/-- Intake takes a committed review as the review of its affair. -/
theorem intake_review (hcontext : NulFree contextId) (hmanage : TextField rtMed manage)
    (haffair : TextField rtSmall affairId) (hne : affairId ≠ []) (h1 : (escaped affairId).length < rtMed)
    (h2 : (escaped (reviewAdapter contextId)).length < rtMed)
    (h3 : (escaped (channelUsed contextId)).length < busChannelMax) :
    intake read heap runId (reviewEnvelope n ts affairId contextId manage).2 = some (affairId, rebuilt contextId) := by
  obtain ⟨id, hparse⟩ := @parse_review read n ts affairId contextId manage hcontext hmanage haffair hne h1 h2 h3
  have hcontextId : inboundContextId (parsedReview id affairId contextId manage) = rebuilt contextId :=
    inboundContextId_review id hcontext h3
  have hkind : (parsedReview id affairId contextId manage).kind = .affairReview := rfl
  have hid : (parsedReview id affairId contextId manage).affairId = affairId := rfl
  have hescaped : mirror (rtLarge * 2) (parsedReview id affairId contextId manage).userText =
      some (escaped (reviewText manage)) := by
    have hlen := reviewText_escaped hmanage
    exact (mirror_eq (reviewText_nulFree hmanage)).trans (if_pos (by unfold rtLarge; omega))
  generalize parsedReview id affairId contextId manage = env at hparse hcontextId hkind hid hescaped
  obtain ⟨payload, hpayload⟩ : ∃ payload, inboundPayload env (escaped (reviewText manage)) = some payload := by
    rw [inboundPayload, hkind]
    exact ⟨_, rfl⟩
  rw [intake, hparse]
  dsimp only
  rw [if_pos hkind, populateInboundContext, if_neg (by rw [hkind]; decide)]
  simp only [hescaped, hpayload, Option.bind_eq_bind, Option.bind_some, Option.pure_def, Option.map_some, hid, hcontextId]

end Members

end Intake

/-! ## Contexts that come back -/

/-- A context that is a channel, or a channel and an adapter within its buffer. -/
def rebuilds (contextId : Bytes) : Bool :=
  (lit "chat:").isPrefixOf contextId && !((contextId.drop 5).takeWhile fun c => c ≠ ch ':').isEmpty &&
    match (contextId.drop 5).dropWhile fun c => c ≠ ch ':' with
    | [] => true
    | _ :: adapter => !adapter.isEmpty && adapter.length < rtSmall

theorem clip_eq_iff {cap : Nat} (hcap : 0 < cap) (s : Bytes) : clip cap s = s ↔ s.length < cap := by
  constructor
  · intro h
    have := clip_length_lt hcap s
    rwa [h] at this
  · exact clip_eq_self

theorem isPrefixOf_append (p s : Bytes) : p.isPrefixOf (p ++ s) = true := List.isPrefixOf_iff_prefix.mpr (List.prefix_append p s)

/-- A review whose channel fits the envelope comes back to its context exactly in these cases. -/
theorem rebuilt_eq_iff {contextId : Bytes} (h : (escaped (channelUsed contextId)).length < busChannelMax) :
    rebuilt contextId = contextId ↔ rebuilds contextId = true := by
  have hlen := Nat.lt_of_le_of_lt (escaped_length (channelUsed contextId)).1 h
  clear h
  cases hchat : (lit "chat:").isPrefixOf contextId with
  | false =>
    have hno : rebuilds contextId = false := by simp [rebuilds, hchat]
    rw [hno]
    constructor
    · intro heq
      have hprefix : (lit "chat:").isPrefixOf (rebuilt contextId) = true := by
        rw [rebuilt, List.append_assoc]
        exact isPrefixOf_append _ _
      rw [heq, hchat] at hprefix
      cases hprefix
    · intro hfalse
      cases hfalse
  | true =>
    obtain ⟨p, rfl⟩ := List.isPrefixOf_iff_prefix.mp hchat
    have hdrop : (lit "chat:" ++ p).drop 5 = p := List.drop_left' (lit_length _)
    have hsplit := List.takeWhile_append_dropWhile (p := fun c => decide (c ≠ ch ':')) (l := p)
    have hcolon : ∀ x r, p.dropWhile (fun c => decide (c ≠ ch ':')) = x :: r → x = ch ':' := by
      intro x r hx
      have hhead := List.head?_dropWhile_not (fun c => decide (c ≠ ch ':')) p
      rw [hx] at hhead
      simpa using hhead
    simp only [rebuilds, rebuilt, channelUsed, reviewChannel, reviewAdapter, hchat, hdrop, if_true, Bool.true_and] at hlen ⊢
    generalize p.takeWhile (fun c => decide (c ≠ ch ':')) = c at hsplit hlen
    generalize p.dropWhile (fun c => decide (c ≠ ch ':')) = rest at hsplit hcolon
    subst hsplit
    by_cases hempty : c = []
    · -- the channel falls back to the default, which is not what the context says
      subst hempty
      simp only [clip, List.take_nil, if_true, List.isEmpty_nil, Bool.not_true, Bool.false_and, Bool.false_eq_true, iff_false,
        List.nil_append]
      intro heq
      rw [List.append_assoc, List.append_cancel_left_eq] at heq
      cases rest with
      | nil => exact absurd (List.append_eq_nil_iff.mp heq).1 (by decide)
      | cons x r =>
        obtain rfl := hcolon x r rfl
        rw [show lit "tests" = ch 't' :: lit "ests" by decide, List.cons_append] at heq
        exact absurd (List.cons.inj heq).1 (by decide)
    · have hshort : c.length < rtSmall := by
        have hclip : clip rtSmall c ≠ [] := by
          intro hnil
          have hcut : (clip rtSmall c).length = min (rtSmall - 1) c.length := List.length_take
          have hpos := List.length_pos_of_ne_nil hempty
          rw [hnil, List.length_nil] at hcut
          unfold rtSmall at hcut
          omega
        rw [if_neg hclip] at hlen
        have hcut : (clip rtSmall c).length = min (rtSmall - 1) c.length := List.length_take
        unfold busChannelMax at hlen
        unfold rtSmall at hcut hlen ⊢
        omega
      rw [clip_eq_self hshort, if_neg hempty, List.drop_left]
      have hsome : (!c.isEmpty) = true := by simpa using hempty
      rw [hsome, Bool.true_and]
      cases rest with
      | nil => simp
      | cons x r =>
        obtain rfl := hcolon x r rfl
        simp only [if_true]
        cases r with
        | nil => simp [clip]
        | cons y r =>
          have hne : clip rtSmall (y :: r) ≠ [] := by simp [clip, rtSmall]
          rw [if_neg hne]
          have hone : lit ":" = [ch ':'] := by decide
          have hiff : clip rtSmall (y :: r) = y :: r ↔ (y :: r).length < rtSmall := clip_eq_iff (by decide) (y :: r)
          simp [hone, hiff]

/-! ## The store during a tick -/

/-- The store a readable file holds. -/
def held (file : Option Bytes) : AffairStore := loadStore (fsReadText {} file)

theorem loadStore_read (io : FileIo) (file : Option Bytes) :
    loadStore (fsReadText io file) = if io.readable then held file else [] := by
  unfold held fsReadText
  cases io.readable
  · rfl
  · simp

theorem held_printable (file : Option Bytes) : (∀ a ∈ held file, Printable a) ∧ (held file).length ≤ affairMaxItems :=
  loadStore_printable _

/-- The reviewed item. -/
def clearedItem (ms : Int) (a : AffairItem) : AffairItem := { a with nextReviewAtMs := 0, updatedMs := ms }

theorem affairFind_some {st : AffairStore} {id : Bytes} {a : AffairItem} (h : affairFind st id = some a) :
    a.affairId = id ∧ id ≠ [] ∧ a ∈ st := by
  unfold affairFind at h
  split at h
  · cases h
  · rename_i hne
    exact ⟨by simpa [hasId] using List.find?_some h, hne, List.mem_of_find?_eq_some h⟩

theorem affairFind_update {st : AffairStore} {id : Bytes} {a a' : AffairItem} (ha : affairFind st id = some a)
    (hid : a'.affairId = id) (other : Bytes) :
    affairFind (affairUpdate id (fun _ => a') st) other = if other = id then some a' else affairFind st other := by
  obtain ⟨-, hne, -⟩ := affairFind_some ha
  rw [affairFind, if_neg hne] at ha
  have hfind := find?_rewritten (p := fun k a => hasId k a) (fun k x => (by simp [hasId] : hasId k x = true ↔ x.affairId = k))
    (g := fun _ => a') (k := id) (fun x hx => hid.trans hx.symm) other st
  unfold affairFind affairUpdate
  by_cases hother : other = id
  · subst hother
    rw [if_neg hne, if_pos rfl, hfind, if_pos rfl, ha]
    rfl
  · rw [if_neg hother]
    split
    · rfl
    · rw [hfind, if_neg (Ne.symm hother)]

/-- The store can take the mark: its file is read and written, and the id and the new store fit. -/
def clearable (turn : Turn) (actualWallMs : Nat) (affairId : Bytes) (file : Option Bytes) : Bool :=
  turn.review.readable && turn.review.writable && (escaped affairId).length < rtMed &&
    ((reduce turn.now (held file) (reviewedEvent actualWallMs (escaped affairId))).bind writeStore).isSome

/-- The event clears the affair it names, at one time or the other. -/
theorem reviewedEvent_reduce (now : Int) (hnow : int64Min ≤ now ∧ now ≤ int64Max) (actualWallMs : Nat) {id : Bytes}
    (hid : TextField rtSmall id) :
    ∃ ms, (int64Min ≤ ms ∧ ms ≤ int64Max) ∧ ∀ st, reduce now st (reviewedEvent actualWallMs (escaped id)) =
      (affairFind st id).map fun a => affairUpdate id (fun _ => clearedItem ms a) st := by
  have hms : WrittenMembers [(lit "affair_id", quoted (escaped id)), (lit "ms", decNat actualWallMs)] :=
    .key (by decide) (.text _) <| .key (by decide) (.long (actualWallMs : Int)) .nil
  have htop := jsonRefTopObject_complete hms.objText (CleanValue.objText hms).nulFree
  have hget := getString_printed hid (hms.get (lit "affair_id"))
  have hlong := jsonRefObjectGetLong_range (objText [(lit "affair_id", quoted (escaped id)), (lit "ms", decNat actualWallMs)])
    (lit "ms") (by decide : int64Min ≤ 0 ∧ 0 ≤ int64Max)
  have htype : cstr (lit "affair_reviewed") = lit "affair_reviewed" := by rw [lit_ofList]; decide
  have hkind : rtAffairIsEventType (lit "affair_reviewed") = true := by rw [lit_ofList]; decide
  have hname : lit "affair_reviewed" ≠ lit "affair_patch" ∧ lit "affair_reviewed" ≠ lit "affair_note_added" ∧
      lit "affair_reviewed" ≠ lit "affair_counter_bumped" ∧ lit "affair_reviewed" ≠ lit "affair_task_linked" := by (repeat rw [lit_ofList]); decide
  simp only [reviewedEvent, reduce, htype, rtAffairApplyEvent, hkind, htop, Bool.not_true, Bool.false_eq_true, if_false,
    if_neg hname.1, if_neg hname.2.1, if_neg hname.2.2.1, if_neg hname.2.2.2, applyReviewed, hget, Option.bind_eq_bind,
    Option.bind_some, changeAffair]
  generalize (jsonRefObjectGetLong (objText [(lit "affair_id", quoted (escaped id)), (lit "ms", decNat actualWallMs)])
    (lit "ms") 0).1 = ms at hlong
  refine ⟨if ms ≠ 0 then ms else now, ?_, ?_⟩
  · split
    · exact hlong
    · exact hnow
  · intro st
    cases affairFind st id <;> rfl

theorem affairUpdate_printable {st : AffairStore} {id : Bytes} {a' : AffairItem} (hst : ∀ a ∈ st, Printable a)
    (ha' : Printable a') : ∀ a ∈ affairUpdate id (fun _ => a') st, Printable a := by
  intro x hx
  rcases mem_modifyFirst hx with hx | ⟨-, -, rfl⟩
  · exact hst x hx
  · exact ha'

/-- A mark that can be written clears the review time of its affair; any other leaves the file alone. -/
theorem markReviewed_held (turn : Turn) (actualWallMs : Nat) {file : Option Bytes} {id : Bytes} {a : AffairItem}
    (ha : affairFind (held file) id = some a) :
    if clearable turn actualWallMs id file then
      ∃ ms, held (markReviewed turn actualWallMs id file) = affairUpdate id (fun _ => clearedItem ms a) (held file)
    else markReviewed turn actualWallMs id file = file := by
  obtain ⟨rfl, -, hmem⟩ := affairFind_some ha
  have hprintable := (held_printable file).1 a hmem
  have hid := hprintable.affairId
  obtain ⟨ms, hmsLong, hreduce⟩ := reviewedEvent_reduce turn.now turn.nowLong actualWallMs hid
  unfold clearable markReviewed
  rw [mirror_eq hid.nulFree]
  by_cases hfits : (escaped a.affairId).length < rtMed
  swap
  · simp [hfits]
  rw [if_pos hfits]
  dsimp only
  unfold call
  rw [loadStore_read]
  cases hread : turn.review.readable with
  | false =>
    have hnone : affairFind [] a.affairId = none := by
      unfold affairFind
      split <;> rfl
    simp [hreduce, hnone]
  | true =>
    simp only [if_true, hreduce, ha, Option.map_some, Option.bind_some]
    cases hw : writeStore (affairUpdate a.affairId (fun _ => clearedItem ms a) (held file)) with
    | none => simp
    | some text =>
      cases hwrite : turn.review.writable with
      | false => simp
      | true =>
        simp only [hfits, decide_true, Bool.and_self, Option.isSome_some, if_true]
        have hcleared : Printable (clearedItem ms a) :=
          { hprintable with nextReviewAtMs := zero_inLong, updatedMs := hmsLong }
        have hroom : (affairUpdate a.affairId (fun _ => clearedItem ms a) (held file)).length ≤ affairMaxItems := by
          rw [affairUpdate, length_modifyFirst]
          exact (held_printable file).2
        obtain ⟨hback, hsmall⟩ := loadStore_writeStore (affairUpdate_printable (held_printable file).1 hcleared) hroom hw
        refine ⟨ms, ?_⟩
        rw [held, fsReadText_some rfl (by unfold fsReadTextDefaultCap; unfold rtXl at hsmall; omega), hback]

/-! ## Turns -/

/-- The affair a turn takes up. -/
def takesUp (t : Tick) (s : State) (due : Bytes × Nat) : Option AffairItem :=
  if (t.turns due.2).contextReadable then
    (affairFind (held s.file) due.1).filter fun a =>
      !contextHasActiveRun t a.contextId && !s.firedContexts.contains a.contextId
  else none

theorem takesUp_some {t : Tick} {s : State} {due : Bytes × Nat} {a : AffairItem} (h : takesUp t s due = some a) :
    (t.turns due.2).contextReadable = true ∧ affairFind (held s.file) due.1 = some a ∧
      contextHasActiveRun t a.contextId = false ∧ a.contextId ∉ s.firedContexts := by
  unfold takesUp at h
  split at h
  · rename_i hread
    obtain ⟨hfind, hfree⟩ := Option.filter_eq_some_iff.mp h
    simp only [Bool.and_eq_true, Bool.not_eq_true', List.contains_eq_mem, decide_eq_false_iff_not] at hfree
    exact ⟨hread, hfind, hfree.1, hfree.2⟩
  · cases h

theorem dueTurn_none {t : Tick} {s : State} {due : Bytes × Nat} (h : takesUp t s due = none) : dueTurn t s due = s := by
  unfold dueTurn rtAffairContextIdOf
  unfold takesUp at h
  dsimp only
  rw [loadStore_read]
  dsimp only
  cases hread : (t.turns due.2).contextReadable with
  | false =>
    have hnone : affairFind [] due.1 = none := by
      unfold affairFind
      split <;> rfl
    simp [hnone]
  | true =>
    rw [hread, if_pos rfl, Option.filter_eq_none_iff] at h
    rw [if_pos rfl]
    cases hfind : affairFind (held s.file) due.1 with
    | none => rfl
    | some a =>
      have hbusy := h a hfind
      simp only [Bool.and_eq_true, Bool.not_eq_true', List.contains_eq_mem, decide_eq_false_iff_not, not_and, not_not] at hbusy
      simp only [Option.map_some]
      rw [if_pos]
      cases hactive : contextHasActiveRun t a.contextId with
      | true => exact .inl rfl
      | false => exact .inr (hbusy hactive)

/-- The inbox after a turn that takes up an affair. -/
def inboxAfter (t : Tick) (s : State) (due : Bytes × Nat) (a : AffairItem) : Dir :=
  if (t.turns due.2).manageReadable && publishable (t.turns due.2) s.bus due.1 a.contextId then
    reviewEnvelope (s.bus.counter + 1) (t.turns due.2).bus.ts due.1 a.contextId a.manage :: s.bus.disk.inbox
  else s.bus.disk.inbox

/-- The bus after a turn that takes up an affair. -/
def busAfter (t : Tick) (s : State) (due : Bytes × Nat) (a : AffairItem) : BusState :=
  match rtAffairGetManage due.1 (loadStore (fsReadText { readable := (t.turns due.2).manageReadable } s.file)) with
  | none => s.bus
  | some manage => publishReview (t.turns due.2) s.bus due.1 a.contextId manage

theorem dueTurn_some {t : Tick} {s : State} {due : Bytes × Nat} {a : AffairItem} (h : takesUp t s due = some a) :
    (dueTurn t s due).file = markReviewed (t.turns due.2) t.actualWallMs due.1 s.file ∧
      (dueTurn t s due).firedContexts = s.firedContexts ++ [a.contextId] ∧
      (dueTurn t s due).bus.disk.inbox = inboxAfter t s due a := by
  obtain ⟨hread, hfind, hidle, hfresh⟩ := takesUp_some h
  obtain ⟨hid, -, hmem⟩ := affairFind_some hfind
  have hprintable := (held_printable s.file).1 a hmem
  have hturn : dueTurn t s due =
      { file := markReviewed (t.turns due.2) t.actualWallMs due.1 s.file
        bus := busAfter t s due a
        firedContexts := s.firedContexts ++ [a.contextId] } := by
    unfold dueTurn rtAffairContextIdOf
    dsimp only
    rw [loadStore_read { readable := (t.turns due.2).contextReadable }]
    simp only [hread, if_true, hfind, Option.map_some]
    have hgo : ¬ (contextHasActiveRun t a.contextId = true ∨ a.contextId ∈ s.firedContexts) := by simp [hidle, hfresh]
    refine (if_neg hgo).trans ?_
    rfl
  rw [hturn]
  refine ⟨rfl, rfl, ?_⟩
  unfold busAfter rtAffairGetManage inboxAfter
  dsimp only
  rw [loadStore_read]
  dsimp only
  cases hmanage : (t.turns due.2).manageReadable with
  | false =>
    have hnone : affairFind [] due.1 = none := by
      unfold affairFind
      split <;> rfl
    simp [hnone]
  | true =>
    simp only [if_true, hfind, Option.map_some, Bool.true_and]
    exact publishReview_inbox (hid ▸ hprintable.affairId.nulFree) hprintable.contextId.nulFree hprintable.manage

/-! ## The fate of one affair -/

section Fate
variable (read : FcMediaManifestRef → Option Bytes) (heap runId : Bytes)

/-- An entry of the inbox that asks to review the affair. -/
def reviewOf (id : Bytes) (e : Bytes × Bytes) : Bool := (intake read heap runId e.2).map (·.1) = some id

/-- What a tick can change about one affair: its record, and the reviews of it in the inbox. -/
def view (id : Bytes) (s : State) : Option AffairItem × Dir :=
  (affairFind (held s.file) id, s.bus.disk.inbox.filter (reviewOf read heap runId id))

variable {t : Tick}

/-- A review published by a turn is one of its own affair, in the rebuilt context. -/
theorem published_intake {s : State} {due : Bytes × Nat} {a : AffairItem} (h : takesUp t s due = some a)
    (hpub : publishable (t.turns due.2) s.bus due.1 a.contextId = true) :
    intake read heap runId
      (reviewEnvelope (s.bus.counter + 1) (t.turns due.2).bus.ts due.1 a.contextId a.manage).2 =
        some (due.1, rebuilt a.contextId) := by
  obtain ⟨-, hfind, -, -⟩ := takesUp_some h
  obtain ⟨hid, hne, hmem⟩ := affairFind_some hfind
  have hprintable := (held_printable s.file).1 a hmem
  simp only [publishable, Bool.and_eq_true, decide_eq_true_eq] at hpub
  obtain ⟨⟨⟨⟨⟨⟨h1, h2⟩, h3⟩, -⟩, -⟩, -⟩, -⟩ := hpub
  exact intake_review read heap runId hprintable.contextId.nulFree hprintable.manage (hid ▸ hprintable.affairId) hne h1 h2 h3

/-- The record of the affair a turn takes up, after it. -/
theorem dueTurn_record {s : State} {due : Bytes × Nat} {a : AffairItem} (h : takesUp t s due = some a) (id : Bytes) :
    if clearable (t.turns due.2) t.actualWallMs due.1 s.file then
      ∃ ms, affairFind (held (dueTurn t s due).file) id =
        if id = due.1 then some (clearedItem ms a) else affairFind (held s.file) id
    else affairFind (held (dueTurn t s due).file) id = affairFind (held s.file) id := by
  obtain ⟨-, hfind, -, -⟩ := takesUp_some h
  have hmark := markReviewed_held (t.turns due.2) t.actualWallMs hfind
  rw [(dueTurn_some h).1]
  split
  · rename_i hclear
    rw [if_pos hclear] at hmark
    obtain ⟨ms, hms⟩ := hmark
    exact ⟨ms, by rw [hms, affairFind_update hfind (by exact (affairFind_some hfind).1 : (clearedItem ms a).affairId = due.1)]⟩
  · rename_i hclear
    rw [if_neg hclear] at hmark
    rw [hmark]

/-- A turn for another affair changes neither. -/
theorem dueTurn_other {s : State} {due : Bytes × Nat} {id : Bytes} (hne : due.1 ≠ id) :
    view read heap runId id (dueTurn t s due) = view read heap runId id s := by
  cases h : takesUp t s due with
  | none => rw [dueTurn_none h]
  | some a =>
    have hrecord : affairFind (held (dueTurn t s due).file) id = affairFind (held s.file) id := by
      have hturn := dueTurn_record h id
      split at hturn
      · obtain ⟨ms, hms⟩ := hturn
        rwa [if_neg (Ne.symm hne)] at hms
      · exact hturn
    unfold view
    rw [hrecord, (dueTurn_some h).2.2, inboxAfter]
    split
    · rename_i hpub
      simp only [Bool.and_eq_true] at hpub
      have hforeign : reviewOf read heap runId id
          (reviewEnvelope (s.bus.counter + 1) (t.turns due.2).bus.ts due.1 a.contextId a.manage) = false := by
        rw [reviewOf, published_intake read heap runId h hpub.2]
        simpa using hne
      rw [List.filter_cons_of_neg (by simpa using hforeign)]
    · rfl

omit read heap runId in
theorem dueTurn_fired {s : State} {context : Bytes} (h : context ∈ s.firedContexts) (due : Bytes × Nat) :
    context ∈ (dueTurn t s due).firedContexts := by
  cases htakes : takesUp t s due with
  | none => rwa [dueTurn_none htakes]
  | some a =>
    rw [(dueTurn_some htakes).2.1]
    exact List.mem_append_left _ h

omit read heap runId in
theorem foldl_fired {s : State} {context : Bytes} (h : context ∈ s.firedContexts) (dues : List (Bytes × Nat)) :
    context ∈ (dues.foldl (dueTurn t) s).firedContexts := by
  induction dues generalizing s with
  | nil => exact h
  | cons due dues ih => exact ih (dueTurn_fired h due)

/-- An affair whose context has fired is left alone for the rest of the tick. -/
theorem fired_quiet {s : State} {a : AffairItem} {id : Bytes} (ha : affairFind (held s.file) id = some a)
    (hfired : a.contextId ∈ s.firedContexts) (dues : List (Bytes × Nat)) :
    view read heap runId id (dues.foldl (dueTurn t) s) = view read heap runId id s := by
  induction dues generalizing s with
  | nil => rfl
  | cons due dues ih =>
    rw [List.foldl_cons]
    by_cases hid : due.1 = id
    · have hskip : takesUp t s due = none := by
        cases h : takesUp t s due with
        | none => rfl
        | some b =>
          obtain ⟨-, hfind, -, hfresh⟩ := takesUp_some h
          rw [hid, ha, Option.some.injEq] at hfind
          exact absurd hfired (hfind ▸ hfresh)
      rw [dueTurn_none hskip]
      exact ih ha hfired
    · have hsame := dueTurn_other read heap runId (t := t) (s := s) hid
      have hrecord : affairFind (held (dueTurn t s due).file) id = some a := (congrArg Prod.fst hsame).trans ha
      exact (ih hrecord (dueTurn_fired hfired due)).trans hsame

/-- A turn that takes an affair up leaves it in a context that has fired. -/
theorem dueTurn_fires {s : State} {due : Bytes × Nat} {a : AffairItem} (h : takesUp t s due = some a) :
    ∃ b, affairFind (held (dueTurn t s due).file) due.1 = some b ∧ b.contextId ∈ (dueTurn t s due).firedContexts := by
  obtain ⟨-, hfind, -, -⟩ := takesUp_some h
  have hturn := dueTurn_record h due.1
  rw [(dueTurn_some h).2.1]
  split at hturn
  · obtain ⟨ms, hms⟩ := hturn
    exact ⟨_, hms.trans (if_pos rfl), List.mem_append_right _ (List.mem_singleton.mpr rfl)⟩
  · exact ⟨a, hturn.trans hfind, List.mem_append_right _ (List.mem_singleton.mpr rfl)⟩

/-- Over a list of turns an affair is left alone, or one turn takes it up and nothing else happens to it. -/
theorem fate (id : Bytes) (dues : List (Bytes × Nat)) (s : State) :
    view read heap runId id (dues.foldl (dueTurn t) s) = view read heap runId id s ∨
      ∃ (before : List (Bytes × Nat)) (due : Bytes × Nat) (after : List (Bytes × Nat)) (a : AffairItem), dues = before ++ due :: after ∧
        due.1 = id ∧ takesUp t (before.foldl (dueTurn t) s) due = some a ∧
        view read heap runId id (before.foldl (dueTurn t) s) = view read heap runId id s ∧
        view read heap runId id (dues.foldl (dueTurn t) s) =
          view read heap runId id (dueTurn t (before.foldl (dueTurn t) s) due) := by
  induction dues generalizing s with
  | nil => exact .inl rfl
  | cons due dues ih =>
    by_cases htakes : due.1 = id ∧ ∃ a, takesUp t s due = some a
    · obtain ⟨rfl, a, ha⟩ := htakes
      obtain ⟨b, hb, hfired⟩ := dueTurn_fires ha
      exact .inr ⟨[], due, dues, a, rfl, rfl, ha, rfl, fired_quiet read heap runId hb hfired dues⟩
    · have hsame : view read heap runId id (dueTurn t s due) = view read heap runId id s := by
        by_cases hid : due.1 = id
        · have hskip : takesUp t s due = none := by
            cases h : takesUp t s due with
            | none => rfl
            | some a => exact absurd ⟨hid, a, h⟩ htakes
          rw [dueTurn_none hskip]
        · exact dueTurn_other read heap runId hid
      rcases ih (dueTurn t s due) with hquiet | ⟨before, d, after, a, rfl, hid, ha, hbefore, hafter⟩
      · exact .inl (hquiet.trans hsame)
      · exact .inr ⟨due :: before, d, after, a, rfl, hid, ha, hbefore.trans hsame, hafter⟩

/-- Whatever the tick cleared has one review in the inbox that was not there before, and intake gives it the affair's own
context. -/
def Reaches (file : Option Bytes) (bus : BusState) (after : State) : Prop :=
  ∀ id a a', affairFind (held file) id = some a → a.nextReviewAtMs ≠ 0 → affairFind (held after.file) id = some a' →
    a'.nextReviewAtMs = 0 → ∃ e, after.bus.disk.inbox.filter (reviewOf read heap runId id) =
      e :: bus.disk.inbox.filter (reviewOf read heap runId id) ∧ intake read heap runId e.2 = some (id, a.contextId)

/-- A turn that can clear the affair it takes up can publish its review too, in a context that comes back. -/
def honest (t : Tick) (s : State) (due : Bytes × Nat) : Bool :=
  match takesUp t s due with
  | none => true
  | some a =>
    !(a.nextReviewAtMs ≠ 0 && clearable (t.turns due.2) t.actualWallMs due.1 s.file) ||
      ((t.turns due.2).manageReadable && publishable (t.turns due.2) s.bus due.1 a.contextId && rebuilds a.contextId)

theorem publishable_channel {turn : Turn} {bus : BusState} {affairId contextId : Bytes}
    (h : publishable turn bus affairId contextId = true) : (escaped (channelUsed contextId)).length < busChannelMax := by
  simp only [publishable, Bool.and_eq_true, decide_eq_true_eq] at h
  exact h.1.1.1.1.2

/-- An honest turn that clears an affair publishes its review. -/
theorem honest_publishes {s : State} {due : Bytes × Nat} {a b : AffairItem} (h : takesUp t s due = some a)
    (hhonest : honest t s due = true) (harmed : a.nextReviewAtMs ≠ 0)
    (hb : affairFind (held (dueTurn t s due).file) due.1 = some b) (hcleared : b.nextReviewAtMs = 0) :
    ∃ e, (dueTurn t s due).bus.disk.inbox.filter (reviewOf read heap runId due.1) =
      e :: s.bus.disk.inbox.filter (reviewOf read heap runId due.1) ∧
        intake read heap runId e.2 = some (due.1, a.contextId) := by
  obtain ⟨-, hfind, -, -⟩ := takesUp_some h
  have hclear : clearable (t.turns due.2) t.actualWallMs due.1 s.file = true := by
    have hturn := dueTurn_record h due.1
    split at hturn
    · assumption
    · rw [hb, hfind, Option.some.injEq] at hturn
      rw [hturn] at hcleared
      exact absurd hcleared harmed
  simp only [honest, h, hclear, harmed, ne_eq, not_false_eq_true, decide_true, Bool.and_self, Bool.not_true, Bool.false_or,
    Bool.and_eq_true] at hhonest
  obtain ⟨⟨hmanage, hpub⟩, hback⟩ := hhonest
  have hintake := published_intake read heap runId h hpub
  rw [(rebuilt_eq_iff (publishable_channel hpub)).mpr hback] at hintake
  refine ⟨_, ?_, hintake⟩
  rw [(dueTurn_some h).2.2, inboxAfter, hmanage, hpub, Bool.and_self, if_pos rfl, List.filter_cons_of_pos]
  rw [reviewOf, hintake]
  simp

/-- A turn that is not honest clears an affair without its review. -/
theorem dishonest_fails {s : State} {due : Bytes × Nat} (hhonest : honest t s due = false) :
    ∃ a b, takesUp t s due = some a ∧ a.nextReviewAtMs ≠ 0 ∧
      affairFind (held (dueTurn t s due).file) due.1 = some b ∧ b.nextReviewAtMs = 0 ∧
      ¬ ∃ e, (dueTurn t s due).bus.disk.inbox.filter (reviewOf read heap runId due.1) =
        e :: s.bus.disk.inbox.filter (reviewOf read heap runId due.1) ∧
          intake read heap runId e.2 = some (due.1, a.contextId) := by
  unfold honest at hhonest
  cases h : takesUp t s due with
  | none => simp [h] at hhonest
  | some a =>
    simp only [h, Bool.or_eq_false_iff, Bool.not_eq_false', Bool.and_eq_true, decide_eq_true_eq] at hhonest
    obtain ⟨⟨harmed, hclear⟩, hbad⟩ := hhonest
    have hturn := dueTurn_record h due.1
    rw [if_pos hclear] at hturn
    obtain ⟨ms, hms⟩ := hturn
    refine ⟨a, clearedItem ms a, rfl, harmed, hms.trans (if_pos rfl), rfl, ?_⟩
    rintro ⟨e, hinbox, hintake⟩
    rw [(dueTurn_some h).2.2, inboxAfter] at hinbox
    split at hinbox
    · rename_i hpublished
      rw [hpublished, Bool.true_and] at hbad
      simp only [Bool.and_eq_true] at hpublished
      have hown := published_intake read heap runId h hpublished.2
      rw [List.filter_cons_of_pos (by rw [reviewOf, hown]; simp)] at hinbox
      rw [← (List.cons.inj hinbox).1, hown, Option.some.injEq, Prod.mk.injEq] at hintake
      rw [(rebuilt_eq_iff (publishable_channel hpublished.2)).mp hintake.2] at hbad
      cases hbad
    · have hlen := congrArg List.length hinbox
      simp at hlen

/-- Reviews reach their conversations in exactly the ticks whose turns are all honest. -/
theorem reviews_reach_iff (t : Tick) (file : Option Bytes) (bus : BusState) :
    Reaches read heap runId file bus (watcherTick t file bus) ↔
      ∀ before due after, dueAffairs t file = before ++ due :: after →
        honest t (before.foldl (dueTurn t) ⟨file, bus, []⟩) due = true := by
  unfold watcherTick
  constructor
  · intro hreaches before due after hsplit
    cases hhonest : honest t (before.foldl (dueTurn t) ⟨file, bus, []⟩) due with
    | true => rfl
    | false =>
      obtain ⟨a, b, htakes, harmed, hb, hcleared, hno⟩ := dishonest_fails read heap runId hhonest
      obtain ⟨-, hfind, -, hfresh⟩ := takesUp_some htakes
      rw [hsplit, List.foldl_append, List.foldl_cons] at hreaches
      -- nothing happened to the affair before this turn: it would have fired
      have hbefore : view read heap runId due.1 (before.foldl (dueTurn t) ⟨file, bus, []⟩) =
          view read heap runId due.1 ⟨file, bus, []⟩ := by
        rcases fate read heap runId (t := t) due.1 before ⟨file, bus, []⟩ with
          hquiet | ⟨before', due', after', a', rfl, hid, htakes', -, -⟩
        · exact hquiet
        · rw [List.foldl_append, List.foldl_cons] at hfind hfresh
          obtain ⟨c, hc, hfired⟩ := dueTurn_fires htakes'
          rw [hid] at hc
          have hquiet := congrArg Prod.fst (fired_quiet read heap runId (t := t) hc hfired after')
          have hsame : some a = some c := hfind.symm.trans (hquiet.trans hc)
          cases hsame
          exact absurd (foldl_fired hfired after') hfresh
      have hafter : view read heap runId due.1 (after.foldl (dueTurn t) (dueTurn t (before.foldl (dueTurn t) ⟨file, bus, []⟩) due)) =
          view read heap runId due.1 (dueTurn t (before.foldl (dueTurn t) ⟨file, bus, []⟩) due) := by
        obtain ⟨c, hc, hfired⟩ := dueTurn_fires htakes
        exact fired_quiet read heap runId hc hfired after
      obtain ⟨hfile, hinbox⟩ := Prod.mk.inj hbefore
      obtain ⟨hfile', hinbox'⟩ := Prod.mk.inj hafter
      refine absurd (hreaches due.1 a b (hfile ▸ hfind) harmed (hfile'.trans hb) hcleared) ?_
      rw [hinbox', ← hinbox]
      exact hno
  · intro hall id a a' ha harmed ha' hcleared
    rcases fate read heap runId (t := t) id (dueAffairs t file) ⟨file, bus, []⟩ with
      hquiet | ⟨before, due, after, b, hsplit, rfl, htakes, hbefore, hafter⟩
    · have hsame : affairFind (held file) id = some a' := (congrArg Prod.fst hquiet).symm.trans ha'
      rw [ha, Option.some.injEq] at hsame
      rw [hsame] at harmed
      exact absurd hcleared harmed
    · obtain ⟨hfile, hinbox⟩ := Prod.mk.inj hbefore
      obtain ⟨hfile', hinbox'⟩ := Prod.mk.inj hafter
      obtain ⟨-, hfind, -, -⟩ := takesUp_some htakes
      rw [hfile, ha, Option.some.injEq] at hfind
      subst hfind
      obtain ⟨e, he, hintake⟩ := honest_publishes read heap runId htakes (hall before due after hsplit) harmed
        (hfile' ▸ ha') hcleared
      exact ⟨e, by rw [hinbox', he, hinbox], hintake⟩

end Fate

/-- One affair, made by a run on the custom channel `dev` and due. -/
def deviceFile : Option Bytes :=
  some (lit "\x7b\"affairs\":[\x7b\"affair_id\":\"a1\",\"context_id\":\"event:dev\",\"manage\":\"watch\",\"next_review_at_ms\":5\x7d]\x7d")

def emptyBus : BusState := ⟨⟨[], []⟩, 0, fun _ _ => ⟨rfl, rfl⟩⟩

/-- A tick in which every access succeeds. -/
def smoothTick : Tick :=
  { stableWallMs := 10, actualWallMs := 10, activeContexts := [], listReadable := true
    turns := fun _ =>
      { contextReadable := true, manageReadable := true, reservation := .granted, bus := ⟨⟨[], rfl⟩, true, true⟩, review := {}
        now := 10, nowLong := by decide } }

/-- Its review is cleared, and the run that reviews it is given another context. -/
theorem device_review_strays :
    ¬ Reaches (fun _ => none) [] [] deviceFile emptyBus (watcherTick smoothTick deviceFile emptyBus) := by
  intro h
  have hbefore : (affairFind (held deviceFile) (lit "a1")).map (fun a => (a.nextReviewAtMs, a.contextId)) =
      some (5, lit "event:dev") := by
    rw [deviceFile, lit_ofList]
    decide +kernel
  have hreviewed : ((affairFind (held (watcherTick smoothTick deviceFile emptyBus).file) (lit "a1")).map (·.nextReviewAtMs),
      ((watcherTick smoothTick deviceFile emptyBus).bus.disk.inbox.filter (reviewOf (fun _ => none) [] [] (lit "a1"))).map
        (fun e => intake (fun _ => none) [] [] e.2)) = (some 0, [some (lit "a1", lit "chat:tests")]) := by
    rw [deviceFile, lit_ofList]
    decide +kernel
  obtain ⟨hafter, hinbox⟩ := Prod.mk.inj hreviewed
  obtain ⟨a, ha, hcontext⟩ := Option.map_eq_some_iff.mp hbefore
  obtain ⟨harmed, hcontext⟩ := Prod.mk.inj hcontext
  obtain ⟨a', ha', hcleared⟩ := Option.map_eq_some_iff.mp hafter
  obtain ⟨e, he, hintake⟩ := h (lit "a1") a a' ha (by rw [harmed]; decide) ha' hcleared
  rw [he, List.map_cons, hintake, hcontext] at hinbox
  exact absurd (List.cons.inj hinbox).1 (by (repeat rw [lit_ofList]); decide)

end Floofclaw.Guarantees.AffairReviews
