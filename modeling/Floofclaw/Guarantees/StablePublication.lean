import Floofclaw.Lib.Machine
import Floofclaw.Source.Bus
import Floofclaw.Guarantees.TaskStoreText

/-!
# Stable publication

The text a publication commits reads back as its own arguments: the id, the
channel and the type decode, the payload and the routing block are compact
already. A stored envelope answers every later call by comparing fields, so it
absorbs the calls that say the same and refuses the others, wherever it is.
-/

set_option autoImplicit false

namespace Floofclaw.Guarantees.StablePublication
open Floofclaw.Lib Floofclaw.Source.Json Floofclaw.Source.Inbound Floofclaw.Source.Bus
open Floofclaw.Guarantees.TaskStoreText (mirror_eq_some assoc_append)

/-! ## Sameness -/

/-- Equal up to white space outside strings. -/
def SameJson (a b : Bytes) : Prop := ∃ c, Squeezes a c ∧ Squeezes b c

/-- What the header asks of a publication: the payload is a JSON object, the ref is one or is not set, and the routing
is within its bounds. -/
structure Admissible (p : Publication) : Prop where
  validId : validEnvelopeId p.envelopeId = true
  payload : ∃ v, jsonRefTopObject p.payloadJson = some v
  ref : p.routing.refJson = [] ∨ ∃ v, jsonRefTopObject p.routing.refJson = some v
  bounds : p.routing.adapterId.length ≤ busRoutingAdapterMax ∧ p.routing.contextId.length ≤ busRoutingContextMax ∧
    p.routing.refJson.length ≤ busRoutingRefMax

structure Same (p q : Publication) : Prop where
  channel : q.channel = p.channel
  type : q.type = p.type
  payload : SameJson q.payloadJson p.payloadJson
  adapterId : q.routing.adapterId = p.routing.adapterId
  contextId : q.routing.contextId = p.routing.contextId
  ref : SameJson q.routing.refJson p.routing.refJson

/-- The compact form of an object text, with white space around it or not. -/
structure CompactObject (t c : Bytes) : Prop where
  squeezes : Squeezes t c
  stable : Squeezes c c
  object : jsonRefInferType c = .object
  clean : CleanValue c

theorem CompactObject.ne_nil {t c : Bytes} (h : CompactObject t c) : c ≠ [] := h.clean.value.ne_nil

theorem compactObject_of_top {t v : Bytes} (hn : NulFree t) (h : jsonRefTopObject t = some v) :
    ∃ c, CompactObject t c := by
  obtain ⟨hfrom, ms, hms⟩ := jsonRefTopObject_sound h
  obtain ⟨hv, w, w', hw, hw', heq⟩ := jsonRefFromText_sound hfrom
  obtain ⟨c, hc⟩ := isValue_compacts hv
  rw [cstr_eq_self hn] at heq
  refine ⟨c, ?_, hc.stable, ?_, hc.value, hc.nulFree (jsonRefFromText_nulFree hfrom)⟩
  · rw [heq]
    simpa using (Squeezes.ws hw).append (hc.squeezes.append (Squeezes.ws hw'))
  · rw [hc.sameType, ObjText.inferType hms]

theorem CompactObject.compact {t c : Bytes} (hn : NulFree t) (h : CompactObject t c) (cap : Nat) :
    jsonCompact cap t = if c.length < cap then some c else none := jsonCompact_squeezes hn h.squeezes cap

theorem CompactObject.again {t c : Bytes} (h : CompactObject t c) : CompactObject c c :=
  ⟨h.stable, h.stable, h.object, h.clean⟩

/-- Two objects are the same exactly when they have the same compact form. -/
theorem CompactObject.same_iff {a b c d : Bytes} (ha : CompactObject a c) (hb : CompactObject b d) :
    SameJson a b ↔ c = d := by
  constructor
  · rintro ⟨e, hae, hbe⟩
    rw [ha.squeezes.unique hae, hb.squeezes.unique hbe]
  · rintro rfl
    exact ⟨c, ha.squeezes, hb.squeezes⟩

/-! ## The routing block -/

/-- The routing block of admissible members: `ref` is the compact form of the ref, empty for an unset one. -/
def blockMembers (r : BusRouting) (ref : Bytes) : List (Bytes × Bytes) :=
  routingMembers (if r.adapterId = [] then none else some (escaped r.adapterId))
    (if r.contextId = [] then none else some (escaped r.contextId)) (if ref = [] then none else some ref)

def block (r : BusRouting) (ref : Bytes) : Bytes :=
  if blockMembers r ref = [] then [] else objText (blockMembers r ref)

/-- The ref and its compact form. -/
def RefForm (t c : Bytes) : Prop := (t = [] ∧ c = []) ∨ CompactObject t c

theorem blockMembers_written {r : BusRouting} {t ref : Bytes} (href : RefForm t ref) :
    WrittenMembers (blockMembers r ref) := by
  have hone : ∀ (e : Option Bytes) (f : Bytes → Bytes × Bytes),
      (∀ x, e = some x → plainKey (f x).1 = true ∧ CleanValue (f x).2) → WrittenMembers (e.map f).toList := by
    intro e f h
    cases e with
    | none => exact .nil
    | some x => exact .cons (h x rfl).1 (h x rfl).2 .nil
  refine .append (hone _ _ ?_) (.append (hone _ _ ?_) (hone _ _ ?_))
  · intro x hx
    split at hx
    · cases hx
    · cases hx
      exact ⟨(by decide : plainKey (lit "adapter_id") = true), .text _⟩
  · intro x hx
    split at hx
    · cases hx
    · cases hx
      exact ⟨(by decide : plainKey (lit "context_id") = true), .text _⟩
  · intro x hx
    split at hx
    · cases hx
    · rename_i hne
      cases hx
      rcases href with ⟨-, rfl⟩ | hobj
      · exact absurd rfl hne
      · exact ⟨(by decide : plainKey (lit "ref") = true), hobj.clean⟩

theorem blockMembers_stable {r : BusRouting} {t ref : Bytes} (href : RefForm t ref) :
    ∀ m ∈ blockMembers r ref, StrBody m.1 ∧ Squeezes m.2 m.2 := by
  intro m hm
  refine ⟨plainKey_strBody (blockMembers_written href m hm).1, ?_⟩
  simp only [blockMembers, routingMembers, List.mem_append, Option.mem_toList, Option.map_eq_some_iff] at hm
  rcases hm with ⟨e, he, rfl⟩ | ⟨e, he, rfl⟩ | ⟨e, he, rfl⟩
  · split at he
    · cases he
    · cases he
      exact .text _
  · split at he
    · cases he
    · cases he
      exact .text _
  · split at he
    · cases he
    · rename_i hne
      cases he
      rcases href with ⟨-, rfl⟩ | hobj
      · exact absurd rfl hne
      · exact hobj.stable

theorem routingMember_text {maxBytes : Nat} {s : Bytes} (hs : NulFree s) (hlen : s.length ≤ maxBytes) :
    routingMember maxBytes (mirror (maxBytes * 6 + 8)) s = some (if s = [] then none else some (escaped s)) := by
  unfold routingMember
  split
  · rfl
  · have hfits : (escaped s).length < maxBytes * 6 + 8 := by
      have := (escaped_length s).2
      omega
    rw [if_neg (by omega), mirror_eq hs, if_pos hfits]
    rfl

theorem routingMember_ref {t ref : Bytes} (hn : NulFree t) (hlen : t.length ≤ busRoutingRefMax) (href : RefForm t ref) :
    routingMember busRoutingRefMax (jsonCompact (busRoutingRefMax + 1)) t = some (if ref = [] then none else some ref) := by
  rcases href with ⟨rfl, rfl⟩ | hobj
  · rfl
  · have hle := hobj.squeezes.length_le
    have hne : t ≠ [] := by
      rintro rfl
      exact hobj.ne_nil (List.eq_nil_of_length_eq_zero (Nat.le_zero.mp hle))
    rw [routingMember, if_neg hne, if_neg (by omega), hobj.compact hn, if_pos (by omega), if_neg hobj.ne_nil]
    rfl

theorem block_length {r : BusRouting} {ref : Bytes} (ha : r.adapterId.length ≤ busRoutingAdapterMax)
    (hc : r.contextId.length ≤ busRoutingContextMax) (href : ref.length ≤ busRoutingRefMax) :
    (objText (blockMembers r ref)).length < busRoutingJsonMax := by
  have h1 := (escaped_length r.adapterId).2
  have h2 := (escaped_length r.contextId).2
  have hkeys : (lit "adapter_id").length = 10 ∧ (lit "context_id").length = 10 ∧ (lit "ref").length = 3 := ⟨lit_length _, lit_length _, lit_length _⟩
  have hbody := membersText_length_le (blockMembers r ref)
  have hsum : ((blockMembers r ref).map fun m => m.1.length + m.2.length + 4).sum ≤
      (16 + 6 * r.adapterId.length) + ((16 + 6 * r.contextId.length) + (7 + ref.length)) := by
    simp only [blockMembers, routingMembers, List.map_append, List.sum_append]
    refine Nat.add_le_add ?_ (Nat.add_le_add ?_ ?_)
    · split
      · simp
      · simp [quoted, hkeys]
        omega
    · split
      · simp
      · simp [quoted, hkeys]
        omega
    · split
      · simp
      · simp [hkeys]
        omega
  simp only [objText, List.length_cons, List.length_append, List.length_nil, busRoutingJsonMax]
  simp only [busRoutingAdapterMax, busRoutingContextMax, busRoutingRefMax] at ha hc href
  omega

/-- Within its bounds a routing always has a block. -/
theorem routingJson_eq {p : Publication} (hp : Admissible p) {ref : Bytes} (href : RefForm p.routing.refJson ref) :
    routingJson p.routing = some (block p.routing ref) := by
  obtain ⟨ha, hc, hr⟩ := hp.bounds
  have hreflen : ref.length ≤ busRoutingRefMax := by
    rcases href with ⟨-, rfl⟩ | hobj
    · exact Nat.zero_le _
    · exact Nat.le_trans hobj.squeezes.length_le hr
  have hadapter := routingMember_text (p.nulFree p.routing.adapterId (by simp)) ha
  have hcontext := routingMember_text (p.nulFree p.routing.contextId (by simp)) hc
  have hrefm := routingMember_ref (p.nulFree p.routing.refJson (by simp)) hr href
  have hlen := block_length ha hc hreflen
  simp only [routingJson, hadapter, hcontext, hrefm, Option.bind_eq_bind, Option.bind_some, Option.pure_def]
  change (if blockMembers p.routing ref = [] then some [] else
    (guard ((objText (blockMembers p.routing ref)).length < busRoutingJsonMax) : Option Unit).bind fun _ =>
      some (objText (blockMembers p.routing ref))) = _
  unfold block
  split
  · rfl
  · simp [guard, hlen]

theorem admissible_ref {p : Publication} (hp : Admissible p) : ∃ ref, RefForm p.routing.refJson ref := by
  rcases hp.ref with hnil | ⟨v, hv⟩
  · exact ⟨[], .inl ⟨hnil, rfl⟩⟩
  · obtain ⟨c, hc⟩ := compactObject_of_top (p.nulFree p.routing.refJson (by simp)) hv
    exact ⟨c, .inr hc⟩

theorem refForm_same_iff {a b c d : Bytes} (ha : RefForm a c) (hb : RefForm b d) : SameJson a b ↔ c = d := by
  have hnil : ∀ {t : Bytes}, Squeezes [] t → t = [] := fun h => h.unique Squeezes.nil
  rcases ha with ⟨rfl, rfl⟩ | ha
  · rcases hb with ⟨rfl, rfl⟩ | hb
    · exact ⟨fun _ => rfl, fun _ => ⟨[], Squeezes.nil, Squeezes.nil⟩⟩
    · constructor
      · rintro ⟨e, hae, hbe⟩
        rw [← hnil hae, hb.squeezes.unique hbe]
      · intro h
        exact absurd h.symm hb.ne_nil
  · rcases hb with ⟨rfl, rfl⟩ | hb
    · constructor
      · rintro ⟨e, hae, hbe⟩
        rw [← hnil hbe, ha.squeezes.unique hae]
      · intro h
        exact absurd h ha.ne_nil
    · exact ha.same_iff hb

section Members
variable (r : BusRouting) (ref : Bytes)

theorem assoc_adapter : assoc (lit "adapter_id") (blockMembers r ref) =
    if r.adapterId = [] then none else some (quoted (escaped r.adapterId)) := by
  unfold blockMembers
  split <;> split <;> split <;> rfl

theorem assoc_context : assoc (lit "context_id") (blockMembers r ref) =
    if r.contextId = [] then none else some (quoted (escaped r.contextId)) := by
  unfold blockMembers
  split <;> split <;> split <;> rfl

theorem assoc_ref : assoc (lit "ref") (blockMembers r ref) = if ref = [] then none else some ref := by
  unfold blockMembers
  split <;> split <;> split <;> rfl

end Members

/-- The block says which members it carries. -/
theorem block_inj {r r' : BusRouting} {t ref t' ref' : Bytes} (href : RefForm t ref) (href' : RefForm t' ref')
    (hr : NulFree r.adapterId ∧ NulFree r.contextId) (hr' : NulFree r'.adapterId ∧ NulFree r'.contextId)
    (h : block r ref = block r' ref') : r.adapterId = r'.adapterId ∧ r.contextId = r'.contextId ∧ ref = ref' := by
  have hmembers : ∀ key, assoc key (blockMembers r ref) = assoc key (blockMembers r' ref') := by
    intro key
    unfold block at h
    split at h
    · rename_i hnil
      split at h
      · rename_i hnil'
        rw [hnil, hnil']
      · simp [objText] at h
    · split at h
      · simp [objText] at h
      · rw [← (blockMembers_written href).get key, ← (blockMembers_written href').get key, h]
  have htext : ∀ {s s' : Bytes}, NulFree s → NulFree s' →
      (if s = [] then none else some (quoted (escaped s))) = (if s' = [] then none else some (quoted (escaped s'))) →
        s = s' := by
    intro s s' hs hs' heq
    split at heq
    · rename_i hnil
      split at heq
      · rename_i hnil'
        rw [hnil, hnil']
      · cases heq
    · split at heq
      · cases heq
      · exact escaped_inj hs hs' (by simpa [quoted] using heq)
  have ha := hmembers (lit "adapter_id")
  have hc := hmembers (lit "context_id")
  have hf := hmembers (lit "ref")
  rw [assoc_adapter, assoc_adapter] at ha
  rw [assoc_context, assoc_context] at hc
  rw [assoc_ref, assoc_ref] at hf
  refine ⟨htext hr.1 hr'.1 ha, htext hr.2 hr'.2 hc, ?_⟩
  split at hf
  · rename_i hnil
    split at hf
    · rename_i hnil'
      rw [hnil, hnil']
    · cases hf
  · split at hf
    · cases hf
    · exact Option.some.inj hf

/-! ## The stored envelope -/

/-- What a stored envelope that one publication matches answers to another. -/
theorem matches_iff {text : Bytes} {p q : Publication} {b b' : Bytes} (h : existingEnvelopeMatches text p b = true) :
    existingEnvelopeMatches text q b' = true ↔ q.envelopeId = p.envelopeId ∧ q.channel = p.channel ∧ q.type = p.type ∧
      jsonCompact busPayloadMax q.payloadJson = jsonCompact busPayloadMax p.payloadJson ∧ b' = b := by
  unfold existingEnvelopeMatches at h
  split at h
  · cases h
  rename_i aid achannel atype apayload epayload arouting hread
  simp only [Option.bind_eq_bind, Option.bind_eq_some_iff, Option.pure_def, Option.some.injEq, Prod.mk.injEq] at hread
  obtain ⟨root, hroot, id, hid, channel, hchannel, type, htype, payload, hpayload, raw, hraw, compact, hcompact,
    expected, hexpected, rfl, rfl, rfl, rfl, rfl, rfl⟩ := hread
  simp only [Bool.and_eq_true, decide_eq_true_eq] at h
  obtain ⟨⟨⟨⟨rfl, rfl⟩, rfl⟩, rfl⟩, rfl⟩ := h
  unfold existingEnvelopeMatches
  simp only [hroot, hid, hchannel, htype, hpayload, hraw, hcompact, hexpected, Option.bind_eq_bind, Option.bind_some,
    Option.pure_def]
  cases hq : jsonCompact busPayloadMax q.payloadJson with
  | none => simp
  | some expected =>
    simp only [Option.bind_some, Bool.and_eq_true, decide_eq_true_eq, Option.some.injEq]
    constructor
    · rintro ⟨⟨⟨⟨h1, h2⟩, h3⟩, h4⟩, h5⟩
      exact ⟨h1.symm, h2.symm, h3.symm, h4.symm, h5.symm⟩
    · rintro ⟨h1, h2, h3, h4, h5⟩
      exact ⟨⟨⟨⟨h1.symm, h2.symm⟩, h3.symm⟩, h4.symm⟩, h5.symm⟩

theorem validId_plain {id : Bytes} (h : validEnvelopeId id = true) : id.length < busIdMax ∧ ∀ c ∈ id, isPlain c = true := by
  simp only [validEnvelopeId, Bool.and_eq_true, decide_eq_true_eq] at h
  obtain ⟨⟨⟨hlen, hbus⟩, -⟩, hdigits⟩ := h
  refine ⟨hlen, ?_⟩
  obtain ⟨rest, rfl⟩ := List.isPrefixOf_iff_prefix.mp hbus
  have hdrop : (lit "bus_" ++ rest).drop 4 = rest := rfl
  rw [hdrop] at hdigits
  have hdigit : ∀ n : Fin 256, isDigit (UInt8.ofNat n) = true → isPlain (UInt8.ofNat n) = true := by decide +kernel
  have hbusPlain : (lit "bus_").all isPlain = true := lit_all (by decide)
  intro c hc
  rcases List.mem_append.mp hc with hc | hc
  · exact List.all_eq_true.mp hbusPlain c hc
  · simpa using hdigit ⟨c.toNat, c.toNat_lt⟩ (by simpa using List.all_eq_true.mp hdigits c hc)

/-- The members of a committed envelope. -/
def envelopeMembers (p : Publication) (ts : Stamp) (block payload : Bytes) : List (Bytes × Bytes) :=
  [(lit "event_id", quoted (escaped p.envelopeId)), (lit "ts", quoted (escaped ts.text)),
    (lit "channel", quoted (escaped p.channel)), (lit "type", quoted (escaped p.type))] ++
    ((if block = [] then [] else [(lit "routing", block)]) ++ [(lit "payload", payload)])

/-- The block of a routing, or none. -/
def BlockForm (b : Bytes) : Prop := b = [] ∨ (CompactObject b b ∧ b.length < busRoutingJsonMax)

theorem block_form {p : Publication} (hp : Admissible p) {ref : Bytes} (href : RefForm p.routing.refJson ref) :
    BlockForm (block p.routing ref) := by
  unfold block
  split
  · exact .inl rfl
  · have hms := blockMembers_written (r := p.routing) href
    have hstable := Squeezes.objText (blockMembers_stable (r := p.routing) href)
    have hreflen : ref.length ≤ busRoutingRefMax := by
      rcases href with ⟨-, rfl⟩ | hobj
      · exact Nat.zero_le _
      · exact Nat.le_trans hobj.squeezes.length_le hp.bounds.2.2
    exact .inr ⟨⟨hstable, hstable, ObjText.inferType hms.objText, .objText hms⟩,
      block_length hp.bounds.1 hp.bounds.2.1 hreflen⟩

theorem envelopeMembers_written (p : Publication) (ts : Stamp) {b payload : Bytes} (hb : BlockForm b)
    (hpayload : CleanValue payload) : WrittenMembers (envelopeMembers p ts b payload) := by
  have hrouting : WrittenMembers (if b = [] then [] else [(lit "routing", b)]) := by
    split
    · exact .nil
    · rename_i hne
      exact .key (by decide) (hb.resolve_left hne).1.clean .nil
  exact .append (.key (by decide) (.text _) <| .key (by decide) (.text _) <| .key (by decide) (.text _) <|
    .key (by decide) (.text _) .nil) (.append hrouting (.key (by decide) hpayload .nil))

theorem envelopeText_eq {p : Publication} (hp : Admissible p) (ts : Stamp) (b payload : Bytes) :
    envelopeText p.envelopeId ts (escaped p.channel) (escaped p.type) b payload =
      objText (envelopeMembers p ts b payload) ++ lit "\n" := by
  rw [envelopeText, envelopeMembers, escaped_plain (validId_plain hp.validId).2,
    escaped_plain fun c hc => List.all_eq_true.mp ts.plain c hc]

theorem storedRouting_eq {p : Publication} {ts : Stamp} {b payload : Bytes} (hb : BlockForm b)
    (hpayload : CleanValue payload) : storedRouting (objText (envelopeMembers p ts b payload)) = b := by
  have hget := (envelopeMembers_written p ts hb hpayload).get (lit "routing")
  have hassoc : assoc (lit "routing") (envelopeMembers p ts b payload) = if b = [] then none else some b := by
    unfold envelopeMembers
    split <;> rfl
  rw [hassoc] at hget
  rw [storedRouting, jsonRefObjectGetObject, hget]
  split
  · rename_i hnone
    split at hnone
    · rename_i hnil
      exact hnil.symm
    · rename_i hne
      obtain ⟨hobj, hlen⟩ := hb.resolve_left hne
      rw [Option.filter_some, if_pos (by simpa using hobj.object), Option.bind_some, jsonRefValueCopy, if_neg (by omega),
        Option.bind_some, hobj.compact hobj.clean.nulFree, if_pos hlen] at hnone
      cases hnone
  · rename_i stored hsome
    split at hsome
    · cases hsome
    · rename_i hne
      obtain ⟨hobj, hlen⟩ := hb.resolve_left hne
      rw [Option.filter_some, if_pos (by simpa using hobj.object), Option.bind_some, jsonRefValueCopy, if_neg (by omega),
        Option.bind_some, hobj.compact hobj.clean.nulFree, if_pos hlen] at hsome
      exact (Option.some.inj hsome).symm

/-- A committed envelope matches the publication that committed it. -/
theorem committed_matches {p : Publication} (hp : Admissible p) (ts : Stamp) {b payload : Bytes} (hb : BlockForm b)
    (hchannel : (escaped p.channel).length < busChannelMax) (htype : (escaped p.type).length < busTypeMax)
    (hpayload : CompactObject p.payloadJson payload) (hlen : payload.length < busPayloadMax) :
    existingEnvelopeMatches (envelopeText p.envelopeId ts (escaped p.channel) (escaped p.type) b payload) p b = true := by
  have hms := envelopeMembers_written p ts hb hpayload.clean
  have htop : jsonRefTopObject (objText (envelopeMembers p ts b payload) ++ lit "\n") =
      some (objText (envelopeMembers p ts b payload)) :=
    jsonRefTopObject_line hms
  have hstring : ∀ (key : Bytes) {s : Bytes} {cap : Nat}, NulFree s → s.length < cap →
      assoc key (envelopeMembers p ts b payload) = some (quoted (escaped s)) →
        jsonRefObjectGetString (objText (envelopeMembers p ts b payload)) key cap = some s := by
    intro key s cap hs hfit hassoc
    rw [jsonRefObjectGetString, hms.get, hassoc]
    exact jsonRefStringCopy_escaped hs hfit
  have hid := hstring (lit "event_id") (p.nulFree p.envelopeId (by simp)) (validId_plain hp.validId).1 rfl
  have hch := hstring (lit "channel") (p.nulFree p.channel (by simp))
    (Nat.lt_of_le_of_lt (escaped_length p.channel).1 hchannel) rfl
  have hty := hstring (lit "type") (p.nulFree p.type (by simp)) (Nat.lt_of_le_of_lt (escaped_length p.type).1 htype) rfl
  have hpay : jsonRefObjectGet (objText (envelopeMembers p ts b payload)) (lit "payload") = some payload := by
    rw [hms.get]
    unfold envelopeMembers
    split <;> rfl
  have hcopy : jsonRefValueCopy busPayloadMax payload = some payload := by
    rw [jsonRefValueCopy, if_neg (by omega)]
  have hagain : jsonCompact busPayloadMax payload = some payload := by
    rw [hpayload.again.compact hpayload.clean.nulFree, if_pos hlen]
  have hexpected : jsonCompact busPayloadMax p.payloadJson = some payload := by
    rw [hpayload.compact (p.nulFree p.payloadJson (by simp)), if_pos hlen]
  rw [envelopeText_eq hp]
  unfold existingEnvelopeMatches
  simp only [htop, hid, hch, hty, hpay, hcopy, hagain, hexpected, storedRouting_eq hb hpayload.clean, Option.bind_eq_bind,
    Option.bind_some, Option.pure_def, decide_true, Bool.and_self]

/-! ## Calls -/

/-- The envelope is in one of the two directories, with this text. -/
def StoredAs (id text : Bytes) (disk : BusDisk) : Prop :=
  (disk.inbox.lookup id = some text ∧ disk.processed.lookup id = none) ∨
    (disk.inbox.lookup id = none ∧ disk.processed.lookup id = some text)

theorem publish_stored (io : BusIo) {disk : BusDisk} {q : Publication} (hq : Admissible q) {ref : Bytes}
    (href : RefForm q.routing.refJson ref) {text : Bytes} (h : StoredAs q.envelopeId text disk) :
    busPublishStableRouted io disk q =
      (if existingEnvelopeMatches text q (block q.routing ref) then .committed else .conflict, disk) := by
  have hfield : ¬ (block q.routing ref ≠ [] ∧
      (lit ",\"routing\":" ++ block q.routing ref).length ≥ busRoutingJsonMax + 16) := by
    rintro ⟨hne, hlong⟩
    have hlen := ((block_form hq href).resolve_left hne).2
    have hkey : (lit ",\"routing\":").length = 11 := lit_length _
    rw [List.length_append, hkey] at hlong
    omega
  unfold busPublishStableRouted
  rw [if_neg (by simpa using hq.validId), routingJson_eq hq href]
  dsimp only
  rw [if_neg hfield]
  rcases h with ⟨hin, hpr⟩ | ⟨hin, hpr⟩
  all_goals
    rw [hin, hpr]
    dsimp only
    split <;> rfl

/-- A publication that succeeded is stored under its id, in a text that matches it. -/
theorem publish_committed {io : BusIo} {disk disk' : BusDisk} {p : Publication} (hp : Admissible p) {ref : Bytes}
    (href : RefForm p.routing.refJson ref) (h : busPublishStableRouted io disk p = (.committed, disk')) :
    ∃ text, StoredAs p.envelopeId text disk' ∧ existingEnvelopeMatches text p (block p.routing ref) = true := by
  unfold busPublishStableRouted at h
  split at h
  · cases h
  rw [routingJson_eq hp href] at h
  dsimp only at h
  split at h
  · cases h
  split at h
  · cases h
  · rename_i text hin hpr
    split at h
    · rename_i hmatch
      cases h
      exact ⟨text, .inl ⟨hin, hpr⟩, hmatch⟩
    · cases h
  · rename_i text hin hpr
    split at h
    · rename_i hmatch
      cases h
      exact ⟨text, .inr ⟨hin, hpr⟩, hmatch⟩
    · cases h
  · rename_i hin hpr
    split at h
    · cases h
    rename_i disk1 hcommit
    cases h
    obtain ⟨v, hv⟩ := hp.payload
    obtain ⟨payload, hpayload⟩ := compactObject_of_top (p.nulFree p.payloadJson (by simp)) hv
    simp only [commitEnvelope, Option.bind_eq_bind, Option.bind_eq_some_iff, Option.pure_def, Option.some.injEq] at hcommit
    obtain ⟨-, -, ec, hec, et, het, c, hc, -, -, rfl⟩ := hcommit
    rw [mirror_eq (p.nulFree p.channel (by simp))] at hec
    rw [mirror_eq (p.nulFree p.type (by simp))] at het
    rw [hpayload.compact (p.nulFree p.payloadJson (by simp))] at hc
    split at hec
    · rename_i hchannel
      cases hec
      split at het
      · rename_i htype
        cases het
        split at hc
        · rename_i hlen
          cases hc
          exact ⟨_, .inl ⟨List.lookup_cons_self, hpr⟩,
            committed_matches hp io.ts (block_form hp href) hchannel htype hpayload hlen⟩
        · cases hc
      · cases het
    · cases hec

/-! ## Runs -/

/-- What happens to the bus after a publication: further publications, intake, and the way back. -/
inductive BusStep
  | publish (io : BusIo) (q : Publication)
  | process (id : Bytes)
  | requeue (id : Bytes)

def busStep (disk : BusDisk) : BusStep → Option BusDisk
  | .publish io q => some (busPublishStableRouted io disk q).2
  | .process id => some (processEnvelope id disk)
  | .requeue id => some (busRequeueProcessed id disk)

theorem lookup_filter_ne {id id' : Bytes} (h : id' ≠ id) (d : Dir) :
    (d.filter fun e => e.1 ≠ id').lookup id = d.lookup id := by
  induction d with
  | nil => rfl
  | cons e d ih =>
    obtain ⟨k, v⟩ := e
    by_cases hk : k = id'
    · rw [List.filter_cons_of_neg (by simpa using hk), ih, List.lookup_cons,
        show (id == k) = false by simpa using fun heq => h (hk.symm.trans heq.symm)]
    · rw [List.filter_cons_of_pos (by simpa using hk), List.lookup_cons, List.lookup_cons, ih]

theorem lookup_filter_self (id : Bytes) (d : Dir) : (d.filter fun e => e.1 ≠ id).lookup id = none := by
  rw [List.lookup_eq_none_iff]
  intro e he
  have hne : e.1 ≠ id := by simpa using (List.mem_filter.mp he).2
  simpa using Ne.symm hne

/-- A rename moves one entry and leaves the others where they are. -/
theorem moveEntry_lookup {id : Bytes} {src dst src' dst' : Dir} (h : moveEntry id src dst = some (src', dst')) (other : Bytes) :
    src'.lookup other = (if other = id then none else src.lookup other) ∧
      dst'.lookup other = (if other = id then src.lookup id else dst.lookup other) := by
  obtain ⟨text, htext, heq⟩ := Option.map_eq_some_iff.mp h
  cases heq
  by_cases hid : other = id
  · subst hid
    exact ⟨by rw [if_pos rfl, lookup_filter_self], by rw [if_pos rfl, htext, List.lookup_cons_self]⟩
  · refine ⟨by rw [if_neg hid, lookup_filter_ne (Ne.symm hid)], ?_⟩
    rw [if_neg hid, List.lookup_cons, show (other == id) = false by simpa using hid]

theorem publish_keeps {io : BusIo} {disk : BusDisk} {q : Publication} {id text : Bytes} (h : StoredAs id text disk) :
    StoredAs id text (busPublishStableRouted io disk q).2 := by
  unfold busPublishStableRouted
  repeat' split
  all_goals try exact h
  rename_i hin hpr _ disk' hcommit
  simp only [commitEnvelope, Option.bind_eq_bind, Option.bind_eq_some_iff, Option.pure_def, Option.some.injEq] at hcommit
  obtain ⟨-, -, ec, -, et, -, c, -, -, -, rfl⟩ := hcommit
  have hne : id ≠ q.envelopeId := by
    rintro rfl
    rcases h with ⟨hs, -⟩ | ⟨-, hs⟩
    · rw [hin] at hs
      cases hs
    · rw [hpr] at hs
      cases hs
  have hskip : ∀ t, ((q.envelopeId, t) :: disk.inbox).lookup id = disk.inbox.lookup id := by
    intro t
    rw [List.lookup_cons, show (id == q.envelopeId) = false by simpa using hne]
  rcases h with ⟨hs, hp⟩ | ⟨hs, hp⟩
  · exact .inl ⟨(hskip _).trans hs, hp⟩
  · exact .inr ⟨(hskip _).trans hs, hp⟩

theorem process_keeps {disk : BusDisk} {id other text : Bytes} (h : StoredAs other text disk) :
    StoredAs other text (processEnvelope id disk) := by
  unfold processEnvelope
  split
  · exact h
  rename_i inbox processed hmove
  obtain ⟨hsrc, hdst⟩ := moveEntry_lookup hmove other
  by_cases hid : other = id
  · subst hid
    rw [if_pos rfl] at hsrc hdst
    rcases h with ⟨hs, hp⟩ | ⟨hs, hp⟩
    · exact .inr ⟨hsrc, hdst.trans hs⟩
    · rw [moveEntry, hs] at hmove
      cases hmove
  · rw [if_neg hid] at hsrc hdst
    rcases h with ⟨hs, hp⟩ | ⟨hs, hp⟩
    · exact .inl ⟨hsrc.trans hs, hdst.trans hp⟩
    · exact .inr ⟨hsrc.trans hs, hdst.trans hp⟩

theorem requeue_keeps {disk : BusDisk} {id other text : Bytes} (h : StoredAs other text disk) :
    StoredAs other text (busRequeueProcessed id disk) := by
  unfold busRequeueProcessed
  split
  · exact h
  rename_i hnone
  split
  · exact h
  rename_i processed inbox hmove
  obtain ⟨hsrc, hdst⟩ := moveEntry_lookup hmove other
  by_cases hid : other = id
  · subst hid
    rw [if_pos rfl] at hsrc hdst
    rcases h with ⟨hs, hp⟩ | ⟨hs, hp⟩
    · rw [hnone] at hs
      cases hs
    · exact .inl ⟨hdst.trans hp, hsrc⟩
  · rw [if_neg hid] at hsrc hdst
    rcases h with ⟨hs, hp⟩ | ⟨hs, hp⟩
    · exact .inl ⟨hdst.trans hs, hsrc.trans hp⟩
    · exact .inr ⟨hdst.trans hs, hsrc.trans hp⟩

theorem busStep_keeps {disk disk' : BusDisk} {i : BusStep} {id text : Bytes} (h : StoredAs id text disk)
    (hstep : busStep disk i = some disk') : StoredAs id text disk' := by
  cases i with
  | publish io q =>
    cases hstep
    exact publish_keeps h
  | process id =>
    cases hstep
    exact process_keeps h
  | requeue id =>
    cases hstep
    exact requeue_keeps h

/-- The compared fields agree exactly when the publications say the same. -/
theorem fields_iff_same {p q : Publication} (hp : Admissible p) (hq : Admissible q)
    {ref ref' : Bytes} (href : RefForm p.routing.refJson ref) (href' : RefForm q.routing.refJson ref')
    (hfits : jsonCompact busPayloadMax p.payloadJson ≠ none) :
    (q.channel = p.channel ∧ q.type = p.type ∧ jsonCompact busPayloadMax q.payloadJson = jsonCompact busPayloadMax p.payloadJson ∧
      block q.routing ref' = block p.routing ref) ↔ Same p q := by
  obtain ⟨v, hv⟩ := hp.payload
  obtain ⟨w, hw⟩ := hq.payload
  obtain ⟨c, hc⟩ := compactObject_of_top (p.nulFree p.payloadJson (by simp)) hv
  obtain ⟨d, hd⟩ := compactObject_of_top (q.nulFree q.payloadJson (by simp)) hw
  have hpayload : jsonCompact busPayloadMax q.payloadJson = jsonCompact busPayloadMax p.payloadJson ↔
      SameJson q.payloadJson p.payloadJson := by
    rw [hd.same_iff hc]
    rw [hc.compact (p.nulFree p.payloadJson (by simp))] at hfits ⊢
    rw [hd.compact (q.nulFree q.payloadJson (by simp))]
    split at hfits
    · rename_i hlen
      rw [if_pos hlen]
      constructor
      · intro h
        split at h
        · exact Option.some.inj h
        · cases h
      · rintro rfl
        rw [if_pos hlen]
    · exact absurd rfl hfits
  have hblock : block q.routing ref' = block p.routing ref ↔ q.routing.adapterId = p.routing.adapterId ∧
      q.routing.contextId = p.routing.contextId ∧ SameJson q.routing.refJson p.routing.refJson := by
    rw [refForm_same_iff href' href]
    constructor
    · exact block_inj href' href ⟨q.nulFree _ (by simp), q.nulFree _ (by simp)⟩ ⟨p.nulFree _ (by simp), p.nulFree _ (by simp)⟩
    · rintro ⟨ha, hc, hr⟩
      unfold block blockMembers
      rw [ha, hc, hr]
  rw [hpayload, hblock]
  constructor
  · rintro ⟨h1, h2, h3, h4, h5, h6⟩
    exact ⟨h1, h2, h3, h4, h5, h6⟩
  · rintro ⟨h1, h2, h3, h4, h5, h6⟩
    exact ⟨h1, h2, h3, h4, h5, h6⟩

/-- After a publication succeeded, through any further traffic, a call under the same id that says the same succeeds, one
that says anything else is a conflict, and neither changes the bus. -/
theorem stable_publication {io : BusIo} {disk disk' : BusDisk} {p : Publication} (hp : Admissible p)
    (hpub : busPublishStableRouted io disk p = (.committed, disk')) {is : List BusStep} {disk'' : BusDisk}
    (hrun : exec busStep disk' is = some disk'') (io' : BusIo) {q : Publication} (hq : Admissible q)
    (hid : q.envelopeId = p.envelopeId) :
    (Same p q → busPublishStableRouted io' disk'' q = (.committed, disk'')) ∧
      (¬ Same p q → busPublishStableRouted io' disk'' q = (.conflict, disk'')) := by
  obtain ⟨ref, href⟩ := admissible_ref hp
  obtain ⟨ref', href'⟩ := admissible_ref hq
  obtain ⟨text, hstored, hmatch⟩ := publish_committed hp href hpub
  have hlater : StoredAs p.envelopeId text disk'' := by
    clear hpub
    induction is generalizing disk' with
    | nil =>
      cases hrun
      exact hstored
    | cons i is ih =>
      obtain ⟨disk1, hstep, hrest⟩ := Option.bind_eq_some_iff.mp hrun
      exact ih hrest (busStep_keeps hstored hstep)
  have hfits : jsonCompact busPayloadMax p.payloadJson ≠ none := by
    intro hnone
    have := hmatch
    unfold existingEnvelopeMatches at this
    split at this
    · cases this
    · rename_i hread
      simp [hnone] at hread
  have hanswer := publish_stored io' hq href' (hid ▸ hlater)
  have hsame : existingEnvelopeMatches text q (block q.routing ref') = true ↔ Same p q := by
    rw [matches_iff hmatch, ← fields_iff_same hp hq href href' hfits]
    simp [hid]
  constructor
  · intro h
    rw [hanswer, if_pos (hsame.mpr h)]
  · intro h
    rw [hanswer, if_neg (mt hsame.mp h)]

/-- A publication by an adapter, on the given channel. -/
def sample (channel : Bytes) (h : NulFree channel) : Publication :=
  { envelopeId := lit "bus_000001", channel, type := lit "user_message", payloadJson := lit "\x7b\"text\": \"a\"\x7d"
    routing := ⟨lit "bot", [], []⟩
    nulFree := by
      intro s hs
      have hplain : ∀ t ∈ [lit "bus_000001", lit "user_message", lit "\x7b\"text\": \"a\"\x7d", lit "bot", []],
          t.all (· != 0) = true := by (repeat rw [lit_ofList]); decide
      simp only [List.mem_cons, List.not_mem_nil, or_false] at hs
      rcases hs with rfl | rfl | rfl | rfl | rfl | rfl | rfl
      all_goals first
        | exact h
        | exact .of_all (hplain _ (by simp)) }

theorem sample_admissible (channel : Bytes) (h : NulFree channel) : Admissible (sample channel h) where
  validId := (by decide : validEnvelopeId (lit "bus_000001") = true)
  payload := ⟨lit "\x7b\"text\": \"a\"\x7d",
    (by decide +kernel : jsonRefTopObject (lit "\x7b\"text\": \"a\"\x7d") = some (lit "\x7b\"text\": \"a\"\x7d"))⟩
  ref := .inl rfl
  bounds := (by decide : (lit "bot").length ≤ busRoutingAdapterMax ∧ 0 ≤ busRoutingContextMax ∧ 0 ≤ busRoutingRefMax)

/-- A publication on an empty bus, answered again from the processed directory: as itself, and on another channel. -/
theorem processed_answers :
    let p := sample (lit "irc") (.of_all (lit_all (by decide)))
    let q := sample (lit "ws") (.of_all (by decide))
    let io : BusIo := ⟨⟨lit "2024-01-01T00:00:00Z", lit_all (by decide)⟩, true, true⟩
    ∃ disk, busPublishStableRouted io ⟨[], []⟩ p = (.committed, disk) ∧
      busPublishStableRouted io (processEnvelope (lit "bus_000001") disk) p =
        (.committed, processEnvelope (lit "bus_000001") disk) ∧
      busPublishStableRouted io (processEnvelope (lit "bus_000001") disk) q =
        (.conflict, processEnvelope (lit "bus_000001") disk) := by
  intro p q io
  have hpub : ∃ disk, busPublishStableRouted io ⟨[], []⟩ p = (.committed, disk) := by
    have hcommitted : (busPublishStableRouted io ⟨[], []⟩ p).1 = .committed := by decide +kernel
    generalize busPublishStableRouted io ⟨[], []⟩ p = r at hcommitted
    exact ⟨r.2, Prod.ext hcommitted rfl⟩
  have hp : Admissible p := sample_admissible _ _
  have hq : Admissible q := sample_admissible _ _
  have hid : q.envelopeId = p.envelopeId := rfl
  have hother : ¬ Same p q := fun h => absurd h.channel (by decide)
  clear_value p q io
  obtain ⟨disk, hpub⟩ := hpub
  have hrun : exec busStep disk [.process (lit "bus_000001")] = some (processEnvelope (lit "bus_000001") disk) := rfl
  obtain ⟨v, hv⟩ := hp.payload
  obtain ⟨c, hc⟩ := compactObject_of_top (p.nulFree p.payloadJson (by simp)) hv
  obtain ⟨ref, href⟩ := admissible_ref hp
  have hsame : Same p p := ⟨rfl, rfl, ⟨c, hc.squeezes, hc.squeezes⟩, rfl, rfl, (refForm_same_iff href href).mpr rfl⟩
  exact ⟨disk, hpub, (stable_publication hp hpub hrun io hp rfl).1 hsame,
    (stable_publication hp hpub hrun io hq hid).2 hother⟩

end Floofclaw.Guarantees.StablePublication
