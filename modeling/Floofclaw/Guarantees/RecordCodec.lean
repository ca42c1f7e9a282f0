import Floofclaw.Guarantees.IteratedMembers
import Floofclaw.Guarantees.OperationRecords
import Floofclaw.Guarantees.SoundValues
import Floofclaw.Source.PublicationRecords

/-!
# The codec of publication records

A record of the outbox is written as one line and read back under the name of
its wake. What a claim member holds decides whether the wake may be published
again, so a claim that cannot be read must not pass for none.
-/

set_option autoImplicit false

namespace Floofclaw.Guarantees.RecordCodec
open Floofclaw.Lib Floofclaw.Source.Json Floofclaw.Source.Inbound Floofclaw.Source.StoreFile
open Floofclaw.Source.Janitor Floofclaw.Source.PublicationRecords
open Floofclaw.Source.Outbox (PublicationRecord jsonRefValueCompactDup)
open Floofclaw.Guarantees.ActionOutputs (Decodes)
open Floofclaw.Guarantees.ExactLookup (lookupExact)
open Floofclaw.Guarantees.OperationRecords (getString_printed)

/-! ## Records -/

/-- A value that compaction leaves as it is. -/
structure CompactValue (v : Bytes) : Prop where
  value : IsValue v
  same : jsonRefValueCompactDup v = some v

/-- Ids are well formed, strings fit their fields, payloads are compact values. -/
structure Proper (r : PublicationRecord) : Prop where
  wakeId : safeId r.wakeId busIdMax = true
  sourceRunId : safeId r.sourceRunId rtSmall = true
  sourceEventId : safeId r.sourceEventId rtSmall = true
  sourceType : TextField rtSmall r.sourceType
  channel : TextField busChannelMax r.channel
  wakeType : TextField busTypeMax r.wakeType
  claimed : r.claimedRunId = [] ∨ safeId r.claimedRunId rtSmall = true
  sourcePayload : CompactValue r.sourcePayload
  wakePayload : CompactValue r.wakePayload

/-- The escapes of the free strings fit the buffers of the writer. -/
structure EscapesFit (r : PublicationRecord) : Prop where
  sourceType : (escaped r.sourceType).length < rtMed
  channel : (escaped r.channel).length < busChannelMax * 2
  wakeType : (escaped r.wakeType).length < busTypeMax * 2

/-- The members of a record in front of its claim. -/
def baseMembers (r : PublicationRecord) : List (Bytes × Bytes) :=
  [(lit "wake_id", quoted (escaped r.wakeId)), (lit "source_run_id", quoted (escaped r.sourceRunId)),
    (lit "source_event_id", quoted (escaped r.sourceEventId)), (lit "source_type", quoted (escaped r.sourceType)),
    (lit "source_payload", r.sourcePayload), (lit "channel", quoted (escaped r.channel)),
    (lit "wake_type", quoted (escaped r.wakeType)), (lit "wake_payload", r.wakePayload)]

def claimMembers (claimed : Bytes) : List (Bytes × Bytes) :=
  if claimed = [] then [] else [(lit "claimed_run_id", quoted (escaped claimed))]

def recordText (r : PublicationRecord) : Bytes := objText (baseMembers r ++ claimMembers r.claimedRunId) ++ lit "\n"

theorem isIdByte_plain {c : Byte} (h : isIdByte c = true) : isPlain c = true := by
  have hall : ∀ n : Fin 256, isIdByte (UInt8.ofNat n) = true → isPlain (UInt8.ofNat n) = true := by decide +kernel
  simpa using hall ⟨c.toNat, c.toNat_lt⟩ (by simpa using h)

theorem safeId_plain {s : Bytes} {cap : Nat} (h : safeId s cap = true) :
    s ≠ [] ∧ s.length < cap ∧ ∀ c ∈ s, isPlain c = true := by
  simp only [safeId, Bool.and_eq_true, decide_eq_true_eq, List.all_eq_true] at h
  exact ⟨h.1.1, h.1.2, fun c hc => isIdByte_plain (h.2 c hc)⟩

theorem safeId_text {s : Bytes} {cap : Nat} (h : safeId s cap = true) : TextField cap s := by
  obtain ⟨-, hlen, hplain⟩ := safeId_plain h
  exact ⟨fun c hc => isPlain_ne_zero (hplain c hc), hlen⟩

theorem safeId_escaped {s : Bytes} {cap : Nat} (h : safeId s cap = true) : escaped s = s :=
  escaped_plain (safeId_plain h).2.2

/-! ## Writing -/

theorem mirror_id {s : Bytes} (h : safeId s rtSmall = true) : mirror rtMed s = some s := by
  have hlen := (safeId_plain h).2.1
  rw [mirror_eq (safeId_text h).nulFree, safeId_escaped h, if_pos (Nat.lt_trans hlen (by decide))]

theorem claimedField_eq {claimed : Bytes} (h : claimed = [] ∨ safeId claimed rtSmall = true) :
    claimedField claimed = some (claimMembers claimed) := by
  rw [claimedField, claimMembers]
  by_cases hnil : claimed = []
  · rw [if_pos hnil, if_pos hnil]
  have hid := h.resolve_left hnil
  have hlen := (safeId_plain hid).2.1
  rw [if_neg hnil, if_neg hnil, mirror_id hid, safeId_escaped hid, Option.bind_some, if_neg]
  have hlabel : (lit ",\"claimed_run_id\":").length = 18 := by
    rw [lit_ofList]
    rfl
  simp only [quoted, List.length_cons, List.length_append, List.length_nil, hlabel]
  unfold rtSmall at hlen
  unfold rtMed
  omega

theorem mirror_some {s e : Bytes} {outLen : Nat} (hs : NulFree s) (h : mirror outLen s = some e) :
    (escaped s).length < outLen ∧ e = escaped s := by
  rw [mirror_eq hs] at h
  split at h
  · rename_i hlt
    exact ⟨hlt, (Option.some.inj h).symm⟩
  · cases h

/-- What the writer puts down once every escape has found room. -/
theorem recordSerialize_fits {r : PublicationRecord} (h : Proper r) (hfit : EscapesFit r) :
    recordSerialize r = if (recordText r).length > intMax then none else some (recordText r) := by
  rw [recordSerialize, mirror_id h.sourceRunId, mirror_id h.sourceEventId, mirror_eq h.sourceType.nulFree,
    if_pos hfit.sourceType, mirror_eq h.channel.nulFree, if_pos hfit.channel, mirror_eq h.wakeType.nulFree,
    if_pos hfit.wakeType, claimedField_eq h.claimed]
  rw [recordText, baseMembers, safeId_escaped h.wakeId, safeId_escaped h.sourceRunId, safeId_escaped h.sourceEventId]
  rfl

theorem recordSerialize_some {r : PublicationRecord} {text : Bytes} (h : Proper r) (hs : recordSerialize r = some text) :
    EscapesFit r ∧ text = recordText r := by
  have hfit : EscapesFit r := by
    rw [recordSerialize] at hs
    obtain ⟨_, -, hs⟩ := Option.bind_eq_some_iff.mp hs
    obtain ⟨_, -, hs⟩ := Option.bind_eq_some_iff.mp hs
    obtain ⟨_, htype, hs⟩ := Option.bind_eq_some_iff.mp hs
    obtain ⟨_, hchannel, hs⟩ := Option.bind_eq_some_iff.mp hs
    obtain ⟨_, hwake, -⟩ := Option.bind_eq_some_iff.mp hs
    exact ⟨(mirror_some h.sourceType.nulFree htype).1, (mirror_some h.channel.nulFree hchannel).1,
      (mirror_some h.wakeType.nulFree hwake).1⟩
  refine ⟨hfit, ?_⟩
  rw [recordSerialize_fits h hfit] at hs
  split at hs
  · cases hs
  · exact (Option.some.inj hs).symm

/-! ## Reading -/

theorem CompactValue.clean {v : Bytes} (h : CompactValue v) : CleanValue v := ⟨h.value, h.value.nulFree⟩

theorem baseMembers_written {r : PublicationRecord} (h : Proper r) : WrittenMembers (baseMembers r) :=
  .key (by decide) (.text _) <| .key (by decide) (.text _) <| .key (by decide) (.text _) <| .key (by decide) (.text _) <|
    .key (by decide) h.sourcePayload.clean <| .key (by decide) (.text _) <| .key (by decide) (.text _) <|
    .key (by decide) h.wakePayload.clean .nil

theorem assoc_claim {r : PublicationRecord} (claim : List (Bytes × Bytes)) :
    assoc (lit "claimed_run_id") (baseMembers r ++ claim) = assoc (lit "claimed_run_id") claim := by
  simp only [baseMembers, List.cons_append, List.nil_append]
  rw [assoc_next (lit_ne (by decide)), assoc_next (lit_ne (by decide)), assoc_next (lit_ne (by decide)), assoc_next (lit_ne (by decide)), assoc_next (lit_ne (by decide)),
    assoc_next (lit_ne (by decide)), assoc_next (lit_ne (by decide)), assoc_next (lit_ne (by decide))]

/-- A step of the reader whose value is known. -/
theorem bind_known {α β : Type} {x : Option α} {a : α} (h : x = some a) (f : α → Option β) : (x >>= f) = f a := by
  rw [h]
  rfl

/-- A record under its name, with whatever stands behind it for a claim. -/
theorem recordLoad_claim {r : PublicationRecord} (h : Proper r) {name : FileName} (hname : name.val = r.wakeId ++ lit ".json")
    {claim : List (Bytes × Bytes)} (hclaim : WrittenMembers claim) :
    recordLoad name (some (objText (baseMembers r ++ claim) ++ lit "\n")) =
      (loadClaimant (objText (baseMembers r ++ claim))).map fun claimed => { r with claimedRunId := claimed } := by
  have hwritten := (baseMembers_written h).append hclaim
  have hget := hwritten.get
  have hstring : ∀ (key : Bytes) {s : Bytes} {cap : Nat}, TextField cap s → assoc key (baseMembers r ++ claim) = some (quoted (escaped s)) →
      jsonRefObjectGetString (objText (baseMembers r ++ claim)) key cap = some s := fun _ _ _ hs ha =>
    getString_printed hs ((hget _).trans ha)
  have hpayload : ∀ (key : Bytes) {v : Bytes}, CompactValue v → assoc key (baseMembers r ++ claim) = some v →
      (jsonRefObjectGet (objText (baseMembers r ++ claim)) key).bind jsonRefValueCompactDup = some v := by
    intro key v hv ha
    rw [hget, ha]
    exact hv.same
  have hwake := hstring (lit "wake_id") (safeId_text h.wakeId) rfl
  have hrun := hstring (lit "source_run_id") (safeId_text h.sourceRunId) rfl
  have hevent := hstring (lit "source_event_id") (safeId_text h.sourceEventId) rfl
  have htype := hstring (lit "source_type") h.sourceType rfl
  have hsource := hpayload (lit "source_payload") h.sourcePayload rfl
  have hchannel := hstring (lit "channel") h.channel rfl
  have hwakeType := hstring (lit "wake_type") h.wakeType rfl
  have hwakePayload := hpayload (lit "wake_payload") h.wakePayload rfl
  have hids : (guard (safeId r.wakeId busIdMax ∧ safeId r.sourceRunId rtSmall ∧ safeId r.sourceEventId rtSmall) : Option Unit) =
      some () := if_pos ⟨h.wakeId, h.sourceRunId, h.sourceEventId⟩
  have hnamed : (guard (name.val = r.wakeId ++ lit ".json") : Option Unit) = some () := if_pos hname
  rw [recordLoad, bind_known rfl, bind_known (jsonRefTopObject_line hwritten), bind_known hwake, bind_known hrun, bind_known hevent,
    bind_known htype, bind_known hchannel, bind_known hwakeType, bind_known hsource, bind_known hwakePayload, bind_known hids]
  cases loadClaimant (objText (baseMembers r ++ claim)) with
  | none => rfl
  | some claimed => exact bind_known hnamed _

theorem claimMembers_written (claimed : Bytes) : WrittenMembers (claimMembers claimed) := by
  rw [claimMembers]
  split
  · exact .nil
  · exact .key (by decide) (.text _) .nil

/-- The claim of a record is read back. -/
theorem loadClaimant_text {r : PublicationRecord} (h : Proper r) :
    loadClaimant (objText (baseMembers r ++ claimMembers r.claimedRunId)) = some r.claimedRunId := by
  have hget := ((baseMembers_written h).append (claimMembers_written r.claimedRunId)).get (lit "claimed_run_id")
  rw [assoc_claim] at hget
  rw [loadClaimant]
  by_cases hnil : r.claimedRunId = []
  · rw [claimMembers, if_pos hnil] at hget
    rw [hnil, jsonRefObjectGetString, claimMembers, if_pos rfl]
    rw [hget]
    rfl
  · have hid := h.claimed.resolve_left hnil
    have hmember : assoc (lit "claimed_run_id") (claimMembers r.claimedRunId) = some (quoted (escaped r.claimedRunId)) := by
      rw [claimMembers, if_neg hnil, assoc_here]
    rw [getString_printed (safeId_text hid) (hget.trans hmember)]
    exact if_pos hid

theorem recordLoad_text {r : PublicationRecord} (h : Proper r) {name : FileName} (hname : name.val = r.wakeId ++ lit ".json") :
    recordLoad name (some (recordText r)) = some r := by
  rw [recordText, recordLoad_claim h hname (claimMembers_written _), loadClaimant_text h]
  rfl

/-- A record is written and read back exactly when its escapes fit and its line can be read at once. -/
theorem roundTrip_iff {r : PublicationRecord} (h : Proper r) {name : FileName} (hname : name.val = r.wakeId ++ lit ".json") :
    (∃ text, recordSerialize r = some text ∧ recordLoad name (fsReadText { readable := true } (some text)) = some r) ↔
      EscapesFit r ∧ (recordText r).length ≤ fsReadTextDefaultCap := by
  constructor
  · rintro ⟨text, hs, hl⟩
    obtain ⟨hfit, rfl⟩ := recordSerialize_some h hs
    refine ⟨hfit, ?_⟩
    by_contra hlong
    have hnone : fsReadText { readable := true } (some (recordText r)) = none := by
      rw [fsReadText, if_pos rfl]
      exact Option.filter_some_neg (decide_eq_false hlong)
    rw [hnone] at hl
    cases hl
  · rintro ⟨hfit, hlen⟩
    refine ⟨recordText r, ?_, ?_⟩
    · rw [recordSerialize_fits h hfit, if_neg]
      unfold fsReadTextDefaultCap at hlen
      unfold intMax
      omega
    · have hread : fsReadText { readable := true } (some (recordText r)) = some (recordText r) := by
        rw [fsReadText, if_pos rfl]
        exact Option.filter_some_pos (decide_eq_true hlen)
      rw [hread, recordLoad_text h hname]

/-! ## Claims that are no ids -/

def claimKey : Bytes := lit "claimed_run_id"

/-- The record has a claim, and what it holds is no id of the field. -/
def CorruptClaim (ms : List (Bytes × Bytes)) : Prop :=
  ∃ v, lookupExact claimKey ms = some v ∧ ∀ id, Decodes v id → safeId id rtSmall = false

/-- Everything but the claim is a record of that name. -/
structure Sound (name : FileName) (root : JsonRef) : Prop where
  wakeId : ∃ id, jsonRefObjectGetString root (lit "wake_id") busIdMax = some id ∧ safeId id busIdMax = true ∧
    name.val = id ++ lit ".json"
  sourceRunId : ∃ id, jsonRefObjectGetString root (lit "source_run_id") rtSmall = some id ∧ safeId id rtSmall = true
  sourceEventId : ∃ id, jsonRefObjectGetString root (lit "source_event_id") rtSmall = some id ∧ safeId id rtSmall = true
  sourceType : ∃ s, jsonRefObjectGetString root (lit "source_type") rtSmall = some s
  channel : ∃ s, jsonRefObjectGetString root (lit "channel") busChannelMax = some s
  wakeType : ∃ s, jsonRefObjectGetString root (lit "wake_type") busTypeMax = some s
  sourcePayload : ∃ v, (jsonRefObjectGet root (lit "source_payload")).bind jsonRefValueCompactDup = some v
  wakePayload : ∃ v, (jsonRefObjectGet root (lit "wake_payload")).bind jsonRefValueCompactDup = some v

/-- The claim is read as a string of the field's size that is no id. -/
def RefusedClaim (root : JsonRef) : Prop := ∃ s, jsonRefObjectGetString root claimKey rtSmall = some s ∧ safeId s rtSmall = false

theorem loadClaimant_none {root : JsonRef} : loadClaimant root = none ↔ RefusedClaim root := by
  rw [loadClaimant, RefusedClaim, claimKey]
  cases jsonRefObjectGetString root (lit "claimed_run_id") rtSmall with
  | none => exact ⟨nofun, fun ⟨_, h, _⟩ => nomatch h⟩
  | some s =>
    cases hid : safeId s rtSmall with
    | true =>
      refine ⟨fun h => ?_, fun ⟨s', hs, hbad⟩ => ?_⟩
      · exact absurd h (by simp [hid])
      · rw [← Option.some.inj hs, hid] at hbad
        cases hbad
    | false => exact ⟨fun _ => ⟨s, rfl, hid⟩, fun _ => by simp [hid]⟩

theorem recordLoad_some {name : FileName} {text root : Bytes} (hroot : jsonRefTopObject text = some root) :
    (∃ r, recordLoad name (some text) = some r) ↔ Sound name root ∧ ¬ RefusedClaim root := by
  rw [← loadClaimant_none, ← ne_eq, Option.ne_none_iff_exists']
  constructor
  · rintro ⟨r, h⟩
    rw [recordLoad, bind_known rfl, bind_known hroot] at h
    obtain ⟨wakeId, hwake, h⟩ := Option.bind_eq_some_iff.mp h
    obtain ⟨run, hrun, h⟩ := Option.bind_eq_some_iff.mp h
    obtain ⟨event, hevent, h⟩ := Option.bind_eq_some_iff.mp h
    obtain ⟨type, htype, h⟩ := Option.bind_eq_some_iff.mp h
    obtain ⟨channel, hchannel, h⟩ := Option.bind_eq_some_iff.mp h
    obtain ⟨wakeType, hwakeType, h⟩ := Option.bind_eq_some_iff.mp h
    obtain ⟨source, hsource, h⟩ := Option.bind_eq_some_iff.mp h
    obtain ⟨payload, hpayload, h⟩ := Option.bind_eq_some_iff.mp h
    obtain ⟨_, hids, h⟩ := Option.bind_eq_some_iff.mp h
    obtain ⟨claimed, hclaimed, h⟩ := Option.bind_eq_some_iff.mp h
    obtain ⟨_, hname, -⟩ := Option.bind_eq_some_iff.mp h
    obtain ⟨hid, hrunId, heventId⟩ := (Option.guard_eq_some' _).mp hids
    exact ⟨⟨⟨_, hwake, hid, (Option.guard_eq_some' _).mp hname⟩, ⟨_, hrun, hrunId⟩, ⟨_, hevent, heventId⟩, ⟨_, htype⟩,
      ⟨_, hchannel⟩, ⟨_, hwakeType⟩, ⟨_, hsource⟩, ⟨_, hpayload⟩⟩, claimed, hclaimed⟩
  · rintro ⟨⟨⟨_, hwake, hid, hname⟩, ⟨_, hrun, hrunId⟩, ⟨_, hevent, heventId⟩, ⟨_, htype⟩, ⟨_, hchannel⟩, ⟨_, hwakeType⟩,
      ⟨_, hsource⟩, ⟨_, hpayload⟩⟩, claimed, hclaimed⟩
    have hids := (Option.guard_eq_some' ()).mpr (And.intro hid (And.intro hrunId heventId))
    have hnamed := (Option.guard_eq_some' ()).mpr hname
    rw [recordLoad, bind_known rfl, bind_known hroot, bind_known hwake, bind_known hrun, bind_known hevent, bind_known htype,
      bind_known hchannel, bind_known hwakeType, bind_known hsource, bind_known hpayload, bind_known hids, bind_known hclaimed,
      bind_known hnamed]
    exact ⟨_, rfl⟩

/-- Two things the codec promises, and when it keeps them: a proper record survives writing and reading exactly when
the escapes of its strings fit, and a corrupt claim is refused exactly when it is read as a string of the field. -/
theorem recordCodec_iff (name : FileName) :
    (∀ r, Proper r → name.val = r.wakeId ++ lit ".json" →
      ((∃ text, recordSerialize r = some text ∧ recordLoad name (fsReadText { readable := true } (some text)) = some r) ↔
        EscapesFit r ∧ (recordText r).length ≤ fsReadTextDefaultCap)) ∧
    ∀ text root ms, jsonRefTopObject text = some root → ObjText root ms →
      ((CorruptClaim ms → recordLoad name (some text) = none) ↔ (CorruptClaim ms → Sound name root → RefusedClaim root)) := by
  refine ⟨fun r h hname => roundTrip_iff h hname, fun text root ms hroot _ => forall_congr' fun _ => ?_⟩
  have hload := @recordLoad_some name text root hroot
  rw [← not_iff_not, ← ne_eq, Option.ne_none_iff_exists', hload, Classical.not_imp]

/-! ## A claim that passes for none -/

theorem lookupExact_plain {ms : List (Bytes × Bytes)} (h : ∀ m ∈ ms, plainKey m.1 = true) (key : Bytes) :
    lookupExact key ms = assoc key ms := by
  induction ms with
  | nil => rfl
  | cons m ms ih =>
    obtain ⟨hm, hms⟩ := List.forall_mem_cons.mp h
    have hplain : FirstEvent.PlainText m.1 := by
      simp only [plainKey, Bool.and_eq_true, List.all_eq_true] at hm
      exact hm.1
    have hname : IteratedMembers.Names m m.1 := ActionOutputs.decodes_plain hplain
    by_cases hkey : m.1 = key
    · rw [ExactLookup.lookupExact_here ms (hkey ▸ hname), assoc, if_pos hkey]
    · have hother : ¬ IteratedMembers.Names m key := fun hn => hkey (hname.unique hn)
      rw [ExactLookup.lookupExact_next ms hother, assoc, if_neg hkey, ih hms]

def emptyObject : Bytes := lit "\x7b\x7d"

def wakeRecord : PublicationRecord where
  wakeId := lit "bus_1"
  sourceRunId := lit "run_1"
  sourceEventId := lit "evt_1"
  sourceType := lit "done"
  channel := lit "main"
  wakeType := lit "wake"
  sourcePayload := emptyObject
  wakePayload := emptyObject

def wakeFile : FileName := ⟨lit "bus_1.json", by rw [lit_ofList]; decide⟩

theorem emptyObject_compact : CompactValue emptyObject := ⟨.objEmpty .nil, by decide⟩

theorem wakeRecord_proper : Proper wakeRecord where
  wakeId := by decide
  sourceRunId := by decide
  sourceEventId := by decide
  sourceType := ⟨.of_all (by decide), by decide⟩
  channel := ⟨.of_all (by decide), by decide⟩
  wakeType := ⟨.of_all (by decide), by decide⟩
  claimed := .inl rfl
  sourcePayload := emptyObject_compact
  wakePayload := emptyObject_compact

/-- The claim of the record is a number. -/
def numberClaim : List (Bytes × Bytes) := [(claimKey, lit "5")]

theorem numberClaim_written : WrittenMembers numberClaim :=
  .key (by decide) ⟨.num (.of_digits (.of_all (by decide) (by decide))), .of_all (by decide)⟩ .nil

theorem numberClaim_lookup : assoc claimKey (baseMembers wakeRecord ++ numberClaim) = some (lit "5") := by
  rw [claimKey, assoc_claim]
  exact assoc_here _ _ _

/-- A record whose claim is a number is read as an unbound one. -/
theorem numberClaim_unbound :
    CorruptClaim (baseMembers wakeRecord ++ numberClaim) ∧
      recordLoad wakeFile (some (objText (baseMembers wakeRecord ++ numberClaim) ++ lit "\n")) = some wakeRecord ∧
      wakeRecord.claimedRunId = [] := by
  have hwritten := (baseMembers_written wakeRecord_proper).append numberClaim_written
  refine ⟨⟨lit "5", ?_, fun id hid => ?_⟩, ?_, rfl⟩
  · rw [lookupExact_plain fun m hm => (hwritten m hm).1, numberClaim_lookup]
  · have hno : stringCopyWrite ((lit "5").length + 1) (lit "5") = ([], false) := by decide
    rw [Decodes, hno] at hid
    cases hid
  · have hget := (hwritten.get claimKey).trans numberClaim_lookup
    have hnone : loadClaimant (objText (baseMembers wakeRecord ++ numberClaim)) = some [] := by
      rw [claimKey] at hget
      rw [loadClaimant, jsonRefObjectGetString, hget, Option.bind_some,
        show jsonRefStringCopy rtSmall (lit "5") = none by decide]
    have hname : wakeFile.val = wakeRecord.wakeId ++ lit ".json" := by rw [lit_ofList]; decide
    rw [recordLoad_claim wakeRecord_proper hname numberClaim_written, hnone]
    rfl

end Floofclaw.Guarantees.RecordCodec
