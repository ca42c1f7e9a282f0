import Floofclaw.Source.EventLog

/-!
# Runtime-owned keys in agent payloads

The gate walks a payload with a 128-octet key buffer and stops at the first key
that does not fit; the reducers look keys up through 256 octets. The two walks
agree exactly when no runtime-owned key stands behind a key only the second
walk can read.
-/

set_option autoImplicit false

namespace Floofclaw.Guarantees.OwnedKeys
open Floofclaw.Lib Floofclaw.Source.Json Floofclaw.Source.EventLog

/-- The key of the member is decoded by a buffer of `cap` octets. -/
def keyFits (cap : Nat) (m : Bytes × Bytes) : Bool := (jsonRefStringCopy cap (quoted m.1)).isSome

/-- The key of the member, decoded as the lookups decode it, satisfies `p`. -/
def keySatisfies (p : Bytes → Bool) (m : Bytes × Bytes) : Bool := (jsonRefStringCopy 256 (quoted m.1)).any p

/-- What the guard sees is the prefix of keys that fit 128 octets; what a lookup sees goes on over
keys that fit 256. Either an owned key is in the guard's view, or none is in the rest of the lookups'. -/
def OwnedKeysInView (ms : List (Bytes × Bytes)) : Prop :=
  (∃ m ∈ ms.takeWhile (keyFits 128), keySatisfies keyIsRuntimeOwned m = true) ∨
    ∀ m ∈ (ms.dropWhile (keyFits 128)).takeWhile (keyFits 256), keySatisfies keyIsRuntimeOwned m = false

instance (ms : List (Bytes × Bytes)) : Decidable (OwnedKeysInView ms) := by
  unfold OwnedKeysInView
  infer_instance

theorem keySatisfies_of_copy {p : Bytes → Bool} {m : Bytes × Bytes} {cap : Nat} (hcap : cap ≤ 256) {d : Bytes}
    (h : jsonRefStringCopy cap (quoted m.1) = some d) : keySatisfies p m = p d := by
  simp [keySatisfies, jsonRefStringCopy_mono hcap h]

/-! ## The guard -/

/-- The guard loop over a payload is one pass over the members whose keys fit its buffer. -/
theorem iterFinds_eq {obj : Bytes} {ms : List (Bytes × Bytes)} (h : ObjText obj ms) {cap : Nat}
    (hcap : cap ≤ 256) (stop : Bytes → Bool) (n cursor : Nat) (hn : ms.length ≤ n + cursor) :
    iterFinds cap stop obj n cursor = ((ms.drop cursor).takeWhile (keyFits cap)).any (keySatisfies stop) := by
  induction n generalizing cursor with
  | zero =>
    rw [List.drop_eq_nil_of_le (by omega)]
    rfl
  | succ n ih =>
    rw [iterFinds, jsonRefObjectIter_eq h, memberIter]
    cases hm : ms[cursor]? with
    | none =>
      rw [List.getElem?_eq_none_iff] at hm
      rw [List.drop_eq_nil_of_le hm]
      rfl
    | some m =>
      obtain ⟨hlt, hget⟩ := List.getElem?_eq_some_iff.mp hm
      rw [List.drop_eq_getElem_cons hlt, hget]
      dsimp only
      cases hk : jsonRefStringCopy cap (quoted m.1) with
      | none => simp [keyFits, hk]
      | some d =>
        have hfit : keyFits cap m = true := by simp [keyFits, hk]
        simp only [List.takeWhile_cons, hfit, if_true, List.any_cons, keySatisfies_of_copy hcap hk]
        rw [ih (cursor + 1) (by omega)]
        cases stop d <;> simp

theorem payloadHasRuntimeOwnedKey_eq {payload : Bytes} {ms : List (Bytes × Bytes)} (h : ObjText payload ms) :
    payloadHasRuntimeOwnedKey payload = (ms.takeWhile (keyFits 128)).any (keySatisfies keyIsRuntimeOwned) := by
  rw [payloadHasRuntimeOwnedKey, decide_eq_true (ObjText.inferType h), Bool.true_and,
    iterFinds_eq h (by decide) _ _ _ (by have := h.count_le; omega)]
  simp [rtSmall]

/-! ## The lookups -/

theorem memberLookup_none_iff (p : Bytes → Bool) (ms : List (Bytes × Bytes)) :
    (∀ key, p key = true → memberLookup key ms = none) ↔
      ∀ m ∈ ms.takeWhile (keyFits 256), keySatisfies p m = false := by
  induction ms with
  | nil => simp [memberLookup]
  | cons m ms ih =>
    obtain ⟨k, v⟩ := m
    cases hk : jsonRefStringCopy 256 (quoted k) with
    | none => simp [memberLookup, keyFits, hk]
    | some d =>
      have hfit : keyFits 256 (k, v) = true := by simp [keyFits, hk]
      have hsat : keySatisfies p (k, v) = p d := by simp [keySatisfies, hk]
      simp only [List.takeWhile_cons, hfit, if_true, List.forall_mem_cons, hsat, memberLookup, hk, ← ih]
      constructor
      · intro h
        have hd : p d = false := by
          cases hp : p d with
          | false => rfl
          | true => simpa using h d hp
        refine ⟨hd, fun key hkey => ?_⟩
        have hne : ¬ d = key := by
          rintro rfl
          rw [hd] at hkey
          cases hkey
        simpa [hne] using h key hkey
      · rintro ⟨hd, h⟩ key hkey
        have hne : ¬ d = key := by
          rintro rfl
          rw [hd] at hkey
          cases hkey
        rw [if_neg hne]
        exact h key hkey

/-- A lookup reads on where the guard stopped. -/
theorem takeWhile_keyFits_256 (ms : List (Bytes × Bytes)) :
    ms.takeWhile (keyFits 256) =
      ms.takeWhile (keyFits 128) ++ (ms.dropWhile (keyFits 128)).takeWhile (keyFits 256) := by
  have hall : ∀ m ∈ ms.takeWhile (keyFits 128), keyFits 256 m = true := by
    intro m hm
    have hfit : keyFits 128 m = true := List.mem_takeWhile_imp hm
    obtain ⟨d, hd⟩ := Option.isSome_iff_exists.mp hfit
    simp [keyFits, jsonRefStringCopy_mono (show 128 ≤ 256 by decide) hd]
  conv_lhs => rw [← List.takeWhile_append_dropWhile (p := keyFits 128) (l := ms)]
  exact List.takeWhile_append_of_pos hall

theorem guard_agrees_iff {payload : Bytes} {ms : List (Bytes × Bytes)} (h : ObjText payload ms) :
    (payloadHasRuntimeOwnedKey payload = false →
        ∀ key, keyIsRuntimeOwned key = true → jsonRefObjectGet payload key = none) ↔ OwnedKeysInView ms := by
  simp only [jsonRefObjectGet_eq h]
  rw [memberLookup_none_iff, takeWhile_keyFits_256, payloadHasRuntimeOwnedKey_eq h, OwnedKeysInView]
  rw [List.any_eq_false]
  constructor
  · intro hg
    by_cases hany : ∃ m ∈ ms.takeWhile (keyFits 128), keySatisfies keyIsRuntimeOwned m = true
    · exact .inl hany
    · push Not at hany
      exact .inr fun m hm => hg hany m (List.mem_append_right _ hm)
  · rintro (⟨m, hm, hown⟩ | hrest) hnone
    · exact absurd hown (hnone m hm)
    · intro m hm
      rcases List.mem_append.mp hm with hm | hm
      · simpa using hnone m hm
      · exact hrest m hm

/-! ## Agent output -/

section Output
variable {σ : Type}

theorem objectGetObject_objText {ev payload : Bytes} {ms : List (Bytes × Bytes)} (h : ObjText ev ms)
    {key : Bytes} (hp : jsonRefObjectGetObject ev key = some payload) : ∃ ms', ObjText payload ms' := by
  rw [jsonRefObjectGetObject, jsonRefObjectGet_eq h, Option.filter_eq_some_iff] at hp
  exact isValue_object (memberLookup_isValue h.wellformed hp.1) (by simpa using hp.2)

/-- Every branch of the validator asks the guard about an object payload. -/
theorem validateAgentEvent_guard {K : Kernel σ} {ctx : RtContext σ} {index : Nat} {ev payload : Bytes}
    (h : validateAgentEvent K ctx index ev = true)
    (hp : jsonRefObjectGetObject ev (lit "payload") = some payload) :
    jsonRefInferType ev = .object ∧ payloadHasRuntimeOwnedKey payload = false := by
  unfold validateAgentEvent at h
  split at h
  · simp at h
  · rename_i hobj
    simp only [ne_eq, Bool.or_eq_true, decide_eq_true_eq, Bool.not_eq_true', not_or, not_not] at hobj
    refine ⟨hobj.1, ?_⟩
    split at h
    · simp at h
    · simp only [hp] at h
      split at h
      · simp at h
      split at h
      · unfold validateActionRequest at h
        split at h
        · simp at h
        · rename_i hg
          simpa using hg
      split at h
      · simp only [Bool.and_eq_true, Bool.not_eq_true'] at h
        exact h.1
      split at h
      · simp only [Bool.and_eq_true, Bool.not_eq_true'] at h
        exact h.1
      · simpa using h

theorem validateLoop_guard {K : Kernel σ} {source : Bytes} {canWrite : Bool} {ctx : RtContext σ} {index : Nat}
    {events : List JsonRef} (h : validateLoop K source canWrite ctx index events = none) :
    ∀ ev ∈ events, ∃ i, validateAgentEvent K ctx i ev = true := by
  induction events generalizing index with
  | nil => simp
  | cons ev events ih =>
    rw [validateLoop] at h
    split at h
    · rename_i hv
      dsimp only at h
      split at h
      · split at h <;> simp at h
      · intro e he
        rcases List.mem_cons.mp he with rfl | he
        · exact ⟨index, hv⟩
        · exact ih h e he
    · simp at h

theorem appendLoop_batch {K : Kernel σ} {source : Bytes} {cap index : Nat} {events : List JsonRef}
    {ctx : RtContext σ} {committed : Bytes} {batch : List Bytes} :
    ∀ ev ∈ (appendLoop K source cap index events ctx committed batch).batch, ev ∈ batch ∨ ev ∈ events := by
  induction events generalizing index ctx committed batch with
  | nil =>
    intro ev hev
    rw [appendLoop] at hev
    split at hev
    · exact .inl hev
    · split at hev <;> exact .inl hev
  | cons e events ih =>
    intro ev hev
    rw [appendLoop] at hev
    split at hev
    · exact .inl hev
    · rcases ih ev hev with h | h
      · exact .inl h
      · exact .inr (List.mem_cons_of_mem _ h)
    · rcases List.mem_append.mp hev with h | h
      · exact .inl h
      · exact .inr (by simp [List.mem_singleton.mp h])
    · rcases ih ev hev with h | h
      · rcases List.mem_append.mp h with h | h
        · exact .inl h
        · exact .inr (by simp [List.mem_singleton.mp h])
      · exact .inr (List.mem_cons_of_mem _ h)

theorem rtAppendEventsFromOutput_batch {K : Kernel σ} {ctx : RtContext σ} {source output : Bytes}
    {canWrite : Bool} {cap : Nat} {ev : Bytes}
    (hev : ev ∈ (rtAppendEventsFromOutput K ctx source canWrite output cap).batch) :
    IsValue ev ∧ ∃ i, validateAgentEvent K ctx i ev = true := by
  unfold rtAppendEventsFromOutput at hev
  split at hev
  · simp at hev
  · rename_i events hevents
    split at hev
    · simp at hev
    · rename_i hvalid
      have hmem : ev ∈ events := by
        rcases appendLoop_batch ev hev with h | h
        · simp at h
        · exact h
      exact ⟨(outputEvents_clean hevents ev hmem).value, validateLoop_guard hvalid ev hmem⟩

end Output

/-- The payload of an appended event is an object text. -/
theorem appended_payload_objText {σ : Type} {K : Kernel σ} {ctx : RtContext σ} {source output : Bytes}
    {canWrite : Bool} {cap : Nat} {ev payload : Bytes}
    (hev : ev ∈ (rtAppendEventsFromOutput K ctx source canWrite output cap).batch)
    (hp : jsonRefObjectGetObject ev (lit "payload") = some payload) :
    payloadHasRuntimeOwnedKey payload = false ∧ ∃ ms, ObjText payload ms := by
  obtain ⟨hval, i, hvalid⟩ := rtAppendEventsFromOutput_batch hev
  obtain ⟨hobj, hguard⟩ := validateAgentEvent_guard hvalid hp
  obtain ⟨evms, hevms⟩ := isValue_object hval hobj
  exact ⟨hguard, objectGetObject_objText hevms hp⟩

/-- On every payload the guard and the lookups agree exactly when `OwnedKeysInView` holds, and on the
payload of an appended event the lookups then find no owned key at all. -/
theorem owned_keys_absent_iff (payload : Bytes) (ms : List (Bytes × Bytes)) (h : ObjText payload ms) :
    ((payloadHasRuntimeOwnedKey payload = false →
        ∀ key, keyIsRuntimeOwned key = true → jsonRefObjectGet payload key = none) ↔ OwnedKeysInView ms) ∧
    ∀ (σ : Type) (K : Kernel σ) (ctx : RtContext σ) (source output : Bytes) (canWrite : Bool) (cap : Nat),
      ∀ ev ∈ (rtAppendEventsFromOutput K ctx source canWrite output cap).batch,
        jsonRefObjectGetObject ev (lit "payload") = some payload →
          ((∀ key, keyIsRuntimeOwned key = true → jsonRefObjectGet payload key = none) ↔
            OwnedKeysInView ms) := by
  refine ⟨guard_agrees_iff h, ?_⟩
  intro σ K ctx source output canWrite cap ev hev hp
  have hguard := (appended_payload_objText hev hp).1
  rw [← guard_agrees_iff h]
  exact ⟨fun hnone _ => hnone, fun hagree => hagree hguard⟩

/-! ## Payloads -/

/-- Subsystems that accept everything and store nothing: what the real ones do with a type none of
them owns. -/
def idleKernel : Kernel Unit where
  applyToContext _ _ s := s
  memoryApply ctx _ _ := (ctx.stores, true)
  memoryApplyControl _ _ s := (s, true)
  taskApplyEvent _ _ s := (s, true)
  affairApplyEvent _ _ s := (s, true)
  operationApplyEvent _ _ s := (s, true)
  workStateApplyEvent ctx _ _ _ := (ctx.stores, true)
  taskNormalizeEvent _ _ _ _ _ _ := none
  affairNormalizeEvent _ _ _ _ _ := (-1, [])
  taskReferenceExists _ _ := false
  taskReferenceInContext _ _ _ := false
  taskReferenceIsReadyForContext _ _ _ := false
  taskWorkBinding _ _ _ _ _ := false
  taskSelectWorkConsequence _ := none
  wallMs _ _ := 0

def idleContext : RtContext Unit :=
  { runId := lit "run_001", contextId := lit "chat:cli", inboundAffairId := [], nextEvent := 3, log := [],
    stores := () }

/-- An output with one `note` event around a payload. -/
def noteEvent (payload : Bytes) : Bytes := objText [(lit "type", quoted (lit "note")), (lit "payload", payload)]

def noteOutput (payload : Bytes) : Bytes := objText [(lit "events", arrText [noteEvent payload])]

def plainMembers : List (Bytes × Bytes) := [(lit "text", lit "1")]

def forgedMembers : List (Bytes × Bytes) :=
  [(List.replicate 128 (ch 'a'), lit "0"), (lit "run_id", quoted (lit "run_999"))]

private theorem lit_strBody {s : Bytes} (h : s.all isPlain = true) : StrBody s :=
  StrBody.of_plain (by simpa using h)

theorem plainMembers_objText : ObjText (objText plainMembers) plainMembers := by
  refine objText_reads fun m hm => ?_
  rw [plainMembers, List.mem_singleton] at hm
  subst hm
  exact ⟨lit_strBody (by decide), .num (.of_digits (.of_all (by decide) (by decide)))⟩

theorem owned_keys_absent_plain :
    (∀ key, keyIsRuntimeOwned key = true → jsonRefObjectGet (objText plainMembers) key = none) ∧
    ((∀ key, keyIsRuntimeOwned key = true → jsonRefObjectGet (objText plainMembers) key = none) ↔
      OwnedKeysInView plainMembers) :=
  ⟨(owned_keys_absent_iff _ _ plainMembers_objText).1.mpr (by decide +kernel) (by decide +kernel),
    (owned_keys_absent_iff _ _ plainMembers_objText).2 Unit idleKernel idleContext (lit "agent")
      (noteOutput (objText plainMembers)) false 0 (noteEvent (objText plainMembers)) (by decide +kernel)
      (by decide +kernel)⟩

/-- A first key of 128 octets hides a forged `run_id` from the guard: the output is accepted, its event
is appended, and the lookup finds the member. -/
theorem forged_run_id_passes :
    (rtAppendEventsFromOutput idleKernel idleContext (lit "agent") false
        (noteOutput (objText forgedMembers)) 0).ok = true ∧
    (rtAppendEventsFromOutput idleKernel idleContext (lit "agent") false
        (noteOutput (objText forgedMembers)) 0).batch = [noteEvent (objText forgedMembers)] ∧
    jsonRefObjectGetObject (noteEvent (objText forgedMembers)) (lit "payload") = some (objText forgedMembers) ∧
    ¬ (payloadHasRuntimeOwnedKey (objText forgedMembers) = false →
        ∀ key, keyIsRuntimeOwned key = true → jsonRefObjectGet (objText forgedMembers) key = none) := by
  refine ⟨by decide +kernel, by decide +kernel, by decide +kernel, fun h => ?_⟩
  have hnone := h (by decide +kernel) (lit "run_id") (by rw [lit_ofList]; decide)
  have hfound : jsonRefObjectGet (objText forgedMembers) (lit "run_id") = some (quoted (lit "run_999")) := by
    decide +kernel
  rw [hfound] at hnone
  cases hnone

example : keyFits 8 (lit "run_id", []) = true := by decide +kernel

end Floofclaw.Guarantees.OwnedKeys
