import Floofclaw.Source.AffairActions
import Floofclaw.Guarantees.AffairUpdates

/-!
# Review times

A duration is its number times its unit as long as the product and its sum with
the clock stay within 64 bits; then the patch that is committed bears that sum,
the reducer puts it on the affair, and the watcher does not list the affair
before it. Behind that bound the arithmetic wraps, and nothing refuses the text.
-/

set_option autoImplicit false

namespace Floofclaw.Guarantees.ReviewTimes
open Floofclaw.Lib Floofclaw.Source.Json Floofclaw.Source.AffairState Floofclaw.Source.AffairActions
open Floofclaw.Guarantees.TaskPayloads (mirror_clean written_top written_text written_long)
open Floofclaw.Guarantees.AffairUpdates (stringField_read)
open Floofclaw.Guarantees.Affairs (affairFind_some)
open Floofclaw.Guarantees.AffairUpdates (canonical_statusText statusText_text noteAppend_keeps)

/-! ## Duration texts -/

/-- Blanks, a plus or none, the digits of a number and the suffix of a unit. -/
inductive Duration : Bytes → Nat → Nat → Prop
  | mk {w sign ds suffix : Bytes} {unit : Nat} : Ws w → sign = [] ∨ sign = [ch '+'] → Digits ds → unitMs suffix = some unit →
      0 < decValue ds → Duration (w ++ (sign ++ (ds ++ suffix))) (decValue ds) unit

theorem wrapLong_range (z : Int) : int64Min ≤ wrapLong z ∧ wrapLong z ≤ int64Max := by
  have hlo := Int.le_bmod (x := z) (m := 2 ^ 64) (by decide)
  have hhi := Int.bmod_lt (x := z) (m := 2 ^ 64) (by decide)
  unfold wrapLong int64Min int64Max
  omega

theorem wrapLong_eq {z : Int} (hlo : int64Min ≤ z) (hhi : z ≤ int64Max) : wrapLong z = z := by
  unfold int64Min at hlo
  unfold int64Max at hhi
  exact Int.bmod_eq_of_le (by omega) (by omega)

theorem unitMs_pos {suffix : Bytes} {unit : Nat} (h : unitMs suffix = some unit) : 0 < unit := by
  unfold unitMs at h
  repeat' split at h
  all_goals cases h
  all_goals decide

theorem unitMs_head {suffix : Bytes} {unit : Nat} (h : unitMs suffix = some unit) : suffix.takeWhile isDigit = [] := by
  unfold unitMs at h
  split at h
  · rename_i hs
    rcases hs with rfl | rfl <;> rfl
  split at h
  · rename_i hs
    rw [hs]
    rfl
  split at h
  · rename_i hs
    rcases hs with rfl | rfl <;> rfl
  split at h
  · rename_i hs
    rw [hs]
    rfl
  split at h
  · rename_i hs
    rw [hs]
    rfl
  · cases h

theorem digit_noSpace {c : Byte} (h : isDigit c = true) : isSpace c = false ∧ c ≠ ch '-' ∧ c ≠ ch '+' := by
  have hall : ∀ n : Fin 256, isDigit (UInt8.ofNat n) = true →
      isSpace (UInt8.ofNat n) = false ∧ UInt8.ofNat n ≠ ch '-' ∧ UInt8.ofNat n ≠ ch '+' := by decide +kernel
  have hc := hall ⟨c.toNat, c.toNat_lt⟩
  simp only [UInt8.ofNat_toNat] at hc
  exact hc h

example : isDigit (ch '0') = true := by decide +kernel

/-- An accepted text is multiplied out, the number being cut to 64 bits and the product wrapped. -/
theorem parse_eq {s : Bytes} {n unit : Nat} (h : Duration s n unit) :
    fcParseDurationMs s = some (wrapLong ((clampLong n).1 * unit)) := by
  cases h with
  | @mk w sign ds suffix unit hw hsign hds hunit hpos =>
    obtain ⟨c, t, rfl⟩ := List.exists_cons_of_ne_nil hds.1
    obtain ⟨hspace, hminus, hplus⟩ := digit_noSpace (hds.2 c List.mem_cons_self)
    have htail : (c :: t ++ suffix).takeWhile isDigit = c :: t := by
      rw [List.takeWhile_append_of_pos hds.2, unitMs_head hunit, List.append_nil]
    have hskip : skipWs (w ++ (sign ++ (c :: t ++ suffix))) = sign ++ (c :: t ++ suffix) := by
      refine skipWs_append hw ?_
      rcases hsign with rfl | rfl
      · exact NoSpaceHead.cons hspace
      · exact NoSpaceHead.cons (by decide)
    have hbehind : behindSign (sign ++ (c :: t ++ suffix)) = c :: t ++ suffix := by
      rcases hsign with rfl | rfl
      · exact if_neg (not_or.mpr ⟨hminus, hplus⟩)
      · rfl
    have hhead : ¬ (sign ++ (c :: t ++ suffix)).head? = some (ch '-') := by
      rcases hsign with rfl | rfl
      · exact fun hc => hminus (Option.some.inj hc)
      · exact fun hc => absurd (Option.some.inj hc) (by decide)
    have hclamp : ¬ (clampLong (decValue (c :: t))).1 ≤ 0 := by
      unfold clampLong int64Min int64Max
      split
      · omega
      · split
        · decide
        · dsimp only
          omega
    have hrest : (c :: t ++ suffix).drop (c :: t).length = suffix := List.drop_left
    simp only [fcParseDurationMs, hskip, hbehind, htail, if_neg hhead, hrest, hunit]
    rw [if_neg (not_or.mpr ⟨List.cons_ne_nil _ _, hclamp⟩)]
    rfl

/-- The parsed value is the number times the unit just where that is within 64 bits. -/
theorem parse_exact {s : Bytes} {n unit : Nat} (h : Duration s n unit) :
    fcParseDurationMs s = some ((n * unit : Nat) : Int) ↔ ((n * unit : Nat) : Int) ≤ int64Max := by
  have hunit : 0 < unit := by
    cases h with
    | mk _ _ _ hu _ => exact unitMs_pos hu
  rw [parse_eq h, Option.some.injEq]
  constructor
  · intro heq
    rw [← heq]
    exact (wrapLong_range _).2
  · intro hle
    have hn : (n : Int) ≤ int64Max := by
      have hmul : n ≤ n * unit := Nat.le_mul_of_pos_right n hunit
      omega
    rw [clampLong_of_range (by unfold int64Min; omega) hn]
    push_cast at hle ⊢
    exact wrapLong_eq (by unfold int64Min; have := Int.mul_nonneg (Int.natCast_nonneg n) (Int.natCast_nonneg unit); omega) hle

/-! ## What is committed -/

/-- A committed patch bears the time of the next review: the affair it names has that time once the patch is reduced, and is
not listed before it. -/
structure Commits (payload affairId : Bytes) (nextReviewAtMs : Int) : Prop where
  bears : (jsonRefTopObject payload).map (fun p => jsonRefObjectGetLong p (lit "next_review_at_ms") 0) = some (nextReviewAtMs, true)
  reduced : ∀ (now : Int) (st st' : AffairStore), rtAffairApplyEvent now (lit "affair_patch") payload st = some st' →
    ∃ item, affairFind st' affairId = some item ∧ item.status = .active ∧ item.nextReviewAtMs = nextReviewAtMs
  waits : ∀ (now : Int) (st st' : AffairStore), rtAffairApplyEvent now (lit "affair_patch") payload st = some st' →
    (st.map (·.affairId)).Nodup → ∀ (later : Int) (max : Nat), later < nextReviewAtMs → affairId ∉ rtAffairListDue later max st'

/-- What the reducer reads of such a patch. -/
structure PatchReads (members : List (Bytes × Bytes)) (action affairId : Bytes) (nextReviewAtMs : Int) : Prop where
  written : WrittenMembers members
  action : jsonRefObjectGetString (objText members) (lit "action") rtSmall = some action
  affairId : jsonRefObjectGetString (objText members) (lit "affair_id") rtSmall = some affairId
  status : jsonRefObjectGetString (objText members) (lit "status") rtSmall = some (statusText .active)
  next : jsonRefObjectGetLong (objText members) (lit "next_review_at_ms") 0 = (nextReviewAtMs, true)

theorem patchOf_reads {now : Int} {members : List (Bytes × Bytes)} {action affairId : Bytes} {nextReviewAtMs : Int}
    (h : PatchReads members action affairId nextReviewAtMs) {p : AffairPatch} (hp : patchOf now (objText members) = some p) :
    p.action = action ∧ p.affairId = affairId ∧ p.status = .active ∧ p.nextReviewAtMs = some nextReviewAtMs := by
  obtain ⟨action', haction, hp⟩ := Option.bind_eq_some_iff.mp hp
  obtain ⟨id', hid, hp⟩ := Option.bind_eq_some_iff.mp hp
  obtain ⟨ctx, -, hp⟩ := Option.bind_eq_some_iff.mp hp
  cases h.action.symm.trans haction
  cases h.affairId.symm.trans hid
  cases hp
  refine ⟨rfl, rfl, ?_, ?_⟩
  · dsimp only
    rw [stringField_read h.status, canonical_statusText]
    rfl
  · dsimp only
    rw [h.next]

theorem affairFind_head {id : Bytes} (hid : id ≠ []) {a : AffairItem} (ha : a.affairId = id) (st : AffairStore) :
    affairFind (a :: st) id = some a := by
  rw [affairFind, if_neg hid, List.find?_cons_of_pos]
  exact decide_eq_true ha

/-- An affair at the front whose time has not come is not listed. -/
theorem not_listed {a : AffairItem} {st : AffairStore} {later : Int} (hnext : later < a.nextReviewAtMs)
    (hfresh : a.affairId ∉ st.map (·.affairId)) (max : Nat) : a.affairId ∉ rtAffairListDue later max (a :: st) := by
  intro hlisted
  obtain ⟨b, hb, hid⟩ := List.mem_map.mp hlisted
  obtain ⟨hmem, hdue⟩ := List.mem_filter.mp (List.mem_of_mem_take hb)
  rcases List.mem_cons.mp hmem with rfl | hrest
  · simp only [Bool.and_eq_true, decide_eq_true_eq] at hdue
    omega
  · exact hfresh (hid ▸ List.mem_map_of_mem hrest)

theorem eraseP_fresh {id : Bytes} {st : AffairStore} (h : (st.map (·.affairId)).Nodup) :
    id ∉ (st.eraseP (hasId id)).map (·.affairId) := by
  induction st with
  | nil => exact List.not_mem_nil
  | cons a st ih =>
    rw [List.map_cons, List.nodup_cons] at h
    by_cases ha : a.affairId = id
    · have hhead : hasId id a = true := decide_eq_true ha
      rw [List.eraseP_cons_of_pos hhead]
      exact ha ▸ h.1
    · rw [List.eraseP_cons_of_neg (by simpa [hasId] using ha), List.map_cons, List.mem_cons, not_or]
      exact ⟨fun heq => ha heq.symm, ih h.2⟩

theorem apply_patch {now : Int} {members : List (Bytes × Bytes)} (hw : WrittenMembers members) {st st' : AffairStore}
    (h : rtAffairApplyEvent now (lit "affair_patch") (objText members) st = some st') :
    ∃ p, patchOf now (objText members) = some p ∧ applyAffairPatch now p st = some st' := by
  rw [rtAffairApplyEvent, if_neg (by rw [lit_ofList]; decide), written_top hw] at h
  dsimp only at h
  rw [if_pos rfl] at h
  exact Option.bind_eq_some_iff.mp h

/-- The item an update with a review time leaves. -/
theorem patchedItem_next {now : Int} {p : AffairPatch} {nra : Int} (haction : p.action = lit "update") (hnext : p.nextReviewAtMs = some nra)
    (hnra : 0 ≤ nra) (a : AffairItem) :
    (patchedItem now p a).affairId = a.affairId ∧ (patchedItem now p a).status = p.status ∧ (patchedItem now p a).nextReviewAtMs = nra := by
  rw [patchedItem, if_pos haction]
  dsimp only
  rw [hnext]
  dsimp only
  refine ⟨?_, rfl, if_pos hnra⟩
  rw [noteAppend]
  split <;> split <;> rfl

theorem createdItem_next {now : Int} {p : AffairPatch} {nra : Int} (hnext : p.nextReviewAtMs = some nra) (hnra : 0 < nra) :
    (createdItem now p).affairId = p.affairId ∧ (createdItem now p).status = p.status ∧ (createdItem now p).nextReviewAtMs = nra := by
  have hkeeps := noteAppend_keeps now p.updatedMs p.noteText
  refine ⟨?_, (hkeeps _).1, (hkeeps _).2.2.1.trans ?_⟩
  · rw [createdItem, noteAppend]
    split <;> rfl
  · rw [hnext]
    exact if_pos hnra

/-- A patch at the front of the store: what it bears is what the reducer and the watcher see. -/
theorem commits_of_front {members : List (Bytes × Bytes)} {action affairId : Bytes} {nra : Int}
    (h : PatchReads members action affairId nra)
    (hfront : ∀ (now : Int) (p : AffairPatch) (st st' : AffairStore), p.action = action → p.affairId = affairId → p.status = .active →
      p.nextReviewAtMs = some nra → applyAffairPatch now p st = some st' →
      ∃ item rest, st' = item :: rest ∧ item.affairId = affairId ∧ item.status = .active ∧ item.nextReviewAtMs = nra ∧ affairId ≠ [] ∧
        ((st.map (·.affairId)).Nodup → affairId ∉ rest.map (·.affairId))) :
    Commits (objText members) affairId nra where
  bears := by rw [written_top h.written, Option.map_some, h.next]
  reduced now st st' happly := by
    obtain ⟨p, hp, hst⟩ := apply_patch h.written happly
    obtain ⟨haction, hid, hstatus, hnext⟩ := patchOf_reads h hp
    obtain ⟨item, rest, rfl, hitem, hactive, htime, hne, -⟩ := hfront now p st st' haction hid hstatus hnext hst
    exact ⟨item, affairFind_head hne hitem rest, hactive, htime⟩
  waits now st st' happly hnodup later max hlater := by
    obtain ⟨p, hp, hst⟩ := apply_patch h.written happly
    obtain ⟨haction, hid, hstatus, hnext⟩ := patchOf_reads h hp
    obtain ⟨item, rest, rfl, hitem, hactive, htime, hne, hfresh⟩ := hfront now p st st' haction hid hstatus hnext hst
    rw [← hitem] at hfresh ⊢
    exact not_listed (by rw [htime]; exact hlater) (hfresh hnodup) max

theorem commits_update {members : List (Bytes × Bytes)} {affairId : Bytes} {nra : Int} (hnra : 0 < nra)
    (h : PatchReads members (lit "update") affairId nra) : Commits (objText members) affairId nra := by
  refine commits_of_front h fun now p st st' haction hid hstatus hnext hst => ?_
  rw [applyAffairPatch, if_neg (by rw [haction]; decide), hid] at hst
  cases hfind : affairFind st affairId with
  | none =>
    rw [hfind] at hst
    cases hst
  | some a =>
    rw [hfind] at hst
    dsimp only at hst
    rw [Option.ite_none_left_eq_some] at hst
    obtain ⟨hitem, hne, -⟩ := affairFind_some hfind
    obtain ⟨hsame, hactive, htime⟩ := @patchedItem_next now p nra haction hnext (Int.le_of_lt hnra) a
    exact ⟨patchedItem now p a, _, (Option.some.inj hst.2).symm, hsame.trans hitem, hactive.trans hstatus, htime, hne, eraseP_fresh⟩

theorem commits_create {members : List (Bytes × Bytes)} {affairId : Bytes} {nra : Int} (hnra : 0 < nra) (hne : affairId ≠ [])
    (h : PatchReads members (lit "create") affairId nra) : Commits (objText members) affairId nra := by
  refine commits_of_front h fun now p st st' haction hid hstatus hnext hst => ?_
  rw [applyAffairPatch, if_pos haction, Option.ite_none_left_eq_some, not_or, not_or] at hst
  obtain ⟨⟨-, -, hnew⟩, hst⟩ := hst
  obtain ⟨hsame, hactive, htime⟩ := @createdItem_next now p nra hnext hnra
  refine ⟨createdItem now p, st, (Option.some.inj hst).symm, hsame.trans hid, hactive.trans hstatus, htime, hne, fun _ hmem => ?_⟩
  obtain ⟨b, hb, hbid⟩ := List.mem_map.mp hmem
  rw [hid, affairFind, if_neg hne, List.find?_isSome] at hnew
  exact hnew ⟨b, hb, decide_eq_true hbid⟩

/-! ## The two actions -/

theorem appendPatch_event {appends : Bytes → Bool} {members : List (Bytes × Bytes)} {result payload : Bytes}
    (h : (appendPatch appends members result).event = some payload) : payload = objText members := by
  unfold appendPatch at h
  split at h
  · exact (Option.some.inj h).symm
  · cases h

theorem deferMembers_reads {affairId eaff ectx erid rid contextId : Bytes} {nra : Int} (hid : TextField rtSmall affairId)
    (haff : mirror rtMed affairId = some eaff) (hctx : mirror rtMed contextId = some ectx) (hrid : mirror rtMed rid = some erid)
    (hnra : int64Min ≤ nra ∧ nra ≤ int64Max) : PatchReads (deferMembers eaff ectx erid nra) (lit "update") affairId nra := by
  have haction : mirror rtSmall (lit "update") = some (lit "update") := by rw [lit_ofList]; decide
  have hstatus : mirror rtSmall (statusText .active) = some (lit "active") := by rw [lit_ofList]; decide
  have hwritten : WrittenMembers (deferMembers eaff ectx erid nra) :=
    .key (by decide) (mirror_clean haction) <| .key (by decide) (mirror_clean haff) <| .key (by decide) (mirror_clean hctx) <|
      .key (by decide) (mirror_clean hstatus) <| .key (by decide) (.long _) <| .key (by decide) (mirror_clean hrid) .nil
  exact
    { written := hwritten
      action := written_text hwritten ⟨.of_all (by decide), by decide⟩ haction rfl
      affairId := written_text hwritten hid haff rfl
      status := written_text hwritten (statusText_text .active) hstatus rfl
      next := by rw [written_long hwritten rfl, jsonRefGetLong_decInt hnra.1 hnra.2] }

theorem openMembers_reads {affairId eaff ectx emanage erid rid contextId manage : Bytes} {nra : Int} (hid : TextField rtSmall affairId)
    (haff : mirror rtMed affairId = some eaff) (hctx : mirror rtMed contextId = some ectx) (hmanage : mirror (rtMed * 2) manage = some emanage)
    (hrid : mirror rtMed rid = some erid) (hnra : int64Min ≤ nra ∧ nra ≤ int64Max) :
    PatchReads (openMembers eaff ectx emanage erid nra) (lit "create") affairId nra := by
  have haction : mirror rtSmall (lit "create") = some (lit "create") := by rw [lit_ofList]; decide
  have hstatus : mirror rtSmall (statusText .active) = some (lit "active") := by rw [lit_ofList]; decide
  have hwritten : WrittenMembers (openMembers eaff ectx emanage erid nra) :=
    .key (by decide) (mirror_clean haction) <| .key (by decide) (mirror_clean haff) <| .key (by decide) (mirror_clean hctx) <|
      .key (by decide) (mirror_clean hmanage) <| .key (by decide) (mirror_clean hstatus) <| .key (by decide) (.long _) <|
      .key (by decide) (mirror_clean hrid) .nil
  exact
    { written := hwritten
      action := written_text hwritten ⟨.of_all (by decide), by decide⟩ haction rfl
      affairId := written_text hwritten hid haff rfl
      status := written_text hwritten (statusText_text .active) hstatus rfl
      next := by rw [written_long hwritten rfl, jsonRefGetLong_decInt hnra.1 hnra.2] }

theorem openedId_text (r : ReviewRun) : TextField rtSmall (openedId r) ∧ openedId r ≠ [] := by
  have hrun : NulFree (if r.runId = [] then lit "run" else r.runId) := by
    split
    · exact .of_all (by decide)
    · exact r.runId_text
  have hfree : NulFree (lit "aff_" ++ (if r.runId = [] then lit "run" else r.runId) ++ lit "_" ++ decPadded 6 r.nextEvent) :=
    (((NulFree.of_all (lit_all (by decide))).append hrun).append (NulFree.of_all (by decide))).append
      fun c hc => isDigit_ne_zero (decPadded_digits _ _ c hc)
  refine ⟨⟨fun c hc => hfree c (List.mem_of_mem_take hc), clip_length_lt (by decide) _⟩, fun hnil => ?_⟩
  rw [openedId, clip, List.take_eq_nil_iff] at hnil
  rcases hnil with hzero | hnil
  · exact absurd hzero (by decide)
  · simp only [List.append_eq_nil_iff] at hnil
    exact absurd hnil.1.1.1 (by decide)

/-- A review time that was committed is the sum of the clock and the parsed duration. -/
theorem defer_event {r : ReviewRun} {rid args payload : Bytes} {committed : Committed} {nowMs : Int} {appends : Bytes → Bool}
    (h : (fcDefer r rid args committed nowMs appends).event = some payload) :
    ∃ deferMs, fcParseDurationMs (argText args (lit "value") rtSmall) = some deferMs ∧
      (0 < nextReviewAt nowMs deferMs → Commits payload r.inboundAffairId (nextReviewAt nowMs deferMs)) := by
  unfold fcDefer at h
  split at h
  · cases h
  split at h
  · cases h
  rename_i deferMs hparse
  refine ⟨deferMs, hparse, fun hpos => ?_⟩
  split at h
  · rename_i prior
    unfold deferRecovered at h
    split at h
    · cases h
    · split at h <;> cases h
  · cases h
  · split at h
    · rename_i haff hctx hrid
      rw [appendPatch_event h]
      exact commits_update hpos (deferMembers_reads ⟨r.inboundAffairId_text.1, r.inboundAffairId_text.2⟩ haff hctx hrid (wrapLong_range _))
    · cases h

theorem open_event {r : ReviewRun} {rid args payload : Bytes} {committed : Committed} {nowMs : Int} {appends : Bytes → Bool}
    (hne : argText args (lit "review_in") rtSmall ≠ []) (h : (fcAffairOpen r rid args committed nowMs appends).event = some payload) :
    ∃ inMs, fcParseDurationMs (argText args (lit "review_in") rtSmall) = some inMs ∧
      (0 < nextReviewAt nowMs inMs → Commits payload (openedId r) (nextReviewAt nowMs inMs)) := by
  unfold fcAffairOpen at h
  split at h
  · rename_i prior
    unfold openRecovered at h
    split at h
    · cases h
    · split at h <;> cases h
  · cases h
  · dsimp only at h
    split at h
    · cases h
    split at h
    · cases h
    rename_i nra hreview
    rw [reviewInMs, if_neg hne] at hreview
    split at hreview
    · cases hreview
    rename_i inMs hparse
    rw [Option.ite_none_left_eq_some] at hreview
    obtain ⟨-, hnra⟩ := hreview
    obtain rfl := Option.some.inj hnra
    refine ⟨inMs, hparse, fun hpos => ?_⟩
    split at h
    · rename_i haff hmanage hctx hrid
      obtain ⟨hid, hnil⟩ := openedId_text r
      rw [appendPatch_event h]
      exact commits_create hpos hnil (openMembers_reads hid haff hctx hmanage hrid (wrapLong_range _))
    · cases h

/-- The text stands for `d` milliseconds, the two actions commit the time that is so much later, and nothing sees it as due
before. -/
structure Scheduled (s : Bytes) (now d : Int) : Prop where
  parsed : fcParseDurationMs s = some d
  sum : nextReviewAt now d = now + d
  later : now < now + d
  deferred : ∀ (r : ReviewRun) (rid args payload : Bytes) (committed : Committed) (appends : Bytes → Bool),
    argText args (lit "value") rtSmall = s → (fcDefer r rid args committed now appends).event = some payload →
      Commits payload r.inboundAffairId (now + d)
  opened : ∀ (r : ReviewRun) (rid args payload : Bytes) (committed : Committed) (appends : Bytes → Bool),
    argText args (lit "review_in") rtSmall = s → (fcAffairOpen r rid args committed now appends).event = some payload →
      Commits payload (openedId r) (now + d)

/-- A review is scheduled by the number times the unit just where the sum with the clock is within 64 bits. -/
theorem scheduled_iff {s : Bytes} {n unit : Nat} (h : Duration s n unit) {now : Int} (hnow : 0 ≤ now ∧ now ≤ int64Max) :
    Scheduled s now (n * unit : Nat) ↔ now + (n * unit : Nat) ≤ int64Max := by
  have hpos : 0 < n * unit := by
    cases h with
    | mk _ _ _ hunit hn => exact Nat.mul_pos hn (unitMs_pos hunit)
  have hne : s ≠ [] := by
    cases h with
    | mk _ _ hds _ _ =>
      intro hnil
      simp only [List.append_eq_nil_iff] at hnil
      exact hds.1 hnil.2.2.1
  constructor
  · intro hs
    rw [← hs.sum]
    exact (wrapLong_range _).2
  · intro hle
    have hparsed := (parse_exact h).mpr (by omega)
    have hsum : nextReviewAt now (n * unit : Nat) = now + (n * unit : Nat) := by
      refine wrapLong_eq ?_ hle
      unfold int64Min
      omega
    refine ⟨hparsed, hsum, by omega, fun r rid args payload committed appends harg hevent => ?_,
      fun r rid args payload committed appends harg hevent => ?_⟩
    · obtain ⟨deferMs, hparse, hcommits⟩ := defer_event hevent
      rw [harg, hparsed, Option.some.injEq] at hparse
      subst hparse
      rw [hsum] at hcommits
      exact hcommits (by omega)
    · obtain ⟨inMs, hparse, hcommits⟩ := open_event (by rw [harg]; exact hne) hevent
      rw [harg, hparsed, Option.some.injEq] at hparse
      subst hparse
      rw [hsum] at hcommits
      exact hcommits (by omega)

/-- Digits and a suffix alone. -/
theorem duration_plain {ds suffix : Bytes} {unit : Nat} (hds : Digits ds) (hunit : unitMs suffix = some unit) (hpos : 0 < decValue ds) :
    Duration (ds ++ suffix) (decValue ds) unit := @Duration.mk [] [] ds suffix unit (fun _ h => absurd h List.not_mem_nil) (.inl rfl) hds hunit hpos

/-- One minute from the epoch on. -/
theorem minute_scheduled : Scheduled (lit "60" ++ lit "s") 0 (decValue (lit "60") * 1000 : Nat) :=
  (scheduled_iff (duration_plain ⟨by decide, by decide +kernel⟩ (by decide : unitMs (lit "s") = some 1000) (by decide : 0 < decValue (lit "60")))
    (by decide : (0 : Int) ≤ 0 ∧ (0 : Int) ≤ int64Max)).mpr (by decide)

/-- A number of seconds is taken whose milliseconds wrap to less than zero: the review is due before it is deferred. -/
theorem wrapped_into_past :
    ¬ (∀ s n unit, Duration s n unit → Scheduled s 1000 (n * unit : Nat)) ∧
      (fcParseDurationMs (lit "18446744073709551s")).map (nextReviewAt 1000) = some 384 := by
  have hparse : fcParseDurationMs (lit "18446744073709551s") = some (-616) := by rw [lit_ofList]; decide
  refine ⟨fun hall => ?_, by rw [hparse]; decide⟩
  have hs := hall _ _ _ (duration_plain ⟨by rw [lit_ofList]; decide, by decide +kernel⟩ (by decide : unitMs (lit "s") = some 1000)
    (by decide : 0 < decValue (lit "18446744073709551")))
  have hparsed : fcParseDurationMs (lit "18446744073709551s") = _ := hs.parsed
  rw [hparse] at hparsed
  exact absurd hparsed (by decide)

end Floofclaw.Guarantees.ReviewTimes
