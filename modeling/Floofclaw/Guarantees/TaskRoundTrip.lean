import Floofclaw.Guarantees.TaskStoreText

/-!
# The task store over whole runs

Every reducer branch keeps the rows printable, except that `task_created` goes
on after a compaction that did not fit its field. A run in which this never
happens only ever writes files that load back.
-/

set_option autoImplicit false

namespace Floofclaw.Guarantees.TaskRoundTrip
open Floofclaw.Lib Floofclaw.Source.Json Floofclaw.Source.TaskState Floofclaw.Guarantees.TaskStoreText

/-! ## The condition on a step -/

/-- The value is absent, too long to be copied at all, or compacts into its field. -/
def copyFits (v : Option JsonRef) (outLen : Nat) : Bool :=
  match v with
  | none => true
  | some v => decide (rtLarge ≤ v.length) || (valueCompact v outLen []).2

/-- A `task_created` that reaches the writer compacts its `external` and `artifacts`, and no revision
stands at the end of its range. -/
def stepFits (file : Option Bytes) (type payloadJson : Bytes) : Bool :=
  (loadStore file).all (fun t => decide (t.workRev < int64Max)) &&
    match jsonRefTopObject payloadJson with
    | none => true
    | some payload =>
      type ≠ lit "task_created" || (rowsToWrite file type payloadJson).isNone ||
        (copyFits (rtTaskJsonStateValue payload (lit "external")) taskExternalMax &&
          copyFits (rtTaskJsonStateArray payload (lit "artifacts")) taskArtifactsMax)

/-- The files a run from the absent file can leave, each step meeting the condition. -/
inductive Reached : Option Bytes → Prop
  | empty : Reached none
  | step {file : Option Bytes} {type payloadJson : Bytes} : Reached file → stepFits file type payloadJson = true →
      Reached (rtTaskApplyEvent file type payloadJson).1

/-! ## What the readers return -/

theorem stateValue_clean {obj key v : Bytes} (h : CleanObject obj)
    (hv : rtTaskJsonStateValue obj key = some v) : CleanValue v := by
  unfold rtTaskJsonStateValue at hv
  split at hv
  · rename_i w hw
    simp only [Option.some.injEq] at hv
    obtain ⟨state, hstate, hget⟩ := Option.bind_eq_some_iff.mp hw
    exact hv ▸ (h.getObject hstate).get hget
  · exact h.get hv

theorem stateArray_clean {obj key v : Bytes} (h : CleanObject obj)
    (hv : rtTaskJsonStateArray obj key = some v) : CleanValue v ∧ jsonRefInferType v = .array := by
  have hget : ∀ o, CleanObject o → jsonRefObjectGetArray o key = some v → CleanValue v ∧ jsonRefInferType v = .array := by
    intro o ho hov
    rw [jsonRefObjectGetArray, Option.filter_eq_some_iff] at hov
    exact ⟨ho.get hov.1, by simpa using hov.2⟩
  unfold rtTaskJsonStateArray at hv
  split at hv
  · rename_i w hw
    simp only [Option.some.injEq] at hv
    subst hv
    obtain ⟨state, hstate, harr⟩ := Option.bind_eq_some_iff.mp hw
    exact hget state (h.getObject hstate) harr
  · exact hget obj h hv

theorem stateString_text {obj key out : Bytes} {cap : Nat} (h : rtTaskJsonStateString obj key cap = some out) :
    TextField cap out := by
  unfold rtTaskJsonStateString at h
  split at h
  · rename_i o ho
    simp only [Option.some.injEq] at h
    obtain ⟨state, -, hstate⟩ := Option.bind_eq_some_iff.mp ho
    exact h ▸ getString_text hstate
  · exact getString_text h

theorem stateString_getD {obj key : Bytes} {cap : Nat} (hcap : 0 < cap) :
    TextField cap ((rtTaskJsonStateString obj key cap).getD []) := by
  cases h : rtTaskJsonStateString obj key cap with
  | none => exact textField_nil hcap
  | some out => exact stateString_text h

theorem kindField_text (obj : Bytes) : TextField rtSmall (kindField obj) ∧ kindField obj ≠ [] := by
  have hwork : TextField rtSmall (lit "work") ∧ lit "work" ≠ [] := ⟨⟨.of_all (lit_all (by decide)), by decide⟩, by decide⟩
  unfold kindField
  split
  · exact hwork
  · exact hwork
  · rename_i hne h
    exact ⟨getString_text h, hne⟩

/-! ## Raw fields -/

/-- A compaction that succeeds leaves a compact value of the same kind. -/
theorem valueCompact_ok {v old out : Bytes} {cap : Nat} (hv : CleanValue v) (h : valueCompact v cap old = (out, true)) :
    JsonField cap out ∧ jsonRefInferType out = jsonRefInferType v := by
  obtain ⟨c, hc⟩ := isValue_compacts hv.value
  have hcompact := jsonCompact_eq hv.nulFree hc cap
  unfold valueCompact at h
  split at h
  · simp at h
  · rename_i raw hraw
    have hrawv : raw = v := by
      unfold jsonRefValueCopy at hraw
      split at hraw
      · simp at hraw
      · simpa [eq_comm] using hraw
    rw [jsonCompact, ← hrawv] at hcompact
    split at h
    · rename_i o ho
      simp only [Prod.mk.injEq, and_true] at h
      rw [ho] at hcompact
      by_cases hlt : c.length < cap
      · rw [if_pos hlt, Option.some.injEq] at hcompact
        rw [← h, hcompact]
        exact ⟨⟨hc.value, hc.stable, hc.nulFree hv.nulFree, hlt⟩, hc.sameType⟩
      · rw [if_neg hlt] at hcompact
        simp at hcompact
    · simp at h

/-- The `input` buffer holds whatever the copy admits. -/
theorem copyFits_input {v : JsonRef} (hv : CleanValue v) : copyFits (some v) taskInputMax = true := by
  obtain ⟨c, hc⟩ := isValue_compacts hv.value
  by_cases hlong : rtLarge ≤ v.length
  · simp [copyFits, hlong]
  · have hlen := hc.length_le
    have hcompact := jsonCompact_eq hv.nulFree hc taskInputMax
    rw [if_pos (by unfold taskInputMax; unfold rtLarge at hlong; omega)] at hcompact
    have hraw : jsonRefValueCopy rtLarge v = some v := by rw [jsonRefValueCopy, if_neg (by omega)]
    simp only [copyFits, hlong, decide_false, Bool.false_or, valueCompact, hraw, jsonCompactWrite_of_compact hcompact]

/-- A raw field of a new row is empty or a compact value of an admitted kind. -/
theorem compactField_json {Q : JsonRefType → Prop} {v : Option JsonRef} {cap : Nat} {old dflt : Bytes}
    (hfit : copyFits v cap = true) (hv : ∀ w, v = some w → CleanValue w ∧ Q (jsonRefInferType w))
    (hold : old = [] ∨ (JsonField cap old ∧ Q (jsonRefInferType old)))
    (hd : JsonField cap dflt ∧ Q (jsonRefInferType dflt)) :
    compactField v cap old dflt = [] ∨
      (JsonField cap (compactField v cap old dflt) ∧ Q (jsonRefInferType (compactField v cap old dflt))) := by
  cases v with
  | none => exact .inr hd
  | some v =>
    rw [compactField]
    cases hraw : jsonRefValueCopy rtLarge v with
    | none =>
      have hkeep : valueCompact v cap old = (old, false) := by simp only [valueCompact, hraw]
      rw [hkeep]
      exact hold
    | some raw =>
      have hshort : ¬ rtLarge ≤ v.length := by
        intro hlong
        rw [jsonRefValueCopy, if_pos (by omega)] at hraw
        simp at hraw
      simp only [copyFits, hshort, decide_false, Bool.false_or, valueCompact, hraw] at hfit
      cases hout : jsonCompactWrite cap raw with
      | mk out ok =>
        cases ok with
        | false => simp [hout] at hfit
        | true =>
          have hok : valueCompact v cap old = (out, true) := by simp only [valueCompact, hraw, hout]
          obtain ⟨hjson, htype⟩ := valueCompact_ok (hv v rfl).1 hok
          rw [hok]
          exact .inr ⟨hjson, htype ▸ (hv v rfl).2⟩

/-! ## Artifacts -/

theorem reads_elems_append {xs ys : List Bytes} {b b' : Bytes} (h : Reads (.elems xs) b) (h' : Reads (.elems ys) b') :
    Reads (.elems (xs ++ ys)) (b ++ ch ',' :: b') := by
  generalize hp : Part.elems xs = p at h
  induction h generalizing xs with
  | @elem v w hv hw =>
    cases hp
    simpa using Reads.elemCons hv hw Ws.nil h'
  | @elemCons v w w' body xs' hv hw hw' hb _ ihb =>
    cases hp
    simpa using Reads.elemCons hv hw hw' (ihb rfl)
  | _ => cases hp

/-- A compact array that is not the empty one is its brackets around its elements. -/
theorem array_body {s : Bytes} {cap : Nat} (h : JsonField cap s) (ht : jsonRefInferType s = .array) (hne : s ≠ lit "[]") :
    ∃ xs body, Reads (.elems xs) body ∧ Squeezes body body ∧ s = ch '[' :: (body ++ [ch ']']) := by
  obtain ⟨xs, hxs⟩ := isValue_array h.value ht
  have hstable := h.stable
  cases hxs with
  | @empty w hw =>
    have hempty : Squeezes (ch '[' :: (w ++ [ch ']'])) (lit "[]") := by
      simpa [lit] using Squeezes.wrap (x := '[') (y := ']') (by decide) (by decide) hw Squeezes.nil
    exact absurd (hstable.unique hempty) hne
  | @some w body xs hw hb =>
    obtain ⟨c, xs', hsq, hst, hr, -⟩ := reads_compactable hb
    have hform := Squeezes.wrap (x := '[') (y := ']') (by decide) (by decide) hw hsq
    exact ⟨xs', c, hr, hst, hstable.unique hform⟩

/-- Two compact arrays joined at their brackets. -/
theorem merged_json {cap : Nat} {xs ys : List Bytes} {b b' : Bytes} (h : Reads (.elems xs) b) (h' : Reads (.elems ys) b')
    (hs : Squeezes b b) (hs' : Squeezes b' b') (hn : NulFree (ch '[' :: (b ++ [ch ']'])))
    (hn' : NulFree (ch '[' :: (b' ++ [ch ']'])))
    (hfit : (ch '[' :: ((b ++ ch ',' :: b') ++ [ch ']'])).length < cap) :
    JsonField cap (ch '[' :: ((b ++ ch ',' :: b') ++ [ch ']'])) := by
  have hjoin : Squeezes (b ++ ch ',' :: b') (b ++ ch ',' :: b') := by
    simpa using hs.append ((Squeezes.single (x := ',') (by decide)).append hs')
  refine ⟨.arr Ws.nil (reads_elems_append h h'), ?_, ?_, hfit⟩
  · simpa using Squeezes.wrap (x := '[') (y := ']') (by decide) (by decide) Ws.nil hjoin
  · intro c hc
    simp only [List.mem_cons, List.mem_append, List.not_mem_nil, or_false] at hc
    rcases hc with rfl | (hc | rfl | hc) | rfl
    · decide
    · exact hn c (by simp [hc])
    · decide
    · exact hn' c (by simp [hc])
    · decide

/-- `append_artifacts` keeps the field a compact array, whatever it drops. -/
theorem appendArtifacts_json {artifacts incoming out : Bytes}
    (ha : artifacts = [] ∨ (JsonField taskArtifactsMax artifacts ∧ jsonRefInferType artifacts = .array))
    (hi : JsonField taskArtifactsMax incoming) (ht : jsonRefInferType incoming = .array)
    (h : appendArtifacts artifacts incoming = some out) :
    out = [] ∨ (JsonField taskArtifactsMax out ∧ jsonRefInferType out = .array) := by
  have hclip : clip taskArtifactsMax incoming = incoming := clip_eq_self hi.fits
  unfold appendArtifacts at h
  split at h
  · simp only [Option.some.injEq] at h
    exact h ▸ ha
  · rename_i hin
    dsimp only at h
    split at h
    · simp only [Option.some.injEq, hclip] at h
      exact .inr (h ▸ ⟨hi, ht⟩)
    · rename_i hcur
      split at h
      · simp at h
      split at h
      · simp only [Option.some.injEq] at h
        exact h ▸ ha
      · rcases ha with ha | ⟨ha, hat⟩
        · exact absurd (by rw [ha]; rfl) hcur
        · have hraw : rawField artifacts (lit "[]") = artifacts := by rw [rawField, if_neg (IsValue.ne_nil ha.value)]
          rw [hraw] at h hcur
          obtain ⟨xs, b, hb, hsb, hcurEq⟩ := array_body ha hat hcur
          obtain ⟨ys, b', hb', hsb', hinEq⟩ := array_body hi ht (fun he => hin (.inr he))
          have hmerged : artifacts.dropLast ++ lit "," ++ incoming.tail = ch '[' :: ((b ++ ch ',' :: b') ++ [ch ']']) := by
            rw [hcurEq, hinEq, ← List.cons_append, List.dropLast_concat]
            simp [lit]
          rw [hmerged] at h
          split at h
          · simp only [Option.some.injEq, hclip] at h
            exact .inr (h ▸ ⟨hi, ht⟩)
          · rename_i hfit
            simp only [Option.some.injEq] at h
            refine .inr (h ▸ ⟨merged_json hb hb' hsb hsb' ?_ ?_ (Nat.not_le.mp hfit), rfl⟩)
            · exact hcurEq ▸ ha.nulFree
            · exact hinEq ▸ hi.nulFree

/-! ## Rows -/

theorem zero_inLong : InLong 0 := by
  unfold InLong
  decide

/-- What a slot must hold so that a row built in it is printable: the fields that can survive. -/
structure SlotOk (slot : TaskItem) : Prop where
  input : slot.input = [] ∨ JsonField taskInputMax slot.input
  external : slot.external = [] ∨ JsonField taskExternalMax slot.external
  artifacts : slot.artifacts = [] ∨ (JsonField taskArtifactsMax slot.artifacts ∧ jsonRefInferType slot.artifacts = .array)
  createdEventId : TextField rtSmall slot.createdEventId
  createdMs : InLong slot.createdMs
  updatedMs : InLong slot.updatedMs

theorem slotOk_blank : SlotOk blankItem :=
  ⟨.inl rfl, .inl rfl, .inl rfl, textField_nil (by decide), zero_inLong, zero_inLong⟩

theorem slotOk_of_printable {t : TaskItem} (h : Printable t) : SlotOk t :=
  ⟨h.input, h.external, h.artifacts, h.createdEventId, h.createdMs, h.updatedMs⟩

theorem updatedMember_inLong (payload : JsonRef) {old : Int} (hold : InLong old) : InLong (updatedMember payload old) := by
  have hnested : InLong (nestedUpdated payload old) := by
    unfold nestedUpdated
    split
    · exact hold
    · exact jsonRefObjectGetLong_range _ _ hold
  unfold updatedMember
  split
  · exact jsonRefObjectGetLong_range _ _ hnested
  · exact hnested

theorem createItem_printable {slot t : TaskItem} {items : List TaskItem} {payload : JsonRef} (hslot : SlotOk slot)
    (hp : CleanObject payload) (hext : copyFits (rtTaskJsonStateValue payload (lit "external")) taskExternalMax = true)
    (hart : copyFits (rtTaskJsonStateArray payload (lit "artifacts")) taskArtifactsMax = true)
    (h : createItem slot items payload = some t) : Printable t := by
  unfold createItem at h
  split at h
  · simp at h
  · rename_i taskId hid
    split at h
    · simp at h
    · split at h
      · rename_i contextId state hctx hstate
        split at h
        · rename_i hok
          have hinput : compactField (jsonRefObjectGet payload (lit "input")) taskInputMax slot.input (lit "null") = [] ∨
              JsonField taskInputMax
                (compactField (jsonRefObjectGet payload (lit "input")) taskInputMax slot.input (lit "null")) := by
            have hfit : copyFits (jsonRefObjectGet payload (lit "input")) taskInputMax = true := by
              cases hv : jsonRefObjectGet payload (lit "input") with
              | none => rfl
              | some v => exact copyFits_input (hp.get hv)
            have := compactField_json (Q := fun _ => True) hfit (fun w hw => ⟨hp.get hw, trivial⟩)
              (hslot.input.imp_right fun hj => ⟨hj, trivial⟩) ⟨jsonField_null (by decide), trivial⟩
            exact this.imp_right And.left
          have hexternal := compactField_json (Q := fun _ => True) hext (fun w hw => ⟨stateValue_clean hp hw, trivial⟩)
            (hslot.external.imp_right fun hj => ⟨hj, trivial⟩) ⟨jsonField_null (by decide), trivial⟩
          have hartifacts := compactField_json (Q := fun k => k = .array) hart (fun w hw => stateArray_clean hp hw)
            hslot.artifacts ⟨jsonField_emptyArray (by decide), rfl⟩
          simp only [Option.some.injEq] at h
          subst h
          exact
            { taskId := getString_text hid
              contextId := getString_text hctx
              kind := (kindField_text payload).1
              kindNonempty := (kindField_text payload).2
              stateOk := hok
              input := hinput
              work := stateString_getD (by decide)
              doneWhen := stateString_getD (by decide)
              affairId := stateString_getD (by decide)
              delegate := stateString_getD (by decide)
              external := hexternal.imp_right And.left
              artifacts := hartifacts
              workingMemory := stateString_getD (by decide)
              createdEventId := stringField_text hslot.createdEventId
              createdMs := jsonRefObjectGetLong_range _ _ hslot.createdMs
              updatedMs := updatedMember_inLong payload hslot.updatedMs
              revNonneg := by dsimp only; split <;> decide
              revBound := by dsimp only; split <;> decide
              revOfWork := by
                intro hne
                dsimp only
                rw [if_neg hne]
                decide }
        · simp at h
      · simp at h

theorem stampUpdated_printable {t : TaskItem} {updated : Int} (h : Printable t) (hu : InLong updated) :
    Printable (stampUpdated t updated) := by
  unfold stampUpdated
  split
  · exact { h with updatedMs := hu }
  · exact h

theorem stampUpdated_workRev (t : TaskItem) (updated : Int) : (stampUpdated t updated).workRev = t.workRev := by
  unfold stampUpdated
  split <;> rfl

theorem appendMemory_nulFree {memory incoming : Bytes} (hm : NulFree memory) (hi : NulFree incoming) :
    NulFree (appendMemory memory incoming) := by
  have hnl : NulFree (lit "\n") := .of_all (by decide)
  unfold appendMemory
  split
  · exact hi
  · exact (hm.append hnl).append hi

theorem reduceWorkingMemory_printable {t t' : TaskItem} {payload : JsonRef} (ht : Printable t)
    (h : reduceWorkingMemory t payload = some t') : Printable t' := by
  unfold reduceWorkingMemory at h
  split at h
  · simp at h
  · simp at h
  · rename_i incoming hne hin
    split at h
    · simp at h
    · rename_i hfit
      have hmem : Printable { t with workingMemory := appendMemory t.workingMemory incoming } :=
        { ht with
          workingMemory :=
            ⟨appendMemory_nulFree ht.workingMemory.nulFree (getString_text hin).nulFree, Nat.not_le.mp hfit⟩ }
      have hlong := jsonRefObjectGetLong_range payload (lit "updated_ms") zero_inLong
      dsimp only at h
      split at h
      · rename_i updated hget
        rw [hget] at hlong
        simp only [Option.some.injEq] at h
        exact h ▸ stampUpdated_printable hmem hlong
      · simp only [Option.some.injEq] at h
        exact h ▸ hmem

theorem proseUpdate_text {payload key old : Bytes} {cap : Nat} (hold : TextField cap old) :
    TextField cap (proseUpdate payload key cap old) := by
  unfold proseUpdate
  split
  · exact hold
  · rename_i text htext
    exact clip_text (Nat.lt_of_le_of_lt (Nat.zero_le _) hold.fits) (stateString_text htext).nulFree

theorem reduceUpdated_printable {t t' : TaskItem} {payload : JsonRef} (ht : Printable t) (hrev : t.workRev < int64Max)
    (hp : CleanObject payload) (h : reduceUpdated t payload = some t') : Printable t' := by
  unfold reduceUpdated at h
  dsimp only at h
  split at h
  · simp at h
  · have hmax : max t.workRev 0 = t.workRev := Int.max_eq_left ht.revNonneg
    have hstate : taskStateOk ((requestedState payload).filter taskStateOk |>.getD t.state) = true := by
      cases hr : (requestedState payload).filter taskStateOk with
      | none => exact ht.stateOk
      | some s => exact (Option.filter_eq_some_iff.mp hr).2
    have hbase : Printable { t with
        state := ((requestedState payload).filter taskStateOk).getD t.state
        work := proseUpdate payload (lit "work") taskWorkMax t.work
        doneWhen := proseUpdate payload (lit "done_when") taskDoneMax t.doneWhen
        workRev := if (rtTaskJsonStateString payload (lit "work") rtLarge).isSome ||
            (rtTaskJsonStateString payload (lit "done_when") rtLarge).isSome then max t.workRev 0 + 1 else t.workRev
        affairId := proseUpdate payload (lit "affair_id") rtSmall t.affairId
        delegate := proseUpdate payload (lit "delegate") rtSmall t.delegate } :=
      { ht with
        stateOk := hstate
        work := proseUpdate_text ht.work
        doneWhen := proseUpdate_text ht.doneWhen
        affairId := proseUpdate_text ht.affairId
        delegate := proseUpdate_text ht.delegate
        revNonneg := by
          have := ht.revNonneg
          dsimp only
          rw [hmax]
          split <;> omega
        revBound := by
          dsimp only
          rw [hmax]
          split <;> omega
        revOfWork := by
          have hnn := ht.revNonneg
          intro hne
          dsimp only at hne ⊢
          rw [hmax]
          by_cases hw : (rtTaskJsonStateString payload (lit "work") rtLarge).isSome = true
          · rw [if_pos (by simp [hw])]
            omega
          · have hkeep : proseUpdate payload (lit "work") taskWorkMax t.work = t.work := by
              simp only [Bool.not_eq_true, Option.isSome_eq_false_iff, Option.isNone_iff_eq_none] at hw
              rw [proseUpdate, hw]
            rw [hkeep] at hne
            have := ht.revOfWork hne
            split <;> omega }
    split at h
    · simp only [Option.some.injEq] at h
      exact h ▸ hbase
    · rename_i v hv
      split at h
      · rename_i out hout
        simp only [Option.some.injEq] at h
        subst h
        exact { hbase with external := .inr (valueCompact_ok (stateValue_clean hp hv) hout).1 }
      · simp at h

theorem reduceState_printable {t t' : TaskItem} {type payload : Bytes} (ht : Printable t) (hrev : t.workRev < int64Max)
    (hp : CleanObject payload) (h : reduceState t type payload = some t') : Printable t' := by
  unfold reduceState at h
  split at h
  · exact reduceUpdated_printable ht hrev hp h
  · split at h
    · simp at h
    · split at h
      · rename_i hok
        simp only [Option.some.injEq] at h
        exact h ▸ { ht with stateOk := hok }
      · simp at h

theorem reduceArtifacts_printable {t t' : TaskItem} {payload : JsonRef} (ht : Printable t) (hp : CleanObject payload)
    (h : reduceArtifacts t payload = some t') : Printable t' := by
  unfold reduceArtifacts at h
  split at h
  · simp only [Option.some.injEq] at h
    exact h ▸ ht
  · rename_i arts harts
    split at h
    · rename_i incoming hin
      obtain ⟨a, ha, rfl⟩ := Option.map_eq_some_iff.mp h
      obtain ⟨hclean, htype⟩ := stateArray_clean hp harts
      obtain ⟨hjson, hkind⟩ := valueCompact_ok hclean hin
      exact { ht with artifacts := appendArtifacts_json ht.artifacts hjson (hkind.trans htype) ha }
    · simp at h

theorem reduceItem_printable {t t' : TaskItem} {type payload : Bytes} (ht : Printable t) (hrev : t.workRev < int64Max)
    (hp : CleanObject payload) (h : reduceItem t type payload = some t') : Printable t' := by
  unfold reduceItem at h
  split at h
  · simp at h
  split at h
  · exact reduceWorkingMemory_printable ht h
  split at h
  · simp at h
  split at h
  · simp at h
  · split at h
    · simp at h
    · rename_i t1 ht1
      have hstamp := stampUpdated_printable ht (updatedMember_inLong payload zero_inLong)
      exact reduceArtifacts_printable
        (reduceState_printable hstamp (by rw [stampUpdated_workRev]; exact hrev) hp ht1) hp h

/-! ## Stores -/

theorem loadStore_length (file : Option Bytes) : (loadStore file).length ≤ taskMaxItems := by
  unfold loadStore
  split
  · simp
  · split
    · simp
    · rw [List.length_take]
      omega

theorem stepFits_rev {file : Option Bytes} {type payloadJson : Bytes} (h : stepFits file type payloadJson = true) :
    ∀ t ∈ loadStore file, t.workRev < int64Max := by
  simp only [stepFits, Bool.and_eq_true, List.all_eq_true, decide_eq_true_eq] at h
  exact h.1

theorem stepFits_created {file : Option Bytes} {payloadJson payload : Bytes} {rows : List TaskItem}
    (h : stepFits file (lit "task_created") payloadJson = true) (hp : jsonRefTopObject payloadJson = some payload)
    (hrows : rowsToWrite file (lit "task_created") payloadJson = some rows) :
    copyFits (rtTaskJsonStateValue payload (lit "external")) taskExternalMax = true ∧
      copyFits (rtTaskJsonStateArray payload (lit "artifacts")) taskArtifactsMax = true := by
  simp only [stepFits, Bool.and_eq_true, hp, hrows] at h
  simpa using h.2

theorem reduceCreated_printable {items rows : List TaskItem} {payload : JsonRef} (hitems : ∀ t ∈ items, Printable t)
    (hcount : items.length ≤ taskMaxItems) (hp : CleanObject payload)
    (hext : copyFits (rtTaskJsonStateValue payload (lit "external")) taskExternalMax = true)
    (hart : copyFits (rtTaskJsonStateArray payload (lit "artifacts")) taskArtifactsMax = true)
    (h : reduceCreated items payload = some rows) :
    (∀ t ∈ rows, Printable t) ∧ rows.length ≤ taskMaxItems ∧ rows ≠ [] := by
  have hadd : ∀ kept t, (∀ x ∈ kept, Printable x) → Printable t → ∀ x ∈ kept ++ [t], Printable x := by
    intro kept t hkept ht x hx
    rcases List.mem_append.mp hx with hx | hx
    · exact hkept x hx
    · exact List.mem_singleton.mp hx ▸ ht
  unfold reduceCreated at h
  split at h
  · rename_i hfull
    split at h
    · simp at h
    · rename_i kept hkept
      obtain ⟨t, ht, rfl⟩ := Option.map_eq_some_iff.mp h
      have hslot : SlotOk (items.getLastD blankItem) := by
        cases hl : items.getLast? with
        | none =>
          rw [List.getLast?_eq_none_iff] at hl
          rw [hl]
          exact slotOk_blank
        | some last =>
          rw [List.getLastD_eq_getLast?, hl]
          exact slotOk_of_printable (hitems last (List.mem_of_getLast? hl))
      unfold taskEvictOldestTerminal at hkept
      split at hkept
      · simp at hkept
      · rename_i idx hidx
        simp only [Option.some.injEq] at hkept
        subst hkept
        have hlt : idx < items.length := (List.findIdx?_eq_some_iff_findIdx_eq.mp hidx).1
        refine ⟨hadd _ _ (fun x hx => hitems x (List.mem_of_mem_eraseIdx hx))
          (createItem_printable hslot hp hext hart ht), ?_, by simp⟩
        rw [List.length_append, List.length_eraseIdx_of_lt hlt]
        simp only [List.length_cons, List.length_nil]
        omega
  · rename_i hroom
    obtain ⟨t, ht, rfl⟩ := Option.map_eq_some_iff.mp h
    refine ⟨hadd _ _ hitems (createItem_printable slotOk_blank hp hext hart ht), ?_, by simp⟩
    rw [List.length_append]
    simp only [List.length_cons, List.length_nil]
    omega

/-- One step: from printable rows the reducer hands printable rows to the writer. -/
theorem rowsToWrite_printable {file : Option Bytes} {type payloadJson : Bytes} {rows : List TaskItem}
    (hfile : ∀ t ∈ loadStore file, Printable t) (hfit : stepFits file type payloadJson = true)
    (h : rowsToWrite file type payloadJson = some rows) :
    (∀ t ∈ rows, Printable t) ∧ rows.length ≤ taskMaxItems ∧ rows ≠ [] := by
  have hrows := h
  unfold rowsToWrite at h
  split at h
  · split at h
    · simp at h
    · rename_i payload hp
      have hclean := CleanObject.of_top hp
      unfold reduceTasks at h
      split at h
      · rename_i htype
        subst htype
        obtain ⟨hext, hart⟩ := stepFits_created hfit hp hrows
        exact reduceCreated_printable hfile (loadStore_length file) hclean hext hart h
      · split at h
        · simp at h
        · split at h
          · simp at h
          · rename_i idx _ t ht
            obtain ⟨t', ht', rfl⟩ := Option.map_eq_some_iff.mp h
            have hmem : t ∈ loadStore file := List.mem_of_getElem? ht
            have hnew := reduceItem_printable (hfile t hmem) (stepFits_rev hfit t hmem) hclean ht'
            refine ⟨fun x hx => ?_, by rw [List.length_set]; exact loadStore_length file, ?_⟩
            · rcases List.mem_or_eq_of_mem_set hx with hx | rfl
              · exact hfile x hx
              · exact hnew
            · intro hnil
              rw [List.set_eq_nil_iff] at hnil
              rw [hnil] at hmem
              simp at hmem
  · simp at h

theorem shown_printable {t : TaskItem} (h : Printable t) : Printable (shown t) := by
  have hart : rawField t.artifacts (lit "[]") = [] ∨ (JsonField taskArtifactsMax (rawField t.artifacts (lit "[]")) ∧
      jsonRefInferType (rawField t.artifacts (lit "[]")) = .array) := by
    rcases h.artifacts with ha | ha
    · rw [ha]
      exact .inr ⟨jsonField_emptyArray (by decide), rfl⟩
    · rw [rawField, if_neg (IsValue.ne_nil ha.1.value)]
      exact .inr ha
  exact
    { h with
      input := .inr (rawField_json (jsonField_null (by decide)) h.input)
      external := .inr (rawField_json (jsonField_null (by decide)) h.external)
      artifacts := hart }

/-- Over a whole run: every reached file is absent or one JSON object, and its rows are printable. -/
theorem reached_printable {file : Option Bytes} (h : Reached file) :
    (∀ t ∈ loadStore file, Printable t) ∧ ∀ text, file = some text → (jsonRefTopObject text).isSome = true := by
  induction h with
  | empty => exact ⟨by simp [loadStore], by simp⟩
  | @step file type payloadJson _ hfit ih =>
    unfold rtTaskApplyEvent
    cases hb : (rowsToWrite file type payloadJson).bind writeStore with
    | none => exact ih
    | some text =>
      obtain ⟨rows, hrows, hw⟩ := Option.bind_eq_some_iff.mp hb
      obtain ⟨hprint, hcount, -⟩ := rowsToWrite_printable ih.1 hfit hrows
      obtain ⟨htop, hload⟩ := loadStore_writeStore hprint hcount hw
      refine ⟨fun t ht => ?_, fun text' htext => ?_⟩
      · dsimp only at ht
        rw [hload] at ht
        obtain ⟨t', ht', rfl⟩ := List.mem_map.mp ht
        exact shown_printable (hprint t' ht')
      · exact Option.some.inj htext ▸ htop

/-- From any file a run has reached, what the next step writes is one JSON object that loads as the
rows it was written from, in order; the next load does not see an empty store. -/
theorem task_store_round_trips {file : Option Bytes} (hrun : Reached file) {type payloadJson : Bytes}
    (hfit : stepFits file type payloadJson = true) {rows : List TaskItem}
    (hrows : rowsToWrite file type payloadJson = some rows) {text : Bytes} (hw : writeStore rows = some text) :
    rtTaskApplyEvent file type payloadJson = (some text, true) ∧ (jsonRefTopObject text).isSome = true ∧
      loadStore (some text) = rows.map shown ∧ loadStore (some text) ≠ [] := by
  obtain ⟨hprint, hcount, hne⟩ := rowsToWrite_printable (reached_printable hrun).1 hfit hrows
  obtain ⟨htop, hload⟩ := loadStore_writeStore hprint hcount hw
  refine ⟨by rw [rtTaskApplyEvent, hrows, Option.bind_some, hw], htop, hload, ?_⟩
  rw [hload]
  simpa using hne

/-- A `task_created` payload around an artifacts array. -/
def createdMembers (artifacts : Bytes) : List (Bytes × Bytes) :=
  [(lit "task_id", quoted (lit "t1")), (lit "context_id", quoted (lit "chat:cli")),
    (lit "state", objText [(lit "status", quoted (lit "open")), (lit "artifacts", artifacts)])]

theorem small_task_round_trips : ∃ rows text,
    rowsToWrite none (lit "task_created") (objText (createdMembers (lit "[]"))) = some rows ∧
      writeStore rows = some text ∧ loadStore (some text) = rows.map shown := by
  have hsome : ((rowsToWrite none (lit "task_created") (objText (createdMembers (lit "[]")))).bind writeStore).isSome =
      true := by decide +kernel
  obtain ⟨text, htext⟩ := Option.isSome_iff_exists.mp hsome
  obtain ⟨rows, hrows, hw⟩ := Option.bind_eq_some_iff.mp htext
  exact ⟨rows, text, hrows, hw, (task_store_round_trips .empty (by decide +kernel) hrows hw).2.2.1⟩

/-! ## An array that does not fit -/

/-- An array of one string of `n` letters: `n + 4` octets. -/
def wideArtifacts (n : Nat) : Bytes := arrText [quoted (List.replicate n (ch 'a'))]

/-- The same array cut behind its letters. -/
def cutArtifacts (n : Nat) : Bytes := ch '[' :: ch '"' :: List.replicate n (ch 'a')

private theorem compactLoop_replicate {cap : Nat} {c : Byte} (hq : c ≠ ch '"') (hb : c ≠ ch '\\') (n : Nat)
    (rest out : Bytes) (hfit : out.length + n < cap) :
    compactLoop cap true (List.replicate n c ++ rest) out = compactLoop cap true rest (out ++ List.replicate n c) := by
  induction n generalizing out with
  | zero => simp
  | succ n ih =>
    rw [List.replicate_succ, List.cons_append, compactLoop_inString hq hb (by omega), ih _ (by simp; omega)]
    simp

private theorem replicate_nulFree (n : Nat) : NulFree (List.replicate n (ch 'a')) := by
  intro c hc
  rw [(List.mem_replicate.mp hc).2]
  decide

theorem wideArtifacts_clean (n : Nat) : CleanValue (wideArtifacts n) := by
  refine .arrText fun x hx => ?_
  rw [List.mem_singleton.mp hx]
  have hplain : escaped (List.replicate n (ch 'a')) = List.replicate n (ch 'a') :=
    escaped_plain fun c hc => by rw [(List.mem_replicate.mp hc).2]; decide
  exact hplain ▸ .text (List.replicate n (ch 'a'))

/-- The compaction stops one octet short of the buffer, in the middle of the string. -/
theorem wideArtifacts_cut {n : Nat} (hn : n + 3 = taskArtifactsMax) :
    valueCompact (wideArtifacts n) taskArtifactsMax [] = (cutArtifacts n, false) := by
  have hform : wideArtifacts n = ch '[' :: ch '"' :: (List.replicate n (ch 'a') ++ [ch '"', ch ']']) := by
    simp [wideArtifacts, arrText, elemsText, quoted]
  have hcap : taskArtifactsMax = 2048 := rfl
  have hraw : jsonRefValueCopy rtLarge (wideArtifacts n) = some (wideArtifacts n) := by
    rw [jsonRefValueCopy, if_neg]
    rw [hform]
    simp only [List.length_cons, List.length_append, List.length_replicate, List.length_nil, rtLarge]
    omega
  have hloop : compactLoop taskArtifactsMax false (wideArtifacts n) [] = (cutArtifacts n, false) := by
    rw [hform, compactLoop, if_neg (by decide), if_neg (by decide), if_neg (by decide), compactLoop, if_pos rfl,
      if_neg (by decide), compactLoop_replicate (by decide) (by decide) _ _ _ (by simp; omega)]
    rw [compactLoop.eq_def]
    dsimp only
    rw [if_neg (by decide), if_pos (by simp; omega)]
    rfl
  have hwrite : jsonCompactWrite taskArtifactsMax (wideArtifacts n) = (cutArtifacts n, false) := by
    rw [jsonCompactWrite, if_neg (by decide), cstr_eq_self (wideArtifacts_clean n).nulFree, hloop]
  have hcut : overlay (cutArtifacts n) [] = cutArtifacts n := by
    have hfree : NulFree (cutArtifacts n) := by
      intro c hc
      rcases List.mem_cons.mp hc with rfl | hc
      · decide
      rcases List.mem_cons.mp hc with rfl | hc
      · decide
      · exact replicate_nulFree n c hc
    rw [overlay, List.drop_nil, List.append_nil, cstr_eq_self hfree]
  simp only [valueCompact, hraw, hwrite, hcut]

/-- The row that reaches the writer. -/
def cutRow (n : Nat) : TaskItem :=
  { blankItem with
    taskId := lit "t1", contextId := lit "chat:cli", kind := lit "work", state := lit "open", input := lit "null",
    external := lit "null", artifacts := cutArtifacts n }

theorem plainText_clean {s : Bytes} (hs : s.all isPlain = true) : CleanValue (quoted s) := by
  have hplain : escaped s = s := escaped_plain (by simpa using hs)
  exact hplain ▸ .text s

theorem wide_state_written (n : Nat) :
    WrittenMembers [(lit "status", quoted (lit "open")), (lit "artifacts", wideArtifacts n)] :=
  .key (by decide) (plainText_clean (lit_all (by decide))) (.key (by decide) (wideArtifacts_clean n) .nil)

theorem wide_payload_written (n : Nat) : WrittenMembers (createdMembers (wideArtifacts n)) :=
  .key (by decide) (plainText_clean (by decide)) (.key (by decide) (plainText_clean (lit_all (by decide)))
    (.key (by decide) (.objText (wide_state_written n)) .nil))

theorem wide_createItem {n : Nat} (hn : n + 3 = taskArtifactsMax) :
    createItem blankItem [] (objText (createdMembers (wideArtifacts n))) = some (cutRow n) := by
  have hstate := wide_state_written n
  have hms := wide_payload_written n
  have hobj : jsonRefObjectGetObject (objText (createdMembers (wideArtifacts n))) (lit "state") =
      some (objText [(lit "status", quoted (lit "open")), (lit "artifacts", wideArtifacts n)]) := by
    rw [jsonRefObjectGetObject, hms.get]
    rfl
  have hart : rtTaskJsonStateArray (objText (createdMembers (wideArtifacts n))) (lit "artifacts") =
      some (wideArtifacts n) := by
    have hnested : jsonRefObjectGetArray
        (objText [(lit "status", quoted (lit "open")), (lit "artifacts", wideArtifacts n)]) (lit "artifacts") =
        some (wideArtifacts n) := by
      rw [jsonRefObjectGetArray, hstate.get]
      rfl
    simp only [rtTaskJsonStateArray, hobj, Option.bind_some, hnested]
  have hnone : ∀ key cap, assoc key [(lit "status", quoted (lit "open")), (lit "artifacts", wideArtifacts n)] = none →
      assoc key (createdMembers (wideArtifacts n)) = none →
      rtTaskJsonStateString (objText (createdMembers (wideArtifacts n))) key cap = none := by
    intro key cap h1 h2
    simp only [rtTaskJsonStateString, hobj, Option.bind_some, jsonRefObjectGetString, hstate.get, hms.get, h1, h2,
      Option.bind_none]
  have hlong : ∀ key, assoc key (createdMembers (wideArtifacts n)) = none →
      jsonRefObjectGetLong (objText (createdMembers (wideArtifacts n))) key 0 = (0, false) := by
    intro key h
    rw [jsonRefObjectGetLong, hms.get, h]
  have hupdated : updatedMember (objText (createdMembers (wideArtifacts n))) 0 = 0 := by
    have hnested : nestedUpdated (objText (createdMembers (wideArtifacts n))) 0 = 0 := by
      simp only [nestedUpdated, hobj, jsonRefObjectGetLong, hstate.get]
      rfl
    rw [updatedMember, hnested, if_pos rfl, hlong _ rfl]
  have hid : jsonRefObjectGetString (objText (createdMembers (wideArtifacts n))) (lit "task_id") rtSmall =
      some (lit "t1") := by
    have hget : assoc (lit "task_id") (createdMembers (wideArtifacts n)) = some (quoted (lit "t1")) := rfl
    rw [jsonRefObjectGetString, hms.get, hget, Option.bind_some]
    decide
  have hctx : jsonRefObjectGetString (objText (createdMembers (wideArtifacts n))) (lit "context_id") rtMed =
      some (lit "chat:cli") := by
    have hget : assoc (lit "context_id") (createdMembers (wideArtifacts n)) = some (quoted (lit "chat:cli")) := rfl
    rw [jsonRefObjectGetString, hms.get, hget, Option.bind_some]
    rw [lit_ofList]; decide
  have hstatus : rtTaskJsonStatus (objText (createdMembers (wideArtifacts n))) rtSmall = some (lit "open") := by
    have hopen : jsonRefObjectGetString (objText [(lit "status", quoted (lit "open")), (lit "artifacts", wideArtifacts n)])
        (lit "status") rtSmall = some (lit "open") := by
      have hget : assoc (lit "status") [(lit "status", quoted (lit "open")), (lit "artifacts", wideArtifacts n)] =
        some (quoted (lit "open")) := rfl
      rw [jsonRefObjectGetString, hstate.get, hget, Option.bind_some]
      rw [lit_ofList]; decide
    simp only [rtTaskJsonStatus, hobj, Option.bind_some, hopen]
  have hkind : kindField (objText (createdMembers (wideArtifacts n))) = lit "work" := by
    have hget : jsonRefObjectGetString (objText (createdMembers (wideArtifacts n))) (lit "kind") rtSmall = none := by
      rw [jsonRefObjectGetString, hms.get]
      rfl
    rw [kindField, hget]
  have hinput : jsonRefObjectGet (objText (createdMembers (wideArtifacts n))) (lit "input") = none := hms.get _
  have hexternal : rtTaskJsonStateValue (objText (createdMembers (wideArtifacts n))) (lit "external") = none := by
    simp only [rtTaskJsonStateValue, hobj, Option.bind_some, hstate.get, hms.get]
    rfl
  have hevent : stringField (objText (createdMembers (wideArtifacts n))) (lit "created_event_id") rtSmall [] = [] := by
    rw [stringField, hms.get]
    rfl
  have hok : taskStateOk (lit "open") = true := by decide
  have hfield : compactField (some (wideArtifacts n)) taskArtifactsMax [] (lit "[]") = cutArtifacts n := by
    rw [compactField, wideArtifacts_cut hn]
  rw [createItem, hid, hctx, hstatus]
  simp only [hok, if_true, hkind, hinput, hexternal, hart, hnone (lit "work") _ rfl rfl,
    hnone (lit "done_when") _ rfl rfl, hnone (lit "affair_id") _ rfl rfl, hnone (lit "delegate") _ rfl rfl,
    hnone (lit "working_memory") _ rfl rfl, hfield, show blankItem.artifacts = [] from rfl,
    show blankItem.createdEventId = [] from rfl, hevent, show blankItem.createdMs = 0 from rfl,
    hlong (lit "created_ms") rfl, show blankItem.updatedMs = 0 from rfl, hupdated]
  rfl

theorem wide_rows {n : Nat} (hn : n + 3 = taskArtifactsMax) :
    rowsToWrite none (lit "task_created") (objText (createdMembers (wideArtifacts n))) = some [cutRow n] := by
  have hms := wide_payload_written n
  have htop : jsonRefTopObject (objText (createdMembers (wideArtifacts n))) =
      some (objText (createdMembers (wideArtifacts n))) :=
    jsonRefTopObject_complete hms.objText (CleanValue.objText hms).nulFree
  have htype : rtTaskIsEventType (lit "task_created") = true := by rw [lit_ofList]; decide
  have hload : loadStore none = [] := rfl
  simp only [rowsToWrite, htype, if_true, htop, reduceTasks, hload, reduceCreated]
  rw [if_neg (by decide), wide_createItem hn]
  rfl

/-- An accepted `task_created` whose artifacts compact to 2049 octets: the file it writes is no JSON
object, and the next load sees an empty store. -/
theorem wide_artifacts_lost :
    rowsToWrite none (lit "task_created") (objText (createdMembers (wideArtifacts 2045))) = some [cutRow 2045] ∧
      ∃ text, rtTaskApplyEvent none (lit "task_created") (objText (createdMembers (wideArtifacts 2045))) =
          (some text, true) ∧
        jsonRefTopObject text = none ∧ loadStore (some text) = [] ∧ loadStore (some text) ≠ [cutRow 2045].map shown := by
  have hrows : rowsToWrite none (lit "task_created") (objText (createdMembers (wideArtifacts 2045))) =
      some [cutRow 2045] := wide_rows rfl
  have hcut : (writeStore [cutRow 2045]).map jsonRefTopObject = some none := by decide +kernel
  obtain ⟨text, htext, htop⟩ := Option.map_eq_some_iff.mp hcut
  have hload : loadStore (some text) = [] := by
    rw [loadStore]
    simp only [htop, Option.bind_none]
  refine ⟨hrows, text, ?_, htop, hload, by rw [hload]; simp⟩
  rw [rtTaskApplyEvent, hrows, Option.bind_some, htext]

end Floofclaw.Guarantees.TaskRoundTrip
