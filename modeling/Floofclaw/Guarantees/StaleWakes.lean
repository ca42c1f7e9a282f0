import Floofclaw.Guarantees.OutboxWakes

/-!
# Stale wakes

A producer reserves the next event id of its run in a record, and only then
appends the event. When it dies in between, the id goes to whatever the
recovered run commits next. Where every event and every new record under a
reserved id is the one that was prepared, no pass fails; a single other event
under it fails every pass that follows.
-/

set_option autoImplicit false

namespace Floofclaw.Guarantees.StaleWakes
open Floofclaw.Lib Floofclaw.Source.Json Floofclaw.Source.EventLog Floofclaw.Source.Outbox Floofclaw.Guarantees.OutboxWakes

/-! ## Lines -/

theorem linesFrom_torn {line tail : Bytes} (h : ch '\n' ∉ tail) : linesFrom line tail = [] := by
  induction tail generalizing line with
  | nil => rfl
  | cons c tail ih =>
    rw [List.mem_cons, not_or] at h
    rw [linesFrom, if_neg fun hc => h.1 hc.symm]
    exact ih h.2

theorem linesFrom_append_torn {line text tail : Bytes} (h : ch '\n' ∉ tail) :
    linesFrom line (text ++ tail) = linesFrom line text := by
  induction text generalizing line with
  | nil => exact linesFrom_torn h
  | cons c text ih =>
    rw [List.cons_append, linesFrom, linesFrom]
    split
    · rw [ih]
    · exact ih

theorem cstr_append (text tail : Bytes) :
    cstr (text ++ tail) = cstr text ∨ cstr (text ++ tail) = cstr text ++ cstr tail := by
  induction text with
  | nil => exact .inr rfl
  | cons c text ih =>
    by_cases hc : c = 0
    · exact .inl (by simp [cstr, hc])
    · rcases ih with ih | ih
      · exact .inl (by simpa [cstr, hc] using ih)
      · exact .inr (by simpa [cstr, hc] using ih)

theorem cstr_subset (text : Bytes) : cstr text ⊆ text := by
  intro c hc
  exact (List.takeWhile_sublist _).subset hc

/-- A torn tail is no line. -/
theorem completeLines_append_torn {text tail : Bytes} (h : ch '\n' ∉ tail) :
    completeLines (text ++ tail) = completeLines text := by
  unfold completeLines
  rcases cstr_append text tail with heq | heq
  · rw [heq]
  · rw [heq]
    exact linesFrom_append_torn fun hmem => h (cstr_subset tail hmem)

/-- Recovery cuts a torn tail and keeps every line. -/
theorem completeLines_untorn (text : Bytes) : completeLines (untorn text) = completeLines text := by
  have hsplit : text = untorn text ++ (text.reverse.takeWhile fun c => c ≠ ch '\n').reverse := by
    unfold untorn
    rw [← List.reverse_append, List.takeWhile_append_dropWhile, List.reverse_reverse]
  have htail : ch '\n' ∉ (text.reverse.takeWhile fun c => c ≠ ch '\n').reverse := by
    intro hmem
    rw [List.mem_reverse] at hmem
    simpa using List.mem_takeWhile_imp hmem
  conv_rhs => rw [hsplit]
  exact (completeLines_append_torn htail).symm

def linesOf (s : OutboxState) (runId : Bytes) : List Bytes := completeLines ((s.logs runId).getD [])

theorem linesOf_setLog (s : OutboxState) (runId other : Bytes) (text : Option Bytes) :
    linesOf (setLog s runId text) other = if other = runId then completeLines (text.getD []) else linesOf s other := by
  unfold linesOf setLog
  dsimp only
  split <;> rfl

/-! ## The condition -/

/-- The line has a new id of its log, is the event of every unbound record that reserves this id, and is the wake
of every record its run claims when it is the first. -/
def LineExpected (s : OutboxState) (runId line : Bytes) : Prop :=
  (lineEventId line).isSome ∧ (∀ l ∈ linesOf s runId, lineEventId l ≠ lineEventId line) ∧
    (∀ r ∈ s.records, r.sourceRunId = runId → r.claimedRunId = [] → lineEventId line = some r.sourceEventId →
      ownsSource r line = true) ∧
    (linesOf s runId = [] → ∀ ctl ∈ s.runs, ctl.runId = runId → ∀ r ∈ s.records, ctl.eventId = r.wakeId →
      wakeLineExact runId r line = true)

/-- The text adds at most one line, and an expected one. -/
def AppendExpected (s : OutboxState) (runId text : Bytes) : Prop :=
  completeLines ((s.logs runId).getD [] ++ text) = linesOf s runId ∨
    ∃ line ∈ (completeLines ((s.logs runId).getD [] ++ text)).getLast?,
      completeLines ((s.logs runId).getD [] ++ text) = linesOf s runId ++ [line] ∧ LineExpected s runId line

/-- What a step may commit under a reserved id. -/
def Orderly (s : OutboxState) : OutboxInput → Prop
  | .append runId text => AppendExpected s runId text
  | .prepare wanted _ =>
    preparedSourceLookup s.records wanted = .fresh →
      ∀ l ∈ linesOf s wanted.sourceRunId, lineEventId l ≠ some wanted.sourceEventId
  | _ => True

/-- What recovery writes: no intake, and under a reserved id the record that is there. -/
def Recovering (s : OutboxState) (i : OutboxInput) : Prop :=
  Orderly s i ∧
    match i with
    | .rename _ => False
    | .prepare wanted written =>
      match preparedSourceLookup s.records wanted with
      | .reused => True
      | .refused => False
      | .fresh => s.records.length < publicationScanCap ∧ written = true
    | _ => True

instance (s : OutboxState) (runId line : Bytes) : Decidable (LineExpected s runId line) :=
  inferInstanceAs (Decidable (_ ∧ _ ∧ _ ∧ _))

instance (s : OutboxState) (runId text : Bytes) : Decidable (AppendExpected s runId text) :=
  inferInstanceAs (Decidable (_ ∨ _))

instance (s : OutboxState) : (i : OutboxInput) → Decidable (Orderly s i)
  | .append runId text => inferInstanceAs (Decidable (AppendExpected s runId text))
  | .prepare wanted _ =>
    inferInstanceAs (Decidable (preparedSourceLookup s.records wanted = .fresh →
      ∀ l ∈ linesOf s wanted.sourceRunId, lineEventId l ≠ some wanted.sourceEventId))
  | .truncate _ | .publishOther _ | .reconcile _ | .rename _ | .reject | .persist _ | .bind _ | .finish | .terminate _
  | .release _ _ _ | .prune _ | .discard _ | .crash => isTrue trivial

instance (s : OutboxState) (wanted : PublicationRecord) (written : Bool) :
    Decidable (match preparedSourceLookup s.records wanted with
      | .reused => True
      | .refused => False
      | .fresh => s.records.length < publicationScanCap ∧ written = true) :=
  match preparedSourceLookup s.records wanted with
  | .reused => isTrue trivial
  | .refused => isFalse id
  | .fresh => inferInstance

instance (s : OutboxState) : (i : OutboxInput) → Decidable (Recovering s i)
  | .rename _ => isFalse And.right
  | .append runId text => inferInstanceAs (Decidable (Orderly s (.append runId text) ∧ True))
  | .prepare wanted written => inferInstanceAs (Decidable (Orderly s (.prepare wanted written) ∧ _))
  | .truncate _ | .publishOther _ | .reconcile _ | .reject | .persist _ | .bind _ | .finish | .terminate _
  | .release _ _ _ | .prune _ | .discard _ | .crash => isTrue ⟨trivial, trivial⟩

/-! ## The invariant -/

/-- Nothing in the state contradicts the record. -/
structure Fine (s : OutboxState) (r : PublicationRecord) : Prop where
  source : r.claimedRunId = [] →
    (linesOf s r.sourceRunId).filter (fun l => lineEventId l = some r.sourceEventId) = [] ∨
      ∃ line, (linesOf s r.sourceRunId).filter (fun l => lineEventId l = some r.sourceEventId) = [line] ∧
        ownsSource r line = true
  claim : ∀ ctl ∈ s.runs, ctl.eventId = r.wakeId →
    ctl.createdType = r.wakeType ∧ ∀ line ∈ (linesOf s ctl.runId).head?, wakeLineExact ctl.runId r line = true
  bus : ∀ e, e ∈ s.inbox ∨ e ∈ s.processed → e.id = r.wakeId → e = wakeEnvelope r

structure Sound (s : OutboxState) : Prop where
  served : Served s
  lines : ∀ runId, ∀ l ∈ linesOf s runId, (lineEventId l).isSome
  apart : ∀ e ∈ s.inbox, ∀ e' ∈ s.processed, e.id ≠ e'.id
  wakes : (s.records.map PublicationRecord.wakeId).Nodup
  fine : ∀ r ∈ s.records, Fine s r

/-- A step that leaves alone the lines, the claims and the envelopes of a record. -/
theorem Fine.frame {s s' : OutboxState} {r : PublicationRecord} (h : Fine s r)
    (hsource : linesOf s' r.sourceRunId = linesOf s r.sourceRunId)
    (hruns : ∀ ctl' ∈ s'.runs, ctl'.eventId = r.wakeId → linesOf s' ctl'.runId = linesOf s ctl'.runId ∧
      ∃ ctl ∈ s.runs, ctl.runId = ctl'.runId ∧ ctl.eventId = ctl'.eventId ∧ ctl.createdType = ctl'.createdType)
    (hbus : ∀ e, e ∈ s'.inbox ∨ e ∈ s'.processed → e.id = r.wakeId →
      (e ∈ s.inbox ∨ e ∈ s.processed) ∨ e = wakeEnvelope r) : Fine s' r := by
  refine ⟨fun hunbound => ?_, fun ctl' hctl' hevent => ?_, fun e he hid => ?_⟩
  · rw [hsource]
    exact h.source hunbound
  · obtain ⟨hlines, ctl, hctl, hname, hevent', htype⟩ := hruns ctl' hctl' hevent
    obtain ⟨htype', hhead⟩ := h.claim ctl hctl (hevent'.trans hevent)
    rw [hlines, ← hname]
    exact ⟨htype ▸ htype', hhead⟩
  · rcases hbus e he hid with he | he
    · exact h.bus e he hid
    · exact he

/-! ## A pass does not fail -/

theorem sourceLoop_safe {record : PublicationRecord} {found : Nat} {result : SourceState} {lines : List Bytes}
    (hparse : ∀ l ∈ lines, (lineEventId l).isSome) (hresult : result ≠ .conflict)
    (hlines : lines.filter (fun l => lineEventId l = some record.sourceEventId) = [] ∨
      (found = 0 ∧ ∃ line, lines.filter (fun l => lineEventId l = some record.sourceEventId) = [line] ∧
        ownsSource record line = true)) : sourceLoop record found result lines ≠ .conflict := by
  induction lines generalizing found result with
  | nil => exact hresult
  | cons line rest ih =>
    have hrest : ∀ l ∈ rest, (lineEventId l).isSome := fun l hl => hparse l (List.mem_cons_of_mem _ hl)
    obtain ⟨eventId, hid⟩ := Option.isSome_iff_exists.mp (hparse line List.mem_cons_self)
    rw [sourceLoop, hid]
    dsimp only
    by_cases heq : eventId = record.sourceEventId
    · rw [if_pos heq]
      have hkeep : (line :: rest).filter (fun l => lineEventId l = some record.sourceEventId) =
          line :: rest.filter (fun l => lineEventId l = some record.sourceEventId) := by
        simp [hid, heq]
      rw [hkeep] at hlines
      rcases hlines with hnone | ⟨hzero, line', hone, howns⟩
      · cases hnone
      · rw [List.cons.injEq] at hone
        rw [if_neg (by simp [hzero, hone.1, howns])]
        exact ih hrest (by simp) (.inl hone.2)
    · rw [if_neg heq]
      have hdrop : (line :: rest).filter (fun l => lineEventId l = some record.sourceEventId) =
          rest.filter (fun l => lineEventId l = some record.sourceEventId) := by
        simp [hid, heq]
      rw [hdrop] at hlines
      exact ih hrest hresult hlines

theorem sourceState_safe {s : OutboxState} {r : PublicationRecord} (h : Fine s r)
    (hparse : ∀ l ∈ linesOf s r.sourceRunId, (lineEventId l).isSome) (hunbound : r.claimedRunId = []) :
    sourceState r (s.logs r.sourceRunId) ≠ .conflict := by
  have hlines := h.source hunbound
  unfold linesOf at hparse hlines
  unfold sourceState
  split
  · simp
  · rename_i text htext
    rw [htext] at hparse hlines
    refine sourceLoop_safe hparse (by simp) ?_
    rcases hlines with hnone | hone
    · exact .inl hnone
    · exact .inr ⟨rfl, hone⟩

theorem claimedInboundState_safe {s : OutboxState} {r : PublicationRecord} {runId : Bytes}
    (h : ∀ line ∈ (linesOf s runId).head?, wakeLineExact runId r line = true) :
    claimedInboundState runId r (s.logs runId) ≠ .conflict := by
  unfold linesOf at h
  unfold claimedInboundState
  split
  · simp
  · rename_i text htext
    rw [htext] at h
    split
    · simp
    · rename_i line rest hlines
      have hexact : wakeLineExact runId r line = true := by
        refine h line ?_
        rw [Option.getD_some, hlines]
        rfl
      rw [if_pos hexact]
      simp

theorem claimStateOfRun_safe {s : OutboxState} {r : PublicationRecord} {ctl : RunControl} (h : Fine s r)
    (hctl : ctl ∈ s.runs) (hevent : ctl.eventId = r.wakeId) : claimStateOfRun s r ctl ≠ .conflict := by
  obtain ⟨htype, hhead⟩ := h.claim ctl hctl hevent
  unfold claimStateOfRun
  rw [if_neg (by simp [htype])]
  split
  · rename_i hconflict
    exact absurd hconflict (claimedInboundState_safe hhead)
  · simp
  · split <;> simp

/-- The runs of a state, as far as a verdict reads them. -/
structure RunsDistinct (s : OutboxState) : Prop where
  events : (s.runs.map RunControl.eventId).Nodup
  names : (s.runs.map RunControl.runId).Nodup

theorem runClaimScan_safe {s : OutboxState} {r : PublicationRecord} (h : Fine s r) (hruns : RunsDistinct s) :
    runClaimScan s r ≠ .conflict := by
  unfold runClaimScan
  split
  · simp
  · rename_i ctl hone
    have hmem : ctl ∈ s.runs.filter fun ctl => ctl.eventId = r.wakeId := by rw [hone]; simp
    rw [List.mem_filter] at hmem
    exact claimStateOfRun_safe h hmem.1 (by simpa using hmem.2)
  · rename_i hmany hmore
    -- two claimants would share the envelope
    have hsub : (s.runs.filter fun ctl => ctl.eventId = r.wakeId).Sublist s.runs := List.filter_sublist
    have hnodup := hruns.events.sublist (hsub.map _)
    match hl : s.runs.filter fun ctl => ctl.eventId = r.wakeId with
    | [] => exact absurd hl hmany
    | [ctl] => exact absurd hl (hmore ctl)
    | a :: b :: rest =>
      have ha : a ∈ s.runs.filter fun ctl => ctl.eventId = r.wakeId := by rw [hl]; simp
      have hb : b ∈ s.runs.filter fun ctl => ctl.eventId = r.wakeId := by rw [hl]; simp
      rw [List.mem_filter] at ha hb
      have hsame : a.eventId = b.eventId := by
        have h1 : a.eventId = r.wakeId := by simpa using ha.2
        have h2 : b.eventId = r.wakeId := by simpa using hb.2
        rw [h1, h2]
      rw [hl, List.map_cons, List.nodup_cons, List.map_cons] at hnodup
      exact absurd (hsame ▸ List.mem_cons_self) hnodup.1

theorem runClaimState_safe {s : OutboxState} {r : PublicationRecord} (h : Fine s r) (hruns : RunsDistinct s)
    (hbound : r.claimedRunId ≠ [] → ∃ ctl ∈ s.runs, ctl.runId = r.claimedRunId ∧ ctl.eventId = r.wakeId) :
    runClaimState s r ≠ .conflict := by
  unfold runClaimState
  split
  · exact runClaimScan_safe h hruns
  · rename_i hb
    obtain ⟨ctl, hctl, hname, hevent⟩ := hbound hb
    have hverdict : runClaimStateBound s r.claimedRunId r ≠ .conflict := by
      unfold runClaimStateBound
      split
      · simp
      · rename_i ctl' hfind
        have hname' : ctl'.runId = r.claimedRunId := by simpa using List.find?_some hfind
        have hsame : ctl' = ctl :=
          List.inj_on_of_nodup_map hruns.names (List.mem_of_find?_eq_some hfind) hctl (hname'.trans hname.symm)
        rw [if_neg (by simp [hsame, hevent])]
        exact claimStateOfRun_safe h (List.mem_of_find?_eq_some hfind) (hsame ▸ hevent)
    split
    · simp
    · exact hverdict

theorem onlyEnvelope_of_bus {dir : List WakeEnvelope} {r : PublicationRecord}
    (h : ∀ e ∈ dir, e.id = r.wakeId → e = wakeEnvelope r) : onlyEnvelope dir (wakeEnvelope r) = true := by
  rw [onlyEnvelope, List.all_eq_true]
  intro e he
  by_cases hid : e.id = r.wakeId
  · simp [h e he hid]
  · simp [wakeEnvelope, hid]

theorem publishWake_ok {s : OutboxState} {r : PublicationRecord} (h : Fine s r)
    (hapart : ∀ e ∈ s.inbox, ∀ e' ∈ s.processed, e.id ≠ e'.id) : (publishWake s r true).2 = false := by
  have hinbox := onlyEnvelope_of_bus fun e he => h.bus e (.inl he)
  have hprocessed := onlyEnvelope_of_bus fun e he => h.bus e (.inr he)
  unfold publishWake
  dsimp only
  split
  · rename_i hin hproc
    rw [inInbox, List.any_eq_true] at hin
    rw [inProcessed, List.any_eq_true] at hproc
    obtain ⟨e, he, hid⟩ := hin
    obtain ⟨e', he', hid'⟩ := hproc
    rw [decide_eq_true_eq] at hid hid'
    exact absurd (hid.trans hid'.symm) (hapart e he e' he')
  · rw [hinbox]
    rfl
  · rw [if_pos (by rw [hprocessed]; rfl)]
  · rfl

/-- What a record needs of a state to get through a pass. -/
structure Passable (s : OutboxState) (r : PublicationRecord) : Prop where
  fine : Fine s r
  parse : ∀ l ∈ linesOf s r.sourceRunId, (lineEventId l).isSome
  bound : r.claimedRunId ≠ [] → ∃ ctl ∈ s.runs, ctl.runId = r.claimedRunId ∧ ctl.eventId = r.wakeId

theorem sourceGate_ok {s : OutboxState} {r : PublicationRecord} (h : Passable s r) : sourceGate s r {} ≠ some true := by
  unfold sourceGate
  split
  · simp
  rename_i hb
  rw [if_neg (by simp)]
  split
  · rename_i hconflict
    exact absurd hconflict (sourceState_safe h.fine h.parse (by simpa using hb))
  · simp
  · simp

theorem reconcileRecord_ok {s : OutboxState} {r : PublicationRecord} (h : Passable s r) (hruns : RunsDistinct s)
    (hapart : ∀ e ∈ s.inbox, ∀ e' ∈ s.processed, e.id ≠ e'.id) : (reconcileRecord s r {}).2 = false := by
  unfold reconcileRecord
  rw [if_neg (by simp)]
  split
  · rename_i failed hgate
    cases failed with
    | false => rfl
    | true => exact absurd hgate (sourceGate_ok h)
  rw [if_neg (by simp)]
  split
  · rename_i hconflict
    exact absurd hconflict (runClaimState_safe h.fine hruns h.bound)
  · rfl
  · rfl
  · rfl
  · exact publishWake_ok h.fine hapart

/-- What one record does to the bus: it publishes its own wake and keeps the directories apart. -/
structure BusEffect (s s' : OutboxState) (handled : List PublicationRecord) : Prop where
  effect : PassEffect s s' handled
  processed : s'.processed ⊆ s.processed
  records : s'.records.Sublist s.records
  apart : (∀ e ∈ s.inbox, ∀ e' ∈ s.processed, e.id ≠ e'.id) → ∀ e ∈ s'.inbox, ∀ e' ∈ s'.processed, e.id ≠ e'.id

theorem BusEffect.refl (s : OutboxState) (handled : List PublicationRecord) : BusEffect s s handled :=
  ⟨.refl s handled, List.Subset.refl _, List.Sublist.refl _, id⟩

theorem BusEffect.trans {s s1 s2 : OutboxState} {l1 l2 : List PublicationRecord} (h1 : BusEffect s s1 l1)
    (h2 : BusEffect s1 s2 l2) : BusEffect s s2 (l1 ++ l2) :=
  ⟨h1.effect.trans h2.effect, fun _ he => h1.processed (h2.processed he), h2.records.trans h1.records,
    fun h => h2.apart (h1.apart h)⟩

theorem publishWake_bus (s : OutboxState) (r : PublicationRecord) (busOk : Bool) :
    (publishWake s r busOk).1.processed ⊆ s.processed ∧ (publishWake s r busOk).1.records = s.records ∧
      ((∀ e ∈ s.inbox, ∀ e' ∈ s.processed, e.id ≠ e'.id) →
        ∀ e ∈ (publishWake s r busOk).1.inbox, ∀ e' ∈ (publishWake s r busOk).1.processed, e.id ≠ e'.id) := by
  unfold publishWake
  dsimp only
  split
  · exact ⟨List.Subset.refl _, rfl, id⟩
  · exact ⟨List.Subset.refl _, rfl, id⟩
  · split
    · refine ⟨fun _ he => (List.mem_filter.mp he).1, rfl, fun hapart e he e' he' => ?_⟩
      rw [List.mem_filter] at he'
      rcases List.mem_append.mp he with he | he
      · exact hapart e he e' he'.1
      · rw [List.mem_singleton.mp he]
        have := he'.2
        exact fun heq => by simp [heq] at this
    · exact ⟨List.Subset.refl _, rfl, id⟩
  · rename_i hproc
    split
    · refine ⟨List.Subset.refl _, rfl, fun hapart e he e' he' => ?_⟩
      rcases List.mem_append.mp he with he | he
      · exact hapart e he e' he'
      · rw [List.mem_singleton.mp he]
        rw [inProcessed, List.any_eq_false] at hproc
        have := hproc e' he'
        exact fun heq => this (by simp [heq])
    · exact ⟨List.Subset.refl _, rfl, id⟩

/-- A record is left, removed or published. -/
theorem reconcileRecord_cases (s : OutboxState) (r : PublicationRecord) (io : RecordIo) :
    (reconcileRecord s r io).1 = s ∨ (reconcileRecord s r io).1 = removeRecord s r ∨
      (reconcileRecord s r io).1 = (publishWake s r io.busOk).1 := by
  unfold reconcileRecord
  split
  · exact .inl rfl
  split
  · exact .inl rfl
  split
  · exact .inl rfl
  split
  · exact .inl rfl
  · split
    · exact .inr (.inl rfl)
    · exact .inl rfl
  · exact .inl rfl
  · exact .inl rfl
  · exact .inr (.inr rfl)

theorem reconcileRecord_bus (s : OutboxState) (r : PublicationRecord) (io : RecordIo) :
    BusEffect s (reconcileRecord s r io).1 [r] := by
  have heffect := reconcileRecord_effect s r io
  rcases reconcileRecord_cases s r io with heq | heq | heq
  · rw [heq]
    exact .refl s _
  · rw [heq] at heffect ⊢
    exact ⟨heffect, List.Subset.refl _, List.filter_sublist, id⟩
  · rw [heq] at heffect ⊢
    obtain ⟨hprocessed, hrecords, hapart⟩ := publishWake_bus s r io.busOk
    exact ⟨heffect, hprocessed, hrecords ▸ List.Sublist.refl _, hapart⟩

theorem reconcilePass_bus (s : OutboxState) (handled : List (PublicationRecord × RecordIo)) :
    BusEffect s (reconcilePass s handled).1 (handled.map Prod.fst) := by
  induction handled generalizing s with
  | nil => exact .refl s _
  | cons x rest ih =>
    obtain ⟨record, io⟩ := x
    exact (reconcileRecord_bus s record io).trans (ih _)

/-- A pass keeps what it does not publish under the same id. -/
theorem Fine.pass {s s' : OutboxState} {handled : List PublicationRecord} {r : PublicationRecord} (h : Fine s r)
    (he : BusEffect s s' handled) (hother : ∀ x ∈ handled, x.wakeId = r.wakeId → x = r) : Fine s' r := by
  have hlines : ∀ runId, linesOf s' runId = linesOf s runId := fun runId => by
    unfold linesOf
    rw [he.effect.logs]
  refine h.frame (hlines _) (fun ctl hctl _ => ⟨hlines _, ctl, he.effect.runs ▸ hctl, rfl, rfl, rfl⟩) fun e hmem hid => ?_
  rcases hmem with hmem | hmem
  · rcases he.effect.inbox e hmem with hmem | ⟨x, hx, heq, -⟩
    · exact .inl (.inl hmem)
    · exact .inr (by rw [heq, hother x hx (by rw [← hid, heq]; rfl)])
  · exact .inl (.inr (he.processed hmem))

/-- A pass over records that nothing contradicts reports no failure. -/
theorem reconcilePass_ok {s : OutboxState} {records : List PublicationRecord} (hruns : RunsDistinct s)
    (hapart : ∀ e ∈ s.inbox, ∀ e' ∈ s.processed, e.id ≠ e'.id) (hpassable : ∀ r ∈ records, Passable s r)
    (hwakes : (records.map PublicationRecord.wakeId).Nodup) :
    (reconcilePass s (records.map fun r => (r, {}))).2 = false := by
  induction records generalizing s with
  | nil => rfl
  | cons r rest ih =>
    rw [List.map_cons, List.nodup_cons] at hwakes
    have hbus := reconcileRecord_bus s r {}
    have hfirst := reconcileRecord_ok (hpassable r List.mem_cons_self) hruns hapart
    have hkeep : ∀ x ∈ rest, Passable (reconcileRecord s r {}).1 x := by
      intro x hx
      have hp := hpassable x (List.mem_cons_of_mem _ hx)
      refine ⟨hp.fine.pass hbus fun y hy hid => ?_, ?_, ?_⟩
      · rw [List.mem_singleton.mp hy] at hid
        exact absurd (List.mem_map.mpr ⟨x, hx, hid.symm⟩) hwakes.1
      · unfold linesOf
        rw [hbus.effect.logs]
        exact hp.parse
      · rw [hbus.effect.runs]
        exact hp.bound
    have hrest := ih ⟨hbus.effect.runs ▸ hruns.events, hbus.effect.runs ▸ hruns.names⟩ (hbus.apart hapart) hkeep hwakes.2
    rw [List.map_cons, reconcilePass]
    dsimp only
    rw [hfirst, hrest]
    rfl

theorem Sound.pass_ok {s : OutboxState} (h : Sound s) :
    (reconcilePass s (s.records.map fun r => (r, {}))).2 = false :=
  reconcilePass_ok ⟨h.served.events, h.served.names⟩ h.apart
    (fun r hr => ⟨h.fine r hr, h.lines _, h.served.bound r hr⟩) h.wakes

/-! ## Steps -/

/-- Steps that keep the lines of every log, the records and what a verdict reads of the runs, and move no envelope in. -/
theorem Sound.frame {s s' : OutboxState} (h : Sound s) (hserved : Served s')
    (hlines : ∀ runId, linesOf s' runId = linesOf s runId)
    (hrecords : s'.records.Sublist s.records)
    (hruns : ∀ ctl' ∈ s'.runs, ∃ ctl ∈ s.runs,
      ctl.runId = ctl'.runId ∧ ctl.eventId = ctl'.eventId ∧ ctl.createdType = ctl'.createdType)
    (hbus : ∀ e, e ∈ s'.inbox ∨ e ∈ s'.processed → e ∈ s.inbox ∨ e ∈ s.processed)
    (hapart : ∀ e ∈ s'.inbox, ∀ e' ∈ s'.processed, e.id ≠ e'.id) : Sound s' := by
  refine ⟨hserved, fun runId l hl => h.lines runId l (hlines runId ▸ hl), hapart, h.wakes.sublist (hrecords.map _),
    fun r hr => ?_⟩
  exact (h.fine r (hrecords.subset hr)).frame (hlines _) (fun ctl hctl _ => ⟨hlines _, hruns ctl hctl⟩)
    fun e he _ => .inl (hbus e he)

theorem Sound.pass {s : OutboxState} {handled : List (PublicationRecord × RecordIo)} (h : Sound s)
    (hserved : Served (reconcilePass s handled).1) (hin : handled.map Prod.fst ⊆ s.records) :
    Sound (reconcilePass s handled).1 := by
  have hbus := reconcilePass_bus s handled
  have hlines : ∀ runId, linesOf (reconcilePass s handled).1 runId = linesOf s runId := fun runId => by
    unfold linesOf
    rw [hbus.effect.logs]
  refine ⟨hserved, fun runId l hl => h.lines runId l (hlines runId ▸ hl), hbus.apart h.apart,
    h.wakes.sublist (hbus.records.map _), fun r hr => ?_⟩
  have hmem := hbus.records.subset hr
  exact (h.fine r hmem).pass hbus fun x hx hid => List.inj_on_of_nodup_map h.wakes (hin hx) hmem hid

theorem Sound.publishOther {s : OutboxState} {env : WakeEnvelope} (h : Sound s) (hfree : unusedId s env.id = true) :
    Sound { s with inbox := s.inbox ++ [env] } := by
  obtain ⟨hproc, hrec, -⟩ := unusedId_free hfree
  refine ⟨h.served.publishOther hfree, h.lines, fun e he e' he' => ?_, h.wakes, fun r hr => ?_⟩
  · rcases List.mem_append.mp he with he | he
    · exact h.apart e he e' he'
    · rw [List.mem_singleton.mp he]
      exact (hproc e' he').symm
  · refine (h.fine r hr).frame rfl (fun ctl hctl _ => ⟨rfl, ctl, hctl, rfl, rfl, rfl⟩) fun e he hid => ?_
    rcases he with he | he
    · rcases List.mem_append.mp he with he | he
      · exact .inl (.inl he)
      · rw [List.mem_singleton.mp he] at hid
        exact absurd hid.symm (hrec r hr)
    · exact .inl (.inr he)

theorem Sound.rename {s : OutboxState} {env : WakeEnvelope} {id : Bytes} (h : Sound s) (hmem : env ∈ s.inbox)
    (hid : env.id = id) :
    Sound { s with inbox := s.inbox.filter fun e => e.id ≠ id
                   processed := s.processed.filter (fun e => e.id ≠ id) ++ [env], pc := .renamed env } := by
  refine h.frame (h.served.rename hmem hid) (fun _ => rfl) (List.Sublist.refl _)
    (fun ctl hctl => ⟨ctl, hctl, rfl, rfl, rfl⟩) (fun e he => ?_) fun e he e' he' => ?_
  · rcases he with he | he
    · exact .inl (List.mem_filter.mp he).1
    · rcases List.mem_append.mp he with he | he
      · exact .inr (List.mem_filter.mp he).1
      · exact .inl (List.mem_singleton.mp he ▸ hmem)
  · rw [List.mem_filter] at he
    rcases List.mem_append.mp he' with he' | he'
    · exact h.apart e he.1 e' (List.mem_filter.mp he').1
    · rw [List.mem_singleton.mp he', hid]
      simpa using he.2

theorem Sound.persist {s : OutboxState} {env : WakeEnvelope} {runId : Bytes} (h : Sound s) (hpc : s.pc = .renamed env)
    (hfresh : ∀ ctl ∈ s.runs, ctl.runId ≠ runId) (hlog : s.logs runId = none) :
    Sound { s with runs := s.runs ++ [{ runId := runId, status := .live, eventId := env.id, createdType := env.type }]
                   pc := .persisted env runId } := by
  refine ⟨h.served.persist hpc hfresh, h.lines, h.apart, h.wakes, fun r hr => ⟨(h.fine r hr).source, fun ctl hctl hevent => ?_,
    (h.fine r hr).bus⟩⟩
  rcases List.mem_append.mp hctl with hctl | hctl
  · exact (h.fine r hr).claim ctl hctl hevent
  · rw [List.mem_singleton.mp hctl] at hevent ⊢
    have henv : env = wakeEnvelope r := (h.fine r hr).bus env (.inr (h.served.renamed env hpc).2.2) hevent
    refine ⟨by rw [henv]; rfl, fun line hline => ?_⟩
    have hnone : linesOf s runId = [] := by
      rw [linesOf, hlog]
      rfl
    unfold linesOf at hline hnone
    dsimp only at hline
    rw [hnone] at hline
    cases hline

theorem Sound.bind {s : OutboxState} {env : WakeEnvelope} {runId : Bytes} (h : Sound s)
    (hpc : s.pc = .persisted env runId) : Sound (rtPublicationOutboxClaim s env.id runId) := by
  refine ⟨h.served.bind hpc, h.lines, h.apart, ?_, fun r hr => ?_⟩
  · have hsame : (rtPublicationOutboxClaim s env.id runId).records.map PublicationRecord.wakeId =
        s.records.map PublicationRecord.wakeId := by
      rw [rtPublicationOutboxClaim, List.map_map]
      refine List.map_congr_left fun r _ => ?_
      rw [Function.comp_apply]
      split <;> rfl
    rw [hsame]
    exact h.wakes
  · obtain ⟨r0, hr0, rfl⟩ := List.mem_map.mp hr
    have hfine := h.fine r0 hr0
    split
    · rename_i hwake
      exact ⟨fun _ => hfine.source hwake.2, hfine.claim, hfine.bus⟩
    · exact ⟨hfine.source, hfine.claim, hfine.bus⟩

theorem Sound.terminate {s : OutboxState} {runId : Bytes} (h : Sound s) :
    Sound { s with runs := s.runs.map (terminated runId) } := by
  refine h.frame h.served.terminate (fun _ => rfl) (List.Sublist.refl _) (fun ctl hctl => ?_) (fun _ he => he) h.apart
  obtain ⟨ctl0, hctl0, rfl⟩ := List.mem_map.mp hctl
  refine ⟨ctl0, hctl0, (terminated_runId runId ctl0).symm, (terminated_eventId runId ctl0).symm, ?_⟩
  unfold terminated
  split <;> rfl

/-- The janitor takes the log of a run that no record names and no other run shares. -/
theorem Sound.prune {s : OutboxState} {ctl : RunControl} (h : Sound s) (hpc : s.pc = .idle) (hctl : ctl ∈ s.runs)
    (hpending : rtPublicationOutboxRunPending s ctl = false) :
    Sound (setLog { s with runs := s.runs.filter fun x => x ≠ ctl } ctl.runId none) := by
  have hserved := h.served
  simp only [rtPublicationOutboxRunPending, List.any_eq_false, Bool.or_eq_true, decide_eq_true_eq, not_or] at hpending
  refine ⟨hserved.prune hpc (by simpa [rtPublicationOutboxRunPending] using hpending), fun runId l hl => ?_, h.apart, h.wakes,
    fun r hr => ?_⟩
  · rw [linesOf_setLog] at hl
    split at hl
    · cases hl
    · exact h.lines runId l hl
  · refine (h.fine r hr).frame ?_ (fun x hx hevent => ⟨?_, x, (List.mem_filter.mp hx).1, rfl, rfl, rfl⟩) fun _ he _ => .inl he
    · rw [linesOf_setLog, if_neg (hpending r hr).1]
      rfl
    · have hne : x.runId ≠ ctl.runId := by
        intro hname
        have heq := List.inj_on_of_nodup_map hserved.names (List.mem_filter.mp hx).1 hctl hname
        simpa [heq] using (List.mem_filter.mp hx).2
      rw [linesOf_setLog, if_neg hne]
      rfl

theorem Fine.append_line {s : OutboxState} {r : PublicationRecord} {runId text line : Bytes} (h : Fine s r)
    (hmem : r ∈ s.records)
    (hnew : completeLines ((s.logs runId).getD [] ++ text) = linesOf s runId ++ [line])
    (hline : LineExpected s runId line) : Fine (setLog s runId (some ((s.logs runId).getD [] ++ text))) r := by
  obtain ⟨-, hfresh, howns, hwake⟩ := hline
  refine ⟨fun hunbound => ?_, fun ctl hctl hevent => ⟨(h.claim ctl hctl hevent).1, fun first hfirst => ?_⟩, h.bus⟩
  · rw [linesOf_setLog]
    split
    · rename_i hrun
      rw [Option.getD_some, hnew, List.filter_append, ← hrun]
      by_cases hid : lineEventId line = some r.sourceEventId
      · have hnone : (linesOf s r.sourceRunId).filter (fun l => lineEventId l = some r.sourceEventId) = [] := by
          rw [List.filter_eq_nil_iff]
          intro l hl
          have := hfresh l (hrun ▸ hl)
          simpa [hid] using this
        exact .inr ⟨line, by rw [hnone]; simp [hid], howns r hmem hrun hunbound hid⟩
      · have hskip : [line].filter (fun l => lineEventId l = some r.sourceEventId) = [] := by simp [hid]
        rw [hskip, List.append_nil]
        exact h.source hunbound
    · exact h.source hunbound
  · rw [linesOf_setLog] at hfirst
    split at hfirst
    · rename_i hrun
      rw [Option.getD_some, hnew] at hfirst
      by_cases hempty : linesOf s runId = []
      · rw [hempty] at hfirst
        obtain rfl : line = first := by simpa using hfirst
        rw [hrun]
        exact hwake hempty ctl hctl hrun r hmem hevent
      · rw [List.head?_append_of_ne_nil _ hempty] at hfirst
        exact (h.claim ctl hctl hevent).2 first (hrun ▸ hfirst)
    · exact (h.claim ctl hctl hevent).2 first hfirst

theorem Sound.append {s : OutboxState} {runId text : Bytes} (h : Sound s)
    (hserved : Served (setLog s runId (some ((s.logs runId).getD [] ++ text)))) (hok : AppendExpected s runId text) :
    Sound (setLog s runId (some ((s.logs runId).getD [] ++ text))) := by
  rcases hok with hsame | ⟨line, -, hnew, hline⟩
  · refine h.frame hserved (fun other => ?_) (List.Sublist.refl _) (fun ctl hctl => ⟨ctl, hctl, rfl, rfl, rfl⟩)
      (fun _ he => he) h.apart
    rw [linesOf_setLog]
    split
    · rename_i hrun
      rw [Option.getD_some, hsame, hrun]
    · rfl
  · refine ⟨hserved, fun other l hl => ?_, h.apart, h.wakes, fun r hr => (h.fine r hr).append_line hr hnew hline⟩
    rw [linesOf_setLog] at hl
    split at hl
    · rw [Option.getD_some, hnew] at hl
      rcases List.mem_append.mp hl with hl | hl
      · exact h.lines runId l hl
      · rw [List.mem_singleton.mp hl]
        exact hline.1
    · exact h.lines other l hl

theorem unusedId_inbox {s : OutboxState} {id : Bytes} (h : unusedId s id = true) : ∀ e ∈ s.inbox, e.id ≠ id := by
  simp only [unusedId, inInbox, Bool.and_eq_true, Bool.not_eq_true', List.any_eq_false] at h
  intro e he
  simpa using h.1.1.1 e he

theorem Sound.prepare {s : OutboxState} {wanted : PublicationRecord} {written : Bool} (h : Sound s)
    (hfree : unusedId s wanted.wakeId = true) (hok : Orderly s (.prepare wanted written))
    (hserved : Served (rtPublicationOutboxPrepare s wanted written).1) :
    Sound (rtPublicationOutboxPrepare s wanted written).1 := by
  unfold rtPublicationOutboxPrepare at hserved ⊢
  split
  · exact h
  · exact h
  rename_i hlookup
  rw [hlookup] at hserved
  dsimp only at hserved
  split
  · exact h
  rename_i hroom
  rw [if_neg hroom] at hserved
  obtain ⟨hproc, hrec, hruns⟩ := unusedId_free hfree
  refine ⟨hserved, h.lines, h.apart, ?_, fun r hr => ?_⟩
  · rw [List.map_append, List.nodup_append]
    refine ⟨h.wakes, by simp, fun a ha b hb => ?_⟩
    obtain ⟨r, hr, rfl⟩ := List.mem_map.mp ha
    rw [List.map_singleton, List.mem_singleton] at hb
    exact hb ▸ hrec r hr
  · rcases List.mem_append.mp hr with hr | hr
    · exact ⟨(h.fine r hr).source, (h.fine r hr).claim, (h.fine r hr).bus⟩
    · rw [List.mem_singleton.mp hr]
      refine ⟨fun _ => .inl ?_, fun ctl hctl hevent => absurd hevent (hruns ctl hctl), fun e he hid => ?_⟩
      · rw [List.filter_eq_nil_iff]
        intro l hl
        simpa using hok hlookup l hl
      · rcases he with he | he
        · exact absurd hid (unusedId_inbox hfree e he)
        · exact absurd hid (hproc e he)

/-- One orderly step keeps the invariant. -/
theorem step_sound {s s' : OutboxState} {i : OutboxInput} (h : Sound s) (hok : Orderly s i)
    (hstep : outboxStep s i = some s') : Sound s' := by
  have hserved := step_served h.served hstep
  have hsame : ∀ s', Served s' → s'.logs = s.logs → s'.records = s.records → s'.runs = s.runs → s'.inbox = s.inbox →
      s'.processed ⊆ s.processed → Sound s' := by
    intro s' hserved hlogs hrecords hruns hinbox hprocessed
    refine h.frame hserved (fun runId => by unfold linesOf; rw [hlogs]) (hrecords ▸ List.Sublist.refl _)
      (fun ctl hctl => ⟨ctl, hruns ▸ hctl, rfl, rfl, rfl⟩) (fun e he => ?_)
      fun e he e' he' => h.apart e (hinbox ▸ he) e' (hprocessed he')
    rcases he with he | he
    · exact .inl (hinbox ▸ he)
    · exact .inr (hprocessed he)
  cases i with
  | prepare wanted written =>
    simp only [outboxStep, Option.ite_none_right_eq_some, Option.some.injEq] at hstep
    obtain ⟨hfree, rfl⟩ := hstep
    exact h.prepare hfree hok hserved
  | append runId text =>
    cases hstep
    exact h.append hserved hok
  | truncate runId =>
    cases hstep
    refine h.frame hserved (fun other => ?_) (List.Sublist.refl _) (fun ctl hctl => ⟨ctl, hctl, rfl, rfl, rfl⟩)
      (fun _ he => he) h.apart
    rw [linesOf_setLog]
    split
    · rename_i hrun
      rw [hrun, linesOf]
      cases s.logs runId with
      | none => rfl
      | some text => exact completeLines_untorn text
    · rfl
  | publishOther env =>
    simp only [outboxStep, Option.ite_none_right_eq_some, Option.some.injEq] at hstep
    exact hstep.2 ▸ h.publishOther hstep.1
  | reconcile handled =>
    simp only [outboxStep] at hstep
    split at hstep
    · cases hstep
    simp only [Option.ite_none_right_eq_some, Option.some.injEq] at hstep
    obtain ⟨hextends, rfl⟩ := hstep
    exact h.pass hserved hextends.subset
  | rename id =>
    simp only [outboxStep] at hstep
    split at hstep
    · rename_i env hpc hfind
      cases hstep
      exact h.rename (List.mem_of_find?_eq_some hfind) (by simpa using List.find?_some hfind)
    · cases hstep
  | reject =>
    simp only [outboxStep] at hstep
    split at hstep
    · cases hstep
      exact hsame _ hserved rfl rfl rfl rfl (List.Subset.refl _)
    · cases hstep
  | persist runId =>
    simp only [outboxStep] at hstep
    split at hstep
    · rename_i env hpc
      simp only [Option.ite_none_right_eq_some, Option.some.injEq] at hstep
      obtain ⟨⟨-, hfresh, hlog, -⟩, rfl⟩ := hstep
      rw [List.all_eq_true] at hfresh
      exact h.persist hpc (fun ctl hctl => by simpa using hfresh ctl hctl) hlog
    · cases hstep
  | bind written =>
    simp only [outboxStep] at hstep
    split at hstep
    · rename_i env runId hpc
      split at hstep
      · cases hstep
        exact h.bind hpc
      · cases hstep
        exact h
    · cases hstep
  | finish =>
    simp only [outboxStep] at hstep
    split at hstep
    · cases hstep
      exact hsame _ hserved rfl rfl rfl rfl (List.Subset.refl _)
    · cases hstep
  | terminate runId =>
    cases hstep
    exact h.terminate
  | release wakeId runId unlinked =>
    cases hstep
    rcases release_effect s wakeId runId unlinked with heq | ⟨record, heq, -⟩
    · rw [heq]
      exact h
    · rw [heq] at hserved ⊢
      exact h.frame hserved (fun _ => rfl) List.filter_sublist (fun ctl hctl => ⟨ctl, hctl, rfl, rfl, rfl⟩)
        (fun _ he => he) h.apart
  | prune runId =>
    simp only [outboxStep] at hstep
    split at hstep
    · rename_i ctl hpc hfind
      simp only [Option.ite_none_right_eq_some, Option.some.injEq] at hstep
      obtain ⟨⟨-, hpending⟩, rfl⟩ := hstep
      obtain rfl : ctl.runId = runId := by simpa using List.find?_some hfind
      exact h.prune hpc (List.mem_of_find?_eq_some hfind) hpending
    · cases hstep
  | discard id =>
    simp only [outboxStep, Option.ite_none_right_eq_some, Option.some.injEq] at hstep
    obtain ⟨-, rfl⟩ := hstep
    exact hsame _ hserved rfl rfl rfl rfl fun _ he => (List.mem_filter.mp he).1
  | crash =>
    cases hstep
    exact hsame _ hserved rfl rfl rfl rfl (List.Subset.refl _)

theorem init_sound : Sound outboxInit :=
  ⟨init_served, fun _ _ hl => absurd hl List.not_mem_nil, fun _ he => absurd he List.not_mem_nil, List.nodup_nil,
    fun _ hr => absurd hr List.not_mem_nil⟩

/-! ## Startup -/

theorem recoverRuns_snoc {s s' : OutboxState} {writes : List OutboxInput} {i : OutboxInput}
    (h : recoverRuns s writes = some s') : recoverRuns s (writes ++ [i]) = recoverRuns s' [i] := by
  generalize hlast : recoverRuns s' [i] = last
  induction writes generalizing s with
  | nil =>
    cases h
    exact hlast
  | cons w writes ih =>
    cases w with
    | prepare wanted written =>
      rw [List.cons_append]
      unfold recoverRuns at h ⊢
      split at h
      · cases h
      · exact ih h
    | append | truncate | publishOther | reconcile | rename | reject | persist | bind | finish | terminate | release | prune
    | discard | crash =>
      rw [List.cons_append]
      unfold recoverRuns at h ⊢
      obtain ⟨s1, hs1, hrest⟩ := Option.bind_eq_some_iff.mp h
      rw [hs1, Option.bind_some]
      exact ih hrest

theorem recovering_prepare {s : OutboxState} {wanted : PublicationRecord} {written : Bool}
    (h : Recovering s (.prepare wanted written)) : (rtPublicationOutboxPrepare s wanted written).2 = true := by
  have h2 := h.2
  dsimp only at h2
  cases hlookup : preparedSourceLookup s.records wanted with
  | reused => simp only [rtPublicationOutboxPrepare, hlookup]
  | refused =>
    rw [hlookup] at h2
    exact h2.elim
  | fresh =>
    rw [hlookup] at h2
    obtain ⟨hroom, hwritten⟩ := h2
    simp only [rtPublicationOutboxPrepare, hlookup]
    rw [if_neg (by simp [hwritten, hroom])]

/-- A step of recovery is a step of the machine, and none of its records is refused. -/
theorem recoverRuns_step {s s' : OutboxState} {i : OutboxInput} (h : Recovering s i) (hstep : outboxStep s i = some s') :
    recoverRuns s [i] = some s' := by
  cases i with
  | prepare wanted written =>
    have hok := recovering_prepare h
    simp only [outboxStep, Option.ite_none_right_eq_some, Option.some.injEq] at hstep
    rw [recoverRuns]
    generalize rtPublicationOutboxPrepare s wanted written = result at hok hstep
    obtain ⟨next, ok⟩ := result
    obtain rfl : ok = true := hok
    exact congrArg some hstep.2
  | append | truncate | publishOther | reconcile | rename | reject | persist | bind | finish | terminate | release | prune
  | discard | crash =>
    unfold recoverRuns
    rw [hstep]
    rfl

theorem recoverRuns_run {s s' : OutboxState} {writes : List OutboxInput} (h : Run outboxStep Recovering s writes s') :
    recoverRuns s writes = some s' := by
  induction h with
  | nil => rfl
  | snoc _ hok hstep ih =>
    rw [recoverRuns_snoc ih]
    exact recoverRuns_step hok hstep

/-- However often the producers crash between their record and its event: as long as what is committed under a reserved
id is what was prepared, every startup succeeds and every later pass reports no failure. -/
theorem stale_wake_never_blocks {inputs writes : List OutboxInput} {s s' : OutboxState}
    (hrun : Run outboxStep Orderly outboxInit inputs s) (hrecover : Run outboxStep Recovering s writes s') :
    rtSchedulerInit s writes = true ∧
      ∀ later t, Run outboxStep Orderly s' later t → (reconcilePass t (t.records.map fun r => (r, {}))).2 = false := by
  have hsound : Sound s := hrun.invariant init_sound fun _ _ _ h hok hstep => step_sound h hok hstep
  have hrecovered : Sound s' := hrecover.invariant hsound fun _ _ _ h hok hstep => step_sound h hok.1 hstep
  refine ⟨?_, fun later t hlater => ?_⟩
  · rw [rtSchedulerInit, recoverRuns_run hrecover]
    dsimp only
    rw [hrecovered.pass_ok]
    rfl
  · have hlate : Sound t := hlater.invariant hrecovered fun _ _ _ h hok hstep => step_sound h hok hstep
    exact hlate.pass_ok

/-- What the recovered run commits under the reserved id instead: its local action starts again. -/
def restartLine : Bytes :=
  lit "\x7b\"event_id\":\"evt_run_001_000004\",\"type\":\"action_started\",\"run_id\":\"run_001\",\"payload\":\x7b\"request_id\":\"r1\"\x7d\x7d\n"

/-- What recovery of an outside-world action prepares under the reserved id: a blocker. -/
def blockerRecord : PublicationRecord :=
  { stepRecord with
    wakeId := lit "bus_8", sourceType := lit "work_blocked", wakeType := lit "work_outcome"
    sourcePayload := lit "\x7b\"reason\":\"ambiguous_completion\"\x7d" }

/-- One crash between a record and its event. A recovery that blocks the work instead is refused its record and startup
fails; a run that commits another event under the id fails the startup after it and every pass. -/
theorem stale_wake_blocks :
    (∃ s, exec outboxStep outboxInit [.prepare stepRecord true, .crash] = some s ∧
      rtSchedulerInit s [.prepare blockerRecord true] = false) ∧
    ∃ s, exec outboxStep outboxInit
        [.prepare stepRecord true, .crash, .append (lit "run_001") restartLine, .crash] = some s ∧
      rtSchedulerInit s [] = false ∧ (reconcilePass s (s.records.map fun r => (r, {}))).2 = true ∧
      (reconcilePass (reconcilePass s (s.records.map fun r => (r, {}))).1 (s.records.map fun r => (r, {}))).2 = true := by
  have hrefused : (exec outboxStep outboxInit [.prepare stepRecord true, .crash]).any (fun s =>
      !rtSchedulerInit s [.prepare blockerRecord true]) = true := by
    unfold blockerRecord stepRecord
    repeat rw [lit_ofList]
    decide +kernel
  have hconflict : (exec outboxStep outboxInit
      [.prepare stepRecord true, .crash, .append (lit "run_001") restartLine, .crash]).any (fun s =>
        !rtSchedulerInit s [] && ((reconcilePass s (s.records.map fun r => (r, {}))).2 &&
          (reconcilePass (reconcilePass s (s.records.map fun r => (r, {}))).1 (s.records.map fun r => (r, {}))).2)) =
      true := by
    unfold stepRecord restartLine
    repeat rw [lit_ofList]
    decide +kernel
  rw [Option.any_eq_true] at hrefused hconflict
  obtain ⟨s1, hs1, hinit⟩ := hrefused
  obtain ⟨s2, hs2, hpasses⟩ := hconflict
  rw [Bool.and_eq_true, Bool.and_eq_true, Bool.not_eq_true'] at hpasses
  exact ⟨⟨s1, hs1, by simpa using hinit⟩, s2, hs2, hpasses.1, hpasses.2.1, hpasses.2.2⟩

/-- A crash in the window, and the same event prepared again and committed under the id it reserved. -/
theorem stale_wake_reused : ∃ s s',
    Run outboxStep Orderly outboxInit [.prepare stepRecord true, .crash] s ∧
      Run outboxStep Recovering s [.prepare { stepRecord with wakeId := lit "bus_8" } true,
        .append (lit "run_001") stepLine] s' ∧
      s'.records = [stepRecord] ∧
      rtSchedulerInit s [.prepare { stepRecord with wakeId := lit "bus_8" } true,
        .append (lit "run_001") stepLine] = true := by
  have hcheck : (checkRun outboxStep Orderly outboxInit [.prepare stepRecord true, .crash]).any (fun s =>
      (checkRun outboxStep Recovering s [.prepare { stepRecord with wakeId := lit "bus_8" } true,
        .append (lit "run_001") stepLine]).any fun s' => s'.records = [stepRecord]) = true := by
    unfold stepRecord stepLine
    repeat rw [lit_ofList]
    decide +kernel
  rw [Option.any_eq_true] at hcheck
  obtain ⟨s, hs, hrest⟩ := hcheck
  rw [Option.any_eq_true] at hrest
  obtain ⟨s', hs', hrecords⟩ := hrest
  exact ⟨s, s', .of_check hs, .of_check hs', by simpa using hrecords,
    (stale_wake_never_blocks (Run.of_check hs) (Run.of_check hs')).1⟩

end Floofclaw.Guarantees.StaleWakes
