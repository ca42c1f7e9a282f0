import Floofclaw.Guarantees.RunSound
import Floofclaw.Guarantees.EventNumbers

/-!
# Deliveries

The ledger of delivered messages against the log of their run. A delivery
comes before the event that tells of it, and its number is counted from such
events when a run is recovered; so the two stay in step exactly as long as no
delivery is left without its event.
-/

set_option autoImplicit false

namespace Floofclaw.Guarantees.Deliveries
open Floofclaw.Lib Floofclaw.Source.Json Floofclaw.Source.EventLog Floofclaw.Source.Actions Floofclaw.Source.Runner
open Floofclaw.Guarantees.RunnerSteps Floofclaw.Guarantees.Replay Floofclaw.Guarantees.Ledger
open Floofclaw.Guarantees.RequestIds Floofclaw.Guarantees.RunIds Floofclaw.Guarantees.RunReplay Floofclaw.Guarantees.RunSound
open Floofclaw.Guarantees.EventNumbers (plainRestart)

/-! ## The property -/

/-- The message in the result of a terminal. -/
def messageOf (result : Bytes) : Option Bytes :=
  (jsonRefTopObject result).bind fun root => jsonRefObjectGetString root (lit "message") (rtMessageTextMax + 1)

/-- The log has an action_succeeded for the delivered message, with its text. -/
def Told (lines : List Line) (d : Delivery) : Prop :=
  ∃ number t, .event number (.terminal t) ∈ lines ∧ t.kind = .succeeded ∧ t.requestId = d.requestId ∧ messageOf t.result = some d.text

structure Truthful (s : RunnerState) : Prop where
  requests : (s.deliveries.map Delivery.requestId).Nodup
  numbers : (s.deliveries.map Delivery.number).Nodup
  told : ∀ d ∈ s.deliveries, Told s.log.lines d ∨ (s.status = .up ∧ s.active = .delivered d.requestId)

/-! ## The condition -/

/-- The message under way is in the ledger of deliveries. -/
def deliveredUntold (s : RunnerState) : Bool :=
  match s.active with
  | .delivered rid => deliveryExists s rid
  | _ => false

def Completes (s : RunnerState) : RunnerInput → Prop
  | .deliver fate => fate ≠ .torn
  | .messageDone fate => deliveredUntold s = true → s.log.torn = false ∧ (fate = .done ∨ fate = .reported)
  | .crash => deliveredUntold s = false
  | _ => True

instance (s : RunnerState) : (i : RunnerInput) → Decidable (Completes s i)
  | .deliver _ => inferInstanceAs (Decidable (_ ≠ _))
  | .messageDone _ => inferInstanceAs (Decidable (_ → _))
  | .crash => inferInstanceAs (Decidable (_ = _))
  | .request _ _ | .refuse | .note _ | .other _ _ | .reject _ _ | .start _ | .allocate _ | .launch | .work _ _
  | .finishAction _ _ _ _ _ _ | .finishRun _ | .retryInbound | .recover _ => isTrue trivial

/-! ## Texts -/

/-- The result of a delivered message reads back as its text. -/
theorem messageOf_messageResult {args text : Bytes} (h : fcMessage args = some text) :
    messageOf (messageResult text) = some text := by
  unfold fcMessage at h
  split at h
  · cases h
  · rename_i text' htext
    split at h
    · rename_i hescape
      obtain rfl : text' = text := Option.some.inj h
      obtain ⟨root, -, hstring⟩ := Option.bind_eq_some_iff.mp htext
      obtain ⟨hnul, hlength⟩ := getString_text hstring
      have hescaped : (jsonEscape (rtMessageTextMax * 2 + 1) text').1 = escaped text' := by
        have hfits := jsonEscape_fits (show jsonEscape (rtMessageTextMax * 2 + 1) text' = (_, true) from Prod.ext rfl hescape)
        exact hfits.1.trans (by rw [cstr_eq_self hnul])
      have hresult : messageResult text' = objText [(lit "message", quoted (escaped text'))] := by
        rw [messageResult, hescaped]
        simp [objText, membersText, quoted, lit, ch]
      have hmembers : WrittenMembers [(lit "message", quoted (escaped text'))] :=
        .key (by decide) (CleanValue.text text') .nil
      have hclean : CleanValue (objText [(lit "message", quoted (escaped text'))]) := CleanValue.objText hmembers
      rw [messageOf, hresult, jsonRefTopObject_complete hmembers.objText hclean.nulFree, Option.bind_some]
      unfold jsonRefObjectGetString
      rw [hmembers.get]
      have hassoc : assoc (lit "message") [(lit "message", quoted (escaped text'))] = some (quoted (escaped text')) := by
        simp [assoc]
      rw [hassoc, Option.bind_some]
      exact jsonRefStringCopy_escaped hnul hlength
    · cases h

/-! ## Counting -/

/-- The events that carry a delivery. -/
def carriers (lines : List Line) : Nat := (lines.map deliveriesIn).sum

theorem carriers_append (xs ys : List Line) : carriers (xs ++ ys) = carriers xs + carriers ys := by
  simp [carriers]

theorem carriers_le {xs ys : List Line} (h : xs <+: ys) : carriers xs ≤ carriers ys := by
  obtain ⟨zs, rfl⟩ := h
  rw [carriers_append]
  exact Nat.le_add_right _ _

theorem Told.mono {xs ys : List Line} {d : Delivery} (h : Told xs d) (hextends : xs <+: ys) : Told ys d := by
  obtain ⟨number, t, hline, ht⟩ := h
  exact ⟨number, t, hextends.subset hline, ht⟩

/-- A replay that gets through counts the events that carry a delivery. -/
theorem replay_nextDelivery {disk : Nat → Fate} {st : Replayed} {lines : List Line} (hok : st.ok = true)
    (hend : (lines.foldl (replayLine disk) st).ok = true) :
    (lines.foldl (replayLine disk) st).nextDelivery = st.nextDelivery + carriers lines := by
  induction lines generalizing st with
  | nil => rfl
  | cons line rest ih =>
    rw [List.foldl_cons] at hend ⊢
    have hline : (replayLine disk st line).ok = true := by
      by_contra hstop
      rw [replay_stopped rest (by simpa using hstop)] at hend
      exact hstop hend
    rw [ih hline hend]
    cases line with
    | corrupt => cases hline
    | event number body =>
      rw [replayLine_event hok]
      simp only [carriers, List.map_cons, List.sum_cons]
      omega

/-! ## The invariant -/

/-- The delivery is under way: in the ledger, its event still to come. -/
def UnderWay (s : RunnerState) (rid : Bytes) : Prop := s.status = .up ∧ s.active = .delivered rid

structure Delivering (run : RunIdentity) (s : RunnerState) : Prop where
  sound : Sound run s
  untorn : s.deliveryTorn = false
  requests : (s.deliveries.map Delivery.requestId).Nodup
  numbers : (s.deliveries.map Delivery.number).Nodup
  told : ∀ d ∈ s.deliveries, Told s.log.lines d ∨ UnderWay s d.requestId
  text : ∀ rid, UnderWay s rid → s.todo = [] ∧ ∀ p text, s.ledger.find rid = some p →
    fcMessage p.request.call.args = some text → ∀ d ∈ s.deliveries, d.requestId = rid → d.text = text
  below : s.status ≠ .down → ∀ d ∈ s.deliveries, d.number < s.nextDelivery
  counted : .corrupt ∉ s.log.lines → ∀ d ∈ s.deliveries,
    d.number ≤ carriers s.log.lines ∨ (UnderWay s d.requestId ∧ d.number ≤ carriers s.log.lines + 1)
  counter : .corrupt ∉ s.log.lines → s.status = .up → s.nextDelivery ≤ carriers s.log.lines + 1 ∨
    ((∃ rid, s.active = .delivered rid) ∧ s.nextDelivery ≤ carriers s.log.lines + 2)

theorem prefix_whole {xs ys : List Line} (h : xs <+: ys) (hwhole : .corrupt ∉ ys) : .corrupt ∉ xs := fun hmem =>
  hwhole (h.subset hmem)

/-- A step that leaves deliveries and their counter alone, and a delivery under way as it is or none under way. -/
theorem Delivering.frame {run : RunIdentity} {s s' : RunnerState} (h : Delivering run s) (hup : s.status = .up)
    (hsound : Sound run s') (hextends : s.log.lines <+: s'.log.lines) (hdeliveries : s'.deliveries = s.deliveries)
    (htorn : s'.deliveryTorn = s.deliveryTorn) (hnext : s'.nextDelivery = s.nextDelivery)
    (hactive : (s'.status = .up ∧ s'.active = s.active ∧ s'.todo = s.todo ∧ s'.ledger = s.ledger) ∨
      ((∀ rid, s.active ≠ .delivered rid) ∧ ∀ rid, s'.active ≠ .delivered rid)) : Delivering run s' := by
  have hunder : ∀ rid, UnderWay s rid → UnderWay s' rid := by
    rintro rid ⟨-, hrid⟩
    rcases hactive with ⟨hup', heq, -, -⟩ | ⟨hnone, -⟩
    · exact ⟨hup', heq.trans hrid⟩
    · exact absurd hrid (hnone rid)
  have hle := carriers_le hextends
  refine ⟨hsound, htorn.trans h.untorn, hdeliveries ▸ h.requests, hdeliveries ▸ h.numbers, ?_, ?_, ?_, ?_, ?_⟩
  · intro d hd
    rw [hdeliveries] at hd
    exact (h.told d hd).imp (fun htold => htold.mono hextends) (hunder _)
  · rintro rid ⟨-, hrid⟩
    rcases hactive with ⟨-, heq, htodo, hledger⟩ | ⟨-, hnone⟩
    · rw [htodo, hledger, hdeliveries]
      exact h.text rid ⟨hup, heq.symm.trans hrid⟩
    · exact absurd hrid (hnone rid)
  · rw [hdeliveries, hnext]
    exact fun _ => h.below (by simp [hup])
  · intro hwhole d hd
    rw [hdeliveries] at hd
    rcases h.counted (prefix_whole hextends hwhole) d hd with hcount | ⟨hway, hcount⟩
    · exact .inl (hcount.trans hle)
    · exact .inr ⟨hunder _ hway, by omega⟩
  · intro hwhole _
    rw [hnext]
    rcases h.counter (prefix_whole hextends hwhole) hup with hcount | ⟨⟨rid, hrid⟩, hcount⟩
    · left
      omega
    · right
      rcases hactive with ⟨-, heq, -, -⟩ | ⟨hnone, -⟩
      · exact ⟨⟨rid, heq.trans hrid⟩, by omega⟩
      · exact absurd hrid (hnone rid)

/-- The message goes out. -/
theorem Delivering.delivered {run : RunIdentity} {s : RunnerState} {rid text : Bytes} {p : Pending} {fate : DeliveryFate}
    {deliveries : List Delivery} {torn : Bool} (h : Delivering run s) (hl : Launching s rid p)
    (htext : fcMessage p.request.call.args = some text)
    (hlines : deliveries = s.deliveries ∨
      (fate = .done ∧ s.deliveryTorn = false ∧
        deliveries = s.deliveries ++ [{ number := s.nextDelivery, requestId := rid, text := text }]))
    (htorn : fate ≠ .torn → s.deliveryTorn = false → torn = false) (hfate : fate ≠ .torn)
    (hsound : Sound run { s with
      deliveries := deliveries, deliveryTorn := torn, nextDelivery := s.nextDelivery + 1, active := .delivered rid }) :
    Delivering run { s with
      deliveries := deliveries, deliveryTorn := torn, nextDelivery := s.nextDelivery + 1, active := .delivered rid } := by
  have halive : s.status ≠ .down := by simp [hl.up]
  have hidle : ∀ rid', ¬ UnderWay s rid' := by
    rintro rid' ⟨-, hrid'⟩
    rw [hl.active] at hrid'
    cases hrid'
  have htold : ∀ d ∈ s.deliveries, Told s.log.lines d := fun d hd => (h.told d hd).resolve_right (hidle _)
  -- a request that has been told of is not waiting any more
  have hnew : ∀ d ∈ s.deliveries, d.requestId ≠ rid := by
    rintro d hd heq
    obtain ⟨number, t, hline, -, hid, -⟩ := htold d hd
    have hwaiting : rid ∈ waiting s.todo s.ledger := List.mem_append_right _ (List.mem_map.mpr ⟨p, find_mem hl.find⟩)
    have hterminal : rid ∈ terminalIds s.log.lines := mem_idsOf.mpr ⟨number, _, hline, by rw [terminalOf, hid, heq]⟩
    have hmem := h.sound.unanswered (.inl hl.up) rid hwaiting hterminal
    rw [hl.todo] at hmem
    cases hmem
  have hcases : ∀ d ∈ deliveries, d ∈ s.deliveries ∨ d = { number := s.nextDelivery, requestId := rid, text := text } := by
    intro d hd
    rcases hlines with rfl | ⟨-, -, rfl⟩
    · exact .inl hd
    · exact (List.mem_append.mp hd).imp_right List.mem_singleton.mp
  refine ⟨hsound, htorn hfate h.untorn, ?_, ?_, ?_, ?_, ?_, ?_, ?_⟩
  · rcases hlines with rfl | ⟨-, -, rfl⟩
    · exact h.requests
    · dsimp only
      rw [List.map_append, List.nodup_append]
      refine ⟨h.requests, List.pairwise_singleton _ _, fun a ha b hb hab => ?_⟩
      obtain ⟨d, hd, rfl⟩ := List.mem_map.mp ha
      rw [List.map_cons, List.map_nil, List.mem_singleton] at hb
      exact hnew d hd (hab.trans hb)
  · rcases hlines with rfl | ⟨-, -, rfl⟩
    · exact h.numbers
    · dsimp only
      rw [List.map_append, List.nodup_append]
      refine ⟨h.numbers, List.pairwise_singleton _ _, fun a ha b hb hab => ?_⟩
      obtain ⟨d, hd, rfl⟩ := List.mem_map.mp ha
      rw [List.map_cons, List.map_nil, List.mem_singleton] at hb
      have hlt := h.below halive d hd
      rw [hab, hb] at hlt
      exact absurd hlt (Nat.lt_irrefl _)
  · intro d hd
    rcases hcases d hd with hd | rfl
    · exact .inl (htold d hd)
    · exact .inr ⟨hl.up, rfl⟩
  · rintro rid' ⟨-, hrid'⟩
    obtain rfl : rid = rid' := by simpa using hrid'
    refine ⟨hl.todo, fun p' text' hp' htext' d hd hid => ?_⟩
    obtain rfl : p = p' := Option.some.inj (hl.find.symm.trans hp')
    obtain rfl : text = text' := Option.some.inj (htext.symm.trans htext')
    rcases hcases d hd with hd | rfl
    · exact absurd hid (hnew d hd)
    · rfl
  · intro _ d hd
    rcases hcases d hd with hd | rfl
    · exact (h.below halive d hd).trans (Nat.lt_succ_self _)
    · exact Nat.lt_succ_self _
  · intro hwhole d hd
    rcases hcases d hd with hd | rfl
    · exact (h.counted hwhole d hd).imp_right fun hway => absurd hway.1 (hidle _)
    · right
      refine ⟨⟨hl.up, rfl⟩, ?_⟩
      rcases h.counter hwhole hl.up with hcount | ⟨⟨rid', hrid'⟩, -⟩
      · exact hcount
      · exact absurd ⟨hl.up, hrid'⟩ (hidle rid')
  · intro hwhole _
    right
    refine ⟨⟨rid, rfl⟩, ?_⟩
    rcases h.counter hwhole hl.up with hcount | ⟨⟨rid', hrid'⟩, -⟩
    · dsimp only
      omega
    · exact absurd ⟨hl.up, hrid'⟩ (hidle rid')

/-- The terminal of a delivered message. -/
def messageTerminal (rid text : Bytes) : Terminal :=
  { kind := .succeeded, requestId := rid, action := lit "message", reason := [], result := messageResult text
    error := lit "null", delivery := true }

theorem carriers_landed {w : RunLog} {rid text : Bytes} {fate : Fate} (htorn : w.torn = false)
    (hfate : fate = .done ∨ fate = .reported) :
    (w.append (.terminal (messageTerminal rid text)) fate).1.lines =
        w.lines ++ [Line.event w.nextEvent (.terminal (messageTerminal rid text))] ∧
      carriers (w.append (.terminal (messageTerminal rid text)) fate).1.lines = carriers w.lines + 1 := by
  have hline : w.lineOf (.terminal (messageTerminal rid text)) = .event w.nextEvent (.terminal (messageTerminal rid text)) := by
    simp [RunLog.lineOf, htorn]
  rcases hfate with rfl | rfl
  · simp only [RunLog.append, hline, carriers_append]
    exact ⟨trivial, rfl⟩
  · simp only [RunLog.append, hline, carriers_append]
    exact ⟨trivial, rfl⟩

/-- The delivered message is told of, and the delivery is under way no more. -/
theorem Delivering.messageDone {run : RunIdentity} {s s' : RunnerState} {rid text : Bytes} {p : Pending} {fate : Fate}
    (h : Delivering run s) (hup : s.status = .up) (hactive : s.active = .delivered rid) (hp : s.ledger.find rid = some p)
    (htext : fcMessage p.request.call.args = some text)
    (hok : deliveredUntold s = true → s.log.torn = false ∧ (fate = .done ∨ fate = .reported)) (hsound : Sound run s')
    (hlog : s'.log = (s.log.append (.terminal (messageTerminal rid text)) fate).1) (hdeliveries : s'.deliveries = s.deliveries)
    (htorn : s'.deliveryTorn = s.deliveryTorn) (hnext : s'.nextDelivery = s.nextDelivery) (hactive' : s'.active = .none)
    (hstatus : s'.status = .up → fate = .done) : Delivering run s' := by
  have hextends : s.log.lines <+: s'.log.lines := by
    rw [hlog]
    exact append_extends _ _ _
  have hle := carriers_le hextends
  have hidle : ∀ rid', ¬ UnderWay s' rid' := by
    rintro rid' ⟨-, hrid'⟩
    rw [hactive'] at hrid'
    cases hrid'
  -- a delivery under way has its line, so its terminal lands
  have hlands : ∀ d ∈ s.deliveries, UnderWay s d.requestId →
      d.requestId = rid ∧ s.log.torn = false ∧ (fate = .done ∨ fate = .reported) := by
    rintro d hd ⟨-, hrid⟩
    have heq : d.requestId = rid := by
      rw [hactive] at hrid
      simpa using hrid.symm
    refine ⟨heq, hok ?_⟩
    unfold deliveredUntold deliveryExists
    rw [hactive]
    exact List.any_eq_true.mpr ⟨d, hd, by simpa using heq⟩
  refine ⟨hsound, htorn.trans h.untorn, hdeliveries ▸ h.requests, hdeliveries ▸ h.numbers, ?_, fun rid' hway => absurd hway (hidle rid'),
    ?_, ?_, ?_⟩
  · intro d hd
    rw [hdeliveries] at hd
    left
    rcases h.told d hd with htold | hway
    · exact htold.mono hextends
    · obtain ⟨heq, huntorn, hfate⟩ := hlands d hd hway
      have hd' : d.text = text := (h.text rid ⟨hup, hactive⟩).2 p text hp htext d hd heq
      refine ⟨s.log.nextEvent, messageTerminal rid text, ?_, rfl, heq.symm, ?_⟩
      · rw [hlog, (carriers_landed huntorn hfate).1]
        exact List.mem_append_right _ (List.mem_singleton.mpr rfl)
      · rw [hd']
        exact messageOf_messageResult htext
  · rw [hdeliveries, hnext]
    exact fun _ => h.below (by simp [hup])
  · intro hwhole d hd
    rw [hdeliveries] at hd
    left
    rcases h.counted (prefix_whole hextends hwhole) d hd with hcount | ⟨hway, hcount⟩
    · exact hcount.trans hle
    · obtain ⟨-, huntorn, hfate⟩ := hlands d hd hway
      rw [hlog, (carriers_landed huntorn hfate).2]
      exact hcount
  · intro hwhole hup'
    left
    have hdone : fate = .done := hstatus hup'
    have huntorn : s.log.torn = false := by
      by_contra htorn'
      refine hwhole ?_
      rw [hlog, hdone]
      simp [RunLog.append, RunLog.lineOf, htorn']
    rw [hnext, hlog, (carriers_landed huntorn (.inl hdone)).2]
    rcases h.counter (prefix_whole hextends hwhole) hup with hcount | ⟨-, hcount⟩
    · omega
    · omega

/-! ## Runs -/

theorem Delivering.crashed {run : RunIdentity} {s s' : RunnerState} (h : Delivering run s) (hok : deliveredUntold s = false)
    (hsound : Sound run s') (hlog : s'.log = s.log) (hdeliveries : s'.deliveries = s.deliveries)
    (htorn : s'.deliveryTorn = s.deliveryTorn) (hstatus : s'.status = .down) : Delivering run s' := by
  have hidle : ∀ d ∈ s.deliveries, ¬ UnderWay s d.requestId := by
    rintro d hd ⟨-, hrid⟩
    have hexists : deliveredUntold s = true := by
      unfold deliveredUntold deliveryExists
      rw [hrid]
      exact List.any_eq_true.mpr ⟨d, hd, by simp⟩
    rw [hok] at hexists
    cases hexists
  have hdown : ∀ rid, ¬ UnderWay s' rid := by
    rintro rid ⟨hup, -⟩
    rw [hstatus] at hup
    cases hup
  refine ⟨hsound, htorn.trans h.untorn, hdeliveries ▸ h.requests, hdeliveries ▸ h.numbers, ?_, fun rid hway => absurd hway (hdown rid),
    fun halive => absurd hstatus halive, ?_, fun _ hup => ?_⟩
  · intro d hd
    rw [hdeliveries] at hd
    rw [hlog]
    exact .inl ((h.told d hd).resolve_right (hidle d hd))
  · rw [hlog, hdeliveries]
    intro hwhole d hd
    exact .inl ((h.counted hwhole d hd).resolve_right fun hway => hidle d hd hway.1)
  · rw [hstatus] at hup
    cases hup

theorem Delivering.recovered {run : RunIdentity} {s : RunnerState} {env : Restart} (h : Delivering run s)
    (hdown : s.status = .down) (hsound : Sound run (recoverRun env s)) : Delivering run (recoverRun env s) := by
  have hidle : ∀ rid, ¬ UnderWay s rid := by
    rintro rid ⟨hup, -⟩
    rw [hdown] at hup
    cases hup
  have hextends := recoverRun_extends env s
  have hle := carriers_le hextends
  have hkept : (recoverRun env s).deliveries = s.deliveries ∧ (recoverRun env s).deliveryTorn = s.deliveryTorn ∧
      (recoverRun env s).active = .none := by
    rcases recoverRun_cases env s with ⟨-, heq⟩ | ⟨-, status, heq, -⟩
    · rw [heq]
      exact ⟨rfl, rfl, rfl⟩
    · have hentries := recoverStarted_kept env (afterReplay env s) (replayRunLog env.disk s.log).ledger.pending
      rw [heq]
      exact ⟨hentries.deliveries, hentries.deliveryTorn, hentries.active⟩
  obtain ⟨hdeliveries, htorn, hactive⟩ := hkept
  -- a run that comes up has counted its log
  have hcounted : (recoverRun env s).status ≠ .down →
      .corrupt ∉ s.log.lines ∧ (recoverRun env s).nextDelivery = 1 + carriers s.log.lines := by
    intro hup
    rcases recoverRun_cases env s with ⟨-, heq⟩ | ⟨hok, status, heq, -⟩
    · rw [heq] at hup
      exact absurd rfl hup
    · have hnext := (recoverStarted_kept env (afterReplay env s) (replayRunLog env.disk s.log).ledger.pending).nextDelivery
      refine ⟨replay_whole hok, ?_⟩
      rw [heq]
      refine hnext.trans ?_
      have hcount : (replayRunLog env.disk s.log).nextDelivery = 1 + carriers s.log.lines := replay_nextDelivery rfl hok
      exact hcount
  have hidle' : ∀ rid, ¬ UnderWay (recoverRun env s) rid := by
    rintro rid ⟨-, hrid⟩
    rw [hactive] at hrid
    cases hrid
  have hcount : .corrupt ∉ s.log.lines → ∀ d ∈ s.deliveries, d.number ≤ carriers s.log.lines := fun hwhole d hd =>
    (h.counted hwhole d hd).resolve_right fun hway => hidle _ hway.1
  refine ⟨hsound, htorn.trans h.untorn, hdeliveries ▸ h.requests, hdeliveries ▸ h.numbers, ?_, fun rid hway => absurd hway (hidle' rid),
    ?_, ?_, ?_⟩
  · intro d hd
    rw [hdeliveries] at hd
    exact .inl (((h.told d hd).resolve_right (hidle _)).mono hextends)
  · intro halive d hd
    rw [hdeliveries] at hd
    obtain ⟨hwhole, hnext⟩ := hcounted halive
    have hnumber := hcount hwhole d hd
    omega
  · intro hwhole d hd
    rw [hdeliveries] at hd
    exact .inl ((hcount (prefix_whole hextends hwhole) d hd).trans hle)
  · intro hwhole hup
    left
    rw [(hcounted (by simp [hup])).2]
    omega

theorem step_delivering {run : RunIdentity} {s s' : RunnerState} {i : RunnerInput} (h : Delivering run s) (hok : Completes s i)
    (hstep : runnerStep run s i = some s') : Delivering run s' := by
  have hsound : Sound run s' := step_sound h.sound hstep
  have hnone : s.active = .none → ∀ rid, s.active ≠ .delivered rid := by
    rintro hactive rid hrid
    rw [hactive] at hrid
    cases hrid
  have hlaunching : ∀ rid', s.active = .launching rid' → ∀ rid, s.active ≠ .delivered rid := by
    rintro rid' hactive rid hrid
    rw [hactive] at hrid
    cases hrid
  -- while a delivery is under way nothing waits for its note
  have hnoting : ∀ note rest, s.status = .up → s.todo = note :: rest → ∀ rid, s.active ≠ .delivered rid := by
    intro note rest hup htodo rid hrid
    have hempty := (h.text rid ⟨hup, hrid⟩).1
    rw [htodo] at hempty
    cases hempty
  cases step_effect hstep with
  | requested hup _ hactive =>
    exact h.frame hup hsound (append_extends ..) rfl rfl rfl (.inr ⟨hnone hactive, hnone hactive⟩)
  | requestFailed hup hactive =>
    exact h.frame hup hsound (append_extends ..) rfl rfl rfl (.inr ⟨hnone hactive, hnone hactive⟩)
  | refused hup hactive =>
    exact h.frame hup hsound (List.prefix_refl _) rfl rfl rfl (.inr ⟨hnone hactive, hnone hactive⟩)
  | notedRequest hup htodo =>
    have hidle := hnoting _ _ hup htodo
    exact h.frame hup hsound (noteRequest_extends ..) rfl rfl rfl (.inr ⟨hidle, hidle⟩)
  | notedStarted hup htodo | notedTerminal hup htodo =>
    have hidle := hnoting _ _ hup htodo
    exact h.frame hup hsound (List.prefix_refl _) rfl rfl rfl (.inr ⟨hidle, hidle⟩)
  | other hup =>
    exact h.frame hup hsound (append_extends ..) rfl rfl rfl (.inl ⟨hup, rfl, rfl, rfl⟩)
  | closed hup hc =>
    cases hc with
    | reject _ hactive =>
      exact h.frame hup hsound (append_extends ..) rfl rfl rfl (.inr ⟨hnone hactive, nofun⟩)
    | message _ hactive hp htext => exact h.messageDone hup hactive hp htext hok hsound rfl rfl rfl rfl rfl fun _ => rfl
    | action _ hactive =>
      have hidle : ∀ rid, s.active ≠ .delivered rid := hactive.elim hnone (hlaunching _)
      exact h.frame hup hsound (append_extends ..) rfl rfl rfl (.inr ⟨hidle, nofun⟩)
  | closeFailed hup hc hfate =>
    cases hc with
    | reject _ hactive =>
      exact h.frame hup hsound (append_extends ..) rfl rfl rfl (.inr ⟨hnone hactive, nofun⟩)
    | message _ hactive hp htext => exact h.messageDone hup hactive hp htext hok hsound rfl rfl rfl rfl rfl nofun
    | action _ hactive =>
      have hidle : ∀ rid, s.active ≠ .delivered rid := hactive.elim hnone (hlaunching _)
      exact h.frame hup hsound (append_extends ..) rfl rfl rfl (.inr ⟨hidle, nofun⟩)
  | started hup _ hactive =>
    exact h.frame hup hsound (append_extends ..) rfl rfl rfl (.inr ⟨hnone hactive, nofun⟩)
  | startFailed hup _ hactive =>
    exact h.frame hup hsound (append_extends ..) rfl rfl rfl (.inr ⟨hnone hactive, hnone hactive⟩)
  | allocated hl =>
    have hidle := hlaunching _ hl.active
    exact h.frame hl.up hsound (List.prefix_refl _) rfl rfl rfl (.inr ⟨hidle, hidle⟩)
  | launched hl =>
    exact h.frame hl.up hsound (List.prefix_refl _) rfl rfl rfl (.inr ⟨hlaunching _ hl.active, nofun⟩)
  | delivered hl _ _ htext hlines htorn => exact h.delivered hl htext hlines htorn hok hsound
  | worked hl | workFailed hl =>
    have hidle := hlaunching _ hl.active
    exact h.frame hl.up hsound (append_extends ..) rfl rfl rfl (.inr ⟨hidle, hidle⟩)
  | finished hup _ hactive =>
    exact h.frame hup hsound (append_extends ..) rfl rfl rfl (.inr ⟨hnone hactive, hnone hactive⟩)
  | retried hup =>
    exact h.frame hup hsound (List.prefix_refl _) rfl rfl rfl (.inl ⟨hup, rfl, rfl, rfl⟩)
  | crashed => exact h.crashed hok hsound rfl rfl rfl rfl
  | recovered hdown => exact h.recovered hdown hsound

def greeting : Call :=
  { source := lit "agent", action := lit "message", args := lit "\x7b\"message\":\"hello\"\x7d", taskId := [], workRev := 0 }

def farewell : Call := { greeting with args := lit "\x7b\"message\":\"bye\"\x7d" }

/-- A request, its start, and the message on its way. -/
def sendMessage (call : Call) : List RunnerInput :=
  [.request call .done, .note .done, .start .done, .note .done, .deliver .done]

end Floofclaw.Guarantees.Deliveries
