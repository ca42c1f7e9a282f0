import Floofclaw.Guarantees.RunIds

/-!
# Request ids through a replay

A replay reads the file it appends to. What the process keeps afterwards is
spoken of in the lines it read, and the lines it added speak of the same
requests.
-/

set_option autoImplicit false

namespace Floofclaw.Guarantees.RunReplay
open Floofclaw.Lib Floofclaw.Source.Json Floofclaw.Source.Actions Floofclaw.Source.Runner
open Floofclaw.Guarantees.RunnerSteps Floofclaw.Guarantees.Replay Floofclaw.Guarantees.Ledger
open Floofclaw.Guarantees.RequestIds Floofclaw.Guarantees.RunIds

/-- The replay after the lines `read` of a file, which it has made longer by `added`. -/
structure Reading (run : RunIdentity) (read all added : List Line) (st : Replayed) : Prop where
  file : st.log.lines = all ++ added
  whole : .corrupt ∉ read
  below : ∀ n, n ∈ numbers read ∨ n ∈ numbers added → n < st.log.nextEvent
  held : ∀ rid, Held [] st.ledger rid ∨ rid ∈ mentioned added → rid ∈ mentioned read
  unique : (pendingIds st.ledger).Nodup
  unanswered : ∀ rid ∈ pendingIds st.ledger, rid ∉ terminalIds read ∧ rid ∉ terminalIds added

section Replay

variable {run : RunIdentity} {read rest added : List Line} {st : Replayed} {number : Nat} {body : Body}

theorem below_counted {n next : Nat} (h : n < next) : n < counted next (.event number body) := h.trans_le (counted_ge _ _)

/-- The next line is read and its note writes nothing. -/
theorem Reading.next (h : Reading run read (read ++ .event number body :: rest) added st) {st' : Replayed}
    (hlog : st'.log = { st.log with nextEvent := counted st.log.nextEvent (.event number body) })
    (hheld : ∀ rid, Held [] st'.ledger rid → Held [] st.ledger rid ∨ rid ∈ bodyIds body)
    (hunique : (pendingIds st'.ledger).Nodup)
    (hunanswered : ∀ rid ∈ pendingIds st'.ledger, rid ∉ terminalIds (read ++ [Line.event number body]) ∧ rid ∉ terminalIds added) :
    Reading run (read ++ [Line.event number body]) (read ++ .event number body :: rest) added st' := by
  have hwhole : .corrupt ∉ read ++ [Line.event number body] := by simpa using h.whole
  refine ⟨?_, hwhole, fun n hn => ?_, fun rid hrid => ?_, hunique, hunanswered⟩
  · rw [hlog]
    exact h.file
  · rw [hlog]
    dsimp only
    rw [numbers_append, List.mem_append] at hn
    rcases hn with (hn | hn) | hn
    · exact below_counted (h.below n (.inl hn))
    · rw [List.mem_singleton.mp (show n ∈ [number] from hn), counted]
      split <;> omega
    · exact below_counted (h.below n (.inr hn))
  · rw [mentioned_snoc, List.mem_append]
    rcases hrid with hrid | hrid
    · rcases hheld rid hrid with hrid | hrid
      · exact .inl (h.held rid (.inl hrid))
      · exact .inr hrid
    · exact .inl (h.held rid (.inr hrid))

/-- A line is written while the file is read. -/
theorem Reading.write {all : List Line} (h : Reading run read all added st) {st' : Replayed} {fate : Fate} (body : Body)
    (hlog : st'.log = (st.log.append body fate).1) (hids : ∀ rid ∈ bodyIds body, rid ∈ mentioned read)
    (hheld : ∀ rid, Held [] st'.ledger rid → Held [] st.ledger rid ∨ rid ∈ bodyIds body)
    (hunique : (pendingIds st'.ledger).Nodup)
    (hpending : ∀ rid ∈ pendingIds st'.ledger, rid ∈ pendingIds st.ledger ∧ rid ∉ bodyIds body) :
    ∃ added', Reading run read all added' st' := by
  have hheld' : ∀ rid, Held [] st'.ledger rid → rid ∈ mentioned read := by
    intro rid hrid
    rcases hheld rid hrid with hrid | hrid
    · exact h.held rid (.inl hrid)
    · exact hids rid hrid
  have hnext : st'.log.nextEvent = st.log.nextEvent + 1 := by rw [hlog, append_nextEvent]
  have hopen : ∀ rid ∈ pendingIds st'.ledger, rid ∉ terminalIds read ∧ rid ∉ terminalIds added := fun rid hrid =>
    h.unanswered rid (hpending rid hrid).1
  rcases append_cases st.log body fate with heq | ⟨-, -, heq⟩ | ⟨-, -, heq⟩
  · refine ⟨added, ?_, h.whole, fun n hn => ?_, fun rid hrid => ?_, hunique, hopen⟩
    · rw [hlog, heq]
      exact h.file
    · rw [hnext]
      exact (h.below n hn).trans (Nat.lt_succ_self _)
    · exact hrid.elim (hheld' rid) fun hrid => h.held rid (.inr hrid)
  · refine ⟨added ++ [Line.corrupt], ?_, h.whole, fun n hn => ?_, fun rid hrid => ?_, hunique, fun rid hrid => ?_⟩
    · rw [hlog, heq, h.file, List.append_assoc]
    · rw [numbers_append, List.mem_append] at hn
      rw [hnext]
      refine (h.below n ?_).trans (Nat.lt_succ_self _)
      rcases hn with hn | hn | hn
      · exact .inl hn
      · exact .inr hn
      · cases hn
    · rw [mentioned_snoc, List.mem_append] at hrid
      rcases hrid with hrid | hrid | hrid
      · exact hheld' rid hrid
      · exact h.held rid (.inr hrid)
      · cases hrid
    · rw [terminalIds, idsOf_corrupt]
      exact hopen rid hrid
  · refine ⟨added ++ [Line.event st.log.nextEvent body], ?_, h.whole, fun n hn => ?_, fun rid hrid => ?_, hunique, fun rid hrid => ?_⟩
    · rw [hlog, heq, h.file, List.append_assoc]
    · rw [numbers_append, List.mem_append] at hn
      rw [hnext]
      rcases hn with hn | hn | hn
      · exact (h.below n (.inl hn)).trans (Nat.lt_succ_self _)
      · exact (h.below n (.inr hn)).trans (Nat.lt_succ_self _)
      · rw [List.mem_singleton.mp (show n ∈ [st.log.nextEvent] from hn)]
        exact Nat.lt_succ_self _
    · rw [mentioned_snoc, List.mem_append] at hrid
      rcases hrid with hrid | hrid | hrid
      · exact hheld' rid hrid
      · exact h.held rid (.inr hrid)
      · exact hids rid hrid
    · refine ⟨(hopen rid hrid).1, fun hmem => ?_⟩
      rw [terminalIds, idsOf_snoc, List.mem_append] at hmem
      rcases hmem with hmem | hmem
      · exact (hopen rid hrid).2 hmem
      · cases body with
        | terminal t =>
          have heq : rid = t.requestId := by simpa [terminalOf] using hmem
          exact (hpending rid hrid).2 (List.mem_singleton.mpr heq)
        | request | started | work | overflow | other => simp [terminalOf] at hmem

/-- A request that is read was not spoken of before. -/
theorem Reading.new {r : Request} (h : Reading run read (read ++ .event number (.request r) :: rest) added st)
    (hall : LogSound run (read ++ .event number (.request r) :: rest)) :
    r.requestId ∉ mentioned read ∧ r.requestId ∉ pendingIds st.ledger := by
  have hnew : r.requestId ∉ mentioned read := by
    intro hmem
    obtain ⟨a, ha, hid⟩ := List.mem_flatMap.mp hmem
    have hordered := hall.ordered
    rw [List.pairwise_append] at hordered
    exact hordered.2.2 a ha _ (List.mem_cons_self ..) number r rfl hid
  exact ⟨hnew, fun hmem => hnew (h.held _ (.inl (held_pending hmem)))⟩

theorem Reading.request {disk : Nat → Fate} {r : Request}
    (h : Reading run read (read ++ .event number (.request r) :: rest) added st)
    (hall : LogSound run (read ++ .event number (.request r) :: rest)) (hok : st.ok = true) :
    ∃ added', Reading run (read ++ [Line.event number (.request r)]) (read ++ .event number (.request r) :: rest) added'
      (replayLine disk st (.event number (.request r))) := by
  obtain ⟨hnew, habsent⟩ := h.new hall
  -- the line itself
  have hread : Reading run (read ++ [Line.event number (.request r)]) (read ++ .event number (.request r) :: rest) added
      { st with log := { st.log with nextEvent := counted st.log.nextEvent (.event number (.request r)) } } := by
    refine h.next rfl (fun rid hrid => .inl hrid) h.unique fun rid hrid => ?_
    have hids : terminalIds (read ++ [Line.event number (.request r)]) = terminalIds read := (idsOf_snoc ..).trans (List.append_nil _)
    rw [hids]
    exact h.unanswered rid hrid
  have hmention : r.requestId ∈ mentioned (read ++ [Line.event number (.request r)]) := by
    rw [mentioned_snoc]
    exact List.mem_append_right _ (List.mem_singleton.mpr rfl)
  rw [replayLine_event hok]
  dsimp only [replayActionRecord]
  -- its note
  rcases noteRequest_cases { st.log with nextEvent := counted st.log.nextEvent (.event number (.request r)) } st.ledger r
      (disk (counted st.log.nextEvent (.event number (.request r)))) with
    ⟨heq, -⟩ | ⟨hlog, hledger, -⟩ | ⟨hlog, hledger⟩ | ⟨t, ht, hlog, hledger⟩
  · rw [heq]
    refine ⟨added, hread.file, hread.whole, hread.below, fun rid hrid => ?_, accept_nodup h.unique habsent, fun rid hrid => ?_⟩
    · rcases hrid with (hrid | hrid | hrid) | hrid
      · cases hrid
      · rw [accept_ids, List.mem_append, List.mem_singleton] at hrid
        rcases hrid with hrid | rfl
        · exact hread.held rid (.inl (held_pending hrid))
        · exact hmention
      · exact hread.held rid (.inl (.inr (.inr hrid)))
      · exact hread.held rid (.inr hrid)
    · rw [accept_ids, List.mem_append, List.mem_singleton] at hrid
      rcases hrid with hrid | rfl
      · exact hread.unanswered rid hrid
      · refine ⟨fun hmem => ?_, fun hmem => hnew (h.held _ (.inr (terminalIds_mentioned hmem)))⟩
        rw [terminalIds, idsOf_snoc, List.mem_append] at hmem
        rcases hmem with hmem | hmem
        · exact hnew (terminalIds_mentioned hmem)
        · cases hmem
  · refine ⟨added, ?_⟩
    rw [hlog, hledger]
    exact ⟨hread.file, hread.whole, hread.below, hread.held, hread.unique, hread.unanswered⟩
  · apply hread.write (.overflow r.requestId) hlog nofun
    · intro rid hrid
      rw [hledger] at hrid
      exact .inl hrid
    · rw [hledger]
      exact h.unique
    · intro rid hrid
      rw [hledger] at hrid
      exact ⟨hrid, List.not_mem_nil⟩
  · have hpending : pendingIds (noteTerminal st.ledger r.requestId) = pendingIds st.ledger := by
      rw [pendingIds, noteTerminal_absent habsent, pendingIds]
    have hne : ∀ rid ∈ pendingIds st.ledger, rid ∉ bodyIds (.terminal t) := by
      intro rid hrid hmem
      rw [List.mem_singleton.mp hmem, ht] at hrid
      exact habsent hrid
    apply hread.write (.terminal t) hlog
    · intro rid hrid
      rw [List.mem_singleton.mp hrid, ht]
      exact hmention
    · intro rid hrid
      rcases hledger with hledger | hledger
      · rw [hledger] at hrid
        exact .inl hrid
      · rw [hledger] at hrid
        rcases hrid with hrid | hrid | hrid
        · cases hrid
        · exact .inl (held_pending (hpending ▸ hrid))
        · rcases mem_terminalAdd hrid with hrid | rfl
          · exact .inl (.inr (.inr hrid))
          · exact .inr (List.mem_singleton.mpr ht.symm)
    · rcases hledger with hledger | hledger
      · rw [hledger]
        exact h.unique
      · rw [hledger, hpending]
        exact h.unique
    · intro rid hrid
      have hrid' : rid ∈ pendingIds st.ledger := by
        rcases hledger with hledger | hledger
        · rw [hledger] at hrid
          exact hrid
        · rw [hledger, hpending] at hrid
          exact hrid
      exact ⟨hrid', hne rid hrid'⟩

/-- One line more. -/
theorem Reading.line (disk : Nat → Fate) (h : Reading run read (read ++ .event number body :: rest) added st)
    (hall : LogSound run (read ++ .event number body :: rest)) (hok : st.ok = true) :
    ∃ added', Reading run (read ++ [Line.event number body]) (read ++ .event number body :: rest) added'
      (replayLine disk st (.event number body)) := by
  -- a line that settles a request
  have hsettles : ∀ rid, bodyIds body = [rid] → (∀ rid', terminalOf body = some rid' → rid' = rid) →
      replayActionRecord disk { st.log with nextEvent := counted st.log.nextEvent (.event number body) } st.ledger body =
        ({ st.log with nextEvent := counted st.log.nextEvent (.event number body) }, noteTerminal st.ledger rid, true) →
      ∃ added', Reading run (read ++ [Line.event number body]) (read ++ .event number body :: rest) added'
        (replayLine disk st (.event number body)) := by
    intro rid hbody hterminal hnote
    refine ⟨added, ?_⟩
    rw [replayLine_event hok, hnote]
    refine h.next rfl (fun rid' hrid' => ?_) (noteTerminal_nodup h.unique) fun rid' hrid' => ?_
    · rcases hrid' with hrid' | hrid' | hrid'
      · cases hrid'
      · exact .inl (held_pending (pendingIds_noteTerminal hrid'))
      · rcases mem_terminalAdd hrid' with hrid' | rfl
        · exact .inl (.inr (.inr hrid'))
        · rw [hbody]
          exact .inr (List.mem_singleton.mpr rfl)
    · obtain ⟨hread, hadded⟩ := h.unanswered rid' (pendingIds_noteTerminal hrid')
      refine ⟨fun hmem => ?_, hadded⟩
      rw [terminalIds, idsOf_snoc, List.mem_append, Option.mem_toList] at hmem
      rcases hmem with hmem | hmem
      · exact hread hmem
      · rw [hterminal rid' hmem] at hrid'
        exact noteTerminal_gone h.unique hrid'
  have hkeeps : ∀ L, pendingIds L = pendingIds st.ledger → L.completedIds = st.ledger.completedIds → terminalOf body = none →
      replayActionRecord disk { st.log with nextEvent := counted st.log.nextEvent (.event number body) } st.ledger body =
        ({ st.log with nextEvent := counted st.log.nextEvent (.event number body) }, L, true) →
      ∃ added', Reading run (read ++ [Line.event number body]) (read ++ .event number body :: rest) added'
        (replayLine disk st (.event number body)) := by
    intro L hpending hcompleted hterminal hnote
    refine ⟨added, ?_⟩
    rw [replayLine_event hok, hnote]
    refine h.next rfl (fun rid hrid => ?_) (hpending ▸ h.unique) fun rid hrid => ?_
    · rcases hrid with hrid | hrid | hrid
      · cases hrid
      · exact .inl (held_pending (hpending ▸ hrid))
      · exact .inl (.inr (.inr (hcompleted ▸ hrid)))
    · have hids : terminalIds (read ++ [Line.event number body]) = terminalIds read := by
        refine (idsOf_snoc ..).trans ?_
        rw [hterminal]
        exact List.append_nil _
      rw [hids]
      exact h.unanswered rid (hpending ▸ hrid)
  cases body with
  | request r => exact h.request hall hok
  | started rid => exact hkeeps _ (noteStarted_ids st.ledger rid) rfl rfl rfl
  | terminal t => exact hsettles t.requestId rfl (fun _ heq => (Option.some.inj heq).symm) rfl
  | work blocked rid => exact hsettles rid rfl nofun rfl
  | overflow rid => exact hkeeps _ rfl rfl rfl rfl
  | other delivery => exact hkeeps _ rfl rfl rfl rfl

/-- A line that is not reached, or cannot be read, changes nothing but the answer. -/
theorem replayLine_stopped {disk : Nat → Fate} {line : Line} (hok : st.ok = false) : replayLine disk st line = st := by
  obtain ⟨log, ledger, nextDelivery, ok⟩ := st
  dsimp only at hok
  subst hok
  cases line <;> rfl

theorem replay_stopped {disk : Nat → Fate} (lines : List Line) (hok : st.ok = false) : lines.foldl (replayLine disk) st = st := by
  induction lines with
  | nil => rfl
  | cons line lines ih =>
    rw [List.foldl_cons, replayLine_stopped hok]
    exact ih

/-- A replay that gets through reads events only. -/
theorem replay_whole {disk : Nat → Fate} {lines : List Line} (hend : (lines.foldl (replayLine disk) st).ok = true) :
    .corrupt ∉ lines := by
  induction lines generalizing st with
  | nil => exact List.not_mem_nil
  | cons line lines ih =>
    rw [List.foldl_cons] at hend
    rw [List.mem_cons, not_or]
    refine ⟨?_, ih hend⟩
    rintro rfl
    rw [replay_stopped lines rfl] at hend
    cases hend

/-- The rest of the file, when the replay gets through it. -/
theorem Reading.finish {disk : Nat → Fate} {all : List Line} (h : Reading run read all added st)
    (hall : LogSound run all) (hsplit : all = read ++ rest) (hok : st.ok = true)
    (hend : (rest.foldl (replayLine disk) st).ok = true) :
    ∃ added', Reading run all all added' (rest.foldl (replayLine disk) st) := by
  induction rest generalizing read added st with
  | nil =>
    rw [List.append_nil] at hsplit
    subst hsplit
    exact ⟨added, h⟩
  | cons line rest ih =>
    rw [List.foldl_cons] at hend ⊢
    have hline : (replayLine disk st line).ok = true := by
      by_contra hstop
      rw [replay_stopped rest (by simpa using hstop)] at hend
      exact hstop hend
    cases line with
    | corrupt => cases hline
    | event number body =>
      subst hsplit
      obtain ⟨added', hread⟩ := h.line disk hall hok
      exact ih hread (by simp) hline hend

/-- What the replay writes speaks of requests in the file. -/
theorem replayLine_log (disk : Nat → Fate) {line : Line} (h : LogSound run st.log.lines) (hline : line ∈ st.log.lines) :
    LogSound run (replayLine disk st line).log.lines ∧ st.log.lines ⊆ (replayLine disk st line).log.lines := by
  cases line with
  | corrupt => exact ⟨h, fun _ hmem => hmem⟩
  | event number body =>
    by_cases hok : st.ok = true
    · rw [replayLine_event hok]
      cases body with
      | started | terminal | work | overflow | other => exact ⟨h, fun _ hmem => hmem⟩
      | request r =>
        dsimp only [replayActionRecord]
        have hknown : r.requestId ∈ requestIds st.log.lines := mem_idsOf.mpr ⟨number, _, hline, rfl⟩
        have hgrows : ∀ (w : RunLog) (body : Body) (fate : Fate), w.lines = st.log.lines →
            st.log.lines ⊆ (w.append body fate).1.lines := by
          intro w body fate heq
          rw [← heq]
          cases fate with
          | done | reported => exact List.subset_append_left _ _
          | lost | torn => exact fun _ hmem => hmem
        rcases noteRequest_cases { st.log with nextEvent := counted st.log.nextEvent (.event number (.request r)) } st.ledger r
            (disk (counted st.log.nextEvent (.event number (.request r)))) with
          ⟨heq, -⟩ | ⟨hlog, -, -⟩ | ⟨hlog, -⟩ | ⟨t, ht, hlog, -⟩
        · rw [heq]
          exact ⟨h, fun _ hmem => hmem⟩
        · rw [hlog]
          exact ⟨h, fun _ hmem => hmem⟩
        · rw [hlog]
          exact ⟨LogSound.append h rfl nofun, hgrows _ _ _ rfl⟩
        · rw [hlog]
          refine ⟨LogSound.append h rfl fun _ rid hrid => ?_, hgrows _ _ _ rfl⟩
          rw [List.mem_singleton.mp hrid, ht]
          exact hknown
    · rw [replayLine_stopped (by simpa using hok)]
      exact ⟨h, fun _ hmem => hmem⟩

theorem replay_log {disk : Nat → Fate} {lines : List Line} (h : LogSound run st.log.lines) (hlines : lines ⊆ st.log.lines) :
    LogSound run (lines.foldl (replayLine disk) st).log.lines := by
  induction lines generalizing st with
  | nil => exact h
  | cons line lines ih =>
    obtain ⟨hsound, hsubset⟩ := replayLine_log disk h (hlines (List.mem_cons_self ..))
    exact ih hsound fun _ hmem => hsubset (hlines (List.mem_cons_of_mem _ hmem))

end Replay

/-- A replay that gets through its file leaves a sound process. -/
theorem replayRunLog_live {run : RunIdentity} {disk : Nat → Fate} {w : RunLog} (h : LogSound run w.lines)
    (hok : (replayRunLog disk w).ok = true) :
    LiveSound run (replayRunLog disk w).log.lines (replayRunLog disk w).log.nextEvent [] (replayRunLog disk w).ledger ∧
      Unanswered (replayRunLog disk w).log.lines [] (replayRunLog disk w).ledger := by
  have hstart : Reading run [] w.lines [] { log := { w with torn := false, nextEvent := 1 } } := by
    refine ⟨(List.append_nil _).symm, List.not_mem_nil, ?_, ?_, List.nodup_nil, nofun⟩
    · rintro n (hn | hn) <;> cases hn
    · rintro rid ((hrid | hrid | hrid) | hrid) <;> cases hrid
  obtain ⟨added, hread⟩ : ∃ added, Reading run w.lines w.lines added (replayRunLog disk w) :=
    hstart.finish h rfl rfl hok
  have hknown : ∀ rid ∈ mentioned w.lines, Issued run (replayRunLog disk w).log.nextEvent rid ∧ rid ∈ requestIds w.lines := by
    intro rid hrid
    have hrequest := h.known hread.whole rid hrid
    obtain ⟨number, body, hline, hkind⟩ := mem_idsOf.mp hrequest
    cases body with
    | request r =>
      refine ⟨⟨number, hread.below number (.inl ?_), ?_⟩, hrequest⟩
      · exact List.mem_filterMap.mpr ⟨_, hline, rfl⟩
      · rw [← Option.some.inj hkind]
        exact h.named number r hline
    | started | terminal | work | overflow | other => cases hkind
  refine ⟨⟨fun n hn => ?_, fun rid hrid => ?_, fun _ rid hrid => ?_, hread.unique, nofun, nofun⟩, fun rid hrid hmem => ?_⟩
  · rw [hread.file, numbers_append, List.mem_append] at hn
    exact hread.below n hn
  · rw [hread.file, mentioned_append, List.mem_append] at hrid
    rcases hrid with (hrid | hrid) | hrid
    · exact (hknown rid hrid).1
    · exact (hknown rid (hread.held rid (.inr hrid))).1
    · exact (hknown rid (hread.held rid (.inl hrid))).1
  · rw [hread.file, requestIds, idsOf_append, List.mem_append]
    exact .inl (hknown rid (hread.held rid (.inl hrid))).2
  · obtain ⟨hnot, hnotAdded⟩ := hread.unanswered rid hrid
    rw [hread.file, terminalIds, idsOf_append, List.mem_append] at hmem
    rcases hmem with hmem | hmem
    · exact absurd hmem hnot
    · exact absurd hmem hnotAdded

end Floofclaw.Guarantees.RunReplay
