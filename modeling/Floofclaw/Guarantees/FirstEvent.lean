import Floofclaw.Guarantees.FirstLine

/-!
# The first event of a run

An admitted envelope becomes one line of the run's log. The texts the formats
escape are safe; the channel, the adapter id and the raw JSON spans are not,
and the line reads back exactly when these carry nothing that needs an escape
and no line break.
-/

set_option autoImplicit false

namespace Floofclaw.Guarantees.FirstEvent
open Floofclaw.Lib Floofclaw.Source.Json Floofclaw.Source.EventLog Floofclaw.Source.Inbound

/-! ## Kinds -/

section
variable {heap : Bytes} {ts : Stamp} {n : RunNumber} {op : Option RtOperationSnapshot} {env : ParsedEnvelope}

theorem plain_lit_nulFree {s : Bytes} (h : s.all isPlain = true) : NulFree s := (PlainText.of_all h).nulFree

/-! ### Completion claims -/

theorem resultStatus_cases (env : ParsedEnvelope) :
    resultStatus env = lit "timed_out" ∨ resultStatus env = lit "failed" ∨ resultStatus env = lit "succeeded" := by
  unfold resultStatus
  split
  · exact .inl rfl
  split
  · exact .inr (.inl rfl)
  · exact .inr (.inr rfl)

theorem resultStatus_ok (env : ParsedEnvelope) : NulFree (resultStatus env) ∧ escapeFits rtMed (resultStatus env) := by
  rcases resultStatus_cases env with h | h | h <;> rw [h] <;> exact ⟨plain_lit_nulFree (lit_all (by decide)), by rw [lit_ofList]; decide⟩

theorem claimText_nulFree (heap : Bytes) (env : ParsedEnvelope) : NulFree (claimText heap env) := by
  unfold claimText
  split
  · simp [NulFree]
  · exact cstr_nulFree _

theorem resultText_nulFree (heap : Bytes) (record : RtOperationSnapshot) (env : ParsedEnvelope) :
    NulFree (resultText heap record env) := by
  unfold resultText
  split
  · have haction : NulFree (if record.action = [] then lit "(unknown)" else record.action) := by
      split
      · exact plain_lit_nulFree (lit_all (by decide))
      · exact record.nulFree _ (by simp)
    refine clip_nulFree (NulFree.append (NulFree.append (NulFree.append (plain_lit_nulFree (lit_all (by decide))) haction)
      (plain_lit_nulFree (lit_all (by decide)))) (plain_lit_nulFree (lit_all (by decide))))
  · exact claimText_nulFree heap env

/-- A step of a completion's writer that may abort. -/
theorem fits_bind {α β : Type} {p : Prop} [Decidable p] {a : α} {f : α → Option β} {b : β} :
    (if p then some a else none).bind f = some b ↔ p ∧ f a = some b := by
  by_cases h : p <;> simp [h]

theorem guard_bind {β : Type} {p : Prop} [Decidable p] {f : Unit → Option β} {b : β} :
    (guard p : Option Unit).bind f = some b ↔ p ∧ f () = some b := by
  rw [guard]
  exact fits_bind

theorem escape_bind {β : Type} {cap : Nat} {s : Bytes} (hs : NulFree s) {f : Bytes → Option β} {b : β} :
    (mirror cap s).bind f = some b ↔ escapeFits cap s ∧ f (escaped s) = some b := by
  rw [mirror_fits hs, fits_bind]

theorem populateCompletion_iff {record : RtOperationSnapshot} {inbound : InboundContext} :
    populateCompletionContext heap (runIdOf n) record env = some inbound ↔
      CompletionFits heap (runIdOf n) record env ∧ inbound =
        { eventType := lit "operation_result", payload := objText (completionMembers heap (runIdOf n) record env)
          originEventId := record.originEventId, originChannel := record.channel, originAdapterId := record.adapterId
          originRef := record.refJson, inboundAffairId := [], contextId := record.contextId } := by
  have hn : ∀ s ∈ [record.handle, record.workerHandle, record.action, record.requestId, record.triggerEventId,
      record.taskId, record.contextId, record.channel, record.adapterId, record.originEventId], NulFree s := record.nulFree
  simp only [List.forall_mem_cons] at hn
  obtain ⟨h1, h2, h3, h4, h5, h6, h7, h8, h9, h10, -⟩ := hn
  have hid := eventId_fits n
  have hsource : escapeFits rtMed (eventIdText (runIdOf n) 1) := by
    rw [escapeFits, escaped_plain (eventId_plain n)]
    exact Nat.lt_trans hid (by decide)
  obtain ⟨hstatus, hstatusFits⟩ := resultStatus_ok env
  unfold populateCompletionContext
  dsimp only [Option.bind_eq_bind, Option.pure_def]
  rw [guard_bind, escape_bind h1, escape_bind h2, escape_bind h3, escape_bind h4, escape_bind h5,
    escape_bind (eventId_plain n).nulFree, escape_bind hstatus, escape_bind (resultText_nulFree heap record env),
    escape_bind h7, escape_bind h8, escape_bind h9, escape_bind h6, escape_bind h10, guard_bind, guard_bind,
    Option.some.injEq]
  constructor
  · rintro ⟨-, f1, f2, f3, f4, f5, -, -, ftext, f7, f8, f9, f6, f10, fcorr, fwhole, rfl⟩
    refine ⟨⟨?_, ftext, fcorr, fwhole⟩, rfl⟩
    simp only [List.forall_mem_cons]
    exact ⟨f1, f2, f3, f4, f5, f7, f8, f9, f6, f10, by simp⟩
  · rintro ⟨⟨hfields, ftext, fcorr, fwhole⟩, rfl⟩
    simp only [List.forall_mem_cons] at hfields
    obtain ⟨f1, f2, f3, f4, f5, f7, f8, f9, f6, f10, -⟩ := hfields
    exact ⟨hid, f1, f2, f3, f4, f5, hsource, hstatusFits, ftext, f7, f8, f9, f6, f10, fcorr, fwhole, rfl⟩

theorem refValue_clean (record : RtOperationSnapshot) :
    CleanValue (if record.refJson = [] then lit "null" else record.refJson) := by
  split
  · exact CleanValue.null
  · rename_i hne
    exact record.refOk.resolve_left hne

theorem completionMembers_written (record : RtOperationSnapshot) :
    WrittenMembers (completionMembers heap (runIdOf n) record env) := by
  have hcorr : WrittenMembers (recordMembers record) :=
    .key (by decide) (.text _) (.key (by decide) (.text _) (.key (by decide) (.text _)
      (.key (by decide) (.text _) (.key (by decide) (.text _)
        (.key (by decide) (refValue_clean record) .nil)))))
  refine .append (.append ?_ hcorr) (.key (by decide) (.text _) (.key (by decide) (.text _) .nil))
  exact .key (by decide) (.text _) (.key (by decide) (.text _) (.key (by decide) (.text _)
    (.key (by decide) (.text _) (.key (by decide) (.text _) (.key (by decide) (.long _)
      (.key (by decide) (.text _) .nil))))))

end

end Floofclaw.Guarantees.FirstEvent
