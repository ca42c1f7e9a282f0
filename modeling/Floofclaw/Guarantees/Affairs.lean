import Floofclaw.Lib.Machine
import Floofclaw.Guarantees.AffairStoreText

/-!
# The affair store over every sequence of calls

A call that writes either puts a new affair in front or replaces one affair by
a changed copy of itself, which may move to the front. From that and the round
trip of the file follow the bounds of the store; the counters are what the
accepted operations make of them, since the only calls that touch them say so.
-/

set_option autoImplicit false

namespace Floofclaw.Guarantees.Affairs
open Floofclaw.Lib Floofclaw.Source.Json Floofclaw.Source.AffairState
open Floofclaw.Source.StoreFile hiding writeStore
open Floofclaw.Guarantees.TaskStoreText (InLong)
open Floofclaw.Guarantees.AffairStoreText
open Floofclaw.Guarantees.StoreText (fsReadText_some)
open Floofclaw.Guarantees.OperationRecords (zero_inLong getLong_inLong)

/-! ## Dates -/

theorem decInt_length {z : Int} {k : Nat} (hk : 0 < k) (h : z.natAbs < 10 ^ k) : (decInt z).length ≤ k + 1 := by
  cases z with
  | ofNat n => exact Nat.le_succ_of_le (decFuel_length (n + 1) n hk h)
  | negSucc n => exact Nat.succ_le_succ (decFuel_length _ (n + 1) hk h)

/-- A date of a day within 64 bits, in loose bounds. -/
theorem civilOfDays_bounds {days : Int} (h : days.natAbs ≤ 2 ^ 63) :
    (civilOfDays days).year.natAbs < 10 ^ 25 ∧ (civilOfDays days).month < 10 ^ 6 ∧ (civilOfDays days).day < 10 ^ 6 := by
  have hdoe : ((days + 719468) % 146097).toNat < 146097 := by omega
  have hera : ((days + 719468) / 146097).natAbs ≤ 2 ^ 63 := by omega
  simp only [civilOfDays]
  generalize ((days + 719468) % 146097).toNat = doe at hdoe
  generalize (days + 719468) / 146097 = era at hera
  have hyoe : (doe - doe / 1460 + doe / 36524 - doe / 146096) / 365 ≤ 146097 := by omega
  generalize (doe - doe / 1460 + doe / 36524 - doe / 146096) / 365 = yoe at hyoe
  have hdoy : doe - (365 * yoe + yoe / 4 - yoe / 100) ≤ 146097 := by omega
  generalize doe - (365 * yoe + yoe / 4 - yoe / 100) = doy at hdoy
  have hmonth : (if (5 * doy + 2) / 153 < 10 then (5 * doy + 2) / 153 + 3 else (5 * doy + 2) / 153 - 9) < 10 ^ 6 := by
    split <;> omega
  generalize (if (5 * doy + 2) / 153 < 10 then (5 * doy + 2) / 153 + 3 else (5 * doy + 2) / 153 - 9) = month at hmonth
  refine ⟨?_, hmonth, by omega⟩
  split <;> omega

theorem decPadded_nulFree (width n : Nat) : NulFree (decPadded width n) :=
  fun c hc => isDigit_ne_zero (decPadded_digits width n c hc)

theorem separators_nulFree : NulFree (lit "-") ∧ NulFree (lit "T") ∧ NulFree (lit ":") ∧ NulFree (lit "Z") := by
  refine ⟨.of_all ?_, .of_all ?_, .of_all ?_, .of_all ?_⟩ <;> decide

theorem dateText_nulFree (d : CivilDate) : NulFree (dateText d) := by
  have hdash := separators_nulFree.1
  exact ((((decInt_nulFree d.year).append hdash).append (decPadded_nulFree 2 d.month)).append hdash).append
    (decPadded_nulFree 2 d.day)

theorem isoTsForMs_text {ms : Int} (h : InLong ms) : TextField rtSmall (isoTsForMs ms) := by
  have hms : ms.natAbs ≤ 2 ^ 63 := by
    obtain ⟨hlo, hhi⟩ := h
    unfold int64Min at hlo
    unfold int64Max at hhi
    omega
  have hsecs : (ms.tdiv 1000).natAbs ≤ 2 ^ 63 := by
    rw [Int.natAbs_tdiv]
    exact Nat.le_trans (Nat.div_le_self _ _) hms
  have hday : (ms.tdiv 1000 / 86400).natAbs ≤ 2 ^ 63 := by
    generalize ms.tdiv 1000 = secs at hsecs
    omega
  obtain ⟨hy, hm, hd⟩ := civilOfDays_bounds hday
  have hlits : (lit "-").length = 1 ∧ (lit "T").length = 1 ∧ (lit ":").length = 1 ∧ (lit "Z").length = 1 := ⟨lit_length _, lit_length _, lit_length _, lit_length _⟩
  obtain ⟨-, ht, hcolon, hz⟩ := separators_nulFree
  have hsec : (ms.tdiv 1000 % 86400).toNat < 86400 := by omega
  simp only [isoTsForMs]
  generalize (ms.tdiv 1000 % 86400).toNat = sec at hsec
  have h1 := decInt_length (k := 25) (by decide) hy
  have h2 : (decPadded 2 (civilOfDays (ms.tdiv 1000 / 86400)).month).length ≤ max 2 6 := decPadded_length (by decide) hm
  have h3 : (decPadded 2 (civilOfDays (ms.tdiv 1000 / 86400)).day).length ≤ max 2 6 := decPadded_length (by decide) hd
  have h4 : (decPadded 2 (sec / 3600)).length ≤ max 2 6 := decPadded_length (by decide) (by omega)
  have h5 : (decPadded 2 (sec / 60 % 60)).length ≤ max 2 6 := decPadded_length (by decide) (by omega)
  have h6 : (decPadded 2 (sec % 60)).length ≤ max 2 6 := decPadded_length (by decide) (by omega)
  constructor
  · exact (((((((dateText_nulFree _).append ht).append (decPadded_nulFree 2 _)).append hcolon).append
      (decPadded_nulFree 2 _)).append hcolon).append (decPadded_nulFree 2 _)).append hz
  · simp only [dateText, List.length_append, hlits, rtSmall]
    omega

/-! ## Items -/

/-- An affair as the store keeps it: within its bounds, and every task linked once. -/
structure ItemOk (a : AffairItem) : Prop where
  printable : Printable a
  taskIds : a.taskIds.Nodup

theorem pushBounded_sublist {β : Type} (cap : Nat) (xs : List β) :
    (if xs.length ≥ cap then (xs.drop 1).take (cap - 1) else xs).Sublist xs := by
  split
  · exact (List.take_sublist _ _).trans (List.drop_sublist _ _)
  · exact List.Sublist.refl _

theorem pushBounded_length {β : Type} {cap : Nat} (hcap : 0 < cap) (xs : List β) (x : β) :
    (pushBounded cap xs x).length ≤ cap := by
  unfold pushBounded
  rw [List.length_append, List.length_singleton]
  split
  · rw [List.length_take]
    omega
  · omega

theorem mem_pushBounded {β : Type} {cap : Nat} {xs : List β} {x y : β} (h : y ∈ pushBounded cap xs x) : y ∈ xs ∨ y = x := by
  rcases List.mem_append.mp h with h | h
  · exact .inl ((pushBounded_sublist cap xs).subset h)
  · exact .inr (List.mem_singleton.mp h)

theorem noteAppend_ok {a : AffairItem} {now ms : Int} {text : Bytes} (h : ItemOk a) (hnow : InLong now) (hms : InLong ms)
    (htext : NulFree text) : ItemOk (noteAppend now ms text a) := by
  unfold noteAppend
  split
  · exact h
  rename_i hne
  have hp := h.printable
  have hnote : NoteOk { ts := isoTsForMs (if ms ≠ 0 then ms else now), text := clip rtMed text } := by
    refine ⟨isoTsForMs_text ?_, clip_text (by decide) htext, ?_⟩
    · split
      · exact hms
      · exact hnow
    · intro hnil
      have hlen : (clip rtMed text).length = min (rtMed - 1) text.length := List.length_take
      rw [show clip rtMed text = [] from hnil] at hlen
      have hpos : 0 < text.length := List.length_pos_of_ne_nil hne
      simp [rtMed] at hlen
      omega
  refine ⟨{ hp with notes := fun n hn => ?_, noteRoom := pushBounded_length (by decide) _ _ }, h.taskIds⟩
  rcases mem_pushBounded hn with hn | rfl
  · exact hp.notes n hn
  · exact hnote

theorem taskIdLink_ok {a : AffairItem} {taskId : Bytes} (h : ItemOk a) (ht : TextField rtSmall taskId) :
    ItemOk (taskIdLink taskId a) := by
  unfold taskIdLink
  split
  · exact h
  rename_i hne
  rw [not_or] at hne
  have hp := h.printable
  refine ⟨{ hp with taskIds := fun t hmem => ?_, taskIdRoom := pushBounded_length (by decide) _ _ }, ?_⟩
  · rcases mem_pushBounded hmem with hmem | rfl
    · exact hp.taskIds t hmem
    · exact ⟨ht, hne.1⟩
  · have hsub := pushBounded_sublist affairMaxTaskIds a.taskIds
    refine List.nodup_append.mpr ⟨h.taskIds.sublist hsub, by simp, ?_⟩
    intro x hx y hy hxy
    obtain rfl := List.mem_singleton.mp hy
    exact hne.2 (hxy ▸ hsub.subset hx)

/-! ## Counters -/

/-- What an operation makes of a value, without bounds. -/
def result (value : Int) : CounterOp → Int
  | .delta d => value + d
  | .set v => v

/-- The operand of an operation is a `long long`. -/
def OpOk : CounterOp → Prop
  | .delta d => InLong d
  | .set v => InLong v

theorem apply_eq_some {value v : Int} {op : CounterOp} (hvalue : InLong value) (hop : OpOk op)
    (h : op.apply value = some v) : v = result value op ∧ InLong v := by
  cases op with
  | set w =>
    cases h
    exact ⟨rfl, hop⟩
  | delta d =>
    simp only [CounterOp.apply] at h
    split at h
    · cases h
    · rename_i hrange
      cases h
      refine ⟨rfl, ?_⟩
      obtain ⟨hlo, hhi⟩ := hvalue
      constructor <;> omega

def counterValue (cs : List AffairCounter) (name : Bytes) : Option Int := (counterFind cs name).map (·.value)

theorem counterFind_mem {cs : List AffairCounter} {name : Bytes} {c : AffairCounter} (h : counterFind cs name = some c) :
    c ∈ cs ∧ c.name = name := ⟨List.mem_of_find?_eq_some h, by simpa using List.find?_some h⟩

/-- An accepted operation sets its own counter and no other. -/
theorem counterBump_value {name : Bytes} {op : CounterOp} {cs cs' : List AffairCounter} (hcs : ∀ c ∈ cs, CounterOk c)
    (hop : OpOk op) (h : counterBump name op cs = some cs') (other : Bytes) :
    counterValue cs' other =
      if other = name then some (result ((counterValue cs name).getD 0) op) else counterValue cs other := by
  unfold counterBump at h
  split at h
  · rename_i c hc
    obtain ⟨v, hv, rfl⟩ := Option.map_eq_some_iff.mp h
    obtain ⟨hmem, hname⟩ := counterFind_mem hc
    have hval := (apply_eq_some (hcs c hmem).value hop hv).1
    have hfind := find?_rewritten (p := fun n c => decide (AffairCounter.name c = n))
      (fun k x => (by simp : decide (x.name = k) = true ↔ AffairCounter.name x = k))
      (g := fun c => { c with value := v }) (k := name) (fun x _ => rfl) other cs
    unfold counterValue counterFind at *
    rw [hfind]
    by_cases hother : name = other
    · subst hother
      rw [if_pos rfl, if_pos rfl, hc]
      simp [hval]
    · rw [if_neg hother, if_neg (Ne.symm hother)]
  · rename_i hnone
    split at h
    · cases h
    · obtain ⟨v, hv, rfl⟩ := Option.map_eq_some_iff.mp h
      have hval := (apply_eq_some zero_inLong hop hv).1
      unfold counterValue counterFind at *
      rw [List.find?_append]
      by_cases hother : other = name
      · subst hother
        rw [if_pos rfl, hnone]
        simp [hval]
      · rw [if_neg hother]
        have hne : ¬ name = other := Ne.symm hother
        simp [hne]

theorem counterBump_ok {name : Bytes} {op : CounterOp} {cs cs' : List AffairCounter} (hcs : ∀ c ∈ cs, CounterOk c)
    (hroom : cs.length ≤ affairMaxCounters) (hnodup : (cs.map (·.name)).Nodup) (hop : OpOk op)
    (hname : TextField counterNameMax name) (hne : name ≠ []) (h : counterBump name op cs = some cs') :
    (∀ c ∈ cs', CounterOk c) ∧ cs'.length ≤ affairMaxCounters ∧ (cs'.map (·.name)).Nodup := by
  unfold counterBump at h
  split at h
  · rename_i c hc
    obtain ⟨v, hv, rfl⟩ := Option.map_eq_some_iff.mp h
    obtain ⟨hmem, -⟩ := counterFind_mem hc
    have hval := (apply_eq_some (hcs c hmem).value hop hv).2
    refine ⟨?_, ?_, ?_⟩
    · intro x hx
      rcases mem_modifyFirst hx with hx | ⟨y, hy, rfl⟩
      · exact hcs x hx
      · have hyok := hcs y (List.mem_of_find?_eq_some hy)
        exact ⟨hyok.name, hyok.named, hval⟩
    · rw [length_modifyFirst]
      exact hroom
    · have hnames := map_modifyFirst (p := fun c => decide (c.name = name))
        (f := fun c : AffairCounter => { c with value := v }) (fun c => c.name) (fun _ _ => rfl) cs
      rw [hnames]
      exact hnodup
  · rename_i hnone
    split at h
    · cases h
    · rename_i hfull
      obtain ⟨v, hv, rfl⟩ := Option.map_eq_some_iff.mp h
      have hval := (apply_eq_some zero_inLong hop hv).2
      refine ⟨?_, ?_, ?_⟩
      · intro x hx
        rcases List.mem_append.mp hx with hx | hx
        · exact hcs x hx
        · obtain rfl := List.mem_singleton.mp hx
          exact ⟨hname, hne, hval⟩
      · rw [List.length_append, List.length_singleton]
        omega
      · rw [List.map_append, List.map_singleton]
        refine List.nodup_append.mpr ⟨hnodup, by simp, ?_⟩
        intro x hx y hy hxy
        obtain rfl := List.mem_singleton.mp hy
        exact counterFind_none hnone (hxy ▸ hx)

/-! ## What a call writes -/

/-- The counter operation a call asks for: its affair, its name and what to do. -/
def counterOf : Call → Option (Bytes × Bytes × CounterOp)
  | .applyEvent type payloadJson =>
    if cstr type = lit "affair_counter_bumped" then do
      let payload ← jsonRefTopObject payloadJson
      let affairId ← jsonRefObjectGetString payload (lit "affair_id") rtSmall
      let name ← jsonRefObjectGetString payload (lit "name") counterNameMax
      let op ← counterOpOf payload
      return (affairId, name, op)
    else none
  | _ => none

/-- The counters of an affair before and after a call that changed it. -/
def CountersFollow (c : Call) (a a' : AffairItem) : Prop :=
  match counterOf c with
  | none => a'.counters = a.counters
  | some (id, name, op) => a.affairId = id ∧ OpOk op ∧ counterBump name op a.counters = some a'.counters

/-- What the call `c` makes of the store it loaded. -/
inductive Wrote (c : Call) (st : AffairStore) : AffairStore → Prop
  | created {a : AffairItem} (hroom : st.length < affairMaxItems) (hnew : a.affairId ∉ st.map (·.affairId))
      (ha : ItemOk a) (hcounters : a.counters = []) (hc : counterOf c = none) : Wrote c st (a :: st)
  | changed {a a' : AffairItem} {st' : AffairStore} (hfind : affairFind st a.affairId = some a)
      (hid : a'.affairId = a.affairId) (hok : ItemOk a → ItemOk a') (hcounters : CountersFollow c a a')
      (hperm : st'.Perm (a' :: st.eraseP (hasId a.affairId))) : Wrote c st st'

theorem affairFind_some {st : AffairStore} {id : Bytes} {a : AffairItem} (h : affairFind st id = some a) :
    a.affairId = id ∧ id ≠ [] ∧ st.find? (hasId id) = some a := by
  unfold affairFind at h
  split at h
  · cases h
  · rename_i hne
    exact ⟨by simpa [hasId] using List.find?_some h, hne, h⟩

theorem affairFind_none {st : AffairStore} {id : Bytes} (hne : id ≠ []) (h : affairFind st id = none) :
    id ∉ st.map (·.affairId) := by
  rw [affairFind, if_neg hne] at h
  intro hmem
  obtain ⟨a, ha, rfl⟩ := List.mem_map.mp hmem
  simpa [hasId] using List.find?_eq_none.mp h a ha

theorem changeAffair_wrote {c : Call} {id : Bytes} {f : AffairItem → Option AffairItem} {st st' : AffairStore}
    (hid : ∀ a a', f a = some a' → a'.affairId = a.affairId) (hok : ∀ a a', f a = some a' → ItemOk a → ItemOk a')
    (hcounters : ∀ a a', a.affairId = id → f a = some a' → CountersFollow c a a')
    (h : changeAffair id f st = some st') : Wrote c st st' := by
  unfold changeAffair at h
  split at h
  · cases h
  rename_i a hfind
  obtain ⟨a', ha', rfl⟩ := Option.map_eq_some_iff.mp h
  obtain ⟨rfl, -, hfirst⟩ := affairFind_some hfind
  exact .changed hfind (hid a a' ha') (hok a a' ha') (hcounters a a' rfl ha') (modifyFirst_perm hfirst a')

/-- A change that leaves the counters alone, by a call that does not count. -/
theorem follow_of_same {c : Call} {a a' : AffairItem} (hc : counterOf c = none) (h : a'.counters = a.counters) :
    CountersFollow c a a' := by
  unfold CountersFollow
  rw [hc]
  exact h

@[simp] theorem noteAppend_affairId (now ms : Int) (text : Bytes) (a : AffairItem) :
    (noteAppend now ms text a).affairId = a.affairId := by
  unfold noteAppend
  split <;> rfl

@[simp] theorem noteAppend_counters (now ms : Int) (text : Bytes) (a : AffairItem) :
    (noteAppend now ms text a).counters = a.counters := by
  unfold noteAppend
  split <;> rfl

@[simp] theorem taskIdLink_affairId (taskId : Bytes) (a : AffairItem) : (taskIdLink taskId a).affairId = a.affairId := by
  unfold taskIdLink
  split <;> rfl

@[simp] theorem taskIdLink_counters (taskId : Bytes) (a : AffairItem) : (taskIdLink taskId a).counters = a.counters := by
  unfold taskIdLink
  split <;> rfl

/-! ### Patches -/

structure PatchOk (p : AffairPatch) : Prop where
  affairId : TextField rtSmall p.affairId
  contextId : TextField rtMed p.contextId
  manage : TextField rtMed p.manage
  noteText : TextField rtMed p.noteText
  createdMs : InLong p.createdMs
  updatedMs : InLong p.updatedMs
  nextReviewAtMs : ∀ nra, p.nextReviewAtMs = some nra → InLong nra

theorem patchOf_ok {now : Int} (hnow : InLong now) {payload : JsonRef} {p : AffairPatch} (h : patchOf now payload = some p) :
    PatchOk p := by
  simp only [patchOf, Option.bind_eq_bind, Option.bind_eq_some_iff, Option.pure_def, Option.some.injEq] at h
  obtain ⟨action, -, id, hid, ctx, hctx, rfl⟩ := h
  have hnext := getLong_inLong payload (lit "next_review_at_ms")
  refine ⟨getString_text hid, getString_text hctx, stringField_text (textField_nil (by decide)),
    stringField_text (textField_nil (by decide)), getLong_inLong _ _, ?_, ?_⟩
  · dsimp only
    split
    · exact hnow
    · exact getLong_inLong _ _
  · intro nra hnra
    dsimp only at hnra
    split at hnra
    · rename_i z hz
      cases hnra
      rw [hz] at hnext
      exact hnext
    · cases hnra

theorem createdItem_ok {now : Int} (hnow : InLong now) {p : AffairPatch} (hp : PatchOk p) (hmanage : p.manage ≠ []) :
    ItemOk (createdItem now p) ∧ (createdItem now p).affairId = p.affairId ∧ (createdItem now p).counters = [] := by
  refine ⟨noteAppend_ok ⟨?_, List.nodup_nil⟩ hnow hp.updatedMs hp.noteText.nulFree, by simp [createdItem],
    by simp [createdItem]⟩
  exact
    { affairId := hp.affairId, contextId := hp.contextId, manage := hp.manage, managed := hmanage
      nextReviewAtMs := by
        dsimp only
        split
        · rename_i nra hnra
          split
          · exact hp.nextReviewAtMs nra hnra
          · exact zero_inLong
        · exact zero_inLong
      createdMs := by
        dsimp only
        split
        · exact hp.createdMs
        · exact hp.updatedMs
      updatedMs := hp.updatedMs
      taskIds := by simp, taskIdRoom := by simp, notes := by simp, noteRoom := by simp
      counters := by simp, counterRoom := by simp, counterNames := by simp }

theorem patchedItem_same (now : Int) (p : AffairPatch) (a : AffairItem) :
    (patchedItem now p a).affairId = a.affairId ∧ (patchedItem now p a).counters = a.counters := by
  unfold patchedItem
  dsimp only
  split
  · split <;> simp
  · exact ⟨rfl, rfl⟩

theorem patchedItem_ok {now : Int} (hnow : InLong now) {p : AffairPatch} (hp : PatchOk p) {a : AffairItem} (h : ItemOk a) :
    ItemOk (patchedItem now p a) := by
  have hmanaged : ItemOk (if p.manage = [] then a else { a with manage := p.manage }) := by
    split
    · exact h
    · rename_i hne
      exact ⟨{ h.printable with manage := hp.manage, managed := hne }, h.taskIds⟩
  unfold patchedItem
  dsimp only
  split
  · generalize (if p.manage = [] then a else { a with manage := p.manage }) = b at hmanaged
    have hnoted := noteAppend_ok hmanaged hnow hp.updatedMs hp.noteText.nulFree
    generalize noteAppend now p.updatedMs p.noteText b = d at hnoted
    refine ⟨{ hnoted.printable with nextReviewAtMs := ?_, updatedMs := hp.updatedMs }, hnoted.taskIds⟩
    dsimp only
    split
    · rename_i nra hnra
      split
      · exact hp.nextReviewAtMs nra hnra
      · exact hnoted.printable.nextReviewAtMs
    · exact hnoted.printable.nextReviewAtMs
  · exact ⟨{ h.printable with updatedMs := hp.updatedMs }, h.taskIds⟩

theorem applyAffairPatch_wrote {c : Call} (hc : counterOf c = none) {now : Int} (hnow : InLong now) {p : AffairPatch}
    (hp : PatchOk p) (hnamed : p.action = lit "create" → p.affairId ≠ []) {st st' : AffairStore}
    (h : applyAffairPatch now p st = some st') : Wrote c st st' := by
  unfold applyAffairPatch at h
  split at h
  · rename_i haction
    split at h
    · cases h
    rename_i hguard
    cases h
    simp only [not_or, Bool.not_eq_true, Option.isSome_eq_false_iff, Option.isNone_iff_eq_none] at hguard
    obtain ⟨hroom, hmanage, hnone⟩ := hguard
    obtain ⟨hitem, hid, hcounters⟩ := createdItem_ok hnow hp hmanage
    refine .created (by omega) ?_ hitem hcounters hc
    rw [hid]
    exact affairFind_none (hnamed haction) hnone
  · split at h
    · cases h
    rename_i a hfind
    split at h
    · cases h
    cases h
    obtain ⟨hid, -, -⟩ := affairFind_some hfind
    obtain ⟨hsame, hcounters⟩ := patchedItem_same now p a
    refine .changed (hid ▸ hfind) hsame (patchedItem_ok hnow hp) (follow_of_same hc hcounters) ?_
    rw [hid]

/-! ### The other events -/

theorem counterOf_other {type payloadJson : Bytes} (h : cstr type ≠ lit "affair_counter_bumped") :
    counterOf (.applyEvent type payloadJson) = none := if_neg h

theorem applyNoteAdded_wrote {c : Call} (hc : counterOf c = none) {now : Int} (hnow : InLong now) {payload : JsonRef}
    {st st' : AffairStore} (h : applyNoteAdded now payload st = some st') : Wrote c st st' := by
  simp only [applyNoteAdded, Option.bind_eq_bind, Option.bind_eq_some_iff] at h
  obtain ⟨id, -, text, htext, -, -, hchange⟩ := h
  have hms := getLong_inLong payload (lit "ts_ms")
  generalize (jsonRefObjectGetLong payload (lit "ts_ms") 0).1 = ms at hms hchange
  refine changeAffair_wrote ?_ ?_ ?_ hchange
  · rintro a a' ⟨⟩
    simp
  · rintro a a' ⟨⟩ hok
    have hnoted := noteAppend_ok hok hnow hms (getString_text htext).nulFree
    refine ⟨{ hnoted.printable with updatedMs := ?_ }, hnoted.taskIds⟩
    dsimp only
    split
    · exact hms
    · exact hnow
  · rintro a a' - ⟨⟩
    exact follow_of_same hc (by simp)

theorem counterOpOf_ok {payload : JsonRef} {op : CounterOp} (h : counterOpOf payload = some op) : OpOk op := by
  have hdelta := getLong_inLong payload (lit "delta")
  have hset := getLong_inLong payload (lit "set")
  unfold counterOpOf at h
  split at h
  · split at h
    · rename_i raw hraw
      cases h
      rw [hraw] at hdelta
      exact hdelta
    · cases h
  · split at h
    · rename_i raw hraw
      cases h
      rw [hraw] at hset
      exact hset
    · cases h
  · cases h

theorem applyCounterBump_wrote {type payloadJson : Bytes} (htype : cstr type = lit "affair_counter_bumped") {now : Int}
    (hnow : InLong now) {payload : JsonRef} (hpayload : jsonRefTopObject payloadJson = some payload) {st st' : AffairStore}
    (h : applyCounterBump now payload st = some st') : Wrote (.applyEvent type payloadJson) st st' := by
  simp only [applyCounterBump, Option.bind_eq_bind, Option.bind_eq_some_iff] at h
  obtain ⟨id, hid, name, hname, _, hguard, op, hop, hchange⟩ := h
  have hne : name ≠ [] := by
    intro hnil
    simp [guard, hnil] at hguard
  have hcounter : counterOf (.applyEvent type payloadJson) = some (id, name, op) := by
    rw [counterOf, if_pos htype]
    simp [hpayload, hid, hname, hop]
  refine changeAffair_wrote ?_ ?_ ?_ hchange
  · intro a a' ha
    obtain ⟨counters, -, rfl⟩ := Option.map_eq_some_iff.mp ha
    rfl
  · intro a a' ha hok
    obtain ⟨counters, hbump, rfl⟩ := Option.map_eq_some_iff.mp ha
    have hp := hok.printable
    obtain ⟨h1, h2, h3⟩ := counterBump_ok hp.counters hp.counterRoom hp.counterNames (counterOpOf_ok hop)
      (getString_text hname) hne hbump
    exact ⟨{ hp with counters := h1, counterRoom := h2, counterNames := h3, updatedMs := hnow }, hok.taskIds⟩
  · intro a a' haid ha
    obtain ⟨counters, hbump, rfl⟩ := Option.map_eq_some_iff.mp ha
    unfold CountersFollow
    rw [hcounter]
    exact ⟨haid, counterOpOf_ok hop, hbump⟩

theorem applyTaskLinked_wrote {c : Call} (hc : counterOf c = none) {now : Int} (hnow : InLong now) {payload : JsonRef}
    {st st' : AffairStore} (h : applyTaskLinked now payload st = some st') : Wrote c st st' := by
  simp only [applyTaskLinked, Option.bind_eq_bind, Option.bind_eq_some_iff] at h
  obtain ⟨id, -, taskId, htask, -, -, hchange⟩ := h
  refine changeAffair_wrote ?_ ?_ ?_ hchange
  · rintro a a' ⟨⟩
    simp
  · rintro a a' ⟨⟩ hok
    have hlinked := taskIdLink_ok hok (getString_text htask)
    exact ⟨{ hlinked.printable with updatedMs := hnow }, hlinked.taskIds⟩
  · rintro a a' - ⟨⟩
    exact follow_of_same hc (by simp)

theorem applyReviewed_wrote {c : Call} (hc : counterOf c = none) {now : Int} (hnow : InLong now) {payload : JsonRef}
    {st st' : AffairStore} (h : applyReviewed now payload st = some st') : Wrote c st st' := by
  simp only [applyReviewed, Option.bind_eq_bind, Option.bind_eq_some_iff] at h
  obtain ⟨id, -, hchange⟩ := h
  have hms := getLong_inLong payload (lit "ms")
  generalize (jsonRefObjectGetLong payload (lit "ms") 0).1 = ms at hms hchange
  refine changeAffair_wrote ?_ ?_ ?_ hchange
  · rintro a a' ⟨⟩
    rfl
  · rintro a a' ⟨⟩ hok
    refine ⟨{ hok.printable with nextReviewAtMs := zero_inLong, updatedMs := ?_ }, hok.taskIds⟩
    dsimp only
    split
    · exact hms
    · exact hnow
  · rintro a a' - ⟨⟩
    exact follow_of_same hc rfl

/-! ### Direct writes -/

/-- The event creates an affair without an id. -/
def unnamedCreate : Call → Bool
  | .applyEvent type payloadJson =>
    cstr type = lit "affair_patch" &&
      match (jsonRefTopObject payloadJson).bind (patchOf 0) with
      | none => false
      | some p => p.action = lit "create" && p.affairId = []
  | _ => false

/-- The CLI asks for the next number where the last one has been given out. -/
def cliExhausted (st : AffairStore) : Call → Bool
  | .createManual _ _ _ => st.any fun a =>
      (lit "aff_cli_").isPrefixOf a.affairId &&
        match scanInt (a.affairId.drop 8) with
        | none => false
        | some n => intMax ≤ n
  | _ => false

theorem scanInt_sixDigits {n : Int} (h1 : 1 ≤ n) (h2 : n ≤ intMax) : scanInt (sixDigits n) = some n := by
  unfold intMax at h2
  have hsix : sixDigits n = decPadded 6 n.toNat := if_pos (by omega)
  obtain ⟨d, rest, hcons⟩ : ∃ d rest, decPadded 6 n.toNat = d :: rest := by
    cases hdigits : decPadded 6 n.toNat with
    | nil =>
      rw [decPadded, List.append_eq_nil_iff] at hdigits
      exact absurd hdigits.2 (decNat_ne_nil _)
    | cons d rest => exact ⟨d, rest, rfl⟩
  have hall := decPadded_digits 6 n.toNat
  have hd : isDigit d = true := hall d (by rw [hcons]; exact List.mem_cons_self)
  have hspace : isSpace d = false := isValueHead_noSpace d (by simp [isValueHead, hd])
  have hplus : d ≠ ch '+' := by
    rintro rfl
    exact absurd hd (by decide)
  have hminus : d ≠ ch '-' := by
    rintro rfl
    exact absurd hd (by decide)
  have hskip : skipWs (d :: rest) = d :: rest := skipWs_self (NoSpaceHead.cons hspace)
  have hsign : signSplit (d :: rest) = (false, d :: rest) := by
    rw [signSplit, if_neg hminus]
  have htake : (d :: rest).takeWhile isDigit = d :: rest := by
    rw [List.takeWhile_eq_self_iff]
    rw [← hcons]
    exact hall
  have hvalue : decValue (d :: rest) = n.toNat := by
    rw [← hcons, decValue_decPadded]
  have hclamp : (clampLong ((n.toNat : Nat) : Int)).1 = n := by
    rw [clampLong_of_range (by unfold int64Min; omega) (by unfold int64Max; omega)]
    simp only
    omega
  rw [hsix, hcons]
  unfold scanInt
  simp only [hskip, List.head?_cons, Option.some.injEq, if_neg hplus, hsign, htake, hvalue, hclamp, Bool.false_eq_true,
    if_false, reduceCtorEq]
  exact Int.bmod_eq_of_le (by omega) (by omega)

/-- One turn of the numbering loop. -/
def seqTurn (seq : Int) (a : AffairItem) : Int :=
  if (lit "aff_cli_").isPrefixOf a.affairId then
    match scanInt (a.affairId.drop 8) with
    | some n => if seq ≤ n then (n + 1).bmod (2 ^ 32) else seq
    | none => seq
  else seq

theorem cliSeq_eq (st : AffairStore) : cliSeq st = st.foldl seqTurn 1 := rfl

/-- A turn passes the number of the affair it looks at, as long as an `int` holds the next one. -/
theorem seqTurn_passes {seq : Int} {a : AffairItem} (h1 : 1 ≤ seq) (h2 : seq ≤ intMax)
    (h : ∀ n, (lit "aff_cli_").isPrefixOf a.affairId = true → scanInt (a.affairId.drop 8) = some n → n < intMax) :
    seq ≤ seqTurn seq a ∧ seqTurn seq a ≤ intMax ∧
      ∀ n, (lit "aff_cli_").isPrefixOf a.affairId = true → scanInt (a.affairId.drop 8) = some n → n < seqTurn seq a := by
  unfold seqTurn
  split
  · rename_i hpre
    split
    · rename_i m hscan
      have hm := h m hpre hscan
      have hnext : (m + 1).bmod (2 ^ 32) = m + 1 ∨ m < seq := by
        by_cases hlt : m < seq
        · exact .inr hlt
        · unfold intMax at h2 hm
          exact .inl (Int.bmod_eq_of_le (by omega) (by omega))
      split
      · rw [hnext.resolve_right (by omega)]
        refine ⟨by omega, by omega, ?_⟩
        rintro n - hn
        rw [hscan, Option.some.injEq] at hn
        omega
      · refine ⟨Int.le_refl _, h2, ?_⟩
        rintro n - hn
        rw [hscan, Option.some.injEq] at hn
        omega
    · rename_i hscan
      refine ⟨Int.le_refl _, h2, ?_⟩
      rintro n - hn
      rw [hscan] at hn
      cases hn
  · rename_i hpre
    exact ⟨Int.le_refl _, h2, fun n h => absurd h hpre⟩

theorem seqTurn_foldl {st : AffairStore} {seq : Int} (h1 : 1 ≤ seq) (h2 : seq ≤ intMax)
    (h : ∀ a ∈ st, ∀ n, (lit "aff_cli_").isPrefixOf a.affairId = true → scanInt (a.affairId.drop 8) = some n → n < intMax) :
    seq ≤ st.foldl seqTurn seq ∧ st.foldl seqTurn seq ≤ intMax ∧
      ∀ a ∈ st, ∀ n, (lit "aff_cli_").isPrefixOf a.affairId = true → scanInt (a.affairId.drop 8) = some n →
        n < st.foldl seqTurn seq := by
  induction st generalizing seq with
  | nil => exact ⟨Int.le_refl _, h2, by simp⟩
  | cons a st ih =>
    obtain ⟨hge, hle, hpast⟩ := seqTurn_passes h1 h2 (h a List.mem_cons_self)
    obtain ⟨hge', hle', hpast'⟩ := ih (Int.le_trans h1 hge) hle (fun b hb => h b (List.mem_cons_of_mem _ hb))
    refine ⟨Int.le_trans hge hge', hle', ?_⟩
    intro b hb n hpre hscan
    rcases List.mem_cons.mp hb with rfl | hb
    · exact Int.lt_of_lt_of_le (hpast n hpre hscan) hge'
    · exact hpast' b hb n hpre hscan

theorem cliExhausted_eq_false {st : AffairStore} {contextId manage : Bytes} {initial : Int}
    (h : cliExhausted st (.createManual contextId manage initial) = false) {a : AffairItem} (ha : a ∈ st) {n : Int}
    (hpre : (lit "aff_cli_").isPrefixOf a.affairId = true) (hscan : scanInt (a.affairId.drop 8) = some n) :
    n < intMax := by
  have hfalse := List.any_eq_false.mp h a ha
  rw [hpre, hscan] at hfalse
  simpa using hfalse

theorem cliId_fresh {st : AffairStore} {contextId manage : Bytes} {initial : Int}
    (h : cliExhausted st (.createManual contextId manage initial) = false) :
    TextField rtSmall (cliId st) ∧ cliId st ∉ st.map (·.affairId) := by
  obtain ⟨hge, hle, hpast⟩ := seqTurn_foldl (Int.le_refl 1) (by decide)
    (fun a ha n hp hs => cliExhausted_eq_false h ha hp hs)
  rw [← cliSeq_eq] at hge hle hpast
  have hsix : sixDigits (cliSeq st) = decPadded 6 (cliSeq st).toNat := if_pos (by omega)
  constructor
  · refine ⟨NulFree.append (.of_all (lit_all (by decide))) (hsix ▸ decPadded_nulFree 6 _), ?_⟩
    have hlen : (decPadded 6 (cliSeq st).toNat).length ≤ max 6 10 :=
      decPadded_length (by decide) (by unfold intMax at hle; omega)
    rw [cliId, hsix, List.length_append, show (lit "aff_cli_").length = 8 from lit_length _]
    unfold rtSmall
    omega
  · intro hmem
    obtain ⟨a, ha, hid⟩ := List.mem_map.mp hmem
    have hpre : (lit "aff_cli_").isPrefixOf a.affairId = true := by
      rw [hid, List.isPrefixOf_iff_prefix]
      exact List.prefix_append _ _
    have hdrop : a.affairId.drop 8 = sixDigits (cliSeq st) := by
      rw [hid, cliId]
      exact List.drop_left' (lit_length _)
    have hscan := hdrop ▸ scanInt_sixDigits hge hle
    exact absurd (hpast a ha _ hpre hscan) (Int.lt_irrefl _)

theorem clip_ne_nil {cap : Nat} {s : Bytes} (hcap : 1 < cap) (h : s ≠ []) : clip cap s ≠ [] := by
  intro hnil
  have hlen : (clip cap s).length = min (cap - 1) s.length := List.length_take
  have hpos := List.length_pos_of_ne_nil h
  rw [hnil, List.length_nil] at hlen
  omega

theorem rtAffairCreateManual_wrote {now : Int} (hnow : InLong now) {contextId manage : Bytes} {initial : Int}
    (hinitial : InLong initial) {st st' : AffairStore}
    (hfresh : cliExhausted st (.createManual contextId manage initial) = false)
    (h : rtAffairCreateManual now (cstr contextId) (cstr manage) initial st = some st') :
    Wrote (.createManual contextId manage initial) st st' := by
  unfold rtAffairCreateManual at h
  split at h
  · cases h
  rename_i hguard
  cases h
  simp only [not_or] at hguard
  obtain ⟨-, hmanage, hroom⟩ := hguard
  obtain ⟨hid, hnew⟩ := cliId_fresh hfresh
  refine .created (by omega) hnew ⟨?_, List.nodup_nil⟩ rfl rfl
  exact
    { affairId := hid, contextId := clip_text (by decide) (cstr_nulFree _), manage := clip_text (by decide) (cstr_nulFree _)
      managed := clip_ne_nil (by decide) hmanage
      nextReviewAtMs := by
        dsimp only
        split
        · exact hinitial
        · exact zero_inLong
      createdMs := hnow, updatedMs := hnow
      taskIds := by simp, taskIdRoom := by simp, notes := by simp, noteRoom := by simp
      counters := by simp, counterRoom := by simp, counterNames := by simp }

theorem rtAffairSetStatus_wrote {c : Call} (hc : counterOf c = none) {now : Int} (hnow : InLong now) {id status : Bytes}
    {st st' : AffairStore} (h : rtAffairSetStatus now id status st = some st') : Wrote c st st' := by
  obtain ⟨canon, -, hchange⟩ := Option.bind_eq_some_iff.mp h
  refine changeAffair_wrote ?_ ?_ ?_ hchange
  · rintro a a' ⟨⟩
    rfl
  · rintro a a' ⟨⟩ hok
    exact ⟨{ hok.printable with updatedMs := hnow }, hok.taskIds⟩
  · rintro a a' - ⟨⟩
    exact follow_of_same hc rfl

theorem rtAffairSetNextReviewAt_wrote {c : Call} (hc : counterOf c = none) {now : Int} (hnow : InLong now) {id : Bytes}
    {next : Int} (hnext : InLong next) {st st' : AffairStore} (h : rtAffairSetNextReviewAt now id next st = some st') :
    Wrote c st st' := by
  unfold rtAffairSetNextReviewAt at h
  split at h
  · cases h
  refine changeAffair_wrote ?_ ?_ ?_ h
  · rintro a a' ⟨⟩
    rfl
  · rintro a a' ⟨⟩ hok
    exact ⟨{ hok.printable with nextReviewAtMs := hnext, updatedMs := hnow }, hok.taskIds⟩
  · rintro a a' - ⟨⟩
    exact follow_of_same hc rfl

/-- The integer arguments of a call are `long long`s. -/
def LongArgs : Call → Prop
  | .createManual _ _ initial => InLong initial
  | .setNextReviewAt _ next => InLong next
  | _ => True

theorem patchOf_reads {now : Int} {payload : JsonRef} {p : AffairPatch} (h : patchOf now payload = some p) :
    jsonRefObjectGetString payload (lit "action") rtSmall = some p.action ∧
      jsonRefObjectGetString payload (lit "affair_id") rtSmall = some p.affairId ∧
      ∃ ctx, jsonRefObjectGetString payload (lit "context_id") rtMed = some ctx := by
  simp only [patchOf, Option.bind_eq_bind, Option.bind_eq_some_iff, Option.pure_def, Option.some.injEq] at h
  obtain ⟨action, h1, id, h2, ctx, h3, rfl⟩ := h
  exact ⟨h1, h2, ctx, h3⟩

theorem unnamedCreate_eq_false {type payloadJson : Bytes} (htype : cstr type = lit "affair_patch") {payload : JsonRef}
    (hpayload : jsonRefTopObject payloadJson = some payload) {now : Int} {p : AffairPatch}
    (hp : patchOf now payload = some p) (h : unnamedCreate (.applyEvent type payloadJson) = false)
    (haction : p.action = lit "create") : p.affairId ≠ [] := by
  obtain ⟨h1, h2, ctx, h3⟩ := patchOf_reads hp
  -- the time does not enter what the guard looks at
  obtain ⟨q, hq⟩ : ∃ q, patchOf 0 payload = some q := by
    simp [patchOf, h1, h2, h3]
  obtain ⟨h1', h2', -⟩ := patchOf_reads hq
  have hqa : q.action = p.action := Option.some.inj (h1'.symm.trans h1)
  have hqi : q.affairId = p.affairId := Option.some.inj (h2'.symm.trans h2)
  simp only [unnamedCreate, htype, hpayload, Option.bind_some, hq, hqa, hqi, haction, decide_true, Bool.true_and] at h
  simpa using h

/-- A call that comes to a store does one of two things to the one it loaded. -/
theorem wrote_of_reduce {now : Int} (hnow : InLong now) {c : Call} (hargs : LongArgs c) {st st' : AffairStore}
    (hnamed : unnamedCreate c = false) (hfresh : cliExhausted st c = false) (h : reduce now st c = some st') :
    Wrote c st st' := by
  cases c with
  | applyEvent type payloadJson =>
    simp only [reduce, rtAffairApplyEvent] at h
    split at h
    · cases h
    split at h
    · cases h
    rename_i payload hpayload
    split at h
    · rename_i htype
      obtain ⟨p, hp, hpatch⟩ := Option.bind_eq_some_iff.mp h
      have hc : counterOf (.applyEvent type payloadJson) = none := counterOf_other (by rw [htype]; decide)
      exact applyAffairPatch_wrote hc hnow (patchOf_ok hnow hp) (unnamedCreate_eq_false htype hpayload hp hnamed) hpatch
    split at h
    · rename_i htype
      exact applyNoteAdded_wrote (counterOf_other (by rw [htype]; decide)) hnow h
    split at h
    · rename_i htype
      exact applyCounterBump_wrote htype hnow hpayload h
    rename_i hnotCounter
    have hc : counterOf (.applyEvent type payloadJson) = none := counterOf_other hnotCounter
    split at h
    · exact applyTaskLinked_wrote hc hnow h
    · exact applyReviewed_wrote hc hnow h
  | createManual contextId manage initial => exact rtAffairCreateManual_wrote hnow hargs hfresh h
  | setStatus affairId status => exact rtAffairSetStatus_wrote rfl hnow h
  | setNextReviewAt affairId next => exact rtAffairSetNextReviewAt_wrote rfl hnow hargs h

/-! ## Every run -/

/-- What the accepted operations on one counter make of it; `none` before the first. -/
def tally (ops : List (Bytes × Bytes × CounterOp)) (id name : Bytes) : Option Int :=
  (ops.filter fun o => o.1 = id ∧ o.2.1 = name).foldl (fun acc o => some (result (acc.getD 0) o.2.2)) none

theorem tally_append (ops : List (Bytes × Bytes × CounterOp)) (o : Bytes × Bytes × CounterOp) (id name : Bytes) :
    tally (ops ++ [o]) id name =
      if o.1 = id ∧ o.2.1 = name then some (result ((tally ops id name).getD 0) o.2.2) else tally ops id name := by
  unfold tally
  rw [List.filter_append, List.foldl_append]
  by_cases h : o.1 = id ∧ o.2.1 = name <;> simp [h]

theorem tally_absent {ops : List (Bytes × Bytes × CounterOp)} {id : Bytes} (h : id ∉ ops.map (·.1)) (name : Bytes) :
    tally ops id name = none := by
  have hnil : (ops.filter fun o => o.1 = id ∧ o.2.1 = name) = [] := by
    rw [List.filter_eq_nil_iff]
    intro o ho hsame
    simp only [decide_eq_true_eq] at hsame
    exact h (List.mem_map.mpr ⟨o, ho, hsame.1⟩)
  rw [tally, hnil]
  rfl

/-- The store file, and the counter operations accepted so far in their order. -/
structure State where
  file : Option Bytes
  accepted : List (Bytes × Bytes × CounterOp)
  deriving DecidableEq

def init : State := ⟨none, []⟩

/-- One call, with the time it reads and what becomes of its file accesses. -/
structure Input where
  now : Int
  io : FileIo
  c : Call
  nowLong : InLong now
  argsLong : LongArgs c

def step (s : State) (i : Input) : Option State :=
  match call i.now i.io i.c s.file with
  | (file, true) => some ⟨file, s.accepted ++ (counterOf i.c).toList⟩
  | (file, false) => some ⟨file, s.accepted⟩

/-- The store can be read, a created affair has an id, and the CLI has numbers left. -/
def Orderly (s : State) (i : Input) : Prop :=
  i.io.readable = true ∧ unnamedCreate i.c = false ∧ cliExhausted (loadStore s.file) i.c = false

instance (s : State) (i : Input) : Decidable (Orderly s i) := inferInstanceAs (Decidable (_ ∧ _ ∧ _))

/-- The bounds of a store. -/
structure Bounded (st : AffairStore) : Prop where
  ids : (st.map (·.affairId)).Nodup
  room : st.length ≤ 32
  items : ∀ a ∈ st, a.notes.length ≤ 16 ∧ a.taskIds.length ≤ 16 ∧ a.taskIds.Nodup ∧ a.counters.length ≤ 16 ∧
    (a.counters.map (·.name)).Nodup ∧ ∀ c ∈ a.counters, c.name ≠ [] ∧ InLong c.value

/-- Every counter is what the accepted operations on it come to. -/
def Counted (s : State) : Prop :=
  ∀ a ∈ loadStore s.file, ∀ name, counterValue a.counters name = tally s.accepted a.affairId name

/-- What the runs keep. -/
structure Inv (s : State) : Prop where
  ids : ((loadStore s.file).map (·.affairId)).Nodup
  items : ∀ a ∈ loadStore s.file, ItemOk a
  small : ∀ text, s.file = some text → text.length < rtXl * 4
  known : ∀ o ∈ s.accepted, o.1 ∈ (loadStore s.file).map (·.affairId)
  counted : Counted s

theorem Inv.bounded {s : State} (h : Inv s) : Bounded (loadStore s.file) := by
  refine ⟨h.ids, (loadStore_printable s.file).2, ?_⟩
  intro a ha
  have hok := h.items a ha
  have hp := hok.printable
  exact ⟨hp.noteRoom, hp.taskIdRoom, hok.taskIds, hp.counterRoom, hp.counterNames,
    fun c hc => ⟨(hp.counters c hc).named, (hp.counters c hc).value⟩⟩

theorem init_inv : Inv init := by
  refine ⟨?_, ?_, nofun, nofun, ?_⟩
  · exact List.nodup_nil
  · intro a ha
    cases ha
  · intro a ha
    cases ha

/-- A store in its bounds is read whole. -/
theorem Inv.read {s : State} (h : Inv s) {io : FileIo} (hio : io.readable = true) : fsReadText io s.file = s.file := by
  cases hfile : s.file with
  | none => simp [fsReadText]
  | some text =>
    have hlen := h.small text hfile
    exact fsReadText_some hio (by unfold rtXl at hlen; unfold fsReadTextDefaultCap; omega)

section Store
variable {c : Call} {st st' : AffairStore}

theorem Wrote.items (h : Wrote c st st') (hitems : ∀ a ∈ st, ItemOk a) : ∀ a ∈ st', ItemOk a := by
  cases h with
  | created _ _ ha _ _ =>
    intro b hb
    rcases List.mem_cons.mp hb with rfl | hb
    · exact ha
    · exact hitems b hb
  | @changed a a' _ hfind _ hok _ hperm =>
    have hmem : a ∈ st := List.mem_of_find?_eq_some (affairFind_some hfind).2.2
    intro b hb
    rcases List.mem_cons.mp (hperm.mem_iff.mp hb) with rfl | hb
    · exact hok (hitems a hmem)
    · exact hitems b (List.mem_of_mem_eraseP hb)

/-- The ids of the store after a change, up to their order. -/
theorem Wrote.ids_perm (h : Wrote c st st') :
    (st'.map (·.affairId)).Perm (st.map (·.affairId)) ∨
      ∃ a, a.affairId ∉ st.map (·.affairId) ∧ st' = a :: st := by
  cases h with
  | created _ hnew _ _ _ => exact .inr ⟨_, hnew, rfl⟩
  | changed hfind hid _ _ hperm =>
    refine .inl ((hperm.map _).trans ?_)
    have hback := (perm_cons_eraseP (affairFind_some hfind).2.2).map (·.affairId)
    rw [List.map_cons, hid]
    exact hback.symm

theorem Wrote.ids (h : Wrote c st st') (hids : (st.map (·.affairId)).Nodup) : (st'.map (·.affairId)).Nodup := by
  rcases h.ids_perm with hperm | ⟨a, hnew, rfl⟩
  · exact hperm.nodup_iff.mpr hids
  · exact List.nodup_cons.mpr ⟨hnew, hids⟩

theorem Wrote.keeps_ids (h : Wrote c st st') {id : Bytes} (hid : id ∈ st.map (·.affairId)) : id ∈ st'.map (·.affairId) := by
  rcases h.ids_perm with hperm | ⟨a, -, rfl⟩
  · exact hperm.mem_iff.mpr hid
  · exact List.mem_cons_of_mem _ hid

theorem Wrote.room (h : Wrote c st st') (hroom : st.length ≤ affairMaxItems) : st'.length ≤ affairMaxItems := by
  cases h with
  | created hlt _ _ _ _ => exact hlt
  | changed hfind _ _ _ hperm =>
    have hlen := (perm_cons_eraseP (affairFind_some hfind).2.2).length_eq
    rw [hperm.length_eq]
    exact hlen ▸ hroom

/-- The operation a call counts is on an affair of the store. -/
theorem Wrote.counter_known (h : Wrote c st st') {o : Bytes × Bytes × CounterOp} (ho : counterOf c = some o) :
    o.1 ∈ st.map (·.affairId) := by
  cases h with
  | created _ _ _ _ hc =>
    rw [hc] at ho
    cases ho
  | @changed a a' _ hfind _ _ hcounters _ =>
    obtain ⟨id, name, op⟩ := o
    rw [CountersFollow, ho] at hcounters
    exact List.mem_map.mpr ⟨a, List.mem_of_find?_eq_some (affairFind_some hfind).2.2, hcounters.1⟩

/-- A changed affair follows the operation of the call, and every other affair is as it was. -/
theorem Wrote.counted {ops : List (Bytes × Bytes × CounterOp)} (h : Wrote c st st') (hids : (st.map (·.affairId)).Nodup)
    (hitems : ∀ a ∈ st, ItemOk a) (hknown : ∀ o ∈ ops, o.1 ∈ st.map (·.affairId))
    (hcounted : ∀ a ∈ st, ∀ name, counterValue a.counters name = tally ops a.affairId name) :
    ∀ a ∈ st', ∀ name, counterValue a.counters name = tally (ops ++ (counterOf c).toList) a.affairId name := by
  intro b hb name
  cases h with
  | @created a _ hnew _ hempty hc =>
    rw [hc, Option.toList_none, List.append_nil]
    rcases List.mem_cons.mp hb with rfl | hb
    · have habsent : b.affairId ∉ ops.map (·.1) := by
        intro hmem
        obtain ⟨o, ho, hid⟩ := List.mem_map.mp hmem
        exact hnew (hid ▸ hknown o ho)
      rw [tally_absent habsent, hempty]
      rfl
    · exact hcounted b hb name
  | @changed a a' _ hfind hid _ hfollow hperm =>
    have hfirst := (affairFind_some hfind).2.2
    have hmem : a ∈ st := List.mem_of_find?_eq_some hfirst
    have hothers : a.affairId ∉ (st.eraseP (hasId a.affairId)).map (·.affairId) := by
      have hsplit := ((perm_cons_eraseP hfirst).map (·.affairId)).nodup_iff.mp hids
      exact (List.nodup_cons.mp hsplit).1
    have hb := List.mem_cons.mp (hperm.mem_iff.mp hb)
    unfold CountersFollow at hfollow
    cases hc : counterOf c with
    | none =>
      rw [hc] at hfollow
      rw [Option.toList_none, List.append_nil]
      rcases hb with rfl | hb
      · rw [hfollow, hid]
        exact hcounted a hmem name
      · exact hcounted b (List.mem_of_mem_eraseP hb) name
    | some o =>
      obtain ⟨id, cname, op⟩ := o
      simp only [hc] at hfollow
      obtain ⟨rfl, hop, hbump⟩ := hfollow
      rw [Option.toList_some, tally_append]
      rcases hb with rfl | hb
      · have hvalue := counterBump_value (hitems a hmem).printable.counters hop hbump name
        rw [hvalue, hid, hcounted a hmem, hcounted a hmem]
        by_cases hname : name = cname
        · subst hname
          simp
        · rw [if_neg hname, if_neg (fun h => hname h.2.symm)]
      · have hne : ¬ a.affairId = b.affairId := fun h => hothers (List.mem_map.mpr ⟨b, hb, h.symm⟩)
        rw [if_neg (fun h => hne h.1)]
        exact hcounted b (List.mem_of_mem_eraseP hb) name

end Store

/-- What a call does to the file: it refuses and leaves it, or it writes the store it came to. -/
theorem call_cases {now : Int} {io : FileIo} {c : Call} {file file' : Option Bytes} {accepted : Bool}
    (h : call now io c file = (file', accepted)) :
    (accepted = false ∧ file' = file) ∨
      (accepted = true ∧ ∃ st' text, reduce now (loadStore (fsReadText io file)) c = some st' ∧
        writeStore st' = some text ∧ file' = some text) := by
  unfold call at h
  split at h
  · cases h
    exact .inl ⟨rfl, rfl⟩
  · rename_i text htext
    obtain ⟨st', hreduce, hwrite⟩ := Option.bind_eq_some_iff.mp htext
    split at h
    · cases h
      exact .inr ⟨rfl, st', text, hreduce, hwrite, rfl⟩
    · cases h
      exact .inl ⟨rfl, rfl⟩

theorem step_inv (s : State) (i : Input) (s' : State) (h : Inv s) (hok : Orderly s i) (hstep : step s i = some s') :
    Inv s' := by
  obtain ⟨hread, hnamed, hfresh⟩ := hok
  unfold step at hstep
  generalize hcall : call i.now i.io i.c s.file = r at hstep
  obtain ⟨file, accepted⟩ := r
  rcases call_cases hcall with ⟨rfl, rfl⟩ | ⟨rfl, st', text, hreduce, hwrite, rfl⟩
  · cases hstep
    exact h
  · cases hstep
    rw [h.read hread] at hreduce
    have hwrote := wrote_of_reduce i.nowLong i.argsLong hnamed hfresh hreduce
    have hitems := hwrote.items h.items
    have hroom := hwrote.room (loadStore_printable s.file).2
    obtain ⟨hback, hsmall⟩ := loadStore_writeStore (fun a ha => (hitems a ha).printable) hroom hwrite
    refine ⟨?_, ?_, ?_, ?_, ?_⟩
    · rw [hback]
      exact hwrote.ids h.ids
    · rw [hback]
      exact hitems
    · rintro _ ⟨⟩
      exact hsmall
    · intro o ho
      rw [hback]
      rcases List.mem_append.mp ho with ho | ho
      · exact hwrote.keeps_ids (h.known o ho)
      · exact hwrote.keeps_ids (hwrote.counter_known (Option.mem_toList.mp ho))
    · unfold Counted
      rw [hback]
      exact hwrote.counted h.ids h.items h.known h.counted

/-- In every run of orderly calls the store is within its bounds and its counters are what the accepted operations come
to, and a call that is refused leaves the file as it was. -/
theorem affair_store_invariant {is : List Input} {s : State} (hrun : Run step Orderly init is s) :
    Bounded (loadStore s.file) ∧ Counted s ∧
      ∀ i : Input, (call i.now i.io i.c s.file).2 = false → (call i.now i.io i.c s.file).1 = s.file := by
  have hinv : Inv s := hrun.invariant init_inv step_inv
  refine ⟨hinv.bounded, hinv.counted, ?_⟩
  intro i hrefused
  obtain ⟨-, hsame⟩ | ⟨htrue, -⟩ := call_cases (Prod.eta (call i.now i.io i.c s.file)).symm
  · exact hsame
  · rw [htrue] at hrefused
    cases hrefused

/-- An affair is created and one of its counters moved twice. -/
def counting : List Input :=
  [⟨1000, {}, .applyEvent (lit "affair_patch") (lit "\x7b\"action\":\"create\",\"affair_id\":\"a1\",\"context_id\":\"chat:x\",\"manage\":\"watch\"\x7d"), ⟨by decide, by decide⟩, trivial⟩,
    ⟨2000, {}, .applyEvent (lit "affair_counter_bumped") (lit "\x7b\"affair_id\":\"a1\",\"name\":\"n\",\"delta\":5\x7d"), ⟨by decide, by decide⟩, trivial⟩,
    ⟨3000, {}, .applyEvent (lit "affair_counter_bumped") (lit "\x7b\"affair_id\":\"a1\",\"name\":\"n\",\"delta\":-7\x7d"), ⟨by decide, by decide⟩, trivial⟩]

theorem affair_counts : ∃ s, Run step Orderly init counting s ∧ s.accepted.length = 2 ∧
    (loadStore s.file).map (·.counters) = [[⟨lit "n", -2⟩]] ∧ Counted s := by
  have hrun : (checkRun step Orderly init counting).map
      (fun s => (s.accepted.length, (loadStore s.file).map (·.counters))) = some (2, [[⟨lit "n", -2⟩]]) := by
    unfold counting
    repeat rw [lit_ofList]
    decide +kernel
  obtain ⟨s, hcheck, hs⟩ := Option.map_eq_some_iff.mp hrun
  obtain ⟨h1, h2⟩ := Prod.mk.inj hs
  exact ⟨s, .of_check hcheck, h1, h2, (affair_store_invariant (Run.of_check hcheck)).2.1⟩

/-- The same event twice, creating an affair whose id is empty. -/
def unnamed : Input :=
  ⟨1000, {}, .applyEvent (lit "affair_patch") (lit "\x7b\"action\":\"create\",\"affair_id\":\"\",\"context_id\":\"chat:x\",\"manage\":\"watch\"\x7d"), ⟨by decide, by decide⟩, trivial⟩

/-- Two affairs come to share the empty id. -/
theorem unnamed_affairs_collide : ∃ s, exec step init [unnamed, unnamed] = some s ∧ ¬ Bounded (loadStore s.file) := by
  have hboth : (exec step init [unnamed, unnamed]).map (fun s => (loadStore s.file).map (·.affairId)) = some [[], []] := by
    unfold unnamed
    repeat rw [lit_ofList]
    decide +kernel
  obtain ⟨s, hexec, hids⟩ := Option.map_eq_some_iff.mp hboth
  refine ⟨s, hexec, fun h => ?_⟩
  have hnodup := h.ids
  rw [hids] at hnodup
  exact absurd hnodup (by decide)

end Floofclaw.Guarantees.Affairs
