import Mathlib.Algebra.Order.BigOperators.Group.List
import Mathlib.Algebra.Order.Group.Int
import Floofclaw.Lib.Machine
import Floofclaw.Source.ProviderLimit

/-!
# The provider ledger admits no more than its limits

The machine keeps, beside the state file, what the ledger should say: which
windows each admitted call was counted in, and for each reservation the window
it is charged to and the amount, the reserved one until it is settled. Day keys
only rise, so no window is opened twice. Where the local date of the clock has
no text of at most 15 octets, the day key is empty and every call opens a fresh
day.
-/

set_option autoImplicit false

namespace Floofclaw.Guarantees.ProviderLedger
open Floofclaw.Lib Floofclaw.Source.Json Floofclaw.Source.StoreFile Floofclaw.Source.ProviderLimit

/-- A reservation with the window it is charged to and the amount charged there. -/
structure Charge where
  usage : LlmUsage
  window : Bytes
  amount : Int
  deriving DecidableEq

structure Ledger where
  file : Option ProviderLimitState := none
  charges : List Charge := []
  /-- The day and the minute each admitted call was counted in. -/
  admitted : List (Bytes × Int) := []
  deriving DecidableEq

inductive Request
  | reserve (io : FileIo) (now : Int)
  | reserveRequest (io : FileIo) (now : Int) (ceiling : Option Int)
  | settle (io : FileIo) (now : Int) (index : Nat) (report : UsageReport)
  deriving DecidableEq

/-- What a written reservation adds. -/
def recordReserve (enforceUsd : Bool) (requestUsdMicros : Int) (state : ProviderLimitState) (l : Ledger) : Ledger :=
  { file := some state
    charges := if enforceUsd then l.charges ++ [⟨⟨.kept, requestUsdMicros, state.dayKey⟩, state.dayKey, requestUsdMicros⟩]
      else l.charges
    admitted := l.admitted ++ [(state.dayKey, state.minuteKey)] }

def takeReserve (enforceUsd : Bool) (requestUsdMicros : Int) (r : Reserved) (l : Ledger) : Ledger :=
  match r.written with
  | none => l
  | some state => recordReserve enforceUsd requestUsdMicros state l

/-- What a settlement replaces: the call is now charged its actual cost, in the window of the settlement. -/
def recordSettle (index : Nat) (actual : Int) (state : ProviderLimitState) (usage : LlmUsage) (l : Ledger) : Ledger :=
  { l with file := some state, charges := l.charges.set index ⟨usage, state.dayKey, actual⟩ }

section
variable (dayKeyOf : Int → Bytes) (provider : LlmProvider)

def ledgerStep (l : Ledger) : Request → Option Ledger
  | .reserve io now => some (takeReserve false 0 (reserveAt dayKeyOf provider io now false 0 l.file) l)
  | .reserveRequest io now ceiling =>
    some (takeReserve (0 ≤ provider.usdLimitMicros) (ceiling.getD 0)
      (reserveRequestAt dayKeyOf provider io now ceiling l.file) l)
  | .settle io now index report =>
    match l.charges[index]?, actualMicros report with
    | some c, some actual =>
      match settleRequestAt dayKeyOf provider io now report c.usage l.file with
      | none => some l
      | some (state, usage) => some (recordSettle index actual state usage l)
    | _, _ => some l

/-- The record a critical section works on, after the windows have rolled. -/
def current (now : Int) (l : Ledger) : ProviderLimitState :=
  stateRollWindows dayKeyOf now (l.file.getD (stateInit provider))

/-- The clock has a day key, a requested amount is not negative, fewer calls were admitted than a 64-bit counter
counts, and a settlement does not carry the day beyond the largest amount. -/
def Orderly (l : Ledger) : Request → Prop
  | .reserve _ now => dayKeyOf now ≠ [] ∧ (l.admitted.length : Int) < int64Max
  | .reserveRequest _ now ceiling => dayKeyOf now ≠ [] ∧ (l.admitted.length : Int) < int64Max ∧ 0 ≤ ceiling.getD 0
  | .settle _ now index report => dayKeyOf now ≠ [] ∧ ∀ c ∈ l.charges[index]?, ∀ actual ∈ actualMicros report,
      (current dayKeyOf provider now l).dayUsdReservedMicros + actual -
        (if (current dayKeyOf provider now l).dayKey = c.window then c.amount else 0) ≤ int64Max

instance (l : Ledger) : (r : Request) → Decidable (Orderly dayKeyOf provider l r)
  | .reserve .. => inferInstanceAs (Decidable (_ ∧ _))
  | .reserveRequest .. => inferInstanceAs (Decidable (_ ∧ _ ∧ _))
  | .settle .. => inferInstanceAs (Decidable (_ ∧ _))

end

/-- The calls counted in a day. -/
def dayAdmitted (l : Ledger) (key : Bytes) : Nat := l.admitted.countP fun a => a.1 = key

def minuteAdmitted (l : Ledger) (key : Int) : Nat := l.admitted.countP fun a => a.2 = key

/-- What a charge adds to a window. -/
def Charge.inWindow (key : Bytes) (c : Charge) : Int := if c.window = key then c.amount else 0

/-- The sum charged to a window: the actual cost of settled calls, the reserved amount of the others. -/
def charged (l : Ledger) (key : Bytes) : Int := (l.charges.map (Charge.inWindow key)).sum

/-! ## Windows -/

/-- Day keys in the order the ledger opens them. -/
def KeyLe (a b : Bytes) : Prop := ¬ b < a

theorem KeyLe.refl (a : Bytes) : KeyLe a a := List.lt_irrefl a

theorem KeyLe.trans_lt {a b c : Bytes} (h : KeyLe a b) (hbc : b < c) : KeyLe a c ∧ a ≠ c := by
  refine ⟨fun hca => h (List.lt_trans hbc hca), ?_⟩
  rintro rfl
  exact h hbc

/-- What the record says of the calls so far. -/
structure Tallied (provider : LlmProvider) (l : Ledger) (s : ProviderLimitState) : Prop where
  own : s.providerId = provider.id
  dayCount : s.dayCount = dayAdmitted l s.dayKey
  minuteCount : s.minuteCount = minuteAdmitted l s.minuteKey
  dayUsd : s.dayUsdReservedMicros = charged l s.dayKey
  usdFits : s.dayUsdReservedMicros ≤ int64Max
  days : ∀ a ∈ l.admitted, KeyLe a.1 s.dayKey
  minutes : ∀ a ∈ l.admitted, a.2 ≤ s.minuteKey
  windows : ∀ c ∈ l.charges, KeyLe c.window s.dayKey

theorem charged_other {l : Ledger} {key : Bytes} (h : ∀ c ∈ l.charges, c.window ≠ key) : charged l key = 0 := by
  refine List.sum_eq_zero fun x hx => ?_
  obtain ⟨c, hc, rfl⟩ := List.mem_map.mp hx
  exact if_neg (h c hc)

theorem Tallied.rollDay {provider : LlmProvider} {l : Ledger} {s : ProviderLimitState} (h : Tallied provider l s)
    {key : Bytes} (hkey : key ≠ []) : Tallied provider l (rollDay key s) := by
  unfold Source.ProviderLimit.rollDay
  split
  · rename_i hroll
    have hlt := hroll.resolve_left hkey
    have hnone : dayAdmitted l key = 0 := by
      refine List.countP_eq_zero.mpr fun a ha => ?_
      simpa using ((h.days a ha).trans_lt hlt).2
    have hcharged : charged l key = 0 := charged_other fun c hc => ((h.windows c hc).trans_lt hlt).2
    exact {
      own := h.own
      dayCount := by simp [hnone]
      minuteCount := h.minuteCount
      dayUsd := hcharged.symm
      usdFits := show (0 : Int) ≤ int64Max by decide
      days := fun a ha => ((h.days a ha).trans_lt hlt).1
      minutes := h.minutes
      windows := fun c hc => ((h.windows c hc).trans_lt hlt).1 }
  · exact h

theorem Tallied.rollMinute {provider : LlmProvider} {l : Ledger} {s : ProviderLimitState} (h : Tallied provider l s)
    (key : Int) : Tallied provider l (rollMinute key s) := by
  unfold Source.ProviderLimit.rollMinute
  split
  · rename_i hlt
    have hnone : minuteAdmitted l key = 0 := by
      refine List.countP_eq_zero.mpr fun a ha => ?_
      have := h.minutes a ha
      simp only [decide_eq_true_eq]
      omega
    exact {
      own := h.own
      dayCount := h.dayCount
      minuteCount := by simp [hnone]
      dayUsd := h.dayUsd
      usdFits := h.usdFits
      days := h.days
      minutes := fun a ha => by
        have := h.minutes a ha
        simp only
        omega
      windows := h.windows }
  · exact h

theorem Tallied.roll {provider : LlmProvider} {l : Ledger} {s : ProviderLimitState} (h : Tallied provider l s)
    {dayKeyOf : Int → Bytes} {now : Int} (hkey : dayKeyOf now ≠ []) :
    Tallied provider l (stateRollWindows dayKeyOf now s) :=
  (h.rollDay hkey).rollMinute _

/-! ## Steps -/

structure Kept (provider : LlmProvider) (l : Ledger) : Prop where
  fresh : l.file = none → l.charges = [] ∧ l.admitted = []
  tallied : ∀ s, l.file = some s → Tallied provider l s
  daily : 0 ≤ provider.dailyLimit → ∀ key, (dayAdmitted l key : Int) ≤ provider.dailyLimit
  rpm : 0 ≤ provider.rpmLimit → ∀ key, (minuteAdmitted l key : Int) ≤ provider.rpmLimit
  held : ∀ c ∈ l.charges, 0 ≤ c.amount ∧ (c.usage.budgetOutcome = .kept →
    c.window = c.usage.budgetDayKey ∧ c.amount = c.usage.budgetReservedMicros)
  counted : (l.admitted.length : Int) ≤ int64Max

theorem Kept.init (provider : LlmProvider) : Kept provider {} where
  fresh := fun _ => ⟨rfl, rfl⟩
  tallied := fun _ h => by cases h
  daily := fun h _ => by simpa [dayAdmitted] using h
  rpm := fun h _ => by simpa [minuteAdmitted] using h
  held := fun _ h => by cases h
  counted := show (0 : Int) ≤ int64Max by decide

/-- A fresh record agrees with an empty ledger. -/
theorem Kept.read {provider : LlmProvider} {l : Ledger} (h : Kept provider l) :
    Tallied provider l (l.file.getD (stateInit provider)) := by
  cases hfile : l.file with
  | some s => exact h.tallied s hfile
  | none =>
    obtain ⟨hcharges, hadmitted⟩ := h.fresh hfile
    exact {
      own := rfl
      dayCount := by simp [dayAdmitted, hadmitted, stateInit]
      minuteCount := by simp [minuteAdmitted, hadmitted, stateInit]
      dayUsd := by simp [charged, hcharges, stateInit]
      usdFits := by simp [stateInit, int64Max]
      days := by simp [hadmitted]
      minutes := by simp [hadmitted]
      windows := by simp [hcharges] }

theorem Kept.current {provider : LlmProvider} {l : Ledger} (h : Kept provider l) {dayKeyOf : Int → Bytes} {now : Int}
    (hkey : dayKeyOf now ≠ []) : Tallied provider l (current dayKeyOf provider now l) :=
  h.read.roll hkey

theorem openState_eq {io : FileIo} {provider : LlmProvider} {file : Option ProviderLimitState} {s : ProviderLimitState}
    (h : openState io provider file = some s) : s = file.getD (stateInit provider) := by
  unfold openState at h
  split at h
  · dsimp only at h
    split at h
    · exact (Option.some.inj h).symm
    · cases h
  · cases h

/-- A written reservation ran into no limit. -/
theorem reserve_written {dayKeyOf : Int → Bytes} {provider : LlmProvider} {io : FileIo} {now : Int} {enforceUsd : Bool}
    {request : Int} {l : Ledger} {state : ProviderLimitState}
    (h : (reserveAt dayKeyOf provider io now enforceUsd request l.file).written = some state) :
    limitReached provider enforceUsd request (current dayKeyOf provider now l) = none ∧
      state = admitCall enforceUsd request (current dayKeyOf provider now l) := by
  unfold reserveAt at h
  split at h
  · cases h
  split at h
  · cases h
  split at h
  · cases h
  rename_i s hopen
  dsimp only at h
  rw [openState_eq hopen] at h
  split at h
  · cases h
  rename_i hlimit
  split at h
  · exact ⟨hlimit, (Option.some.inj h).symm⟩
  · cases h

theorem limitReached_none {provider : LlmProvider} {enforceUsd : Bool} {request : Int} {s : ProviderLimitState}
    (h : limitReached provider enforceUsd request s = none) :
    (0 ≤ provider.dailyLimit → s.dayCount < provider.dailyLimit) ∧
    (0 ≤ provider.rpmLimit → s.minuteCount < provider.rpmLimit) ∧
    (enforceUsd = true → 0 ≤ provider.usdLimitMicros →
      s.dayUsdReservedMicros + request ≤ provider.usdLimitMicros) := by
  unfold limitReached at h
  split at h
  · cases h
  rename_i hdaily
  split at h
  · cases h
  rename_i hrpm
  split at h
  · cases h
  rename_i husd
  refine ⟨fun hlimit => ?_, fun hlimit => ?_, fun henforce hlimit => ?_⟩
  · exact Int.not_le.mp fun hle => hdaily ⟨hlimit, hle⟩
  · exact Int.not_le.mp fun hle => hrpm ⟨hlimit, hle⟩
  · simp only [henforce, hlimit, true_and, not_or, Int.not_lt] at husd
    omega

theorem dayAdmitted_reserve (enforceUsd : Bool) (request : Int) (s : ProviderLimitState) (l : Ledger) (key : Bytes) :
    dayAdmitted (recordReserve enforceUsd request s l) key = dayAdmitted l key + if s.dayKey = key then 1 else 0 := by
  simp [dayAdmitted, recordReserve, List.countP_append, List.countP_cons]

theorem minuteAdmitted_reserve (enforceUsd : Bool) (request : Int) (s : ProviderLimitState) (l : Ledger) (key : Int) :
    minuteAdmitted (recordReserve enforceUsd request s l) key =
      minuteAdmitted l key + if s.minuteKey = key then 1 else 0 := by
  simp [minuteAdmitted, recordReserve, List.countP_append, List.countP_cons]

theorem charged_reserve (enforceUsd : Bool) (request : Int) (s : ProviderLimitState) (l : Ledger) (key : Bytes) :
    charged (recordReserve enforceUsd request s l) key =
      charged l key + if enforceUsd ∧ s.dayKey = key then request else 0 := by
  cases enforceUsd with
  | false => simp [charged, recordReserve]
  | true => simp [charged, recordReserve, Charge.inWindow]

theorem sum_map_set {α : Type} (f : α → Int) {xs : List α} {i : Nat} {x : α} (hx : xs[i]? = some x) (y : α) :
    ((xs.set i y).map f).sum = (xs.map f).sum - f x + f y := by
  induction xs generalizing i with
  | nil => cases hx
  | cons z xs ih =>
    cases i with
    | zero =>
      cases hx
      simp only [List.set_cons_zero, List.map_cons, List.sum_cons]
      omega
    | succ i =>
      have := ih hx
      simp only [List.set_cons_succ, List.map_cons, List.sum_cons]
      omega

theorem reserve_kept {dayKeyOf : Int → Bytes} {provider : LlmProvider} {l : Ledger} {now : Int} {enforceUsd : Bool}
    {request : Int} (h : Kept provider l) (hkey : dayKeyOf now ≠ []) (hrequest : 0 ≤ request)
    (hlimit : limitReached provider enforceUsd request (current dayKeyOf provider now l) = none)
    (husd : enforceUsd = true → 0 ≤ provider.usdLimitMicros) (hcount : (l.admitted.length : Int) < int64Max) :
    Kept provider
      (recordReserve enforceUsd request (admitCall enforceUsd request (current dayKeyOf provider now l)) l) := by
  have htallied := h.current hkey
  obtain ⟨hdaily, hrpm, husdLimit⟩ := limitReached_none hlimit
  generalize current dayKeyOf provider now l = s at *
  have hday : (admitCall enforceUsd request s).dayKey = s.dayKey := rfl
  have hminute : (admitCall enforceUsd request s).minuteKey = s.minuteKey := rfl
  refine ⟨nofun, ?_, fun hd key => ?_, fun hr key => ?_, fun c hc => ?_, ?_⟩
  · rintro _ ⟨rfl⟩
    exact {
      own := htallied.own
      dayCount := by
        rw [dayAdmitted_reserve, if_pos rfl, hday]
        simp [admitCall, htallied.dayCount]
      minuteCount := by
        rw [minuteAdmitted_reserve, if_pos rfl, hminute]
        simp [admitCall, htallied.minuteCount]
      dayUsd := by
        rw [charged_reserve, hday, ← htallied.dayUsd]
        cases enforceUsd <;> simp [admitCall]
      usdFits := by
        cases enforceUsd with
        | false => exact htallied.usdFits
        | true => exact Int.le_trans (husdLimit rfl (husd rfl)) provider.usdFits
      days := fun a ha => by
        rcases List.mem_append.mp ha with ha | ha
        · exact htallied.days a ha
        · rw [List.mem_singleton.mp ha]
          exact KeyLe.refl _
      minutes := fun a ha => by
        rcases List.mem_append.mp ha with ha | ha
        · exact htallied.minutes a ha
        · obtain rfl := List.mem_singleton.mp ha
          exact Int.le_refl _
      windows := fun c hc => by
        cases enforceUsd with
        | false => exact htallied.windows c hc
        | true =>
          rcases List.mem_append.mp hc with hc | hc
          · exact htallied.windows c hc
          · rw [List.mem_singleton.mp hc]
            exact KeyLe.refl _ }
  · have hold := h.daily hd key
    have hroom := hdaily hd
    rw [htallied.dayCount] at hroom
    rw [dayAdmitted_reserve, hday]
    split
    · rename_i heq
      rw [heq] at hroom
      omega
    · omega
  · have hold := h.rpm hr key
    have hroom := hrpm hr
    rw [htallied.minuteCount] at hroom
    rw [minuteAdmitted_reserve, hminute]
    split
    · rename_i heq
      rw [heq] at hroom
      omega
    · omega
  · cases enforceUsd with
    | false => exact h.held c hc
    | true =>
      rcases List.mem_append.mp hc with hc | hc
      · exact h.held c hc
      · rw [List.mem_singleton.mp hc]
        exact ⟨hrequest, fun _ => ⟨rfl, rfl⟩⟩
  · simp only [recordReserve, List.length_append, List.length_singleton]
    omega

/-- A written settlement replaces a reservation that was still kept. -/
theorem settle_written {dayKeyOf : Int → Bytes} {provider : LlmProvider} {io : FileIo} {now : Int} {report : UsageReport}
    {usage usage' : LlmUsage} {l : Ledger} {state : ProviderLimitState} {actual : Int}
    (hactual : actualMicros report = some actual)
    (h : settleRequestAt dayKeyOf provider io now report usage l.file = some (state, usage')) :
    usage.budgetOutcome = .kept ∧ usage'.budgetOutcome ≠ .kept ∧ 0 ≤ actual ∧
      state = replaceReserved usage.budgetDayKey usage.budgetReservedMicros actual (current dayKeyOf provider now l) := by
  unfold settleRequestAt at h
  split at h
  · cases h
  rename_i hkept
  simp only [hactual] at h
  split at h
  · cases h
  rename_i s hadjust
  cases h
  refine ⟨Decidable.not_not.mp hkept, by cases report <;> simp, ?_⟩
  unfold adjustReserved at hadjust
  split at hadjust
  · cases hadjust
  rename_i hsign
  split at hadjust
  · cases hadjust
  rename_i s' hopen
  rw [openState_eq hopen] at hadjust
  split at hadjust
  · exact ⟨by omega, (Option.some.inj hadjust).symm⟩
  · cases hadjust

/-- The replacement is exact where it is not clamped: the reserved amount is part of the sum. -/
theorem replaceReserved_usd {key : Bytes} {reserved actual : Int} {s : ProviderLimitState}
    (hpart : s.dayKey = key → reserved ≤ s.dayUsdReservedMicros)
    (hfits : s.dayUsdReservedMicros + actual - (if s.dayKey = key then reserved else 0) ≤ int64Max) :
    (replaceReserved key reserved actual s).dayUsdReservedMicros =
      s.dayUsdReservedMicros + actual - if s.dayKey = key then reserved else 0 := by
  simp only [replaceReserved]
  by_cases hkey : s.dayKey = key
  · have := hpart hkey
    rw [if_pos hkey] at hfits
    rw [if_pos hkey, if_pos hkey, Int.max_eq_right (by omega), if_neg (by omega)]
    omega
  · rw [if_neg hkey] at hfits
    rw [if_neg hkey, if_neg hkey, if_neg (by omega)]
    omega

theorem inWindow_nonneg {cs : List Charge} (h : ∀ c ∈ cs, 0 ≤ c.amount) (key : Bytes) :
    ∀ x ∈ cs.map (Charge.inWindow key), 0 ≤ x := by
  intro x hx
  obtain ⟨c, hc, rfl⟩ := List.mem_map.mp hx
  unfold Charge.inWindow
  split
  · exact h c hc
  · exact Int.le_refl 0

theorem settle_kept {dayKeyOf : Int → Bytes} {provider : LlmProvider} {l : Ledger} {now : Int} {index : Nat} {c : Charge}
    {actual : Int} {usage' : LlmUsage} (h : Kept provider l) (hkey : dayKeyOf now ≠ [])
    (hc : l.charges[index]? = some c) (hkept : c.usage.budgetOutcome = .kept)
    (hended : usage'.budgetOutcome ≠ .kept) (hactual : 0 ≤ actual)
    (hfits : (current dayKeyOf provider now l).dayUsdReservedMicros + actual -
      (if (current dayKeyOf provider now l).dayKey = c.window then c.amount else 0) ≤ int64Max) :
    Kept provider (recordSettle index actual (replaceReserved c.usage.budgetDayKey c.usage.budgetReservedMicros actual
      (current dayKeyOf provider now l)) usage' l) := by
  have htallied := h.current hkey
  have hmem := List.mem_of_getElem? hc
  obtain ⟨hwindow, hamount⟩ := (h.held c hmem).2 hkept
  generalize current dayKeyOf provider now l = s at *
  have hpart : s.dayKey = c.window → c.amount ≤ s.dayUsdReservedMicros := by
    intro heq
    have hnonneg := inWindow_nonneg (fun x hx => (h.held x hx).1) s.dayKey
    have hle := List.single_le_sum hnonneg _ (List.mem_map_of_mem hmem)
    rw [Charge.inWindow, if_pos heq.symm] at hle
    rw [htallied.dayUsd]
    exact hle
  rw [← hwindow, ← hamount]
  have husd := replaceReserved_usd hpart hfits
  have hnew : ∀ x ∈ l.charges.set index ⟨usage', s.dayKey, actual⟩, x ∈ l.charges ∨ x = ⟨usage', s.dayKey, actual⟩ :=
    fun x hx => List.mem_or_eq_of_mem_set hx
  refine ⟨nofun, ?_, h.daily, h.rpm, fun x hx => ?_, h.counted⟩
  · rintro _ ⟨rfl⟩
    exact {
      own := htallied.own
      dayCount := htallied.dayCount
      minuteCount := htallied.minuteCount
      dayUsd := by
        rw [husd, htallied.dayUsd]
        show _ = ((l.charges.set index ⟨usage', s.dayKey, actual⟩).map (Charge.inWindow s.dayKey)).sum
        rw [sum_map_set _ hc, charged]
        simp only [Charge.inWindow, if_pos, eq_comm (a := s.dayKey)]
        omega
      usdFits := by
        rw [husd]
        exact hfits
      days := htallied.days
      minutes := htallied.minutes
      windows := fun x hx => by
        rcases hnew x hx with hx | rfl
        · exact htallied.windows x hx
        · exact KeyLe.refl _ }
  · rcases hnew x hx with hx | rfl
    · exact h.held x hx
    · exact ⟨hactual, fun hbad => absurd hbad hended⟩

/-- What a reservation request is admitted under. -/
theorem reserveRequest_written {dayKeyOf : Int → Bytes} {provider : LlmProvider} {io : FileIo} {now : Int}
    {ceiling : Option Int} {l : Ledger} {state : ProviderLimitState}
    (h : (reserveRequestAt dayKeyOf provider io now ceiling l.file).written = some state) :
    limitReached provider (0 ≤ provider.usdLimitMicros) (ceiling.getD 0) (current dayKeyOf provider now l) = none ∧
      state = admitCall (0 ≤ provider.usdLimitMicros) (ceiling.getD 0) (current dayKeyOf provider now l) := by
  unfold reserveRequestAt at h
  split at h
  · rename_i hnone
    obtain ⟨hlimit, rfl⟩ := reserve_written h
    have hoff : ¬ 0 ≤ provider.usdLimitMicros := by omega
    simp only [limitReached, admitCall, hoff, decide_false] at hlimit ⊢
    exact ⟨hlimit, rfl⟩
  · rename_i hsome
    have hon : 0 ≤ provider.usdLimitMicros := by omega
    split at h
    · rename_i hzero
      unfold reserveAt at h
      have hblocked : limitDisabled provider true ≠ none := by
        unfold limitDisabled
        simp only [hzero, true_and, if_true]
        split
        · exact nofun
        · split <;> exact nofun
      split at h
      · cases h
      · rename_i hopen
        exact absurd hopen hblocked
    · split at h
      · cases h
      · rename_i request
        rw [decide_eq_true hon, Option.getD_some]
        exact reserve_written h

theorem ledgerStep_kept {dayKeyOf : Int → Bytes} {provider : LlmProvider} {l l' : Ledger} {r : Request}
    (h : Kept provider l) (hok : Orderly dayKeyOf provider l r) (hstep : ledgerStep dayKeyOf provider l r = some l') :
    Kept provider l' := by
  cases r with
  | reserve io now =>
    cases hstep
    unfold takeReserve
    split
    · exact h
    · rename_i state hwritten
      obtain ⟨hlimit, rfl⟩ := reserve_written hwritten
      exact reserve_kept h hok.1 (Int.le_refl 0) hlimit nofun hok.2
  | reserveRequest io now ceiling =>
    cases hstep
    unfold takeReserve
    split
    · exact h
    · rename_i state hwritten
      obtain ⟨hlimit, rfl⟩ := reserveRequest_written hwritten
      exact reserve_kept h hok.1 hok.2.2 hlimit of_decide_eq_true hok.2.1
  | settle io now index report =>
    simp only [ledgerStep] at hstep
    split at hstep
    · rename_i c actual hc hactual
      split at hstep
      · cases hstep
        exact h
      · rename_i state usage' hsettle
        cases hstep
        obtain ⟨hkept, hended, hnonneg, rfl⟩ := settle_written hactual hsettle
        exact settle_kept h hok.1 hc hkept hended hnonneg (hok.2 c hc actual hactual)
    · cases hstep
      exact h

theorem limitDisabled_ne_ok (provider : LlmProvider) (enforceUsd : Bool) :
    limitDisabled provider enforceUsd ≠ some .ok := by
  unfold limitDisabled
  split
  · exact nofun
  split
  · exact nofun
  split <;> exact nofun

theorem limitReached_ne_ok (provider : LlmProvider) (enforceUsd : Bool) (request : Int) (s : ProviderLimitState) :
    limitReached provider enforceUsd request s ≠ some .ok := by
  unfold limitReached
  split
  · exact nofun
  split
  · exact nofun
  split <;> exact nofun

/-- Where some limit applies, a call that succeeds was written. -/
theorem reserve_ok {dayKeyOf : Int → Bytes} {provider : LlmProvider} {io : FileIo} {now : Int} {enforceUsd : Bool}
    {request : Int} {file : Option ProviderLimitState} (hlimited : unlimited provider enforceUsd = false)
    (h : (reserveAt dayKeyOf provider io now enforceUsd request file).verdict = .ok) :
    ∃ state, (reserveAt dayKeyOf provider io now enforceUsd request file).written = some state := by
  unfold reserveAt at h ⊢
  split at h
  · rename_i verdict hdisabled
    dsimp only at h
    exact absurd (h ▸ hdisabled) (limitDisabled_ne_ok provider enforceUsd)
  rw [hlimited, if_neg Bool.false_ne_true] at h ⊢
  split at h
  · cases h
  rename_i state hopen
  dsimp only at h ⊢
  split at h
  · rename_i verdict hreached
    dsimp only at h
    exact absurd (h ▸ hreached) (limitReached_ne_ok provider enforceUsd request _)
  · split at h
    · rename_i hwritable
      rw [if_pos hwritable]
      exact ⟨_, rfl⟩
    · cases h

theorem reserveRequest_ok {dayKeyOf : Int → Bytes} {provider : LlmProvider} {io : FileIo} {now : Int}
    {ceiling : Option Int} {file : Option ProviderLimitState} (hlimit : 0 ≤ provider.usdLimitMicros)
    (h : (reserveRequestAt dayKeyOf provider io now ceiling file).verdict = .ok) :
    ∃ state, (reserveRequestAt dayKeyOf provider io now ceiling file).written = some state := by
  have hlimited : unlimited provider true = false := by simp [unlimited, hlimit]
  have hnot : ¬ provider.usdLimitMicros < 0 := by omega
  unfold reserveRequestAt at h ⊢
  rw [if_neg hnot] at h ⊢
  split
  · rename_i hzero
    rw [if_pos hzero] at h
    exact reserve_ok hlimited h
  · rename_i hzero
    rw [if_neg hzero] at h
    cases ceiling with
    | none => cases h
    | some request => exact reserve_ok hlimited h

/-- Where every clock has a day key and no sum leaves the 64-bit range, the ledger counts and charges exactly, and
never admits beyond a limit, whatever the order of the calls and of their clocks. -/
theorem ledger_never_overadmits {dayKeyOf : Int → Bytes} {provider : LlmProvider} {requests : List Request} {l : Ledger}
    (hrun : Run (ledgerStep dayKeyOf provider) (Orderly dayKeyOf provider) {} requests l) :
    (0 ≤ provider.dailyLimit → ∀ key, (dayAdmitted l key : Int) ≤ provider.dailyLimit) ∧
    (0 ≤ provider.rpmLimit → ∀ key, (minuteAdmitted l key : Int) ≤ provider.rpmLimit) ∧
    (∀ s, l.file = some s →
      s.dayUsdReservedMicros = charged l s.dayKey ∧
      (0 ≤ s.dayUsdReservedMicros ∧ s.dayUsdReservedMicros ≤ int64Max) ∧
      (0 ≤ s.dayCount ∧ s.dayCount ≤ int64Max) ∧ 0 ≤ s.minuteCount ∧ s.minuteCount ≤ int64Max) ∧
    ∀ io now ceiling, dayKeyOf now ≠ [] → 0 ≤ provider.usdLimitMicros →
      (reserveRequestAt dayKeyOf provider io now ceiling l.file).verdict = .ok →
      charged l (current dayKeyOf provider now l).dayKey + ceiling.getD 0 ≤ provider.usdLimitMicros := by
  have hkept : Kept provider l := hrun.invariant (.init provider) fun _ _ _ h hok hstep => ledgerStep_kept h hok hstep
  refine ⟨hkept.daily, hkept.rpm, fun s hs => ?_, fun io now ceiling hkey hlimit hok => ?_⟩
  · have htallied := hkept.tallied s hs
    have hcount := hkept.counted
    have hday : dayAdmitted l s.dayKey ≤ l.admitted.length := List.countP_le_length
    have hminute : minuteAdmitted l s.minuteKey ≤ l.admitted.length := List.countP_le_length
    have hsum : 0 ≤ charged l s.dayKey := List.sum_nonneg (inWindow_nonneg (fun c hc => (hkept.held c hc).1) s.dayKey)
    refine ⟨htallied.dayUsd, ⟨by rw [htallied.dayUsd]; exact hsum, htallied.usdFits⟩, ?_, ?_⟩
    · rw [htallied.dayCount]
      omega
    · rw [htallied.minuteCount]
      omega
  · obtain ⟨state, hwritten⟩ := reserveRequest_ok hlimit hok
    obtain ⟨hreached, -⟩ := reserveRequest_written hwritten
    have := (limitReached_none hreached).2.2 (decide_eq_true hlimit) hlimit
    rw [(hkept.current hkey).dayUsd] at this
    exact this

/-- One call a day, no other limit. -/
def oncePerDay : LlmProvider := { id := lit "openai", rpmLimit := -1, dailyLimit := 1, usdLimitMicros := -1, usdFits := by decide }

/-- One tenth of a cent a day, two calls. -/
def smallBudget : LlmProvider := { id := lit "openai", rpmLimit := 2, dailyLimit := 2, usdLimitMicros := 1000, usdFits := by decide }

/-- Two calls within one UTC day, the first of which is settled after the clock has stepped back. -/
def settledDay : List Request :=
  [.reserveRequest {} 1700000000 (some 500), .reserveRequest {} 1700000050 (some 400),
    .settle {} 1699999000 0 (.reported (some 120))]

theorem settled_day_is_exact : ∃ l, exec (ledgerStep (currentDayKey utcDate) smallBudget) {} settledDay = some l ∧
    (∀ key, (dayAdmitted l key : Int) ≤ 2) ∧ ∀ s, l.file = some s → s.dayUsdReservedMicros = charged l s.dayKey := by
  have hrun : (checkRun (ledgerStep (currentDayKey utcDate) smallBudget) (Orderly (currentDayKey utcDate) smallBudget) {}
      settledDay).isSome = true := by decide +kernel
  obtain ⟨l, hl⟩ := Option.isSome_iff_exists.mp hrun
  have hsound := ledger_never_overadmits (Run.of_check hl)
  exact ⟨l, exec_of_check hl, hsound.1 (by decide), fun s hs => (hsound.2.2.1 s hs).1⟩

/-- A clock whose date has no text opens a fresh day at every call. -/
theorem dateless_clock_overadmits :
    ∃ l, exec (ledgerStep (currentDayKey utcDate) oncePerDay) {}
        [.reserve {} 100000000000000000, .reserve {} 100000000000000000] = some l ∧
      ∃ key, oncePerDay.dailyLimit < dayAdmitted l key := by
  have hrun : (exec (ledgerStep (currentDayKey utcDate) oncePerDay) {}
      [.reserve {} 100000000000000000, .reserve {} 100000000000000000]).any
        (fun l => decide (oncePerDay.dailyLimit < dayAdmitted l [])) = true := by decide +kernel
  obtain ⟨l, hl, hover⟩ := (Option.any_eq_true _ _).mp hrun
  exact ⟨l, hl, [], of_decide_eq_true hover⟩

end Floofclaw.Guarantees.ProviderLedger
