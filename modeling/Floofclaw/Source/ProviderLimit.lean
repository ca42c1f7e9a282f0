import Floofclaw.Lib.Calendar
import Floofclaw.Source.StoreFile

/-!
# Provider limits

Model of `provider_limit.c`: the per-provider record of what a day and a minute
have admitted and what the day has reserved in dollars. Each call runs under the
provider's lock. The state file holds the record; `localtime_r` is a parameter,
since the zone is the machine's. A dollar limit is given in millionths, negative
for none.
-/

set_option autoImplicit false

namespace Floofclaw.Source.ProviderLimit
open Floofclaw.Lib Floofclaw.Source.Json Floofclaw.Source.StoreFile

structure LlmProvider where
  id : Bytes
  rpmLimit : Int
  dailyLimit : Int
  usdLimitMicros : Int
  usdFits : usdLimitMicros ≤ int64Max

structure ProviderLimitState where
  providerId : Bytes
  dayKey : Bytes
  dayCount : Int
  dayUsdReservedMicros : Int
  minuteKey : Int
  minuteCount : Int
  deriving DecidableEq

/-- `current_day_key` in a buffer of 16 octets; empty where it fails. -/
def currentDayKey (localtime : Int → Option CivilDate) (now : Int) : Bytes :=
  match localtime now with
  | none => []
  | some d => if (dateText d).length < 16 then dateText d else []

/-- `localtime_r` in UTC: no date when the year does not fit an `int`. -/
def utcDate (now : Int) : Option CivilDate :=
  let d := civilOfDays (now / 86400)
  if -2 ^ 31 ≤ d.year - 1900 ∧ d.year - 1900 < 2 ^ 31 then some d else none

def stateInit (provider : LlmProvider) : ProviderLimitState :=
  { providerId := provider.id, dayKey := [], dayCount := 0, dayUsdReservedMicros := 0, minuteKey := 0, minuteCount := 0 }

def rollDay (key : Bytes) (state : ProviderLimitState) : ProviderLimitState :=
  if key = [] ∨ state.dayKey < key then { state with dayKey := key, dayCount := 0, dayUsdReservedMicros := 0 }
  else state

def rollMinute (key : Int) (state : ProviderLimitState) : ProviderLimitState :=
  if state.minuteKey < key then { state with minuteKey := key, minuteCount := 0 } else state

/-- `state_roll_windows`. Day keys are compared as texts. -/
def stateRollWindows (dayKeyOf : Int → Bytes) (now : Int) (state : ProviderLimitState) : ProviderLimitState :=
  rollMinute (now.tdiv 60) (rollDay (dayKeyOf now) state)

/-- The record both critical sections start from: a missing file is a fresh provider, anything else that is not a
record of this provider with nonnegative counters fails. -/
def openState (io : FileIo) (provider : LlmProvider) (file : Option ProviderLimitState) : Option ProviderLimitState :=
  if io.readable then
    let state := file.getD (stateInit provider)
    if state.providerId = provider.id ∧ 0 ≤ state.dayCount ∧ 0 ≤ state.dayUsdReservedMicros ∧ 0 ≤ state.minuteCount then
      some state
    else none
  else none

inductive Verdict
  | ok | blockedRpm | blockedDaily | blockedUsd | failed
  deriving DecidableEq, Repr

/-- `limit_disabled`, and the dollar limit of zero. -/
def limitDisabled (provider : LlmProvider) (enforceUsd : Bool) : Option Verdict :=
  if provider.rpmLimit = 0 then some .blockedRpm
  else if provider.dailyLimit = 0 then some .blockedDaily
  else if enforceUsd ∧ provider.usdLimitMicros = 0 then some .blockedUsd
  else none

/-- No limit applies, so nothing is counted. -/
def unlimited (provider : LlmProvider) (enforceUsd : Bool) : Bool :=
  provider.rpmLimit < 0 ∧ provider.dailyLimit < 0 ∧ (!enforceUsd ∨ provider.usdLimitMicros < 0)

/-- The limit a request runs into, if any. -/
def limitReached (provider : LlmProvider) (enforceUsd : Bool) (requestUsdMicros : Int) (state : ProviderLimitState) :
    Option Verdict :=
  if 0 ≤ provider.dailyLimit ∧ provider.dailyLimit ≤ state.dayCount then some .blockedDaily
  else if 0 ≤ provider.rpmLimit ∧ provider.rpmLimit ≤ state.minuteCount then some .blockedRpm
  else if enforceUsd ∧ 0 ≤ provider.usdLimitMicros ∧ (provider.usdLimitMicros < requestUsdMicros ∨
      provider.usdLimitMicros - requestUsdMicros < state.dayUsdReservedMicros) then some .blockedUsd
  else none

def admitCall (enforceUsd : Bool) (requestUsdMicros : Int) (state : ProviderLimitState) : ProviderLimitState :=
  { state with
    dayCount := state.dayCount + 1
    minuteCount := state.minuteCount + 1
    dayUsdReservedMicros := if enforceUsd then state.dayUsdReservedMicros + requestUsdMicros
      else state.dayUsdReservedMicros }

/-- What `reserve_at` answers, and the record it wrote if it wrote one. -/
structure Reserved where
  verdict : Verdict
  written : Option ProviderLimitState

def reserveAt (dayKeyOf : Int → Bytes) (provider : LlmProvider) (io : FileIo) (now : Int) (enforceUsd : Bool)
    (requestUsdMicros : Int) (file : Option ProviderLimitState) : Reserved :=
  match limitDisabled provider enforceUsd with
  | some verdict => ⟨verdict, none⟩
  | none =>
    if unlimited provider enforceUsd then ⟨.ok, none⟩
    else
      match openState io provider file with
      | none => ⟨.failed, none⟩
      | some state =>
        let state := stateRollWindows dayKeyOf now state
        match limitReached provider enforceUsd requestUsdMicros state with
        | some verdict => ⟨verdict, none⟩
        | none =>
          if io.writable then ⟨.ok, some (admitCall enforceUsd requestUsdMicros state)⟩ else ⟨.failed, none⟩

/-- `llm_provider_limit_reserve_request_at`, with the cost ceiling the pricing table gives; without one a request under
a dollar limit is blocked. -/
def reserveRequestAt (dayKeyOf : Int → Bytes) (provider : LlmProvider) (io : FileIo) (now : Int) (ceiling : Option Int)
    (file : Option ProviderLimitState) : Reserved :=
  if provider.usdLimitMicros < 0 then reserveAt dayKeyOf provider io now false 0 file
  else if provider.usdLimitMicros = 0 then reserveAt dayKeyOf provider io now true 0 file
  else
    match ceiling with
    | none => ⟨.blockedUsd, none⟩
    | some request => reserveAt dayKeyOf provider io now true request file

/-- The replacement of a reservation by the actual cost; the sum is clamped on both sides. -/
def replaceReserved (reservedDayKey : Bytes) (reservedMicros actualMicros : Int) (state : ProviderLimitState) :
    ProviderLimitState :=
  let left := if state.dayKey = reservedDayKey then max 0 (state.dayUsdReservedMicros - reservedMicros)
    else state.dayUsdReservedMicros
  { state with dayUsdReservedMicros := if int64Max - left < actualMicros then int64Max else left + actualMicros }

/-- `adjust_reserved`: the record it wrote, `none` when it failed. -/
def adjustReserved (dayKeyOf : Int → Bytes) (provider : LlmProvider) (io : FileIo) (now : Int) (reservedDayKey : Bytes)
    (reservedMicros actualMicros : Int) (file : Option ProviderLimitState) : Option ProviderLimitState :=
  if reservedMicros < 0 ∨ actualMicros < 0 then none
  else
    match openState io provider file with
    | none => none
    | some state =>
      if io.writable then
        some (replaceReserved reservedDayKey reservedMicros actualMicros (stateRollWindows dayKeyOf now state))
      else none

inductive LlmBudgetOutcome
  | none | kept | settled | released
  deriving DecidableEq, Repr

/-- The budget fields of a call's usage. -/
structure LlmUsage where
  budgetOutcome : LlmBudgetOutcome
  budgetReservedMicros : Int
  budgetDayKey : Bytes
  deriving DecidableEq

/-- What is known of a finished call: reported tokens with their price, which may be missing, or no report. -/
inductive UsageReport
  | reported (micros : Option Int)
  | unreported (dispatched : Bool)
  deriving DecidableEq

/-- The actual cost a settlement charges, if it is made. -/
def actualMicros : UsageReport → Option Int
  | .reported micros => micros
  | .unreported dispatched => if dispatched then none else some 0

/-- `llm_provider_limit_settle_request_at`: the record it wrote, and the usage with its new outcome. -/
def settleRequestAt (dayKeyOf : Int → Bytes) (provider : LlmProvider) (io : FileIo) (now : Int) (report : UsageReport)
    (usage : LlmUsage) (file : Option ProviderLimitState) : Option (ProviderLimitState × LlmUsage) :=
  if usage.budgetOutcome ≠ .kept then none
  else
    match actualMicros report with
    | none => none
    | some actual =>
      match adjustReserved dayKeyOf provider io now usage.budgetDayKey usage.budgetReservedMicros actual file with
      | none => none
      | some state =>
        some (state, { usage with budgetOutcome := match report with | .reported _ => .settled | .unreported _ => .released })

end Floofclaw.Source.ProviderLimit
