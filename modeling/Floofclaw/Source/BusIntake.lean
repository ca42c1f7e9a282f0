import Floofclaw.Lib.ByteOrder
import Floofclaw.Source.Bus

/-!
# Taking envelopes from the inbox

Model of `inbox_scan_sorted`, `bus_pop_oldest` and `bus_drain_inbox` in
`bus/bus.c`. The inbox is the list of its file names in the order `readdir`
gives them; a scan that fails hands nothing over and is left out. Which renames
succeed and where the handler stops are parameters.
-/

set_option autoImplicit false

namespace Floofclaw.Source.BusIntake
open Floofclaw.Lib Floofclaw.Source.Bus

def busNamesCap : Nat := 1024
def busNameMax : Nat := 64

/-- The file of an envelope. -/
def envelopeFile (n : Nat) : Bytes := envelopeName n ++ lit ".json"

/-- `is_committed_envelope_name`. -/
def isCommittedEnvelopeName (name : Bytes) : Bool :=
  (lit "bus_").isPrefixOf name && !((name.drop 4).takeWhile isDigit).isEmpty &&
    (name.drop 4).dropWhile isDigit = lit ".json"

/-- `inbox_scan_sorted`: the first committed names that fit the slots, in the order of `strcmp`. -/
def inboxScanSorted (entries : List Bytes) : List Bytes :=
  sortNames (((entries.filter isCommittedEnvelopeName).take busNamesCap).map (clip busNameMax))

/-- `bus_pop_oldest`: the envelope handed over. -/
def busPopOldest (moves : Bytes → Bool) (entries : List Bytes) : Option Bytes :=
  (inboxScanSorted entries).head?.filter moves

/-- The loop of `bus_drain_inbox`: a rename that fails is passed over. -/
def drainLoop (moves stop : Bytes → Bool) : List Bytes → List Bytes
  | [] => []
  | name :: names =>
    if moves name then name :: (if stop name then [] else drainLoop moves stop names)
    else drainLoop moves stop names

/-- `bus_drain_inbox`: the envelopes handed over, in their order. -/
def busDrainInbox (budget : Int) (moves stop : Bytes → Bool) (entries : List Bytes) : List Bytes :=
  drainLoop moves stop ((inboxScanSorted entries).take budget.toNat)

end Floofclaw.Source.BusIntake
