import Floofclaw.Source.AffairState
import Floofclaw.Source.Bus

/-!
# The affair watcher

Model of `gateway/affair_watcher_module.c`: a tick that is due lists the affairs
to review, publishes one envelope for each it takes up and clears its review
time. Each helper reads the store file on its own; what becomes of a turn's
file accesses and of its publication is part of the tick. Only the tick writes
the store while it runs.
-/

set_option autoImplicit false

namespace Floofclaw.Source.AffairWatcher
open Floofclaw.Lib Floofclaw.Source.Json Floofclaw.Source.AffairState Floofclaw.Source.Bus
open Floofclaw.Source.StoreFile hiding writeStore

def dueMax : Nat := 16

/-- What becomes of the accesses of one turn, and the time the reducer reads in it. -/
structure Turn where
  contextReadable : Bool
  manageReadable : Bool
  reservation : Reservation
  bus : BusIo
  review : FileIo
  now : Int
  nowLong : int64Min ≤ now ∧ now ≤ int64Max

structure Tick where
  stableWallMs : Int
  actualWallMs : Nat
  /-- The contexts of the runs that are neither done nor failed. -/
  activeContexts : List Bytes
  listReadable : Bool
  turns : Nat → Turn

structure State where
  file : Option Bytes
  bus : BusState
  firedContexts : List Bytes

/-- `context_has_active_run`. -/
def contextHasActiveRun (t : Tick) (contextId : Bytes) : Bool := contextId ≠ [] && t.activeContexts.contains contextId

/-- The channel of `chat:<channel>` or `chat:<channel>:<adapter>`, as far as its buffer goes. -/
def reviewChannel (contextId : Bytes) : Bytes :=
  if (lit "chat:").isPrefixOf contextId then
    clip rtSmall ((contextId.drop 5).takeWhile fun c => c ≠ ch ':')
  else []

/-- What follows the colon behind the channel; a channel cut by its buffer is followed by no colon. -/
def reviewAdapter (contextId : Bytes) : Bytes :=
  if (lit "chat:").isPrefixOf contextId then
    match (contextId.drop 5).drop (reviewChannel contextId).length with
    | c :: rest => if c = ch ':' then clip rtSmall rest else []
    | [] => []
  else []

def reviewText (manage : Bytes) : Bytes :=
  clip rtLarge (lit "(affair review) Check on this affair and respond: " ++ manage)

/-- `publish_review` on the manage text it read. -/
def publishReview (turn : Turn) (bus : BusState) (affairId contextId manage : Bytes) : BusState :=
  match mirror rtLarge (reviewText manage), mirror rtMed affairId, mirror rtMed (reviewAdapter contextId) with
  | some etext, some eaffair, some eadapter =>
    let payload := clip (rtLarge + 256) (objText [(lit "text", quoted etext), (lit "affair_id", quoted eaffair),
      (lit "adapter_id", quoted eadapter)])
    let channel := if reviewChannel contextId = [] then lit "tests" else reviewChannel contextId
    (busPublish turn.reservation turn.bus bus channel (lit "affair_review") payload).2
  | _, _, _ => bus

/-- The event that marks an affair reviewed. -/
def reviewedEvent (actualWallMs : Nat) (eaff : Bytes) : Call :=
  .applyEvent (lit "affair_reviewed") (objText [(lit "affair_id", quoted eaff), (lit "ms", decNat actualWallMs)])

/-- The store file after an affair was marked reviewed. -/
def markReviewed (turn : Turn) (actualWallMs : Nat) (affairId : Bytes) (file : Option Bytes) : Option Bytes :=
  match mirror rtMed affairId with
  | none => file
  | some eaff => (call turn.now turn.review (reviewedEvent actualWallMs eaff) file).1

local instance bytesLawful : LawfulBEq Bytes := inferInstance

/-- One due affair. -/
def dueTurn (t : Tick) (s : State) (due : Bytes × Nat) : State :=
  let turn := t.turns due.2
  match rtAffairContextIdOf due.1 (loadStore (fsReadText { readable := turn.contextReadable } s.file)) with
  | none => s
  | some contextId =>
    if contextHasActiveRun t contextId ∨ contextId ∈ s.firedContexts then s
    else
      { file := markReviewed turn t.actualWallMs due.1 s.file
        bus := match rtAffairGetManage due.1 (loadStore (fsReadText { readable := turn.manageReadable } s.file)) with
          | none => s.bus
          | some manage => publishReview turn s.bus due.1 contextId manage
        firedContexts := s.firedContexts ++ [contextId] }

/-- The due affairs of a tick, each with the number of its turn. -/
def dueAffairs (t : Tick) (file : Option Bytes) : List (Bytes × Nat) :=
  (rtAffairListDue t.stableWallMs dueMax (loadStore (fsReadText { readable := t.listReadable } file))).zipIdx

def watcherTick (t : Tick) (file : Option Bytes) (bus : BusState) : State :=
  (dueAffairs t file).foldl (dueTurn t) ⟨file, bus, []⟩

end Floofclaw.Source.AffairWatcher
