import Floofclaw.Source.SecretBroker

/-!
# Secrets of one action

The keys of an action begin with its namespace, and an action id has no colon, so
the namespaces of two actions are apart. A request commutes with cutting the store
down to a set of keys that holds the whole namespace, and it leaves alone every set
of keys apart from it. A run therefore shows an action what it would see alone.
-/

set_option autoImplicit false

namespace Floofclaw.Guarantees.SecretIsolation
open Floofclaw.Lib Floofclaw.Source.SecretBroker

/-! ## Namespaces -/

def own (actionId key : Bytes) : Bool := (namespaceOf actionId).isPrefixOf key

theorem own_iff {actionId key : Bytes} : own actionId key = true ↔ ∃ suffix, key = makeKey actionId suffix := by
  rw [own, List.isPrefixOf_iff_prefix]
  exact ⟨fun ⟨suffix, h⟩ => ⟨suffix, h.symm⟩, fun ⟨suffix, h⟩ => ⟨suffix, h.symm⟩⟩

theorem makeKey_own (actionId suffix : Bytes) : own actionId (makeKey actionId suffix) = true := own_iff.mpr ⟨suffix, rfl⟩

theorem isNameByte_colon {c : Byte} (h : isNameByte c = true) : c ≠ ch ':' := by
  rintro rfl
  exact absurd h (by decide)

theorem safeId_takeWhile {actionId : Bytes} (h : safeId actionId = true) (rest : Bytes) :
    (actionId ++ lit ":" ++ rest).takeWhile (· != ch ':') = actionId := by
  rw [safeId, Bool.and_eq_true, Bool.and_eq_true, List.all_eq_true] at h
  rw [List.append_assoc, List.takeWhile_append_of_pos fun c hc => by simpa using isNameByte_colon (h.1.2 c hc)]
  exact List.append_nil _

/-- No key belongs to two actions. -/
theorem own_unique {a b key : Bytes} (ha : safeId a = true) (hb : safeId b = true) (hka : own a key = true)
    (hkb : own b key = true) : a = b := by
  obtain ⟨suffixA, rfl⟩ := own_iff.mp hka
  obtain ⟨suffixB, hkey⟩ := own_iff.mp hkb
  simp only [makeKey, namespaceOf, List.append_assoc] at hkey
  have hrest := List.append_cancel_left hkey
  rw [← List.append_assoc, ← List.append_assoc] at hrest
  rw [← safeId_takeWhile ha suffixA, hrest, safeId_takeWhile hb]

/-! ## The store cut down to a set of keys -/

def keep (q : Bytes → Bool) (store : Store) : Store := store.filter fun e => q e.1

section Keep
variable {q : Bytes → Bool} {store : Store} {key value : Bytes}

theorem storeFind_keep (hq : q key = true) : storeFind (keep q store) key = storeFind store key := by
  have hsame : (fun e : Bytes × Bytes => decide (q e.1 = true ∧ (e.1 == key) = true)) = fun e => e.1 == key := by
    funext e
    by_cases hkey : e.1 = key <;> simp [hkey, hq]
  rw [storeFind, storeFind, keep, List.find?_filter]
  exact congrArg (fun p => (store.find? p).map Prod.snd) hsame

theorem storePut_keep (hq : q key = true) : keep q (storePut store key value) = storePut (keep q store) key value := by
  have hany : (keep q store).any (fun e => e.1 == key) = store.any fun e => e.1 == key := by
    rw [Bool.eq_iff_iff]
    simp only [List.any_eq_true, keep, List.mem_filter, beq_iff_eq]
    exact ⟨fun ⟨e, he, hkey⟩ => ⟨e, he.1, hkey⟩, fun ⟨e, he, hkey⟩ => ⟨e, ⟨he, hkey ▸ hq⟩, hkey⟩⟩
  rw [storePut, storePut, hany]
  split
  · rw [keep, keep, List.filter_map]
    congr 1
    refine List.filter_congr fun e _ => ?_
    by_cases hkey : e.1 = key <;> simp [hkey]
  · simp [keep, hq]

theorem storePut_keep_other (hq : q key = false) : keep q (storePut store key value) = keep q store := by
  rw [storePut]
  split
  · rw [keep, keep, List.filter_map]
    have hsame : ∀ e ∈ store.filter (fun e => q e.1), (if e.1 = key then (key, value) else e) = e := by
      intro e he
      refine if_neg fun hkey => ?_
      have hqe := (List.mem_filter.mp he).2
      rw [hkey, hq] at hqe
      exact absurd hqe (by decide)
    have hcomp : ((fun e : Bytes × Bytes => q e.1) ∘ fun e => if e.1 = key then (key, value) else e) = fun e => q e.1 := by
      funext e
      by_cases hkey : e.1 = key <;> simp [hkey]
    rw [hcomp]
    exact (List.map_congr_left hsame).trans (List.map_id _)
  · simp [keep, hq]

theorem secretStoreSet_keep (hq : q key = true) (io : Bool) :
    secretStoreSet (keep q store) key value io = (secretStoreSet store key value io).map (keep q) := by
  unfold secretStoreSet
  split
  · rfl
  · rw [← storePut_keep hq]
    rfl

theorem secretStoreSet_keep_other (hq : q key = false) {io : Bool} {store' : Store}
    (h : secretStoreSet store key value io = some store') : keep q store' = keep q store := by
  unfold secretStoreSet at h
  split at h
  · cases h
  · rw [← Option.some.inj h, storePut_keep_other hq]

theorem secretStoreDelete_keep (io : Bool) :
    secretStoreDelete (keep q store) key io = (secretStoreDelete store key io).map (keep q) := by
  unfold secretStoreDelete
  split
  · rfl
  · refine congrArg some ?_
    rw [keep, keep, List.filter_filter, List.filter_filter]
    exact List.filter_congr fun e _ => Bool.and_comm _ _

theorem secretStoreDelete_keep_other (hq : q key = false) {io : Bool} {store' : Store}
    (h : secretStoreDelete store key io = some store') : keep q store' = keep q store := by
  unfold secretStoreDelete at h
  split at h
  · cases h
  · rw [← Option.some.inj h, keep, keep, List.filter_filter]
    refine List.filter_congr fun e _ => ?_
    by_cases hkey : e.1 = key <;> simp [hkey, hq]

end Keep

/-! ## Requests -/

def mapStore (f : Store → Store) : Handled → Handled
  | .replies text store => .replies text (f store)
  | h => h

theorem mapStore_setResponse (f : Store → Store) (text : Bytes) (store : Store) :
    mapStore f (setResponse text store) = setResponse text (f store) := by
  unfold setResponse
  split <;> rfl

theorem setResponse_store {text reply : Bytes} {store store' : Store} (h : setResponse text store = .replies reply store') :
    reply = text ∧ store' = store := by
  unfold setResponse at h
  split at h
  · cases h
  · cases h
    exact ⟨rfl, rfl⟩

def suffixOf (fragment key : Bytes) : Option Bytes :=
  if fragment.isPrefixOf key && decide (fragment.length < key.length) then some (key.drop fragment.length) else none

theorem suffixOf_other {actionId key : Bytes} (h : ∀ suffix, key ≠ makeKey actionId suffix) :
    suffixOf (namespaceOf actionId) key = none := by
  have hout : (namespaceOf actionId).isPrefixOf key = false :=
    Bool.eq_false_iff.mpr fun hin => (own_iff.mp hin).elim h
  rw [suffixOf, hout]
  rfl

/-- The header of a request as the handlers see it. -/
def textOf (request : Bytes) : Bytes := cstr (headerOf request)

/-- What is behind the line of a request. -/
def bodyOf (request : Bytes) : Bytes := request.drop ((headerOf request).length + 1)

/-- A `SET` that is taken: suffix and announced length. -/
def acceptedSet (request : Bytes) : Option (Bytes × Nat) :=
  if (lit "SET ").isPrefixOf (textOf request) then setHeader ((textOf request).drop 4) else none

section Requests
variable {q : Bytes → Bool} {actionId : Bytes}

/-! ### What an action sees -/

theorem handleDelete_keep (store : Store) (io : Bool) (suffix : Bytes) :
    handleDelete actionId suffix (keep q store) io = mapStore (keep q) (handleDelete actionId suffix store io) := by
  unfold handleDelete
  rw [secretStoreDelete_keep]
  split
  · rw [mapStore_setResponse]
  · cases secretStoreDelete store (makeKey actionId suffix) io with
    | none => exact (mapStore_setResponse ..).symm
    | some store' => exact (mapStore_setResponse ..).symm

section Inside
variable (hq : ∀ suffix, q (makeKey actionId suffix) = true) (store : Store) (io : Bool)
include hq

theorem handleGet_keep (suffix : Bytes) :
    handleGet actionId suffix (keep q store) io = mapStore (keep q) (handleGet actionId suffix store io) := by
  unfold handleGet secretStoreGet
  rw [storeFind_keep (hq suffix)]
  split
  · rw [mapStore_setResponse]
  · split <;> rw [mapStore_setResponse]

theorem secretStoreListPrefix_keep :
    secretStoreListPrefix (keep q store) (namespaceOf actionId) io = secretStoreListPrefix store (namespaceOf actionId) io := by
  have hsuffixes : ((keep q store).map Prod.fst).filterMap (suffixOf (namespaceOf actionId)) =
      (store.map Prod.fst).filterMap (suffixOf (namespaceOf actionId)) := by
    rw [keep, List.filterMap_map, List.filterMap_map, List.filterMap_filter]
    refine List.filterMap_congr fun e _ => ?_
    cases he : q e.1 with
    | true => rfl
    | false => exact (suffixOf_other fun suffix hkey => by simp [hkey, hq] at he).symm
  exact congrArg
    (fun suffixes => if !sanitizeKey (namespaceOf actionId) then none else if !io then some [] else some suffixes) hsuffixes

theorem handleList_keep : handleList actionId (keep q store) io = mapStore (keep q) (handleList actionId store io) := by
  unfold handleList
  rw [secretStoreListPrefix_keep hq]
  split
  · rw [mapStore_setResponse]
  · dsimp only
    split <;> rw [mapStore_setResponse]

theorem handleSet_keep (args rest : Bytes) :
    handleSet actionId args rest (keep q store) io = mapStore (keep q) (handleSet actionId args rest store io) := by
  unfold handleSet
  split
  · rw [mapStore_setResponse]
  · rename_i suffix valueLen _
    rw [secretStoreSet_keep (hq suffix)]
    split
    · rfl
    split
    · rfl
    cases secretStoreSet store (makeKey actionId suffix) rest io with
    | none => exact (mapStore_setResponse ..).symm
    | some store' => exact (mapStore_setResponse ..).symm

/-- A request sees no more of the store than the keys of its action. -/
theorem handleRequest_keep (input : Bytes) :
    handleRequest actionId input (keep q store) io = mapStore (keep q) (handleRequest actionId input store io) := by
  unfold handleRequest
  dsimp only
  split
  · split <;> rfl
  split
  · rfl
  unfold handleLine
  split
  · exact handleGet_keep hq store io _
  split
  · exact handleDelete_keep store io _
  split
  · exact handleList_keep hq store io
  split
  · exact handleSet_keep hq store io _ _
  · rw [mapStore_setResponse]

end Inside

/-! ### What an action changes -/

/-- What a reply leaves of the store. -/
inductive Changed (actionId request : Bytes) (store : Store) (io : Bool) : Store → Prop
  | same : Changed actionId request store io store
  | set {suffix value : Bytes} {valueLen : Nat} {store' : Store} (hset : acceptedSet request = some (suffix, valueLen))
    (h : secretStoreSet store (makeKey actionId suffix) value io = some store') : Changed actionId request store io store'
  | deleted {suffix : Bytes} {store' : Store} (hdelete : textOf request = lit "DELETE " ++ suffix)
    (h : secretStoreDelete store (makeKey actionId suffix) io = some store') : Changed actionId request store io store'

theorem changed_of_setResponse {request text reply : Bytes} {store store' store'' : Store} {io : Bool}
    (h : setResponse text store' = .replies reply store'') (hc : Changed actionId request store io store') :
    Changed actionId request store io store'' := by
  rwa [(setResponse_store h).2]

theorem drop_of_isPrefixOf {p s : Bytes} (h : p.isPrefixOf s = true) : s = p ++ s.drop p.length :=
  List.prefix_iff_eq_append.mp (List.isPrefixOf_iff_prefix.mp h) |>.symm

theorem handleRequest_changed {request reply : Bytes} {store store' : Store} {io : Bool}
    (h : handleRequest actionId request store io = .replies reply store') : Changed actionId request store io store' := by
  unfold handleRequest at h
  dsimp only at h
  split at h
  · split at h <;> cases h
  split at h
  · cases h
  unfold handleLine at h
  split at h
  · unfold handleGet at h
    split at h
    · exact changed_of_setResponse h .same
    · split at h <;> exact changed_of_setResponse h .same
  split at h
  · rename_i hdelete
    unfold handleDelete at h
    split at h
    · exact changed_of_setResponse h .same
    · split at h
      · exact changed_of_setResponse h .same
      · exact changed_of_setResponse h (.deleted (drop_of_isPrefixOf hdelete) ‹_›)
  split at h
  · unfold handleList at h
    split at h
    · exact changed_of_setResponse h .same
    · dsimp only at h
      split at h <;> exact changed_of_setResponse h .same
  split at h
  · rename_i hset
    unfold handleSet at h
    split at h
    · exact changed_of_setResponse h .same
    rename_i hheader
    split at h
    · cases h
    split at h
    · cases h
    split at h
    · exact changed_of_setResponse h .same
    · exact changed_of_setResponse h (.set ((if_pos hset).trans hheader) ‹_›)
  · exact changed_of_setResponse h .same

/-- A request leaves the keys of others as they are. -/
theorem Changed.keep_other (hq : ∀ suffix, q (makeKey actionId suffix) = false) {request : Bytes} {store store' : Store}
    {io : Bool} (h : Changed actionId request store io store') : keep q store' = keep q store := by
  cases h with
  | same => rfl
  | set _ h => exact secretStoreSet_keep_other (hq _) h
  | deleted _ h => exact secretStoreDelete_keep_other (hq _) h

end Requests

/-! ## Events -/

section Events
variable {q : Bytes → Bool} {actionId : Bytes}

theorem serve_keep (hq : ∀ suffix, q (makeKey actionId suffix) = true) (store : Store) (b : Broker) (room : Nat)
    (broken io : Bool) :
    serve actionId (keep q store) b room broken io =
      { serve actionId store b room broken io with store := keep q (serve actionId store b room broken io).store } := by
  have hrequest : (if b.output = [] then handleRequest actionId b.input (keep q store) io else .waits) =
      mapStore (keep q) (if b.output = [] then handleRequest actionId b.input store io else .waits) := by
    split
    · exact handleRequest_keep hq store io _
    · rfl
  unfold serve
  rw [hrequest]
  cases (if b.output = [] then handleRequest actionId b.input store io else .waits) with
  | fails => rfl
  | waits =>
    dsimp only [mapStore]
    split <;> rfl
  | replies text store' =>
    dsimp only [mapStore]
    split <;> rfl

theorem onEvents_keep (hq : ∀ suffix, q (makeKey actionId suffix) = true) (store : Store) (b : Broker) (e : Ready) :
    onEvents actionId (keep q store) b e =
      { onEvents actionId store b e with store := keep q (onEvents actionId store b e).store } := by
  unfold onEvents
  split
  · rfl
  · dsimp only
    split
    · rfl
    · cases readInput b.input e.readable with
      | none => rfl
      | some input => simp only [serve_keep hq]

theorem serve_keep_other (hq : ∀ suffix, q (makeKey actionId suffix) = false) (store : Store) (b : Broker) (room : Nat)
    (broken io : Bool) : keep q (serve actionId store b room broken io).store = keep q store := by
  unfold serve
  split
  · rfl
  · split <;> rfl
  · rename_i text store' hreply
    have hchanged : keep q store' = keep q store := by
      split at hreply
      · exact (handleRequest_changed hreply).keep_other hq
      · cases hreply
    split <;> exact hchanged

theorem onEvents_keep_other (hq : ∀ suffix, q (makeKey actionId suffix) = false) (store : Store) (b : Broker) (e : Ready) :
    keep q (onEvents actionId store b e).store = keep q store := by
  unfold onEvents
  split
  · rfl
  · dsimp only
    split
    · rfl
    · split
      · rfl
      · exact serve_keep_other hq ..

end Events

/-! ## Runs -/

/-- What belongs to one action. -/
def restrict (id : Bytes) (s : State) : State where
  store := keep (own id) s.store
  sessions actionId n := if actionId = id then s.sessions actionId n else none
  log := s.log.filter fun entry => entry.actionId = id

theorem own_other {id actionId : Bytes} (hid : safeId id = true) (hsafe : safeId actionId = true) (hne : actionId ≠ id)
    (suffix : Bytes) : own id (makeKey actionId suffix) = false :=
  Bool.eq_false_iff.mpr fun h => hne (own_unique hsafe hid (makeKey_own actionId suffix) h)

theorem restrict_put (id : Bytes) (s : State) (n : Nat) (session : Session) :
    restrict id (s.put id n session) = (restrict id s).put id n session := by
  simp only [restrict, State.put, State.mk.injEq, true_and, and_true]
  funext actionId m
  by_cases hid : actionId = id
  · rw [if_pos hid, if_pos hid]
  · rw [if_neg hid, if_neg (fun h => hid h.1), if_neg hid]

theorem restrict_put_other {id actionId : Bytes} (hne : actionId ≠ id) (s : State) (n : Nat) (session : Session) :
    restrict id (s.put actionId n session) = restrict id s := by
  simp only [restrict, State.put, State.mk.injEq, true_and, and_true]
  funext a m
  by_cases hid : a = id
  · rw [if_pos hid, if_pos hid, if_neg fun h => hne (h.1.symm.trans hid)]
  · rw [if_neg hid, if_neg hid]

theorem restrict_session (id : Bytes) (s : State) (n : Nat) : (restrict id s).sessions id n = s.sessions id n := if_pos rfl

/-- A step of the action does the same when the action is alone. -/
theorem step_own {id : Bytes} {s s' : State} {i : Step} (hi : i.actionId = id) (hstep : step s i = some s') :
    step (restrict id s) i = some (restrict id s') := by
  cases i with
  | opened actionId n =>
    obtain rfl : actionId = id := hi
    simp only [step, restrict_session] at hstep ⊢
    split at hstep
    · cases hstep
    · rename_i hsafe
      rw [if_neg hsafe]
      split at hstep
      · cases hstep
      · rw [← Option.some.inj hstep, restrict_put]
  | events actionId n e last =>
    obtain rfl : actionId = id := hi
    simp only [step, restrict_session] at hstep ⊢
    split at hstep
    · cases hstep
    · rename_i hsafe
      obtain ⟨session, hsession, rfl⟩ := Option.map_eq_some_iff.mp hstep
      rw [if_neg hsafe, hsession, Option.map_some, Option.some.injEq]
      unfold serveSession
      split
      · rfl
      · have hserved := onEvents_keep (makeKey_own actionId) s.store session.broker e
        dsimp only
        rw [restrict_put, show (restrict actionId s).store = keep (own actionId) s.store from rfl, hserved]
        refine congrArg (fun s => State.put s actionId n _) ?_
        simp only [restrict, State.mk.injEq, true_and, List.filter_append]
        congr 1
        cases (onEvents actionId s.store session.broker e).answered <;> simp

/-- A step of another action changes nothing here. -/
theorem step_other {id : Bytes} (hid : safeId id = true) {s s' : State} {i : Step} (hi : i.actionId ≠ id)
    (hstep : step s i = some s') : restrict id s' = restrict id s := by
  cases i with
  | opened actionId n =>
    have hne : actionId ≠ id := hi
    simp only [step] at hstep
    split at hstep
    · cases hstep
    split at hstep
    · cases hstep
    · rw [← Option.some.inj hstep, restrict_put_other hne]
  | events actionId n e last =>
    simp only [step] at hstep
    split at hstep
    · cases hstep
    · rename_i hsafe
      obtain ⟨session, -, rfl⟩ := Option.map_eq_some_iff.mp hstep
      unfold serveSession
      split
      · rfl
      · dsimp only
        have hne : actionId ≠ id := hi
        rw [restrict_put_other hne]
        have hstore := onEvents_keep_other (own_other hid (by simpa using hsafe) hne) s.store session.broker e
        simp only [restrict, hstore, State.mk.injEq, true_and, List.filter_append]
        cases (onEvents actionId s.store session.broker e).answered <;> simp [hne]

/-- The steps of one action alone lead to what the whole run leaves of it. -/
theorem exec_restrict {id : Bytes} (hid : safeId id = true) {steps : List Step} {s s' : State}
    (h : exec step s steps = some s') :
    exec step (restrict id s) (steps.filter fun i => i.actionId = id) = some (restrict id s') := by
  induction steps generalizing s with
  | nil => exact congrArg (fun s => some (restrict id s)) (Option.some.inj h)
  | cons i steps ih =>
    obtain ⟨s1, hstep, hrest⟩ := Option.bind_eq_some_iff.mp h
    by_cases hi : i.actionId = id
    · rw [List.filter_cons_of_pos (by simpa using hi), exec, step_own hi hstep]
      exact ih hrest
    · rw [List.filter_cons_of_neg (by simpa using hi), ← step_other hid hi hstep]
      exact ih hrest

/-- The keys that belong to no action of a run stay as they are. -/
theorem exec_others {q : Bytes → Bool} {steps : List Step} {s s' : State} (h : exec step s steps = some s')
    (hq : ∀ i ∈ steps, ∀ suffix, q (makeKey i.actionId suffix) = false) : keep q s'.store = keep q s.store := by
  induction steps generalizing s with
  | nil => rw [Option.some.inj h]
  | cons i steps ih =>
    obtain ⟨s1, hstep, hrest⟩ := Option.bind_eq_some_iff.mp h
    rw [ih hrest fun j hj => hq j (List.mem_cons_of_mem _ hj)]
    cases i with
    | opened actionId n =>
      simp only [step] at hstep
      split at hstep
      · cases hstep
      split at hstep
      · cases hstep
      · rw [← Option.some.inj hstep]
        rfl
    | events actionId n e last =>
      simp only [step] at hstep
      split at hstep
      · cases hstep
      · obtain ⟨session, -, rfl⟩ := Option.map_eq_some_iff.mp hstep
        unfold serveSession
        split
        · rfl
        · exact onEvents_keep_other (hq _ List.mem_cons_self) ..

end Floofclaw.Guarantees.SecretIsolation
