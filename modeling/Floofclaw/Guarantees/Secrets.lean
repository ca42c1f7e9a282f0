import Floofclaw.Guarantees.SecretIsolation

/-!
# A faithful secret store

An action sees and changes its own keys only. For a client that waits for each reply
the answered requests are the requests it sent whole, and the replies are those of a
store that takes the requests one by one, however their octets were cut, as long as
the last octets do not come together with the end of the stream, a `SET` the broker
refuses at its header has no value behind it, and a value does not end in a line
break, which reading it back would cut off. The invariant says that what an open
session holds is a part of one request, and that what its client received and what
is not sent yet are the replies.
-/

set_option autoImplicit false

namespace Floofclaw.Guarantees.Secrets
open Floofclaw.Lib Floofclaw.Source.SecretBroker Floofclaw.Guarantees.SecretIsolation

/-! ## Requests -/

def hasLine (request : Bytes) : Bool :=
  decide ((headerOf request).length < request.length) && !(headerOf request).isEmpty &&
    decide ((headerOf request).length < brokerHeaderMax)

/-- What may be read of a request before its last octets. -/
def isPart (request : Bytes) : Bool :=
  decide ((headerOf request).length = request.length ∧ request.length < brokerHeaderMax) ||
    hasLine request && (acceptedSet request).any fun p => decide ((bodyOf request).length < p.2)

/-- A request the protocol knows: a line, and a value behind it in a `SET` that is taken. The value comes back as it was
set, its key fits the store, and the store answers. -/
def isWhole (actionId request : Bytes) (io : Bool) : Bool :=
  hasLine request &&
    match acceptedSet request with
    | none => (bodyOf request).isEmpty && (io || !(lit "GET ").isPrefixOf (textOf request))
    | some (suffix, valueLen) =>
      decide ((bodyOf request).length = valueLen) && !(bodyOf request).contains 0 &&
        (bodyOf request).getLast?.all (fun c => !isLineEnd c) && sanitizeKey (makeKey actionId suffix) && io

theorem hasLine_iff {request : Bytes} : hasLine request = true ↔
    (headerOf request).length < request.length ∧ headerOf request ≠ [] ∧ (headerOf request).length < brokerHeaderMax := by
  simp [hasLine, and_assoc]

theorem setHeader_safe {args suffix : Bytes} {valueLen : Nat} (h : setHeader args = some (suffix, valueLen)) :
    safeSuffix suffix = true ∧ 0 < valueLen ∧ valueLen ≤ actionSecretValueMax := by
  rw [setHeader] at h
  obtain ⟨⟨word, rest⟩, -, h⟩ := Option.bind_eq_some_iff.mp h
  obtain ⟨⟨n, rest'⟩, -, h⟩ := Option.bind_eq_some_iff.mp h
  dsimp only at h
  split at h
  · cases h
  split at h
  · cases h
  · rename_i hsafe
    cases h
    simp only [Bool.or_eq_true, Bool.not_eq_true', decide_eq_true_eq, not_or, Bool.not_eq_false, not_lt] at hsafe
    exact ⟨hsafe.1.1, Nat.pos_of_ne_zero hsafe.1.2, hsafe.2⟩

theorem acceptedSet_safe {request suffix : Bytes} {valueLen : Nat} (h : acceptedSet request = some (suffix, valueLen)) :
    safeSuffix suffix = true ∧ 0 < valueLen ∧ valueLen ≤ actionSecretValueMax := by
  rw [acceptedSet, Option.ite_none_right_eq_some] at h
  exact setHeader_safe h.2

theorem isPart_iff {request : Bytes} : isPart request = true ↔
    ((headerOf request).length = request.length ∧ request.length < brokerHeaderMax) ∨
      hasLine request = true ∧ ∃ suffix valueLen, acceptedSet request = some (suffix, valueLen) ∧ (bodyOf request).length < valueLen := by
  rw [isPart, Bool.or_eq_true, decide_eq_true_eq, Bool.and_eq_true, Option.any_eq_true]
  simp only [decide_eq_true_eq, Prod.exists]

theorem isWhole_iff {actionId request : Bytes} {io : Bool} : isWhole actionId request io = true ↔
    hasLine request = true ∧
      ((acceptedSet request = none ∧ bodyOf request = [] ∧ (io = true ∨ (lit "GET ").isPrefixOf (textOf request) = false)) ∨
        ∃ suffix valueLen, acceptedSet request = some (suffix, valueLen) ∧ (bodyOf request).length = valueLen ∧ 0 ∉ bodyOf request ∧
          (∀ c ∈ (bodyOf request).getLast?, isLineEnd c = false) ∧ sanitizeKey (makeKey actionId suffix) = true ∧ io = true) := by
  rw [isWhole, Bool.and_eq_true]
  rcases hset : acceptedSet request with - | ⟨suffix, valueLen⟩
  · simp
  · simp only [Bool.and_eq_true, decide_eq_true_eq, Option.all_eq_true, reduceCtorEq, false_and, false_or, and_assoc,
      Option.some.injEq, Prod.mk.injEq, Bool.not_eq_true', List.contains_eq_mem, decide_eq_false_iff_not]
    refine and_congr_right fun _ => ⟨fun h => ⟨suffix, valueLen, rfl, rfl, h⟩, ?_⟩
    rintro ⟨_, _, rfl, rfl, h⟩
    exact h

theorem length_split {request : Bytes} (h : (headerOf request).length < request.length) :
    request.length = (headerOf request).length + 1 + (bodyOf request).length := by
  rw [bodyOf, List.length_drop]
  omega

theorem isPart_nil : isPart [] = true := by decide

theorem isWhole_length {actionId request : Bytes} {io : Bool} (h : isWhole actionId request io = true) :
    request.length < actionSecretIoMax - 1 := by
  obtain ⟨hline, hbody⟩ := isWhole_iff.mp h
  obtain ⟨hlt, -, hmax⟩ := hasLine_iff.mp hline
  have hsplit := length_split hlt
  have hvalue : (bodyOf request).length ≤ actionSecretValueMax := by
    rcases hbody with ⟨-, hnil, -⟩ | ⟨suffix, valueLen, hset, hlen, -⟩
    · rw [hnil]
      exact Nat.zero_le _
    · exact hlen ▸ (acceptedSet_safe hset).2.2
  simp only [brokerHeaderMax, actionSecretValueMax, actionSecretIoMax] at *
  omega

/-! ## The reply to a request -/

theorem setResponse_short {text : Bytes} (store : Store) (h : text.length ≤ actionSecretIoMax) :
    setResponse text store = .replies text store := if_neg (Nat.not_lt.mpr h)

/-- A `SET` that is taken goes to its handler. -/
theorem handleRequest_set {request suffix : Bytes} {valueLen : Nat} (hline : hasLine request = true)
    (hset : acceptedSet request = some (suffix, valueLen)) (actionId : Bytes) (store : Store) (io : Bool) :
    handleRequest actionId request store io = handleSet actionId ((textOf request).drop 4) (bodyOf request) store io := by
  obtain ⟨hlt, hne, hmax⟩ := hasLine_iff.mp hline
  rw [acceptedSet, Option.ite_none_right_eq_some] at hset
  have hget : (lit "GET ").isPrefixOf (textOf request) = false := by
    rw [drop_of_isPrefixOf hset.1]
    rfl
  have hdelete : (lit "DELETE ").isPrefixOf (textOf request) = false := by
    rw [drop_of_isPrefixOf hset.1]
    rfl
  have hlist : textOf request ≠ lit "LIST" := fun h => absurd (h ▸ hset.1) (by (repeat rw [lit_ofList]); decide)
  unfold handleRequest
  dsimp only
  rw [if_neg hlt.ne, if_neg (not_or.mpr ⟨hne, Nat.not_le.mpr hmax⟩), handleLine]
  rw [textOf] at hget hdelete hlist hset
  rw [hget, hdelete, if_neg (by decide), if_neg (by decide), if_neg hlist, if_pos hset.1]
  rfl

theorem handleRequest_part {request : Bytes} (h : isPart request = true) (actionId : Bytes) (store : Store) (io : Bool) :
    handleRequest actionId request store io = .waits := by
  rcases isPart_iff.mp h with ⟨hnone, hmax⟩ | ⟨hline, suffix, valueLen, hset, hbody⟩
  · unfold handleRequest
    dsimp only
    rw [if_pos hnone, if_neg (Nat.not_le.mpr hmax)]
  · rw [handleRequest_set hline hset, handleSet]
    rw [acceptedSet, Option.ite_none_right_eq_some] at hset
    rw [hset.2]
    exact if_pos hbody

theorem secretStoreGet_length {store : Store} {key value : Bytes} {io : Bool}
    (h : secretStoreGet store key (actionSecretValueMax + 1) io = some value) : value.length ≤ actionSecretValueMax := by
  unfold secretStoreGet at h
  split at h
  · cases h
  · obtain ⟨content, -, h⟩ := Option.bind_eq_some_iff.mp h
    dsimp only at h
    split at h
    · cases h
    · rw [← Option.some.inj h]
      have htrim := (List.rdropWhile_prefix isLineEnd (content.take (actionSecretValueMax + 1 - 1))).length_le
      have htake := List.length_take_le (actionSecretValueMax + 1 - 1) content
      exact ((cstr_length_le _).trans htrim).trans htake

theorem replied {text : Bytes} {store : Store} (h : text.length ≤ actionSecretIoMax) :
    ∃ reply store', setResponse text store = .replies reply store' :=
  ⟨text, store, setResponse_short store h⟩

theorem decNat_short {n : Nat} (h : n < 10 ^ 5) : (decNat n).length ≤ 5 := decFuel_length _ n (by decide) h

theorem handleGet_replies (actionId suffix : Bytes) (store : Store) (io : Bool) :
    ∃ reply store', handleGet actionId suffix store io = .replies reply store' := by
  unfold handleGet
  split
  · exact replied (by rw [lit_ofList]; decide)
  split
  · exact replied (by rw [lit_ofList]; decide)
  · rename_i value hvalue
    have hlen := secretStoreGet_length hvalue
    have hdigits := decNat_short (show value.length < 10 ^ 5 from hlen.trans_lt (by decide))
    refine replied ?_
    have hword : (lit "VALUE ").length = 6 ∧ (lit "\n").length = 1 := ⟨lit_length _, lit_length _⟩
    simp only [valueReply, List.length_append, hword, actionSecretValueMax, actionSecretIoMax] at *
    omega

theorem handleDelete_replies (actionId suffix : Bytes) (store : Store) (io : Bool) :
    ∃ reply store', handleDelete actionId suffix store io = .replies reply store' := by
  unfold handleDelete
  split
  · exact replied (by rw [lit_ofList]; decide)
  split <;> exact replied (by decide)

theorem handleList_replies (actionId : Bytes) (store : Store) (io : Bool) :
    ∃ reply store', handleList actionId store io = .replies reply store' := by
  unfold handleList
  split
  · exact replied (by rw [lit_ofList]; decide)
  dsimp only
  split
  · exact replied (by decide)
  · rename_i suffixes _ hbody
    have hlen : (listBody suffixes).length ≤ actionSecretIoMax - 64 := Nat.not_lt.mp hbody
    refine replied ?_
    have hdigits := decNat_short (show (listBody suffixes).length < 10 ^ 5 from hlen.trans_lt (by decide))
    have hword : (lit "LIST ").length = 5 ∧ (lit "\n").length = 1 := ⟨lit_length _, lit_length _⟩
    simp only [List.length_append, hword, actionSecretIoMax] at *
    omega

/-- A `SET` as the protocol knows it is done. -/
theorem handleRequest_sets {actionId request suffix : Bytes} {valueLen : Nat} {io : Bool}
    (h : isWhole actionId request io = true) (hset : acceptedSet request = some (suffix, valueLen)) (store : Store) :
    handleRequest actionId request store io =
      .replies (lit "OK\n") (storePut store (makeKey actionId suffix) (bodyOf request)) := by
  obtain ⟨hline, ⟨hnone, -⟩ | ⟨suffix', valueLen', hset', hlen, hnul, -, hkey, rfl⟩⟩ := isWhole_iff.mp h
  · cases hnone.symm.trans hset
  · cases hset.symm.trans hset'
    rw [handleRequest_set hline hset, handleSet]
    rw [acceptedSet, Option.ite_none_right_eq_some] at hset
    rw [hset.2]
    dsimp only
    rw [if_neg (Nat.not_lt.mpr hlen.ge), if_neg (not_or.mpr ⟨not_not.mpr hlen, hnul⟩), secretStoreSet, hkey]
    exact setResponse_short _ (by decide)

/-- A whole request is answered. -/
theorem handleRequest_whole {actionId request : Bytes} {io : Bool} (h : isWhole actionId request io = true) (store : Store) :
    ∃ text store', handleRequest actionId request store io = .replies text store' := by
  cases hset : acceptedSet request with
  | some p => exact ⟨_, _, handleRequest_sets h hset store⟩
  | none =>
    obtain ⟨hlt, hne, hmax⟩ := hasLine_iff.mp (isWhole_iff.mp h).1
    unfold handleRequest
    dsimp only
    rw [if_neg hlt.ne, if_neg (not_or.mpr ⟨hne, Nat.not_le.mpr hmax⟩)]
    unfold handleLine
    split
    · exact handleGet_replies ..
    split
    · exact handleDelete_replies ..
    split
    · exact handleList_replies ..
    split
    · rename_i hword
      rw [acceptedSet, textOf, if_pos hword] at hset
      rw [handleSet, hset]
      exact replied (by rw [lit_ofList]; decide)
    · exact replied (by rw [lit_ofList]; decide)

/-! ## One call -/

/-- What is still to go out when the broker reads. -/
def pending (b : Broker) (e : Ready) : Bytes :=
  match e.writable with
  | none => b.output
  | some room => if e.broken then b.output else b.output.drop room

/-- A client that waits sends nothing while a reply is on its way, and what completes a request does not come together
with the end of the stream. -/
def fits (actionId : Bytes) (session : Session) (e : Ready) (last : Bool) : Bool :=
  ((chunkOf e).isEmpty && !last || (pending session.broker e).isEmpty) &&
    if last then
      isWhole actionId (session.current ++ chunkOf e) e.io && e.readable.all fun r => decide (r.2 = .again)
    else isPart (session.current ++ chunkOf e)

theorem readInput_again {input : Bytes} {e : Ready} (hlen : (input ++ chunkOf e).length < actionSecretIoMax - 1)
    (hagain : ∀ r ∈ e.readable, r.2 = .again) : readInput input e.readable = some (input ++ chunkOf e) := by
  unfold chunkOf at hlen ⊢
  rcases hread : e.readable with - | ⟨chunk, ends⟩
  · simp [readInput]
  · rw [hread] at hlen hagain
    obtain rfl : ends = .again := hagain _ rfl
    exact if_neg (not_or.mpr ⟨Nat.not_le.mpr hlen, not_not.mpr rfl⟩)

theorem readInput_some {input input' : Bytes} {e : Ready} (h : readInput input e.readable = some input') :
    input' = input ++ chunkOf e := by
  unfold chunkOf
  rcases hread : e.readable with - | ⟨chunk, ends⟩
  · rw [hread] at h
    simpa using (Option.some.inj h).symm
  · rw [hread, readInput] at h
    split at h
    · cases h
    · exact (Option.some.inj h).symm

theorem pending_of_left {b : Broker} {e : Ready} (h : b.output.drop (e.writable.getD 0) ≠ []) : pending b e ≠ [] := by
  unfold pending
  rcases hwritable : e.writable with - | room
  · rwa [hwritable] at h
  · rw [hwritable] at h
    dsimp only
    split
    · exact fun hnone => h (by rw [hnone, List.drop_nil])
    · exact h

theorem pending_nil {b : Broker} (h : b.output = []) (e : Ready) : pending b e = [] := by
  unfold pending
  split
  · exact h
  · rw [h, List.drop_nil, ite_self]

/-- What a call leaves of a session whose request is not there yet. -/
theorem onEvents_part (actionId : Bytes) {b : Broker} {e : Ready} (hopen : b.closed = false)
    (hpart : isPart (b.input ++ chunkOf e) = true) (store : Store) :
    ∃ served, onEvents actionId store b e = served ∧ served.store = store ∧ served.answered = none ∧
      ((served.broker.closed = true ∧ served.sent <+: b.output) ∨
        served.broker.closed = false ∧ served.broker.input = b.input ++ chunkOf e ∧
          served.sent ++ served.broker.output = b.output ∧ (served.broker.output ≠ [] → pending b e ≠ [])) := by
  refine ⟨_, rfl, ?_⟩
  unfold onEvents
  rw [hopen, if_neg (by decide)]
  dsimp only
  split
  · exact ⟨rfl, rfl, .inl ⟨rfl, List.nil_prefix⟩⟩
  · cases hread : readInput b.input e.readable with
    | none => exact ⟨rfl, rfl, .inl ⟨rfl, List.take_prefix ..⟩⟩
    | some input =>
      obtain rfl := readInput_some hread
      dsimp only
      have hwaits : ∀ b' : Broker, b'.input = b.input ++ chunkOf e →
          (if b'.output = [] then handleRequest actionId b'.input store e.io else .waits) = .waits := by
        intro b' hinput
        rw [hinput, handleRequest_part hpart, ite_self]
      unfold serve
      rw [hwaits _ rfl]
      dsimp only
      split
      · refine ⟨rfl, rfl, .inl ⟨rfl, ?_⟩⟩
        rw [List.append_nil]
        exact List.take_prefix ..
      · refine ⟨rfl, rfl, .inr ⟨rfl, rfl, ?_, fun hout => ?_⟩⟩
        · dsimp only
          rw [List.append_assoc, List.take_append_drop, List.take_append_drop]
        · exact pending_of_left fun hnone => hout (by rw [hnone, List.drop_nil])

/-- What a call leaves of a session whose request is complete. -/
theorem onEvents_whole {actionId : Bytes} {b : Broker} {e : Ready} (hopen : b.closed = false) (hpending : pending b e = [])
    (hwhole : isWhole actionId (b.input ++ chunkOf e) e.io = true) (hagain : ∀ r ∈ e.readable, r.2 = .again) (store : Store) :
    ∃ served text, onEvents actionId store b e = served ∧
      handleRequest actionId (b.input ++ chunkOf e) store e.io = .replies text served.store ∧
      served.answered = some (b.input ++ chunkOf e, text) ∧
      ((served.broker.closed = true ∧ served.sent = b.output) ∨
        served.broker.closed = false ∧ served.broker.input = [] ∧ served.sent ++ served.broker.output = b.output ++ text) := by
  obtain ⟨text, store', hreply⟩ := handleRequest_whole hwhole store
  have hflushed : ¬ (e.writable.isSome ∧ e.broken ∧ b.output ≠ []) ∧ b.output.drop (e.writable.getD 0) = [] := by
    unfold pending at hpending
    rcases hwritable : e.writable with - | room
    · rw [hwritable] at hpending
      exact ⟨nofun, hpending⟩
    · rw [hwritable] at hpending
      dsimp only at hpending
      split at hpending
      · exact ⟨fun h => h.2.2 hpending, by rw [hpending, List.drop_nil]⟩
      · exact ⟨fun h => absurd h.2.1 ‹_›, hpending⟩
  have hsent : b.output.take (e.writable.getD 0) = b.output := by
    have hsplit := List.take_append_drop (e.writable.getD 0) b.output
    rwa [hflushed.2, List.append_nil] at hsplit
  refine ⟨_, text, rfl, ?_⟩
  unfold onEvents
  rw [hopen, if_neg (by decide)]
  dsimp only
  rw [if_neg hflushed.1, readInput_again (isWhole_length hwhole) hagain]
  dsimp only
  unfold serve
  rw [hflushed.2, if_pos rfl]
  dsimp only
  rw [hreply, hsent]
  dsimp only
  split
  · refine ⟨rfl, rfl, .inl ⟨rfl, ?_⟩⟩
    exact List.append_nil _
  · refine ⟨rfl, rfl, .inr ⟨rfl, rfl, ?_⟩⟩
    dsimp only
    rw [List.append_assoc, List.take_append_drop]

/-! ## The store that takes the requests one by one -/

def replay (store : Store) : List Entry → Option Store
  | [] => some store
  | entry :: log =>
    match handleRequest entry.actionId entry.request store entry.io with
    | .replies text store' => if text = entry.reply then replay store' log else none
    | _ => none

theorem replay_cons {store store' : Store} {entry : Entry} {log : List Entry}
    (h : replay store (entry :: log) = some store') :
    ∃ store'', handleRequest entry.actionId entry.request store entry.io = .replies entry.reply store'' ∧
      replay store'' log = some store' := by
  rw [replay] at h
  split at h
  · rename_i text store'' hreply
    split at h
    · rename_i htext
      exact ⟨store'', htext ▸ hreply, h⟩
    · cases h
  · cases h

theorem replay_append (store : Store) (log log' : List Entry) :
    replay store (log ++ log') = (replay store log).bind fun store => replay store log' := by
  induction log generalizing store with
  | nil => rfl
  | cons entry log ih =>
    rw [List.cons_append, replay, replay]
    split
    · split
      · exact ih _
      · rfl
    · rfl

/-- The replies are those of the requests, in their order. -/
theorem replay_unique {store store1 store2 : Store} {log1 log2 : List Entry} (h1 : replay store log1 = some store1)
    (h2 : replay store log2 = some store2)
    (hsame : log1.map (fun e => (e.actionId, e.session, e.request, e.io)) =
      log2.map fun e => (e.actionId, e.session, e.request, e.io)) : log1 = log2 ∧ store1 = store2 := by
  induction log1 generalizing store log2 with
  | nil =>
    obtain rfl : log2 = [] := List.map_eq_nil_iff.mp hsame.symm
    exact ⟨rfl, Option.some.inj (h1.symm.trans h2)⟩
  | cons e1 log1 ih =>
    cases log2 with
    | nil => cases hsame
    | cons e2 log2 =>
      rw [List.map_cons, List.map_cons, List.cons.injEq] at hsame
      obtain ⟨store1', hreply1, hrest1⟩ := replay_cons h1
      obtain ⟨store2', hreply2, hrest2⟩ := replay_cons h2
      obtain ⟨id1, n1, request1, reply1, io1⟩ := e1
      obtain ⟨id2, n2, request2, reply2, io2⟩ := e2
      simp only [Prod.mk.injEq] at hsame
      obtain ⟨⟨rfl, rfl, rfl, rfl⟩, hsame⟩ := hsame
      dsimp only at hreply1 hreply2
      cases hreply1.symm.trans hreply2
      obtain ⟨rfl, hstore⟩ := ih hrest1 hrest2 hsame
      exact ⟨rfl, hstore⟩

/-! ## Reading back -/

theorem storeFind_put (store : Store) (key value : Bytes) : storeFind (storePut store key value) key = some value := by
  rw [storePut]
  split
  · rename_i hany
    induction store with
    | nil => cases hany
    | cons e store ih =>
      rw [storeFind, List.map_cons, List.find?_cons]
      by_cases hkey : e.1 = key
      · simp [hkey]
      · rw [if_neg hkey, beq_false_of_ne hkey]
        refine ih ?_
        simpa [hkey] using hany
  · rename_i hany
    have hnone : store.find? (fun e => e.1 == key) = none := by
      rw [List.find?_eq_none]
      exact fun e he hkey => hany (List.any_eq_true.mpr ⟨e, he, hkey⟩)
    simp [storeFind, List.find?_append, hnone]

/-- What a request leaves of a key it does not write. -/
theorem changed_find {actionId request key : Bytes} {store store' : Store} {io : Bool}
    (h : Changed actionId request store io store')
    (hset : ∀ suffix valueLen, acceptedSet request = some (suffix, valueLen) → makeKey actionId suffix ≠ key)
    (hdelete : ∀ suffix, textOf request = lit "DELETE " ++ suffix → makeKey actionId suffix ≠ key) :
    storeFind store' key = storeFind store key := by
  have hkeep : ∀ {s : Store}, keep (· == key) s = keep (· == key) store →
      storeFind s key = storeFind store key := by
    intro s hs
    rw [← storeFind_keep (q := (· == key)) (by simp), hs, storeFind_keep (by simp)]
  cases h with
  | same => rfl
  | set haccepted h => exact hkeep (secretStoreSet_keep_other (q := (· == key)) (beq_false_of_ne (hset _ _ haccepted)) h)
  | deleted htext h => exact hkeep (secretStoreDelete_keep_other (q := (· == key)) (beq_false_of_ne (hdelete _ htext)) h)

/-- The entry sets or deletes a suffix. -/
def writes (suffix request : Bytes) : Prop :=
  (∃ valueLen, acceptedSet request = some (suffix, valueLen)) ∨ textOf request = lit "DELETE " ++ suffix

theorem makeKey_injective {a b suffix suffix' : Bytes} (ha : safeId a = true) (hb : safeId b = true)
    (h : makeKey a suffix = makeKey b suffix') : a = b ∧ suffix = suffix' := by
  obtain rfl := own_unique ha hb (makeKey_own a suffix) (h ▸ makeKey_own b suffix')
  exact ⟨rfl, List.append_cancel_left h⟩

theorem replay_storeFind {id suffix : Bytes} (hid : safeId id = true) {log : List Entry} {store store' : Store}
    (h : replay store log = some store') (hsafe : ∀ e ∈ log, safeId e.actionId = true)
    (hwrites : ∀ e ∈ log, e.actionId = id → ¬ writes suffix e.request) :
    storeFind store' (makeKey id suffix) = storeFind store (makeKey id suffix) := by
  induction log generalizing store with
  | nil => rw [Option.some.inj h]
  | cons e log ih =>
    obtain ⟨store'', hreply, hrest⟩ := replay_cons h
    rw [ih hrest (fun e he => hsafe e (List.mem_cons_of_mem _ he)) fun e he => hwrites e (List.mem_cons_of_mem _ he)]
    refine changed_find (handleRequest_changed hreply) (fun suffix' valueLen hset hkey => ?_) fun suffix' htext hkey => ?_
    · obtain ⟨hsame, rfl⟩ := makeKey_injective (hsafe e List.mem_cons_self) hid hkey
      exact hwrites e List.mem_cons_self hsame (.inl ⟨valueLen, hset⟩)
    · obtain ⟨hsame, rfl⟩ := makeKey_injective (hsafe e List.mem_cons_self) hid hkey
      exact hwrites e List.mem_cons_self hsame (.inr htext)

theorem handleRequest_get {request suffix : Bytes} (hline : hasLine request = true)
    (htext : textOf request = lit "GET " ++ suffix) (actionId : Bytes) (store : Store) (io : Bool) :
    handleRequest actionId request store io = handleGet actionId suffix store io := by
  obtain ⟨hlt, hne, hmax⟩ := hasLine_iff.mp hline
  unfold handleRequest
  dsimp only
  rw [if_neg hlt.ne, if_neg (not_or.mpr ⟨hne, Nat.not_le.mpr hmax⟩)]
  rw [textOf] at htext
  rw [htext, handleLine, if_pos (List.isPrefixOf_iff_prefix.mpr (List.prefix_append ..))]
  rfl

/-- A value without line break at its end is read as it was set. -/
theorem secretStoreGet_found {store : Store} {key value : Bytes} (hkey : sanitizeKey key = true)
    (hfind : storeFind store key = some value) (hne : value ≠ []) (hlen : value.length ≤ actionSecretValueMax)
    (hnul : 0 ∉ value) (hlast : ∀ c ∈ value.getLast?, isLineEnd c = false) :
    secretStoreGet store key (actionSecretValueMax + 1) true = some value := by
  have htrim : value.rdropWhile isLineEnd = value := by
    refine List.rdropWhile_eq_self_iff.mpr fun hne hend => ?_
    rw [hlast _ (List.getLast?_eq_some_getLast hne)] at hend
    exact absurd hend (by decide)
  rw [secretStoreGet, hkey, hfind, if_neg (by decide), Option.bind_some]
  dsimp only
  rw [Nat.add_sub_cancel, List.take_of_length_le hlen, htrim, cstr_eq_self fun c hc hzero => hnul (hzero ▸ hc), if_neg hne]

/-- What was set is what is read, as long as it was neither set again nor deleted. -/
theorem reads_back {files store : Store} {before between after : List Entry} {put got : Entry} {suffix : Bytes} {valueLen : Nat}
    (h : replay files (before ++ put :: (between ++ got :: after)) = some store)
    (hsafe : ∀ e ∈ put :: (between ++ [got]), safeId e.actionId = true)
    (hput : isWhole put.actionId put.request put.io = true) (hgot : isWhole got.actionId got.request got.io = true)
    (hset : acceptedSet put.request = some (suffix, valueLen)) (hid : got.actionId = put.actionId)
    (htext : textOf got.request = lit "GET " ++ suffix)
    (hbetween : ∀ e ∈ between, e.actionId = put.actionId → ¬ writes suffix e.request) :
    got.reply = valueReply (bodyOf put.request) := by
  obtain ⟨store1, -, h1⟩ := Option.bind_eq_some_iff.mp ((replay_append ..).symm.trans h)
  obtain ⟨store2, hreply, h2⟩ := replay_cons h1
  obtain ⟨store3, h3, h4⟩ := Option.bind_eq_some_iff.mp ((replay_append ..).symm.trans h2)
  obtain ⟨store4, hread, -⟩ := replay_cons h4
  obtain ⟨-, ⟨hnone, -⟩ | ⟨suffix', valueLen', hset', hlen, hnul, hlast, hkey, -⟩⟩ := isWhole_iff.mp hput
  · cases hnone.symm.trans hset
  cases hset.symm.trans hset'
  obtain ⟨hsuffix, hpos, hmax⟩ := acceptedSet_safe hset
  have hput' := handleRequest_sets hput hset store1
  have hstore := (Handled.replies.inj (hput'.symm.trans hreply)).2
  have hfind : storeFind store3 (makeKey put.actionId suffix) = some (bodyOf put.request) := by
    rw [replay_storeFind (hsafe _ List.mem_cons_self) h3
      (fun e he => hsafe e (List.mem_cons_of_mem _ (List.mem_append_left _ he))) hbetween, ← hstore, storeFind_put]
  have hio : got.io = true := by
    obtain ⟨-, ⟨-, -, hio | hget⟩ | ⟨_, _, -, -, -, -, -, hio⟩⟩ := isWhole_iff.mp hgot
    · exact hio
    · rw [htext, List.isPrefixOf_iff_prefix.mpr (List.prefix_append ..)] at hget
      cases hget
    · exact hio
  have hne : bodyOf put.request ≠ [] := List.ne_nil_of_length_pos (hlen ▸ hpos)
  rw [handleRequest_get (isWhole_iff.mp hgot).1 htext, hid, hio, handleGet, hsuffix, if_neg (by decide),
    secretStoreGet_found hkey hfind hne (hlen ▸ hmax) hnul hlast] at hread
  exact (setResponse_store hread).1

/-! ## Runs -/

/-- The answered requests of a session. -/
def answersOf (actionId : Bytes) (n : Nat) (log : List Entry) : List Entry :=
  log.filter fun e => e.actionId = actionId ∧ e.session = n

def repliesOf (actionId : Bytes) (n : Nat) (log : List Entry) : Bytes := ((answersOf actionId n log).map Entry.reply).flatten

/-- What a session and its client hold against the answered requests. -/
structure SessionOk (log : List Entry) (actionId : Bytes) (n : Nat) (session : Session) : Prop where
  asked : session.asked = (answersOf actionId n log).map Entry.request
  received : session.received <+: repliesOf actionId n log
  whole : session.broker.closed = false → session.received ++ session.broker.output = repliesOf actionId n log
  input : session.broker.closed = false → session.broker.input = session.current ∧ isPart session.current = true
  current : session.broker.closed = false → session.broker.output ≠ [] → session.current = []

structure Inv (files : Store) (s : State) : Prop where
  replies : replay files s.log = some s.store
  entries : ∀ e ∈ s.log, safeId e.actionId = true ∧ isWhole e.actionId e.request e.io = true
  sessions : ∀ actionId n session, s.sessions actionId n = some session → SessionOk s.log actionId n session
  unopened : ∀ actionId n, s.sessions actionId n = none → answersOf actionId n s.log = []

theorem answersOf_other {actionId : Bytes} {n : Nat} {added : List Entry}
    (h : ∀ e ∈ added, ¬ (e.actionId = actionId ∧ e.session = n)) (log : List Entry) :
    answersOf actionId n (log ++ added) = answersOf actionId n log := by
  have hnone : added.filter (fun e => e.actionId = actionId ∧ e.session = n) = [] :=
    List.filter_eq_nil_iff.mpr fun e he => by simpa using h e he
  rw [answersOf, answersOf, List.filter_append, hnone, List.append_nil]

theorem answersOf_own {actionId : Bytes} {n : Nat} (entry : Entry) (h : entry.actionId = actionId ∧ entry.session = n)
    (log : List Entry) : answersOf actionId n (log ++ [entry]) = answersOf actionId n log ++ [entry] := by
  rw [answersOf, answersOf, List.filter_append, List.filter_cons_of_pos (by simpa using h), List.filter_nil]

theorem repliesOf_own {actionId : Bytes} {n : Nat} (entry : Entry) (h : entry.actionId = actionId ∧ entry.session = n)
    (log : List Entry) : repliesOf actionId n (log ++ [entry]) = repliesOf actionId n log ++ entry.reply := by
  rw [repliesOf, repliesOf, answersOf_own entry h, List.map_append, List.flatten_append]
  simp

theorem SessionOk.congr {log log' : List Entry} {actionId : Bytes} {n : Nat} {session : Session}
    (h : SessionOk log actionId n session) (hsame : answersOf actionId n log' = answersOf actionId n log) :
    SessionOk log' actionId n session := by
  have hreplies : repliesOf actionId n log' = repliesOf actionId n log := by rw [repliesOf, repliesOf, hsame]
  exact ⟨hsame ▸ h.asked, hreplies ▸ h.received, hreplies ▸ h.whole, h.input, h.current⟩

/-- A call keeps the invariant when what it answers and its own session are right. -/
theorem Inv.put {files store' : Store} {s : State} (hinv : Inv files s) {actionId : Bytes} {n : Nat} {added : List Entry}
    {session : Session} (hreplay : replay files (s.log ++ added) = some store')
    (hadded : ∀ e ∈ added, (e.actionId = actionId ∧ e.session = n) ∧ safeId e.actionId = true ∧
      isWhole e.actionId e.request e.io = true)
    (hok : SessionOk (s.log ++ added) actionId n session) :
    Inv files (State.put { s with store := store', log := s.log ++ added } actionId n session) := by
  have hother : ∀ a m, ¬ (a = actionId ∧ m = n) → answersOf a m (s.log ++ added) = answersOf a m s.log := by
    intro a m hne
    refine answersOf_other (fun e he h => hne ?_) s.log
    obtain ⟨⟨rfl, rfl⟩, -⟩ := hadded e he
    exact ⟨h.1.symm, h.2.symm⟩
  refine ⟨hreplay, fun e he => ?_, fun a m session' hsession => ?_, fun a m hnone => ?_⟩
  · rcases List.mem_append.mp he with he | he
    · exact hinv.entries e he
    · exact (hadded e he).2
  · by_cases hsame : a = actionId ∧ m = n
    · obtain ⟨rfl, rfl⟩ := hsame
      obtain rfl := Option.some.inj ((if_pos ⟨rfl, rfl⟩).symm.trans hsession)
      exact hok
    · exact (hinv.sessions a m session' ((if_neg hsame).symm.trans hsession)).congr (hother a m hsame)
  · by_cases hsame : a = actionId ∧ m = n
    · cases (if_pos hsame).symm.trans hnone
    · exact (hother a m hsame).trans (hinv.unopened a m ((if_neg hsame).symm.trans hnone))

/-- The condition on a step. -/
def fit (s : State) : Step → Bool
  | .opened .. => true
  | .events actionId n e last =>
    match s.sessions actionId n with
    | none => true
    | some session => session.broker.closed || fits actionId session e last

def Fit (s : State) (i : Step) : Prop := fit s i = true

section Calls
variable {files : Store} {s : State} {actionId : Bytes} {n : Nat} {session : Session} {e : Ready}

theorem serveSession_part (hinv : Inv files s) (hsession : s.sessions actionId n = some session)
    (hopen : session.broker.closed = false) (hfits : fits actionId session e false = true) :
    Inv files (serveSession s actionId n e false session) := by
  have hok := hinv.sessions actionId n session hsession
  obtain ⟨hinput, -⟩ := hok.input hopen
  simp only [fits, Bool.not_false, Bool.and_true, Bool.and_eq_true, Bool.false_eq_true, if_false, Bool.or_eq_true,
    List.isEmpty_iff] at hfits
  obtain ⟨hwaits, hpart⟩ := hfits
  obtain ⟨served, hserved, hstore, hanswered, hsent⟩ := onEvents_part actionId hopen (hinput ▸ hpart) s.store
  have hstate : serveSession s actionId n e false session =
      State.put { s with store := s.store, log := s.log ++ [] } actionId n
        { broker := served.broker
          current := session.current ++ chunkOf e
          asked := session.asked
          received := session.received ++ served.sent } := by
    unfold serveSession
    rw [hopen, if_neg (by decide)]
    dsimp only
    rw [hserved, hstore, hanswered]
    rfl
  rw [hstate]
  have hwhole := hok.whole hopen
  refine hinv.put (by rw [List.append_nil]; exact hinv.replies) (fun e he => absurd he List.not_mem_nil) ?_
  rw [List.append_nil]
  rcases hsent with ⟨hclosed, hsent⟩ | ⟨hstill, hbroker, hsent, hleft⟩
  · refine ⟨hok.asked, ?_, fun h => absurd (h.symm.trans hclosed) (by decide), fun h => absurd (h.symm.trans hclosed) (by decide),
      fun h => absurd (h.symm.trans hclosed) (by decide)⟩
    rw [← hwhole]
    exact (List.prefix_append_right_inj _).mpr hsent
  · have hall : session.received ++ served.sent ++ served.broker.output = repliesOf actionId n s.log := by
      rw [List.append_assoc, hsent, hwhole]
    refine ⟨hok.asked, hall ▸ List.prefix_append .., fun _ => hall, fun _ => ⟨?_, hpart⟩, fun _ hout => ?_⟩
    · rw [hbroker, hinput]
    · have hpending := hleft hout
      have hchunk : chunkOf e = [] := hwaits.resolve_right hpending
      have hcurrent := hok.current hopen fun hnone => hpending (pending_nil hnone e)
      show session.current ++ chunkOf e = []
      rw [hcurrent, hchunk, List.append_nil]

theorem serveSession_whole (hinv : Inv files s) (hsafe : safeId actionId = true) (hsession : s.sessions actionId n = some session)
    (hopen : session.broker.closed = false) (hfits : fits actionId session e true = true) :
    Inv files (serveSession s actionId n e true session) := by
  have hok := hinv.sessions actionId n session hsession
  obtain ⟨hinput, -⟩ := hok.input hopen
  simp only [fits, Bool.not_true, Bool.and_false, Bool.false_or, if_true, Bool.and_eq_true, List.isEmpty_iff,
    Option.all_eq_true, decide_eq_true_eq] at hfits
  obtain ⟨hpending, hwhole, hagain⟩ := hfits
  rw [← hinput] at hwhole
  obtain ⟨served, text, hserved, hreply, hanswered, hsent⟩ := onEvents_whole hopen hpending hwhole hagain s.store
  have hstate : serveSession s actionId n e true session =
      State.put { s with store := served.store, log := s.log ++ [⟨actionId, n, session.broker.input ++ chunkOf e, text, e.io⟩] }
        actionId n
        { broker := served.broker
          current := []
          asked := session.asked ++ [session.current ++ chunkOf e]
          received := session.received ++ served.sent } := by
    unfold serveSession
    rw [hopen, if_neg (by decide)]
    dsimp only
    rw [hserved, hanswered]
    rfl
  rw [hstate]
  have hout := hok.whole hopen
  refine hinv.put ?_ (fun entry he => ?_) ?_
  · rw [replay_append, hinv.replies, Option.bind_some, replay]
    dsimp only
    rw [hreply]
    exact if_pos rfl
  · obtain rfl := List.mem_singleton.mp he
    exact ⟨⟨rfl, rfl⟩, hsafe, hwhole⟩
  · have hreplies : repliesOf actionId n (s.log ++ [⟨actionId, n, session.broker.input ++ chunkOf e, text, e.io⟩]) =
        session.received ++ session.broker.output ++ text := by
      rw [repliesOf_own ⟨_, _, _, _, _⟩ ⟨rfl, rfl⟩, ← hout]
    have hasked : session.asked ++ [session.current ++ chunkOf e] =
        (answersOf actionId n (s.log ++ [⟨actionId, n, session.broker.input ++ chunkOf e, text, e.io⟩])).map Entry.request := by
      rw [answersOf_own ⟨_, _, _, _, _⟩ ⟨rfl, rfl⟩, List.map_append, ← hok.asked, hinput]
      rfl
    rcases hsent with ⟨hclosed, hsent⟩ | ⟨hstill, hbroker, hsent⟩
    · refine ⟨hasked, ?_, fun h => absurd (h.symm.trans hclosed) (by decide),
        fun h => absurd (h.symm.trans hclosed) (by decide), fun h => absurd (h.symm.trans hclosed) (by decide)⟩
      rw [hreplies, hsent]
      exact List.prefix_append ..
    · have hall : session.received ++ served.sent ++ served.broker.output = session.received ++ session.broker.output ++ text := by
        rw [List.append_assoc, hsent, List.append_assoc]
      exact ⟨hasked, hreplies ▸ hall ▸ List.prefix_append .., fun _ => hall.trans hreplies.symm,
        fun _ => ⟨hbroker, isPart_nil⟩, fun _ _ => rfl⟩

end Calls

theorem step_inv {files : Store} {s s' : State} {i : Step} (hinv : Inv files s) (hfit : Fit s i) (hstep : step s i = some s') :
    Inv files s' := by
  cases i with
  | opened actionId n =>
    simp only [step] at hstep
    split at hstep
    · cases hstep
    split at hstep
    · cases hstep
    · rename_i hnone
      obtain rfl := Option.some.inj hstep
      have hanswers := hinv.unopened actionId n hnone
      have hok : SessionOk s.log actionId n ⟨⟨[], [], false⟩, [], [], []⟩ :=
        ⟨by rw [hanswers]; rfl, List.nil_prefix, fun _ => by rw [repliesOf, hanswers]; rfl, fun _ => ⟨rfl, isPart_nil⟩, fun _ _ => rfl⟩
      have hput : Inv files (State.put { s with store := s.store, log := s.log ++ [] } actionId n _) :=
        hinv.put (by rw [List.append_nil]; exact hinv.replies) (fun e he => absurd he List.not_mem_nil)
          (by rw [List.append_nil]; exact hok)
      rw [List.append_nil] at hput
      exact hput
  | events actionId n e last =>
    simp only [step] at hstep
    split at hstep
    · cases hstep
    · rename_i hsafe
      obtain ⟨session, hsession, rfl⟩ := Option.map_eq_some_iff.mp hstep
      rw [Fit, fit, hsession, Bool.or_eq_true] at hfit
      cases hclosed : session.broker.closed with
      | true =>
        rw [serveSession, if_pos hclosed]
        exact hinv
      | false =>
        have hfits := hfit.resolve_left (by rw [hclosed]; decide)
        cases last with
        | false => exact serveSession_part hinv hsession hclosed hfits
        | true => exact serveSession_whole hinv (by simpa using hsafe) hsession hclosed hfits

theorem start_inv (files : Store) : Inv files (start files) :=
  ⟨rfl, fun _ he => absurd he List.not_mem_nil, nofun, fun _ _ _ => rfl⟩

/-! ## The result -/

/-- The store is faithful to the clients that waited for their replies. -/
structure Faithful (files : Store) (s : State) : Prop where
  /-- The replies and the store are those of the answered requests taken one by one. -/
  replies : replay files s.log = some s.store
  /-- What a client sent whole was answered, and the replies reach it in order. -/
  sessions : ∀ actionId n session, s.sessions actionId n = some session →
    session.asked = (answersOf actionId n s.log).map Entry.request ∧ session.received <+: repliesOf actionId n s.log ∧
      (session.broker.closed = false → session.received ++ session.broker.output = repliesOf actionId n s.log)
  /-- A `SET` is done. -/
  sets : ∀ entry ∈ s.log, ∀ suffix valueLen, acceptedSet entry.request = some (suffix, valueLen) → entry.reply = lit "OK\n"
  /-- What was set comes back. -/
  gets : ∀ (before : List Entry) (put : Entry) (between : List Entry) (got : Entry) (after : List Entry) suffix valueLen,
    s.log = before ++ put :: (between ++ got :: after) → acceptedSet put.request = some (suffix, valueLen) →
    got.actionId = put.actionId → textOf got.request = lit "GET " ++ suffix →
    (∀ e ∈ between, e.actionId = put.actionId → ¬ writes suffix e.request) → got.reply = valueReply (bodyOf put.request)

theorem Inv.sets {files : Store} {log : List Entry} {store : Store} (h : replay files log = some store)
    (hwhole : ∀ e ∈ log, isWhole e.actionId e.request e.io = true) :
    ∀ entry ∈ log, ∀ suffix valueLen, acceptedSet entry.request = some (suffix, valueLen) → entry.reply = lit "OK\n" := by
  induction log generalizing files with
  | nil => exact fun entry he => absurd he List.not_mem_nil
  | cons e log ih =>
    obtain ⟨store', hreply, hrest⟩ := replay_cons h
    rintro entry he suffix valueLen hset
    rcases List.mem_cons.mp he with rfl | he
    · exact (Handled.replies.inj ((handleRequest_sets (hwhole _ List.mem_cons_self) hset files).symm.trans hreply)).1.symm
    · exact ih hrest (fun e he => hwhole e (List.mem_cons_of_mem _ he)) entry he suffix valueLen hset

theorem Inv.faithful {files : Store} {s : State} (h : Inv files s) : Faithful files s where
  replies := h.replies
  sessions actionId n session hsession := by
    have hok := h.sessions actionId n session hsession
    exact ⟨hok.asked, hok.received, hok.whole⟩
  sets := Inv.sets h.replies fun e he => (h.entries e he).2
  gets before put between got after suffix valueLen hlog hset hid htext hbetween := by
    have hentries := h.entries
    have hreplies := h.replies
    rw [hlog] at hentries hreplies
    refine reads_back hreplies (fun e he => (hentries e ?_).1) (hentries put (by simp)).2 (hentries got (by simp)).2 hset hid
      htext hbetween
    rcases List.mem_cons.mp he with rfl | he
    · simp
    · rcases List.mem_append.mp he with he | he
      · simp [he]
      · simp [List.mem_singleton.mp he]

/-- In every run an action's part of the store, its sessions and its replies are those of its own steps alone, and no
step changes a key outside the actions of the run. In every run whose clients wait and whose steps fit, the store is
faithful; two such runs with the same requests in the same order have the same replies, however they were cut. -/
theorem broker_isolated_faithful (files : Store) :
    (∀ steps s, exec step (start files) steps = some s →
      (∀ id, safeId id = true →
        exec step (start (keep (own id) files)) (steps.filter fun i => i.actionId = id) = some (restrict id s)) ∧
      ∀ q : Bytes → Bool, (∀ i ∈ steps, ∀ suffix, q (makeKey i.actionId suffix) = false) → keep q s.store = keep q files) ∧
    (∀ steps s, Run step Fit (start files) steps s → Faithful files s) ∧
    ∀ steps s steps' s', Run step Fit (start files) steps s → Run step Fit (start files) steps' s' →
      s.log.map (fun e => (e.actionId, e.session, e.request, e.io)) =
        s'.log.map (fun e => (e.actionId, e.session, e.request, e.io)) → s.log = s'.log ∧ s.store = s'.store := by
  have hinv : ∀ {steps s}, Run step Fit (start files) steps s → Inv files s := fun hrun =>
    hrun.invariant (start_inv files) fun _ _ _ => step_inv
  refine ⟨fun steps s h => ⟨fun id hid => ?_, fun q hq => exec_others h hq⟩, fun steps s hrun => (hinv hrun).faithful,
    fun steps s steps' s' hrun hrun' hsame => replay_unique (hinv hrun).replies (hinv hrun').replies hsame⟩
  have hstart : restrict id (start files) = start (keep (own id) files) := by
    simp only [restrict, start, ite_self, List.filter_nil]
  exact hstart ▸ exec_restrict hid h

/-! ## What is lost or altered -/

def someone : Bytes := lit "notes"

/-- One read of the octets, with room for the whole reply. -/
def arrives (octets : Bytes) (ends : ReadEnd) (last : Bool) : Step :=
  .events someone 0 ⟨none, some (octets, ends), 100, false, true⟩ last

/-- A client that sends its whole `SET` and closes: both are met in one read loop, and the secret is not stored. -/
theorem closing_set_lost : (exec step (start []) [.opened someone 0, arrives (lit "SET token 4\nmine") .eof true]).map
      (fun s => ((s.sessions someone 0).map Session.asked, s.log, s.store)) =
    some (some [lit "SET token 4\nmine"], [], []) := by
  decide +kernel

/-- A line break at the end of a value is not read back. -/
example : (exec step (start []) [.opened someone 0, arrives (lit "SET token 5\nmine\n") .again true,
      arrives (lit "GET token\n") .again true]).map (fun s => (s.sessions someone 0).map Session.received) =
    some (some (lit "OK\nVALUE 4\nmine")) := by
  decide +kernel

/-- A `SET` with a bad name is answered at its header: read in two pieces, its value is taken for a request. -/
example : (exec step (start []) [.opened someone 0, arrives (lit "SET a/b 5\nLIST\n") .again true]).map
      (fun s => (s.sessions someone 0).map Session.received) = some (some (lit "ERROR BAD_REQUEST\n")) ∧
    (exec step (start []) [.opened someone 0, arrives (lit "SET a/b 5\n") .again false,
      arrives (lit "LIST\n") .again true]).map (fun s => (s.sessions someone 0).map Session.received) =
    some (some (lit "ERROR BAD_REQUEST\nLIST 0\n")) := by
  decide +kernel

end Floofclaw.Guarantees.Secrets
