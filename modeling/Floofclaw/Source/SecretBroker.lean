import Floofclaw.Lib.JsonText
import Floofclaw.Lib.Machine
import Mathlib.Data.List.DropRight

/-!
# The action secret broker

Model of `secure/action_secret_broker.c` over the store of `secure/secret_store.c`.
What the socket does is input: whether it is writable and how much it takes, what
a read loop finds and how it ends, whether a store call succeeds. The secrets
directory lists its entries in the order they were made; its permissions, its
temporary files and the zeroing of buffers are left out.
-/

set_option autoImplicit false

namespace Floofclaw.Source.SecretBroker
open Floofclaw.Lib

def actionSecretSuffixMax : Nat := 192
def actionSecretValueMax : Nat := 8192
def actionSecretIoMax : Nat := 32768
def brokerHeaderMax : Nat := 512
def ssKeyMax : Nat := 256

/-! ## Names -/

def isAlpha (c : Byte) : Bool := (97 ≤ c && c ≤ 122) || (65 ≤ c && c ≤ 90)

def isNameByte (c : Byte) : Bool := isAlpha c || isDigit c || c == ch '_' || c == ch '-'

def isSuffixByte (c : Byte) : Bool := isNameByte c || c == ch '.'

/-- `safe_id`: the length test asks before the last octet. -/
def safeId (s : Bytes) : Bool := !s.isEmpty && s.all isNameByte && decide (s.length ≤ 126)

def safeSuffix (s : Bytes) : Bool := !s.isEmpty && s.all isSuffixByte && decide (s.length ≤ actionSecretSuffixMax)

/-- The keys of an action begin with this. -/
def namespaceOf (actionId : Bytes) : Bytes := lit "endpoint:action:" ++ actionId ++ lit ":"

/-- `make_key`; the buffer of 512 octets holds every key. -/
def makeKey (actionId suffix : Bytes) : Bytes := namespaceOf actionId ++ suffix

/-! ## The secret store -/

/-- The files of the secrets directory: key and content. -/
abbrev Store := List (Bytes × Bytes)

/-- `sanitize_key`. -/
def sanitizeKey (key : Bytes) : Bool :=
  !key.isEmpty && key.all (fun c => isSuffixByte c || c == ch ':') && decide (key.length < ssKeyMax)

def storeFind (store : Store) (key : Bytes) : Option Bytes := (store.find? fun e => e.1 == key).map Prod.snd

/-- The rename over the path: an entry keeps its place in the directory. -/
def storePut (store : Store) (key value : Bytes) : Store :=
  if store.any fun e => e.1 == key then store.map fun e => if e.1 = key then (key, value) else e
  else store ++ [(key, value)]

def isLineEnd (c : Byte) : Bool := c == ch '\n' || c == ch '\r'

/-- `secret_store_get`: line ends behind a value are cut off, and an empty value counts as missing. -/
def secretStoreGet (store : Store) (key : Bytes) (outLen : Nat) (io : Bool) : Option Bytes :=
  if !sanitizeKey key || !io then none
  else
    (storeFind store key).bind fun content =>
      let value := cstr ((content.take (outLen - 1)).rdropWhile isLineEnd)
      if value = [] then none else some value

def secretStoreSet (store : Store) (key value : Bytes) (io : Bool) : Option Store :=
  if !sanitizeKey key || !io then none else some (storePut store key value)

def secretStoreDelete (store : Store) (key : Bytes) (io : Bool) : Option Store :=
  if !sanitizeKey key || !io then none else some (store.filter fun e => e.1 != key)

/-- The suffixes behind a key fragment, in directory order; no store yet lists nothing. -/
def secretStoreListPrefix (store : Store) (fragment : Bytes) (io : Bool) : Option (List Bytes) :=
  if !sanitizeKey fragment then none
  else if !io then some []
  else some ((store.map Prod.fst).filterMap fun key =>
    if fragment.isPrefixOf key && decide (fragment.length < key.length) then some (key.drop fragment.length) else none)

/-! ## Requests -/

/-- `%192s`: white space, then up to 192 other octets; `none` when there are none. -/
def scanWord (s : Bytes) : Option (Bytes × Bytes) :=
  let s := skipWs s
  let word := (s.takeWhile fun c => !isSpace c).take actionSecretSuffixMax
  if word = [] then none else some (word, s.drop word.length)

/-- `%zu`: a number beyond 64 bits reads as the largest one, and a minus sign negates. -/
def scanSize (s : Bytes) : Option (Nat × Bytes) :=
  let s := skipWs s
  let negative := s.head? == some (ch '-')
  let body := if negative || s.head? == some (ch '+') then s.drop 1 else s
  let digits := body.takeWhile isDigit
  if digits = [] then none
  else
    let n := decValue digits
    some (if 2 ^ 64 ≤ n then 2 ^ 64 - 1 else if negative then (2 ^ 64 - n) % 2 ^ 64 else n, body.drop digits.length)

/-- The header of a `SET` behind its word: suffix and announced length. -/
def setHeader (args : Bytes) : Option (Bytes × Nat) :=
  (scanWord args).bind fun (suffix, rest) =>
  (scanSize rest).bind fun (valueLen, rest) =>
  if skipWs rest ≠ [] then none
  else if !safeSuffix suffix || valueLen = 0 || actionSecretValueMax < valueLen then none
  else some (suffix, valueLen)

inductive Handled
  /-- More input is needed. -/
  | waits
  /-- The channel is closed. -/
  | fails
  /-- The input is cleared and the reply put out. -/
  | replies (text : Bytes) (store : Store)
  deriving DecidableEq

/-- `set_response`. -/
def setResponse (text : Bytes) (store : Store) : Handled :=
  if actionSecretIoMax < text.length then .fails else .replies text store

def valueReply (value : Bytes) : Bytes := lit "VALUE " ++ decNat value.length ++ lit "\n" ++ value

def listBody (suffixes : List Bytes) : Bytes := ((suffixes.filter safeSuffix).map (· ++ lit "\n")).flatten

def handleGet (actionId suffix : Bytes) (store : Store) (io : Bool) : Handled :=
  if !safeSuffix suffix then setResponse (lit "ERROR BAD_NAME\n") store
  else
    match secretStoreGet store (makeKey actionId suffix) (actionSecretValueMax + 1) io with
    | none => setResponse (lit "NOT_FOUND\n") store
    | some value => setResponse (valueReply value) store

def handleDelete (actionId suffix : Bytes) (store : Store) (io : Bool) : Handled :=
  if !safeSuffix suffix then setResponse (lit "ERROR BAD_NAME\n") store
  else
    match secretStoreDelete store (makeKey actionId suffix) io with
    | none => setResponse (lit "ERROR STORE\n") store
    | some store => setResponse (lit "OK\n") store

def handleList (actionId : Bytes) (store : Store) (io : Bool) : Handled :=
  match secretStoreListPrefix store (namespaceOf actionId) io with
  | none => setResponse (lit "ERROR TOO_LARGE\n") store
  | some suffixes =>
    let body := listBody suffixes
    if actionSecretIoMax - 64 < body.length then setResponse (lit "ERROR TOO_LARGE\n") store
    else setResponse (lit "LIST " ++ decNat body.length ++ lit "\n" ++ body) store

def handleSet (actionId args rest : Bytes) (store : Store) (io : Bool) : Handled :=
  match setHeader args with
  | none => setResponse (lit "ERROR BAD_REQUEST\n") store
  | some (suffix, valueLen) =>
    if rest.length < valueLen then .waits
    else if rest.length ≠ valueLen ∨ 0 ∈ rest then .fails
    else
      match secretStoreSet store (makeKey actionId suffix) rest io with
      | none => setResponse (lit "ERROR STORE\n") store
      | some store => setResponse (lit "OK\n") store

/-- A header and what is behind its line. -/
def handleLine (actionId header rest : Bytes) (store : Store) (io : Bool) : Handled :=
  if (lit "GET ").isPrefixOf header then handleGet actionId (header.drop 4) store io
  else if (lit "DELETE ").isPrefixOf header then handleDelete actionId (header.drop 7) store io
  else if header = lit "LIST" then handleList actionId store io
  else if (lit "SET ").isPrefixOf header then handleSet actionId (header.drop 4) rest store io
  else setResponse (lit "ERROR UNKNOWN_OP\n") store

def headerOf (input : Bytes) : Bytes := input.takeWhile (· != ch '\n')

/-- `handle_request` on an input while no output is pending. -/
def handleRequest (actionId input : Bytes) (store : Store) (io : Bool) : Handled :=
  let header := headerOf input
  if header.length = input.length then if brokerHeaderMax ≤ input.length then .fails else .waits
  else if header = [] ∨ brokerHeaderMax ≤ header.length then .fails
  else handleLine actionId (cstr header) (input.drop (header.length + 1)) store io

/-! ## Events -/

/-- The broker of a session; `output` is what of the reply is not sent yet. -/
structure Broker where
  input : Bytes
  output : Bytes
  closed : Bool
  deriving DecidableEq

/-- How a read loop ends. -/
inductive ReadEnd
  | again | eof | error
  deriving DecidableEq

/-- What `action_secret_broker_on_events` meets: whether it may write first and how much goes out, what it reads, how much
goes out last, and whether the store answers. A write fails where `broken` says so. -/
structure Ready where
  writable : Option Nat
  readable : Option (Bytes × ReadEnd)
  room : Nat
  broken : Bool
  io : Bool

/-- What one call did: the broker, the store, what went out, and the request it answered with its reply. -/
structure Served where
  broker : Broker
  store : Store
  sent : Bytes
  answered : Option (Bytes × Bytes)
  deriving DecidableEq

def closedBroker : Broker := { input := [], output := [], closed := true }

/-- `read_input`; `none` ends the session. -/
def readInput (input : Bytes) : Option (Bytes × ReadEnd) → Option Bytes
  | none => some input
  | some (chunk, ends) =>
    if actionSecretIoMax - 1 ≤ (input ++ chunk).length ∨ ends ≠ .again then none else some (input ++ chunk)

/-- The last two steps of a call: a request when no output is pending, then the output. -/
def serve (actionId : Bytes) (store : Store) (b : Broker) (room : Nat) (broken io : Bool) : Served :=
  match if b.output = [] then handleRequest actionId b.input store io else .waits with
  | .fails => ⟨closedBroker, store, [], none⟩
  | .waits =>
    if broken ∧ b.output ≠ [] then ⟨closedBroker, store, [], none⟩
    else ⟨{ b with output := b.output.drop room }, store, b.output.take room, none⟩
  | .replies text store =>
    if broken then ⟨closedBroker, store, [], some (b.input, text)⟩
    else ⟨{ input := [], output := text.drop room, closed := false }, store, text.take room, some (b.input, text)⟩

/-- `action_secret_broker_on_events`. -/
def onEvents (actionId : Bytes) (store : Store) (b : Broker) (e : Ready) : Served :=
  if b.closed then ⟨b, store, [], none⟩
  else
    let first := e.writable.getD 0
    if e.writable.isSome ∧ e.broken ∧ b.output ≠ [] then ⟨closedBroker, store, [], none⟩
    else
      match readInput b.input e.readable with
      | none => ⟨closedBroker, store, b.output.take first, none⟩
      | some input =>
        let served := serve actionId store { b with input := input, output := b.output.drop first } e.room e.broken e.io
        { served with sent := b.output.take first ++ served.sent }

/-! ## Sessions -/

/-- A session and its client: the octets of the request it is sending, the requests it sent whole, and the octets of the
replies that reached it. -/
structure Session where
  broker : Broker
  current : Bytes
  asked : List Bytes
  received : Bytes
  deriving DecidableEq

/-- A request that was answered. -/
structure Entry where
  actionId : Bytes
  session : Nat
  request : Bytes
  reply : Bytes
  io : Bool
  deriving DecidableEq

structure State where
  store : Store
  sessions : Bytes → Nat → Option Session
  log : List Entry

def start (files : Store) : State := { store := files, sessions := fun _ _ => none, log := [] }

inductive Step
  /-- `action_secret_broker_init`. -/
  | opened (actionId : Bytes) (session : Nat)
  /-- `action_secret_broker_on_events`; `last` says that what it reads completes a request of the client. -/
  | events (actionId : Bytes) (session : Nat) (e : Ready) (last : Bool)

def Step.actionId : Step → Bytes
  | .opened actionId _ | .events actionId _ _ _ => actionId

def State.put (s : State) (actionId : Bytes) (n : Nat) (session : Session) : State :=
  { s with sessions := fun a m => if a = actionId ∧ m = n then some session else s.sessions a m }

def chunkOf (e : Ready) : Bytes := (e.readable.map Prod.fst).getD []

/-- What a call leaves of its session and of the log. -/
def serveSession (s : State) (actionId : Bytes) (n : Nat) (e : Ready) (last : Bool) (session : Session) : State :=
  if session.broker.closed then s
  else
    let served := onEvents actionId s.store session.broker e
    let request := session.current ++ chunkOf e
    { s with
      store := served.store
      log := s.log ++ (served.answered.map fun (request, reply) => (⟨actionId, n, request, reply, e.io⟩ : Entry)).toList }.put
      actionId n
      { broker := served.broker
        current := if last then [] else request
        asked := if last then session.asked ++ [request] else session.asked
        received := session.received ++ served.sent }

def step (s : State) : Step → Option State
  | .opened actionId n =>
    if !safeId actionId then none
    else
      match s.sessions actionId n with
      | some _ => none
      | none => some (s.put actionId n ⟨⟨[], [], false⟩, [], [], []⟩)
  | .events actionId n e last =>
    if !safeId actionId then none else (s.sessions actionId n).map (serveSession s actionId n e last)

end Floofclaw.Source.SecretBroker
