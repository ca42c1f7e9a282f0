import Floofclaw.Source.JsonFields

/-!
# The media manifest codec

Model of `bus/media_manifest.c`: the checks of a descriptor, the canonical text
`build_canonical` prints into a buffer it sized in advance, and `parse_canonical`,
which rebuilds that text from what it read. A descriptor's texts are C strings.
An error is the text left in the caller's buffer, before it is cut to the size of
that buffer; it is empty where the code sets none.
-/

set_option autoImplicit false

namespace Floofclaw.Source.MediaManifest
open Floofclaw.Lib Floofclaw.Source.Json

def fcMediaMaxItems : Nat := 10
def fcMediaMaxItemBytes : UInt64 := 25 * 1024 * 1024
def fcMediaMaxTotalBytes : UInt64 := 50 * 1024 * 1024
def fcMediaIdMax : Nat := 128
def fcMediaFilenameMax : Nat := 256
def fcMediaTypeMax : Nat := 128
def fcMediaSourceUrlMax : Nat := 2048
def fcMediaManifestPathSize : Nat := 128
def mediaFileMax : Nat := 256 * 1024
def sizeMax : Nat := 2 ^ 64 - 1
def uint64Max : UInt64 := 18446744073709551615

/-- The text of a C string. -/
abbrev CString := { s : Bytes // NulFree s }

structure FcMediaDescriptor where
  id : CString
  filename : CString
  mediaType : CString
  sizeBytes : UInt64
  sourceUrl : CString
  deriving DecidableEq

structure FcMediaManifestRef where
  manifest : Bytes
  sha256 : Bytes
  count : Nat
  totalBytes : UInt64
  deriving DecidableEq

structure FcMediaManifest where
  items : List FcMediaDescriptor
  count : Nat
  totalBytes : UInt64
  deriving DecidableEq

/-! ## Descriptors -/

def asciiAlnum (c : Byte) : Bool :=
  (97 ≤ c && c ≤ 122) || (65 ≤ c && c ≤ 90) || (48 ≤ c && c ≤ 57)

def validId (id : CString) : Bool :=
  !id.1.isEmpty && decide (id.1.length < fcMediaIdMax) &&
    id.1.all fun c => asciiAlnum c || c = ch '-' || c = ch '_' || c = ch '.' || c = ch ':'

def validFilename (filename : CString) : Bool :=
  !filename.1.isEmpty && decide (filename.1.length < fcMediaFilenameMax) &&
    filename.1.all fun c => !(c < 32 || c = 127)

def mimeTokenChar (c : Byte) : Bool :=
  asciiAlnum c || (lit "!#$%&'*+-.^_`|~").contains c

/-- The loop of `valid_media_type` from index `i` on; the index of the slash, if there was one. -/
def mediaTypeLoop : Nat → Option Nat → Bytes → Option (Option Nat)
  | _, slash, [] => some slash
  | i, slash, c :: s =>
    if c = ch '/' then
      if slash.isSome then none else mediaTypeLoop (i + 1) (some i) s
    else if mimeTokenChar c then mediaTypeLoop (i + 1) slash s
    else none

def validMediaType (mediaType : CString) : Bool :=
  !mediaType.1.isEmpty && decide (mediaType.1.length < fcMediaTypeMax) &&
    match mediaTypeLoop 0 none mediaType.1 with
    | some (some slash) => decide (0 < slash) && decide (slash + 1 < mediaType.1.length)
    | _ => false

/-- The octets neither URL check lets through in a path. -/
def badPathChar (c : Byte) : Bool := c ≤ 32 || c = 127 || c = ch '\\' || c = ch '#'

/-- The digits of the port, and the rest from the first octet that is none. -/
def portLoop : Nat → Bytes → Option (Nat × Bytes)
  | value, [] => some (value, [])
  | value, c :: s =>
    if isDigit c then
      if value * 10 + (c.toNat - 48) > 65535 then none else portLoop (value * 10 + (c.toNat - 48)) s
    else some (value, c :: s)

/-- `valid_test_loopback_url`; `allowed` is the environment's answer. -/
def validTestLoopbackUrl (allowed : Bool) (url : CString) : Bool :=
  allowed && (lit "http://127.0.0.1:").isPrefixOf url.1 &&
    match url.1.drop 17 with
    | [] => false
    | c :: s =>
      isDigit c &&
        match portLoop 0 (c :: s) with
        | none => false
        | some (value, path) =>
          value ≠ 0 && path.head? = some (ch '/') && !path.any badPathChar &&
            decide (url.1.length < fcMediaSourceUrlMax)

/-- The authority loop of `valid_source_url`: what is left at the first delimiter. -/
def authorityLoop : Bytes → Option Bytes
  | [] => some []
  | c :: s =>
    if c = ch '/' || c = ch '?' || c = ch '#' then some (c :: s)
    else if c ≤ 32 || c = 127 || c = ch '\\' || c = ch '@' then none
    else authorityLoop s

def validSourceUrl (allowLoopback : Bool) (url : CString) : Bool :=
  validTestLoopbackUrl allowLoopback url ||
    ((lit "https://").isPrefixOf url.1 && !(url.1.length ≤ 8 || url.1.length ≥ fcMediaSourceUrlMax) &&
      match authorityLoop (url.1.drop 8) with
      | none => false
      | some path => path.length ≠ (url.1.drop 8).length && path.head? = some (ch '/') && !path.any badPathChar)

/-- `fc_media_manifest_validate_descriptor`: the error text, if it refuses. -/
def fcMediaManifestValidateDescriptor (allowLoopback : Bool) (item : FcMediaDescriptor) : Option Bytes :=
  if !validId item.id then some (lit "invalid media id")
  else if !validFilename item.filename then some (lit "invalid media filename")
  else if !validMediaType item.mediaType then some (lit "invalid media MIME type")
  else if item.sizeBytes = 0 || item.sizeBytes > fcMediaMaxItemBytes then
    some (lit "media item size must be between 1 and " ++ decNat fcMediaMaxItemBytes.toNat ++ lit " bytes")
  else if !validSourceUrl allowLoopback item.sourceUrl then some (lit "invalid HTTPS media source URL")
  else none

/-! ## The writer -/

/-- The text printed so far, always short of the buffer it is in. -/
@[ext]
structure MediaJson where
  data : Bytes
  cap : Nat
  fits : data.length < cap

def mediaJsonPuts (text : Bytes) (json : MediaJson) : Option MediaJson :=
  if h : text.length ≥ json.cap - json.data.length then none
  else some ⟨json.data ++ text, json.cap, by have := json.fits; rw [List.length_append]; omega⟩

def mediaJsonEscape (text : CString) (json : MediaJson) : Option MediaJson :=
  match h : jsonEscape (json.cap - json.data.length) text.1 with
  | (out, true) =>
    some ⟨json.data ++ out, json.cap, by have := (jsonEscape_fits h).2; rw [List.length_append]; omega⟩
  | (_, false) => none

def mediaJsonU64 (value : Nat) (json : MediaJson) : Option MediaJson :=
  if (decNat value).length ≥ 32 then none else mediaJsonPuts (decNat value) json

def addSize (value add : Nat) : Option Nat := if add > sizeMax - value then none else some (value + add)

def addEscapedBound (value : Nat) (text : CString) : Option Nat :=
  if text.1.length > (sizeMax - value) / 6 then none else some (value + text.1.length * 6)

def addItemBound (cap : Nat) (item : FcMediaDescriptor) : Option Nat := do
  let cap ← addSize cap 192
  let cap ← addEscapedBound cap item.id
  let cap ← addEscapedBound cap item.filename
  let cap ← addEscapedBound cap item.mediaType
  addEscapedBound cap item.sourceUrl

/-- The capacity `build_canonical` computes. -/
def capacity (items : List FcMediaDescriptor) : Option Nat := items.foldlM addItemBound 256

def putItem (first : Bool) (item : FcMediaDescriptor) (json : MediaJson) : Option MediaJson := do
  let json ← if first then some json else mediaJsonPuts (lit ",") json
  let json ← mediaJsonPuts (lit "\x7b\"id\":\"") json
  let json ← mediaJsonEscape item.id json
  let json ← mediaJsonPuts (lit "\",\"filename\":\"") json
  let json ← mediaJsonEscape item.filename json
  let json ← mediaJsonPuts (lit "\",\"media_type\":\"") json
  let json ← mediaJsonEscape item.mediaType json
  let json ← mediaJsonPuts (lit "\",\"size_bytes\":") json
  let json ← mediaJsonU64 item.sizeBytes.toNat json
  let json ← mediaJsonPuts (lit ",\"source_url\":\"") json
  let json ← mediaJsonEscape item.sourceUrl json
  mediaJsonPuts (lit "\"\x7d") json

def putItems : Bool → List FcMediaDescriptor → MediaJson → Option MediaJson
  | _, [], json => some json
  | first, item :: items, json => (putItem first item json).bind (putItems false items)

def putManifest (items : List FcMediaDescriptor) (totalBytes : UInt64) (json : MediaJson) : Option MediaJson := do
  let json ← mediaJsonPuts (lit "\x7b\"version\":1,\"count\":") json
  let json ← mediaJsonU64 items.length json
  let json ← mediaJsonPuts (lit ",\"total_bytes\":") json
  let json ← mediaJsonU64 totalBytes.toNat json
  let json ← mediaJsonPuts (lit ",\"items\":[") json
  let json ← putItems true items json
  mediaJsonPuts (lit "]\x7d\n") json

/-- `build_canonical`; the allocation is taken to succeed. -/
def buildCanonical (items : List FcMediaDescriptor) (totalBytes : UInt64) : Except Bytes Bytes :=
  if items = [] then .error []
  else match capacity items with
    | none => .error (lit "media manifest size overflow")
    | some cap =>
      if cap > mediaFileMax then .error (lit "media manifest metadata exceeds limit")
      else if h : 0 < cap then
        match putManifest items totalBytes ⟨[], cap, h⟩ with
        | none => .error (lit "media manifest serialization overflow")
        | some json => .ok json.data
      else .error (lit "media manifest allocation failed")

/-- What `fc_media_manifest_write` finds around it: the test switch of the environment, the digest of a text, and
what becomes of the installation of a text under a path. -/
structure MediaEnv where
  allowLoopback : Bool
  sha256Hex : Bytes → Bytes
  install : Bytes → Bytes → Except Bytes Unit

/-- The loop of `fc_media_manifest_write` from item `i` on. -/
def writeTotal (allowLoopback : Bool) : Nat → UInt64 → List FcMediaDescriptor → Except Bytes UInt64
  | _, total, [] => .ok total
  | i, total, item :: items =>
    match fcMediaManifestValidateDescriptor allowLoopback item with
    | some itemError => .error (lit "media item " ++ decNat i ++ lit ": " ++ itemError)
    | none =>
      if item.sizeBytes > uint64Max - total then .error (lit "media total size overflow")
      else if total + item.sizeBytes > fcMediaMaxTotalBytes then
        .error (lit "media total exceeds " ++ decNat fcMediaMaxTotalBytes.toNat ++ lit " bytes")
      else writeTotal allowLoopback (i + 1) (total + item.sizeBytes) items

def fcMediaManifestWrite (env : MediaEnv) (items : List FcMediaDescriptor) : Except Bytes FcMediaManifestRef := do
  if items = [] ∨ items.length > fcMediaMaxItems then
    throw (lit "media attachment count must be between 1 and " ++ decNat fcMediaMaxItems)
  let total ← writeTotal env.allowLoopback 0 0 items
  let canonical ← buildCanonical items total
  let sha256 := env.sha256Hex canonical
  let manifest := lit "media/inbound/" ++ sha256 ++ lit ".json"
  let path := lit "workspace/" ++ manifest
  if manifest.length ≥ fcMediaManifestPathSize ∨ path.length ≥ fcMediaManifestPathSize + 16 then
    throw (lit "media manifest path overflow")
  match env.install path canonical with
  | .error e => throw (if e = [] then lit "cannot prepare private media manifest storage" else e)
  | .ok () => return { manifest, sha256, count := items.length, totalBytes := total }

/-! ## The reader -/

/-- `json_ref_string_dup`. -/
def jsonRefStringDup (v : JsonRef) : Option CString :=
  match stringCopyWrite (v.length + 1) v with
  | (out, true) => some ⟨cstr out, cstr_nulFree out⟩
  | (_, false) => none

def objectStringDup (object : JsonRef) (key : Bytes) : Option CString :=
  ((jsonRefObjectGet object key).filter fun v => jsonRefInferType v = .string).bind jsonRefStringDup

/-- `json_ref_object_get_long` where only a success is looked at. -/
def objectLong (object : JsonRef) (key : Bytes) : Option Int :=
  match jsonRefObjectGetLong object key 0 with
  | (z, true) => some z
  | (_, false) => none

/-- What one turn of the item loop reads before it validates. -/
def parseItem (item : JsonRef) : Option FcMediaDescriptor := do
  guard (jsonRefInferType item = .object)
  let id ← objectStringDup item (lit "id")
  let filename ← objectStringDup item (lit "filename")
  let mediaType ← objectStringDup item (lit "media_type")
  let sourceUrl ← objectStringDup item (lit "source_url")
  let size ← objectLong item (lit "size_bytes")
  guard (0 ≤ size)
  return { id, filename, mediaType, sizeBytes := UInt64.ofNat size.toNat, sourceUrl }

/-- The item loop of `parse_canonical`: `n` items from index `i` on, and the total of all. -/
def parseItems (allowLoopback : Bool) (itemsRef : JsonRef) :
    Nat → Nat → UInt64 → Except Bytes (List FcMediaDescriptor × UInt64)
  | 0, _, total => .ok ([], total)
  | n + 1, i, total =>
    match (jsonRefArrayGet itemsRef i).bind parseItem with
    | none => .error (lit "media manifest item " ++ decNat i ++ lit " has invalid schema")
    | some item =>
      match fcMediaManifestValidateDescriptor allowLoopback item with
      | some itemError => .error (lit "media manifest item " ++ decNat i ++ lit ": " ++ itemError)
      | none =>
        if item.sizeBytes > uint64Max - total then .error (lit "media manifest total size overflow")
        else if total + item.sizeBytes > fcMediaMaxTotalBytes then .error (lit "media manifest total exceeds limit")
        else match parseItems allowLoopback itemsRef n (i + 1) (total + item.sizeBytes) with
          | .error e => .error e
          | .ok (items, total) => .ok (item :: items, total)

/-- The declared count, the declared total and the array, where the schema holds. -/
def parseHead (text : Bytes) : Option (Nat × UInt64 × JsonRef) := do
  let root ← jsonRefTopObject text
  let version ← objectLong root (lit "version")
  guard (version = 1)
  let count ← objectLong root (lit "count")
  guard (0 < count ∧ count.toNat ≤ fcMediaMaxItems)
  let total ← objectLong root (lit "total_bytes")
  guard (0 < total ∧ total.toNat ≤ fcMediaMaxTotalBytes.toNat)
  let itemsRef ← jsonRefObjectGetArray root (lit "items")
  guard (jsonRefArraySize itemsRef = count.toNat)
  return (count.toNat, UInt64.ofNat total.toNat, itemsRef)

/-- `parse_canonical`. -/
def parseCanonical (allowLoopback : Bool) (text : Bytes) (ref : FcMediaManifestRef) (requireRefAggregates : Bool) :
    Except Bytes FcMediaManifest :=
  match parseHead text with
  | none => .error (lit "media manifest schema is invalid")
  | some (count, declaredTotal, itemsRef) =>
    match parseItems allowLoopback itemsRef count 0 0 with
    | .error e => .error e
    | .ok (items, total) =>
      if total ≠ declaredTotal ∨ (requireRefAggregates ∧ (count ≠ ref.count ∨ total ≠ ref.totalBytes)) then
        .error (lit "media manifest aggregate does not match reference")
      else match buildCanonical items total with
        | .error e => .error e
        | .ok rebuilt =>
          if rebuilt = text then .ok { items, count, totalBytes := total }
          else .error (lit "media manifest JSON is not canonical")

end Floofclaw.Source.MediaManifest
