import Floofclaw.Source.ActionReports

/-!
# The file intrinsics

Model of `action_runtime_files.c`: the four workspace file actions with every
failure branch, and of `fc_rotate_file` the texts of its errors. What the file
system answers during one call is a parameter. A call ends in an `Outcome`,
which keeps apart what a report splices raw, what it splices escaped and the
constant text around both; `Outcome.result` and `Outcome.error` are the texts in
the two buffers.
-/

set_option autoImplicit false

namespace Floofclaw.Source.FileIntrinsics
open Floofclaw.Lib Floofclaw.Source.Json Floofclaw.Source.Inbound Floofclaw.Source.RunState
open Floofclaw.Source.ActionReports

def pathMax : Nat := 4096

/-- A C string from the system. -/
abbrev SystemText : Type := { s : Bytes // NulFree s }

/-- A 64-bit number from the system. -/
abbrev SystemLong : Type := { z : Int // int64Min ≤ z ∧ z ≤ int64Max }

/-- A file opened for reading: `ftell` at its end, when the seek worked; seeks; reads of at most so many octets. -/
structure OpenFile where
  tell : Option SystemLong
  seek : Int → Bool
  read : Int → Nat → Bytes

/-- The answers of the system during one call. -/
structure FileSystem where
  realpath : Bytes → Option SystemText
  mkdirRoot : Bytes → Bool
  realpathMade : Bytes → Option SystemText
  opendir : Bytes → Option (List SystemText)
  stat : Bytes → Option (Bool × SystemLong)
  openRead : Bytes → Option OpenFile
  allocates : Nat → Bool
  mkdirParents : Bytes → Bool
  openWrite : Bytes → Bool
  fwrite : Bytes → Bytes → Bool
  fileExists : Bytes → Bool
  gzipAvailable : Bool
  stillExists : Bytes → Bool
  /-- `none` is success, else the text of `strerror`. -/
  rename : Bytes → Bytes → Option SystemText

/-! ## Outcomes -/

/-- What the result of a failed call shows of the path. -/
inductive Shown
  | nothing
  | raw (path : Bytes)
  | escaped (text : Bytes)
  deriving DecidableEq, Repr

inductive Outcome
  | done (result : Bytes)
  /-- The message is constant text and behind it a text written as it is. -/
  | failed (frame raw : Bytes) (shown : Shown)
  /-- The message went through `json_escape`. -/
  | failedEscaped (message : Bytes)
  deriving DecidableEq, Repr

def Shown.text : Shown → Bytes
  | .nothing => lit "\x7b\x7d"
  | .raw s | .escaped s => objText [(lit "path", quoted s)]

def messageText (message : Bytes) : Bytes := objText [(lit "message", quoted message)]

def Outcome.ok : Outcome → Bool
  | .done _ => true
  | _ => false

/-- The result buffer, of `RT_XL` octets. -/
def Outcome.result : Outcome → Bytes
  | .done result => clip rtXl result
  | .failed _ _ shown => clip rtXl shown.text
  | .failedEscaped _ => lit "\x7b\x7d"

/-- The error buffer, of `RT_LARGE` octets. -/
def Outcome.error : Outcome → Bytes
  | .done _ => lit "null"
  | .failed frame raw _ => clip rtLarge (messageText (frame ++ raw))
  | .failedEscaped message => clip rtLarge (messageText message)

/-! ## Paths -/

/-- A failed resolution: the constant part of its message, and what is spliced behind it. -/
abbrev ResolveError := Bytes × Bytes

/-- The text before the last slash, and behind it. -/
def splitLastSlash (path : Bytes) : Option (Bytes × Bytes) :=
  let base := (path.reverse.takeWhile (· ≠ ch '/')).reverse
  if base.length = path.length then none else some (path.take (path.length - base.length - 1), base)

def workspaceRoot (fs : FileSystem) (runDir : Bytes) : Except ResolveError Bytes :=
  match before (lit "/runs/") runDir with
  | none => .error (lit "workspace root unavailable", [])
  | some [] => .error (lit "workspace root unavailable", [])
  | some root =>
    if root.length ≥ pathMax then .error (lit "workspace root too long", [])
    else
      match fs.realpath root with
      | some abs => .ok abs.val
      | none =>
        if fs.mkdirRoot root then
          match fs.realpathMade root with
          | some abs => .ok abs.val
          | none => .error (lit "workspace unavailable", [])
        else .error (lit "workspace unavailable", [])

/-- The resolved target: its own real path, or its parent's with the leaf behind it. -/
def resolveTarget (fs : FileSystem) (joined path : Bytes) : Except ResolveError Bytes :=
  match fs.realpath joined with
  | some abs => .ok abs.val
  | none =>
    match splitLastSlash joined with
    | none => .error (lit "invalid path", [])
    | some (parent, leaf) =>
      match fs.realpath (if parent = [] then lit "/" else parent) with
      | none => .error (lit "path parent missing: ", path)
      | some parentAbs =>
        let abs := parentAbs.val ++ lit "/" ++ leaf
        if abs.length ≥ pathMax then .error (lit "path too long", []) else .ok abs

def rtActionResolveWorkspacePath (fs : FileSystem) (runDir path : Bytes) : Except ResolveError Bytes := do
  let wsAbs ← workspaceRoot fs runDir
  let joined := wsAbs ++ lit "/" ++ path
  if joined.length ≥ pathMax then .error (lit "path too long", [])
  else
    let abs ← resolveTarget fs joined path
    if wsAbs.isPrefixOf abs ∧ (abs.length = wsAbs.length ∨ abs[wsAbs.length]? = some (ch '/')) then .ok abs
    else .error (lit "path escapes workspace", [])

/-- `rt_json_get_string` into the path buffer, whose verdict is not read. -/
def pathField (args old : Bytes) : Bytes :=
  match jsonRefFirstObject args with
  | none => old
  | some root => stringField root (lit "path") pathMax old

/-! ## Listing a directory -/

def boolText (b : Bool) : Bytes := if b then lit "true" else lit "false"

def entryText (name : Bytes) (isDir : Bool) (size : SystemLong) : Bytes :=
  objText [(lit "name", quoted (escapeCut (rtMed * 2) name)), (lit "is_dir", boolText isDir), (lit "size", decInt size.val)]

def entryItem (comma : Bool) (name : Bytes) (isDir : Bool) (size : SystemLong) : Bytes :=
  clip rtLarge ((if comma then [ch ','] else []) ++ entryText name isDir size)

def listingCap : Nat := 1600

/-- The loop over the entries: the result so far, the plain listing, and whether an entry was left out. -/
def entriesLoop (fs : FileSystem) (abs : Bytes) (opening : Nat) : List SystemText → Bytes → Bytes → Bytes × Bytes × Bool
  | [], result, listing => (result, listing, false)
  | name :: names, result, listing =>
    if name.val = lit "." ∨ name.val = lit ".." then entriesLoop fs abs opening names result listing
    else
      let st := (fs.stat (clip pathMax (abs ++ lit "/" ++ name.val))).getD (false, ⟨0, by decide⟩)
      let item := entryItem (result.length > opening) name.val st.1 st.2
      if result.length + item.length + 32 ≥ rtXl then (result, listing, true)
      else
        entriesLoop fs abs opening names (result ++ item)
          (if listing.length + name.val.length + 3 < listingCap then
            listing ++ name.val ++ (if st.1 then lit "/" else []) ++ lit "\n"
          else listing)

def listOpening (path : Bytes) : Bytes :=
  lit "\x7b\"path\":\"" ++ escapeCut (pathMax * 2) path ++ lit "\",\"entries\":["

def listClosing (listing : Bytes) (truncated : Bool) : Bytes :=
  lit "],\"text\":\"" ++ escapeOrEmpty 3400 listing ++ lit "\",\"truncated\":" ++ boolText truncated ++ lit "\x7d"

/-- The whole text of a listing, before the buffer cuts it. -/
def listText (fs : FileSystem) (abs path : Bytes) (names : List SystemText) : Bytes :=
  let opening := listOpening path
  match entriesLoop fs abs opening.length names opening [] with
  | (result, listing, truncated) => result ++ listClosing listing truncated

def fcListDirectory (fs : FileSystem) (runDir args : Bytes) : Outcome :=
  let field := pathField args (lit ".")
  let path := if field = [] then lit "." else field
  match rtActionResolveWorkspacePath fs runDir path with
  | .error e => .failed e.1 e.2 .nothing
  | .ok abs =>
    match fs.opendir abs with
    | none => .failedEscaped (escapeCut rtMed (clip rtMed (lit "could not open directory: " ++ path)))
    | some names => .done (listText fs abs path names)

/-! ## Reading a file -/

def readCap : Int := 32768

/-- `append_escaped_bytes`: a NUL or a text that leaves less than the reserve fails. -/
def appendEscapedBytes (outLen reserve : Nat) : Bytes → Bytes → Option Bytes
  | [], out => some out
  | c :: s, out =>
    if c = 0 ∨ out.length + (escapeByte c).length + reserve ≥ outLen then none
    else appendEscapedBytes outLen reserve s (out ++ escapeByte c)

/-- A positive integer of the arguments, or the default. -/
def positiveArg (args key : Bytes) (default : Int) : Int :=
  match jsonRefFirstObject args with
  | none => default
  | some root =>
    match jsonRefObjectGetLong root key 0 with
    | (v, true) => if v > 0 then v else default
    | (_, false) => default

def readHeader (base tool : Bytes) (total offset nread : Int) : Bytes :=
  if nread = 0 then clip rtMed (lit "[END OF FILE - no content at this offset]")
  else if offset + nread < total then
    clip rtMed (lit "[file: " ++ base ++ lit " | total: " ++ decInt total ++ lit " bytes | read: bytes " ++ decInt offset ++
      lit "-" ++ decInt (offset + nread - 1) ++ lit "]\n[TRUNCATED - file has more content. Call " ++ tool ++
      lit " again with offset=" ++ decInt (offset + nread) ++ lit " to continue.]")
  else
    clip rtMed (lit "[file: " ++ base ++ lit " | total: " ++ decInt total ++ lit " bytes | read: bytes " ++ decInt offset ++
      lit "-" ++ decInt (offset + nread - 1) ++ lit "]\n[END OF FILE - no further content.]")

def readOpening (epath : Bytes) : Bytes := lit "\x7b\"path\":\"" ++ epath ++ lit "\",\"text\":\""

def readClosing (total offset nread : Int) : Bytes :=
  lit "\",\"truncated\":" ++ boolText (offset + nread < total) ++ lit ",\"bytes\":" ++ decInt total ++
    lit ",\"content_bytes\":" ++ decInt nread ++ lit ",\"offset\":" ++ decInt offset ++ lit ",\"next_offset\":" ++
    decInt (offset + nread) ++ lit "\x7d"

/-- The text after the last slash. -/
def baseName (path : Bytes) : Bytes := ((splitLastSlash path).map Prod.snd).getD path

/-- The result of a read, from the octets it got. -/
def readReport (path tool buf : Bytes) (total offset : Int) : Outcome :=
  match mirror (pathMax * 2) path with
  | none => .failed (lit "path escape failed") [] (.escaped [])
  | some epath =>
    if (readOpening epath).length ≥ rtXl then .failed (lit "read result envelope too large: ") path .nothing
    else
      let header := readHeader (escapeOrEmpty rtMed (baseName path)) tool total offset buf.length
      match (appendEscapedBytes rtXl 384 header (readOpening epath)).bind fun text =>
          if buf = [] then some text
          else (appendEscapedBytes rtXl 384 (lit "\n\n") text).bind (appendEscapedBytes rtXl 384 buf) with
      | none => .failed (lit "read content escape failed: ") path .nothing
      | some text =>
        let result := text ++ readClosing total offset buf.length
        if result.length ≥ rtXl then .failed (lit "read result envelope too large: ") path .nothing else .done result

/-- The size a file is taken to have: none is known when the seek to its end fails. -/
def OpenFile.total (file : OpenFile) : Int := max 0 ((file.tell.map Subtype.val).getD 0)

def fcReadFile (fs : FileSystem) (runDir actionId args : Bytes) : Outcome :=
  let tool := clip rtSmall (if actionId = [] then lit "tool" else actionId)
  let path := pathField args []
  let length := min (positiveArg args (lit "length") readCap) readCap
  if path = [] then .failed (lit "path is required") [] .nothing
  else
    match rtActionResolveWorkspacePath fs runDir path with
    | .error e => .failed e.1 e.2 (.raw path)
    | .ok abs =>
      match fs.openRead abs with
      | none => .failed (lit "read failed: ") path (.raw path)
      | some file =>
        let offset := min (positiveArg args (lit "offset") 0) file.total
        if file.seek offset = false then .failed (lit "seek failed: ") path (.raw path)
        else if fs.allocates (length.toNat + 1) = false then .failed (lit "read allocation failed") [] (.raw path)
        else readReport path tool ((file.read offset length.toNat).take length.toNat) file.total offset

/-! ## Writing a file -/

/-- The `content` member: absent is empty, anything but a string that decodes is refused. -/
def contentField (args : Bytes) : Except Bytes Bytes :=
  match (jsonRefFirstObject args).bind fun root => jsonRefObjectGet root (lit "content") with
  | none => .ok []
  | some value =>
    if jsonRefInferType value = .string then
      match jsonRefStringDup value with
      | none => .error (lit "content decode failed")
      | some content => .ok content
    else .error (lit "content must be a string")

def fcWriteFile (fs : FileSystem) (runDir args : Bytes) : Outcome :=
  let path := pathField args []
  match contentField args with
  | .error message => .failed message [] (.raw path)
  | .ok content =>
    if path = [] then .failed (lit "path is required") [] .nothing
    else
      match rtActionResolveWorkspacePath fs runDir path with
      | .error e => .failed e.1 e.2 (.raw path)
      | .ok abs =>
        if (splitLastSlash abs).any (fun parts => fs.mkdirParents parts.1 = false) then
          .failed (lit "mkdir parents failed: ") path (.raw path)
        else if fs.openWrite abs = false then .failed (lit "open for write failed: ") path (.raw path)
        else if fs.fwrite abs content = false then .failed (lit "write failed: ") path (.raw path)
        else
          let epath := escapeOrEmpty (pathMax * 2) path
          .done (objText [(lit "path", quoted epath), (lit "text", quoted (lit "wrote " ++ epath))])

/-! ## Rotating a file -/

/-- `fc_rotate_file`: the error left in a buffer of 128 octets, `none` when the file was rotated. -/
def fcRotateFile (fs : FileSystem) (abs : Bytes) : Option Bytes :=
  if (before (lit "..") abs).isSome then some (clip 128 (lit "path contains ..: " ++ abs))
  else if fs.stillExists abs = false then some (clip 128 (lit "file does not exist: " ++ abs))
  else
    let first := clip 512 (abs ++ lit ".1")
    (fs.rename abs first).map fun reason =>
      clip 128 (lit "rename " ++ abs ++ lit " -> " ++ first ++ lit " failed: " ++ reason.val)

/-- `(int)` of a 64-bit value. -/
def toInt32 (v : Int) : Int := Int.bmod v (2 ^ 32)

def keepField (root : JsonRef) : Int :=
  match jsonRefObjectGetLong root (lit "keep") 0 with
  | (v, true) => toInt32 v
  | (_, false) => 0

def fcRotateFileIntrinsic (fs : FileSystem) (runDir args : Bytes) : Outcome :=
  match jsonRefFirstObject args with
  | none => .failed (lit "args must be an object") [] .nothing
  | some root =>
    let path := stringField root (lit "path") pathMax []
    let keep := keepField root
    let compress := stringField root (lit "compress") 16 (lit "gzip") = lit "gzip"
    if path = [] ∨ keep ≤ 0 then .failed (lit "path and keep>0 are required") [] .nothing
    else
      match rtActionResolveWorkspacePath fs runDir path with
      | .error e => .failed e.1 e.2 (.raw path)
      | .ok abs =>
        let epath := escapeOrEmpty (pathMax * 2) path
        if fs.fileExists abs = false then
          .done (objText [(lit "path", quoted epath), (lit "action", quoted (lit "not_present"))])
        else
          match fcRotateFile fs abs with
          | some message => .failed (lit "rotate failed: ") (if message = [] then lit "unknown" else message) (.escaped epath)
          | none =>
            .done (objText [(lit "path", quoted epath), (lit "keep", decInt keep),
              (lit "compress", quoted (if compress ∧ fs.gzipAvailable then lit "gzip" else lit "none")),
              (lit "action", quoted (lit "rotated"))])

/-! ## The four of them -/

inductive Intrinsic
  | listDirectory | readFile | writeFile | rotateFile
  deriving DecidableEq, Repr

def Intrinsic.run (i : Intrinsic) (fs : FileSystem) (runDir actionId args : Bytes) : Outcome :=
  match i with
  | .listDirectory => fcListDirectory fs runDir args
  | .readFile => fcReadFile fs runDir actionId args
  | .writeFile => fcWriteFile fs runDir args
  | .rotateFile => fcRotateFileIntrinsic fs runDir args

/-- One completed call: the payload of the terminal that is appended. -/
def completeIntrinsic (prepare : Bytes → Bool) (i : Intrinsic) (fs : FileSystem) (runDir args : Bytes) (call : Call) :
    Option Bytes :=
  let o := i.run fs runDir call.action args
  reportIntrinsic prepare call o.ok o.result o.error

end Floofclaw.Source.FileIntrinsics
