import Floofclaw.Lib.JsonText

/-!
# The JSON reader and writer

Model of `support/json.c`. A text and its limit are the octets from the read
position up to the limit, so a scanner takes a text and returns what is left of
it; a `JsonRef` is the exact text of the span it delimits. A C string handed to
a reader is cut at its first NUL. Bounded writers return the octets they put
into the buffer together with their verdict, because several callers go on
after a failed write.
-/

set_option autoImplicit false

namespace Floofclaw.Source.Json
open Floofclaw.Lib

/-! ## Scanners -/

/-- `parse_json_string_end`, after the opening quote. -/
def stringBodyEnd : Bytes → Option Bytes
  | [] => none
  | c :: s =>
    if c = ch '"' then some s
    else if c = ch '\\' then
      match s with
      | [] => none
      | e :: s =>
        if e = ch 'u' then
          match s with
          | h1 :: h2 :: h3 :: h4 :: s =>
            if isXDigit h1 && isXDigit h2 && isXDigit h3 && isXDigit h4 then stringBodyEnd s else none
          | _ => none
        else if isSimpleEscape e then stringBodyEnd s
        else none
    else if c < 0x20 then none
    else stringBodyEnd s

def parseJsonStringEnd : Bytes → Option Bytes
  | [] => none
  | c :: s => if c = ch '"' then stringBodyEnd s else none

def skipDigits (s : Bytes) : Bytes := s.dropWhile isDigit

/-- One digit is required, the rest of the run is skipped. -/
def digitsEnd : Bytes → Option Bytes
  | [] => none
  | c :: s => if isDigit c then some (skipDigits s) else none

def fractionEnd (s : Bytes) : Option Bytes :=
  match s with
  | [] => some s
  | c :: t => if c = ch '.' then digitsEnd t else some s

def exponentEnd (s : Bytes) : Option Bytes :=
  match s with
  | [] => some s
  | c :: t =>
    if c = ch 'e' || c = ch 'E' then
      match t with
      | [] => none
      | d :: u => if d = ch '+' || d = ch '-' then digitsEnd u else digitsEnd t
    else some s

def parseJsonNumberEnd (s : Bytes) : Option Bytes :=
  match s with
  | [] => none
  | c :: t =>
    ((if c = ch '-' then digitsEnd t else digitsEnd s).bind fractionEnd).bind exponentEnd

/-- The literals `true`, `false` and `null`. -/
def keywordEnd (word s : Bytes) : Option Bytes :=
  if word.isPrefixOf s then some (s.drop word.length) else none

/-- One `"key" : value` pair: the key span, the value span and the rest. -/
def memberEnd (valueEnd : Bytes → Option Bytes) (s : Bytes) : Option (Bytes × Bytes × Bytes) :=
  match parseJsonStringEnd s with
  | none => none
  | some r =>
    match skipWs r with
    | [] => none
    | c :: r' =>
      if c = ch ':' then
        match valueEnd (skipWs r') with
        | none => none
        | some r'' =>
          some (s.take (s.length - r.length), (skipWs r').take ((skipWs r').length - r''.length), r'')
      else none

/-- The member loop of an object, entered at the first key. -/
def membersEnd (valueEnd : Bytes → Option Bytes) : Nat → Bytes → Option Bytes
  | 0, _ => none
  | n + 1, s =>
    match memberEnd valueEnd s with
    | none => none
    | some (_, _, r) =>
      match skipWs r with
      | [] => none
      | c :: r' =>
        if c = ch ',' then membersEnd valueEnd n (skipWs r')
        else if c = ch '}' then some r'
        else none

/-- The element loop of an array, entered at the first value. -/
def elementsEnd (valueEnd : Bytes → Option Bytes) : Nat → Bytes → Option Bytes
  | 0, _ => none
  | n + 1, s =>
    match valueEnd s with
    | none => none
    | some r =>
      match skipWs r with
      | [] => none
      | c :: r' =>
        if c = ch ',' then elementsEnd valueEnd n (skipWs r')
        else if c = ch ']' then some r'
        else none

/-- `parse_json_value_end` with a bound on the nesting depth. -/
def valueEnd : Nat → Bytes → Option Bytes
  | 0, _ => none
  | _ + 1, [] => none
  | fuel + 1, c :: s =>
    if c = ch '"' then stringBodyEnd s
    else if c = ch '{' then
      match skipWs s with
      | [] => none
      | d :: r => if d = ch '}' then some r else membersEnd (valueEnd fuel) (d :: r).length (d :: r)
    else if c = ch '[' then
      match skipWs s with
      | [] => none
      | d :: r => if d = ch ']' then some r else elementsEnd (valueEnd fuel) (d :: r).length (d :: r)
    else if c = ch 't' then keywordEnd (lit "true") (c :: s)
    else if c = ch 'f' then keywordEnd (lit "false") (c :: s)
    else if c = ch 'n' then keywordEnd (lit "null") (c :: s)
    else if isDigit c || c = ch '-' then parseJsonNumberEnd (c :: s)
    else none

/-- A text of `n` octets nests at most `n` deep, so its length bounds the recursion. -/
def parseJsonValueEnd (s : Bytes) : Option Bytes := valueEnd s.length s

/-! ## References -/

/-- The exact text of a value inside a larger text. -/
abbrev JsonRef := Bytes

inductive JsonRefType
  | invalid | object | array | string | number | bool | null
  deriving DecidableEq, Repr

def jsonRefInferType : JsonRef → JsonRefType
  | [] => .invalid
  | c :: _ =>
    if c = ch '{' then .object
    else if c = ch '[' then .array
    else if c = ch '"' then .string
    else if c = ch 't' || c = ch 'f' then .bool
    else if c = ch 'n' then .null
    else if isDigit c || c = ch '-' then .number
    else .invalid

/-- The value at the read position and the rest after it. -/
def valueSpan (s : Bytes) : Option (JsonRef × Bytes) :=
  match parseJsonValueEnd s with
  | none => none
  | some r => some (s.take (s.length - r.length), r)

def jsonRefFromText (text : Bytes) : Option JsonRef :=
  match valueSpan (skipWs (cstr text)) with
  | none => none
  | some (v, r) => if skipWs r = [] then some v else none

def jsonRefTopObject (text : Bytes) : Option JsonRef :=
  match jsonRefFromText text with
  | none => none
  | some v => if jsonRefInferType v = .object then some v else none

/-- The offset loop of `json_ref_first_object`. -/
def firstObjectLoop : Bytes → Option JsonRef
  | [] => none
  | c :: s =>
    if c = ch '{' then
      match valueSpan (c :: s) with
      | some (v, _) => some v
      | none => firstObjectLoop s
    else firstObjectLoop s

def jsonRefFirstObject (text : Bytes) : Option JsonRef := firstObjectLoop (cstr text)

/-! ## Strings -/

def hexValue (c : Byte) : Option Nat :=
  if 48 ≤ c && c ≤ 57 then some (c.toNat - 48)
  else if 97 ≤ c && c ≤ 102 then some (10 + (c.toNat - 97))
  else if 65 ≤ c && c ≤ 70 then some (10 + (c.toNat - 65))
  else none

/-- `parse_hex4`: the four digits' value and the rest. -/
def parseHex4 : Bytes → Option (Nat × Bytes)
  | a :: b :: c :: d :: s =>
    match hexValue a, hexValue b, hexValue c, hexValue d with
    | some a, some b, some c, some d => some (((a * 16 + b) * 16 + c) * 16 + d, s)
    | _, _, _, _ => none
  | _ => none

/-- The octets `utf8_write` appends for a code point. -/
def utf8Write (codepoint : Nat) : Bytes :=
  if codepoint ≤ 0x7F then [UInt8.ofNat codepoint]
  else if codepoint ≤ 0x7FF then
    [UInt8.ofNat (0xC0 + codepoint / 64), UInt8.ofNat (0x80 + codepoint % 64)]
  else if codepoint ≤ 0xFFFF then
    [UInt8.ofNat (0xE0 + codepoint / 4096), UInt8.ofNat (0x80 + codepoint / 64 % 64),
      UInt8.ofNat (0x80 + codepoint % 64)]
  else
    [UInt8.ofNat (0xF0 + codepoint / 262144), UInt8.ofNat (0x80 + codepoint / 4096 % 64),
      UInt8.ofNat (0x80 + codepoint / 64 % 64), UInt8.ofNat (0x80 + codepoint % 64)]

/-- The octet a one-letter escape stands for. -/
def simpleDecoded (c : Byte) : Option Byte :=
  if c = ch '"' || c = ch '\\' || c = ch '/' then some c
  else if c = ch 'b' then some 8
  else if c = ch 'f' then some 12
  else if c = ch 'n' then some 10
  else if c = ch 'r' then some 13
  else if c = ch 't' then some 9
  else none

/-- The low half of a surrogate pair, after the high half. -/
def lowSurrogate (hi : Nat) : Bytes → Option (Bytes × Bytes)
  | b :: u :: s =>
    if b = ch '\\' ∧ u = ch 'u' then
      match parseHex4 s with
      | none => none
      | some (lo, s) =>
        if 0xDC00 ≤ lo ∧ lo ≤ 0xDFFF then
          some (utf8Write (0x10000 + ((hi - 0xD800) * 1024 + (lo - 0xDC00))), s)
        else none
    else none
  | _ => none

/-- A `\u` escape, after the `u`. -/
def unicodeEscape (s : Bytes) : Option (Bytes × Bytes) :=
  match parseHex4 s with
  | none => none
  | some (hi, s) =>
    if 0xD800 ≤ hi ∧ hi ≤ 0xDBFF then lowSurrogate hi s
    else if 0xDC00 ≤ hi ∧ hi ≤ 0xDFFF then none
    else some (utf8Write hi, s)

/-- One pass of the copy loop short of the closing quote: the octets it appends, the rest. -/
def copyItem : Bytes → Option (Bytes × Bytes)
  | [] => none
  | c :: s =>
    if c = ch '\\' then
      match s with
      | [] => none
      | e :: s =>
        if e = ch 'u' then unicodeEscape s
        else match simpleDecoded e with
          | none => none
          | some d => some ([d], s)
    else if c < 0x20 then none
    else some ([c], s)

/-- The copy loop of `json_ref_string_copy` over a span whose opening quote is read. -/
def stringCopyLoop (outLen : Nat) : Nat → Bytes → Bytes → Bytes × Bool
  | 0, _, out => (out, false)
  | _ + 1, [], out => (out, false)
  | n + 1, c :: s, out =>
    if c = ch '"' then (out, decide (out.length < outLen))
    else match copyItem (c :: s) with
      | none => (out, false)
      | some (d, r) =>
        if out.length + d.length ≥ outLen then (out, false)
        else stringCopyLoop outLen n r (out ++ d)

/-- The octets put into the buffer, and whether the copy succeeded and was terminated. -/
def stringCopyWrite (outLen : Nat) : JsonRef → Bytes × Bool
  | [] => ([], false)
  | c :: s => if c = ch '"' then stringCopyLoop outLen s.length s [] else ([], false)

/-- `json_ref_string_copy`: the C string left in the buffer. -/
def jsonRefStringCopy (outLen : Nat) (v : JsonRef) : Option Bytes :=
  match stringCopyWrite outLen v with
  | (out, true) => some (cstr out)
  | (_, false) => none

/-! ## Lookups -/

/-- `json_ref_object_get` from the first key on; keys are decoded into 256 octets. -/
def objectGetLoop (key : Bytes) : Nat → Bytes → Option JsonRef
  | 0, _ => none
  | n + 1, s =>
    match memberEnd parseJsonValueEnd s with
    | none => none
    | some (k, v, r) =>
      match jsonRefStringCopy 256 k with
      | none => none
      | some decoded =>
        if decoded = key then some v
        else match skipWs r with
          | [] => none
          | c :: r' => if c = ch ',' then objectGetLoop key n (skipWs r') else none

def jsonRefObjectGet (obj : JsonRef) (key : Bytes) : Option JsonRef :=
  match obj with
  | [] => none
  | c :: s => if c = ch '{' then objectGetLoop key obj.length (skipWs s) else none

/-- The verdict of one call of `json_ref_object_iter`. -/
inductive IterResult
  | done
  | fail
  | item (key : Bytes) (value : JsonRef)
  deriving DecidableEq, Repr

/-- `json_ref_object_iter` from the first key on: `skip` members are passed before one is decoded. -/
def objectIterLoop (keyOutLen : Nat) : Nat → Nat → Bytes → IterResult
  | 0, _, _ => .fail
  | n + 1, skip, s =>
    match memberEnd parseJsonValueEnd s with
    | none => .fail
    | some (k, v, r) =>
      match skip with
      | 0 =>
        match jsonRefStringCopy keyOutLen k with
        | none => .fail
        | some decoded => .item decoded v
      | skip + 1 =>
        match skipWs r with
        | [] => .done
        | c :: r' =>
          if c = ch '}' then .done
          else objectIterLoop keyOutLen n skip (if c = ch ',' then skipWs r' else c :: r')

def jsonRefObjectIter (keyOutLen : Nat) (obj : JsonRef) (cursor : Nat) : IterResult :=
  match obj with
  | [] => .fail
  | c :: s =>
    if c = ch '{' then
      match skipWs s with
      | [] => .done
      | d :: r => if d = ch '}' then .done else objectIterLoop keyOutLen obj.length cursor (d :: r)
    else .fail

def jsonRefObjectGetObject (obj : JsonRef) (key : Bytes) : Option JsonRef :=
  (jsonRefObjectGet obj key).filter fun v => jsonRefInferType v = .object

def jsonRefObjectGetArray (obj : JsonRef) (key : Bytes) : Option JsonRef :=
  (jsonRefObjectGet obj key).filter fun v => jsonRefInferType v = .array

def jsonRefObjectGetString (obj : JsonRef) (key : Bytes) (outLen : Nat) : Option Bytes :=
  (jsonRefObjectGet obj key).bind (jsonRefStringCopy outLen)

/-- The element loop of `json_ref_array_get`. -/
def arrayGetLoop : Nat → Bytes → Option JsonRef
  | index, s =>
    match valueSpan s with
    | none => none
    | some (v, r) =>
      match index with
      | 0 => some v
      | index + 1 =>
        match skipWs r with
        | [] => none
        | c :: r' => if c = ch ',' then arrayGetLoop index (skipWs r') else none

def jsonRefArrayGet (arr : JsonRef) (index : Nat) : Option JsonRef :=
  match arr with
  | [] => none
  | c :: s =>
    if c = ch '[' then
      match skipWs s with
      | [] => none
      | d :: r => if d = ch ']' then none else arrayGetLoop index (d :: r)
    else none

/-- The counting loop of `json_ref_array_size`. -/
def arraySizeLoop : Nat → Bytes → Nat → Nat
  | 0, _, _ => 0
  | n + 1, s, size =>
    match valueSpan s with
    | none => 0
    | some (_, r) =>
      match skipWs r with
      | [] => 0
      | c :: r' =>
        if c = ch ',' then arraySizeLoop n (skipWs r') (size + 1)
        else if c = ch ']' then size + 1
        else 0

def jsonRefArraySize (arr : JsonRef) : Nat :=
  match arr with
  | [] => 0
  | c :: s =>
    if c = ch '[' then
      match skipWs s with
      | [] => 0
      | d :: r => if d = ch ']' then 0 else arraySizeLoop arr.length (d :: r) 0
    else 0

/-! ## Numbers -/

def int64Max : Int := 9223372036854775807
def int64Min : Int := -9223372036854775808

/-- The sign of a number span and what follows it. -/
def signSplit (s : Bytes) : Bool × Bytes :=
  match s with
  | [] => (false, s)
  | c :: t => if c = ch '-' then (true, t) else (false, s)

/-- The value `strtoll` returns for a numeral, and whether it left `errno` clear. -/
def clampLong (z : Int) : Int × Bool :=
  if z < int64Min then (int64Min, false) else if int64Max < z then (int64Max, false) else (z, true)

/-- `strtoll` on a number span: the clamped value, the rest, and whether `errno` stayed clear. -/
def strtoll (s : Bytes) : Int × Bytes × Bool :=
  let digits := (signSplit s).2
  let n : Int := decValue (digits.takeWhile isDigit)
  let z := clampLong (if (signSplit s).1 then -n else n)
  (z.1, skipDigits digits, z.2)

/-- `json_ref_get_long`: the value left in `*out` and the verdict. A number that is no integer
or is out of range has been written when the call fails. -/
def jsonRefGetLong (v : JsonRef) (old : Int) : Int × Bool :=
  if jsonRefInferType v = .number ∧ parseJsonNumberEnd v = some [] then
    match strtoll v with
    | (z, rest, inRange) => (z, rest.isEmpty && inRange)
  else (old, false)

def jsonRefObjectGetLong (obj : JsonRef) (key : Bytes) (old : Int) : Int × Bool :=
  match jsonRefObjectGet obj key with
  | none => (old, false)
  | some v => jsonRefGetLong v old

/-! ## Writers -/

/-- `json_ref_value_copy`. -/
def jsonRefValueCopy (outLen : Nat) (v : JsonRef) : Option Bytes :=
  if v.length + 1 > outLen then none else some v

def hexDigit (n : Nat) : Byte := if n < 10 then UInt8.ofNat (48 + n) else UInt8.ofNat (87 + n)

/-- What `json_escape` writes for one octet. -/
def escapeByte (c : Byte) : Bytes :=
  if c = ch '"' then [ch '\\', ch '"']
  else if c = ch '\\' then [ch '\\', ch '\\']
  else if c = 8 then [ch '\\', ch 'b']
  else if c = 12 then [ch '\\', ch 'f']
  else if c = 10 then [ch '\\', ch 'n']
  else if c = 13 then [ch '\\', ch 'r']
  else if c = 9 then [ch '\\', ch 't']
  else if c < 0x20 then lit "\\u00" ++ [hexDigit (c.toNat / 16), hexDigit (c.toNat % 16)]
  else [c]

/-- `json_escape` over a C string: the terminated prefix in the buffer, and the verdict. -/
def escapeLoop (outLen : Nat) : Bytes → Bytes → Bytes × Bool
  | [], out => (out, true)
  | c :: s, out =>
    if out.length + (escapeByte c).length + 1 > outLen then (out, false)
    else escapeLoop outLen s (out ++ escapeByte c)

def jsonEscape (outLen : Nat) (src : Bytes) : Bytes × Bool :=
  if outLen = 0 then ([], false) else escapeLoop outLen (cstr src) []

/-- `json_compact`: the octets put into the buffer, and the verdict; a failed call leaves them
without a terminator. -/
def compactLoop (outLen : Nat) : Bool → Bytes → Bytes → Bytes × Bool
  | inString, [], out => (out, !inString)
  | true, c :: s, out =>
    if c = ch '\\' then
      match s with
      | [] => (out, false)
      | e :: s => if out.length + 2 ≥ outLen then (out, false) else compactLoop outLen true s (out ++ [c, e])
    else if out.length + 1 ≥ outLen then (out, false)
    else compactLoop outLen (c ≠ ch '"') s (out ++ [c])
  | false, c :: s, out =>
    if c = ch '"' then
      if out.length + 1 ≥ outLen then (out, false) else compactLoop outLen true s (out ++ [c])
    else if isSpace c then compactLoop outLen false s out
    else if out.length + 1 ≥ outLen then (out, false)
    else compactLoop outLen false s (out ++ [c])

def jsonCompactWrite (outLen : Nat) (src : Bytes) : Bytes × Bool :=
  if outLen = 0 then ([], false) else compactLoop outLen false (cstr src) []

def jsonCompact (outLen : Nat) (src : Bytes) : Option Bytes :=
  match jsonCompactWrite outLen src with
  | (out, true) => some out
  | (_, false) => none

example : jsonRefTopObject (lit " \x7b\"a\" : [1, 2]\x7d ") = some (lit "\x7b\"a\" : [1, 2]\x7d") := by
  decide +kernel
example : (jsonRefObjectGet (lit "\x7b\"a\":1,\"\\u0062\":\x7b\x7d\x7d") (lit "b")) = some (lit "\x7b\x7d") := by
  decide +kernel

end Floofclaw.Source.Json
