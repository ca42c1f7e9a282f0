import Floofclaw.Source.AgentExec

/-!
# Coercion of arguments

Model of `action_coerce.c`. The members of the arguments are read through an
iterator that stops at the first key it cannot hold, and are printed again in
compact form; the result replaces the arguments only if a member was coerced and
the whole fits. A number in a string is whatever `strtod` takes whole.
-/

set_option autoImplicit false

namespace Floofclaw.Source.ActionCoerce
open Floofclaw.Lib Floofclaw.Source.Json Floofclaw.Source.Inbound Floofclaw.Source.AgentExec

/-! ## `strtod` -/

/-- The octets of a C identifier, as the sequence behind a NaN has them. -/
def isNanChar (c : Byte) : Bool :=
  isDigit c || (ch 'a' ≤ c && c ≤ ch 'z') || (ch 'A' ≤ c && c ≤ ch 'Z') || c = ch '_'

def skipSign : Bytes → Bytes
  | [] => []
  | c :: s => if c = ch '+' ∨ c = ch '-' then s else c :: s

/-- Digits with at most one point, behind at least one digit in all. -/
def mantissaRest (digit : Byte → Bool) (s : Bytes) : Option Bytes :=
  match s.dropWhile digit with
  | [] => if s = [] then none else some []
  | c :: t =>
    if c = ch '.' ∧ (s.head?.any digit ∨ t.head?.any digit) then some (t.dropWhile digit)
    else if s.head?.any digit then some (c :: t)
    else none

/-- An exponent, taken only with a digit behind its sign. -/
def exponentRest (mark : Byte → Bool) : Bytes → Bytes
  | [] => []
  | c :: s => if mark c ∧ (skipSign s).head?.any isDigit then (skipSign s).dropWhile isDigit else c :: s

def lowered (c : Byte) : Byte := if ch 'A' ≤ c ∧ c ≤ ch 'Z' then c + 32 else c

/-- The text behind a word, in letters of either case. -/
def behindWord (word s : Bytes) : Option Bytes :=
  if (s.take word.length).map lowered = word then some (s.drop word.length) else none

def nanRest (s : Bytes) : Bytes :=
  match s with
  | [] => []
  | c :: t =>
    if c = ch '(' then
      match t.dropWhile isNanChar with
      | [] => s
      | d :: r => if d = ch ')' then r else s
    else s

/-- What `strtod` leaves, behind white space and a sign; `none` when it converts nothing. -/
def strtodRest (s : Bytes) : Option Bytes :=
  let s := skipSign (skipWs s)
  match behindWord (lit "0x") s with
  | some t =>
    match mantissaRest isXDigit t with
    | some r => some (exponentRest (fun c => c = ch 'p' || c = ch 'P') r)
    | none => some (s.drop 1)
  | none =>
    match mantissaRest isDigit s with
    | some r => some (exponentRest (fun c => c = ch 'e' || c = ch 'E') r)
    | none =>
      match (behindWord (lit "infinity") s).or (behindWord (lit "inf") s) with
      | some r => some r
      | none => (behindWord (lit "nan") s).map nanRest

/-! ## The coercion -/

def numericString (s : Bytes) (integerOnly : Bool) : Bool :=
  strtodRest s = some [] && !(integerOnly && (s.contains (ch '.') || s.contains (ch 'e') || s.contains (ch 'E')))

def schemaPropType (schema : JsonRef) (key : Bytes) : Bytes :=
  match (jsonRefObjectGetObject schema (lit "properties")).bind fun props => jsonRefObjectGetObject props key with
  | none => []
  | some prop => stringField prop (lit "type") rtSmall []

/-- `json_ref_get_bool` into a cleared flag. -/
def jsonRefGetBool (v : JsonRef) : Bool := v.length = 4 && (lit "true").isPrefixOf v

/-- The spelling of a number or a boolean, in a buffer of `RT_LARGE` octets. -/
def spelling (val : JsonRef) : Bytes :=
  if jsonRefInferType val = .bool then if jsonRefGetBool val then lit "true" else lit "false"
  else clip rtLarge val

/-- The token a value is replaced with under a declared type; `none` leaves it as it is. -/
def coercedToken (type : Bytes) (val : JsonRef) : Option Bytes :=
  if jsonRefInferType val = .string ∧ (type = lit "integer" ∨ type = lit "number") then
    (jsonRefStringDup val).filter fun sv => numericString sv (type = lit "integer")
  else if type = lit "string" ∧ (jsonRefInferType val = .number ∨ jsonRefInferType val = .bool) then
    (mirror ((spelling val).length * 6 + 1) (spelling val)).map quoted
  else if type = lit "boolean" ∧ jsonRefInferType val = .string then
    (jsonRefStringCopy rtSmall val).filter fun sv => sv = lit "true" || sv = lit "false"
  else if type = lit "boolean" ∧ jsonRefInferType val = .number then
    match jsonRefGetLong val 0 with
    | (n, true) => if n = 0 then some (lit "false") else if n = 1 then some (lit "true") else none
    | (_, false) => none
  else none

/-- The members printed again, and whether one of them was coerced; `none` when a key does not fit its mirror. -/
def coerceLoop (schema : JsonRef) : List (Bytes × JsonRef) → Option (Bool × List (Bytes × Bytes))
  | [] => some (false, [])
  | (key, val) :: items =>
    match mirror rtMed key with
    | none => none
    | some ekey =>
      let token := coercedToken (schemaPropType schema key) val
      (coerceLoop schema items).map fun r => (token.isSome || r.1, (ekey, token.getD val) :: r.2)

/-- `rt_action_coerce_args`: the arguments it leaves, and whether it changed them. -/
def rtActionCoerceArgs (argsSchema argsInout : Bytes) (cap : Nat) : Bytes × Bool :=
  match jsonRefTopObject argsSchema, jsonRefTopObject argsInout with
  | some schema, some args =>
    match coerceLoop schema (objectItems args) with
    | some (true, members) =>
      if (objText members).length + 1 > cap then (argsInout, false) else (objText members, true)
    | _ => (argsInout, false)
  | _, _ => (argsInout, false)

end Floofclaw.Source.ActionCoerce
