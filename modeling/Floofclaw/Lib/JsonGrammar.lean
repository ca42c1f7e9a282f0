import Floofclaw.Lib.JsonText

/-!
# The productions of JSON

RFC 8259 over octets, production by production. A dialect says which octets are
white space and which digit texts are integer parts; everything else is the
RFC's. Structural characters stand between optional white space, and a value's
own text begins and ends with it.
-/

set_option autoImplicit false

namespace Floofclaw.Lib

/-- What a reader may take more liberally than the RFC. -/
structure Dialect where
  space : Byte → Bool
  intPart : Bytes → Prop

namespace Dialect

/-- White space is space, tab, line feed and carriage return; an integer part is zero or has no leading zero. -/
def rfc8259 : Dialect :=
  { space := fun c => c = ch ' ' || c = 9 || c = 10 || c = 13
    intPart := fun s => s = [ch '0'] ∨ ∃ c ds, s = c :: ds ∧ isDigit c = true ∧ c ≠ ch '0' ∧ ∀ d ∈ ds, isDigit d = true }

/-- The two liberties of a reader over the C library: `isspace` for white space, any digits for an integer part. -/
def relaxed : Dialect := { rfc8259 with space := isSpace, intPart := Digits }

variable (d : Dialect)

/-- `ws` -/
def Space (w : Bytes) : Prop := ∀ c ∈ w, d.space c = true

/-- A structural character with the white space around it. -/
inductive Structural (c : Byte) : Bytes → Prop
  | mk {w w' : Bytes} : d.Space w → d.Space w' → Structural c (w ++ (c :: w'))

/-- `number` -/
inductive Number : Bytes → Prop
  | mk {sg ip fr ex : Bytes} : sg = [] ∨ sg = [ch '-'] → d.intPart ip → FracText fr → ExpText ex →
    Number (sg ++ (ip ++ (fr ++ ex)))

inductive Production
  | value | elements | members

/-- `Derives p t`: the production derives the text. -/
inductive Derives : Production → Bytes → Prop
  | true : Derives .value (lit "true")
  | false : Derives .value (lit "false")
  | null : Derives .value (lit "null")
  | number {t : Bytes} : d.Number t → Derives .value t
  | string {b : Bytes} : StrBody b → Derives .value (quoted b)
  | emptyArray {w : Bytes} : d.Space w → Derives .value (ch '[' :: (w ++ [ch ']']))
  | array {w w' body : Bytes} : d.Space w → Derives .elements body → d.Space w' →
    Derives .value (ch '[' :: (w ++ (body ++ (w' ++ [ch ']']))))
  | emptyObject {w : Bytes} : d.Space w → Derives .value (ch '{' :: (w ++ [ch '}']))
  | object {w w' body : Bytes} : d.Space w → Derives .members body → d.Space w' →
    Derives .value (ch '{' :: (w ++ (body ++ (w' ++ [ch '}']))))
  | element {v : Bytes} : Derives .value v → Derives .elements v
  | moreElements {v s body : Bytes} : Derives .value v → d.Structural (ch ',') s → Derives .elements body →
    Derives .elements (v ++ (s ++ body))
  | member {k s v : Bytes} : StrBody k → d.Structural (ch ':') s → Derives .value v →
    Derives .members (quoted k ++ (s ++ v))
  | moreMembers {k s v s' body : Bytes} : StrBody k → d.Structural (ch ':') s → Derives .value v →
    d.Structural (ch ',') s' → Derives .members body → Derives .members (quoted k ++ (s ++ (v ++ (s' ++ body))))

/-- `JSON-text` -/
def Text (t v : Bytes) : Prop := ∃ w w', d.Space w ∧ d.Space w' ∧ d.Derives .value v ∧ t = w ++ (v ++ w')

variable {d} {d' : Dialect}

/-! ## Texts without white space -/

theorem space_nil : d.Space [] := fun _ hc => absurd hc List.not_mem_nil

theorem Structural.bare (c : Byte) : d.Structural c [c] := .mk (w := []) space_nil (space_nil : d.Space [])

theorem Derives.membersText {m : Bytes × Bytes} {ms : List (Bytes × Bytes)}
    (h : ∀ x ∈ m :: ms, StrBody x.1 ∧ d.Derives .value x.2) : d.Derives .members (membersText (m :: ms)) := by
  induction ms generalizing m with
  | nil =>
    obtain ⟨hk, hv⟩ := h m List.mem_cons_self
    exact .member hk (.bare _) hv
  | cons m' ms ih =>
    obtain ⟨⟨hk, hv⟩, hrest⟩ := List.forall_mem_cons.mp h
    exact .moreMembers hk (.bare _) hv (.bare _) (ih hrest)

theorem Derives.objText {ms : List (Bytes × Bytes)} (h : ∀ x ∈ ms, StrBody x.1 ∧ d.Derives .value x.2) :
    d.Derives .value (objText ms) := by
  cases ms with
  | nil => exact .emptyObject (w := []) space_nil
  | cons m ms => exact .object (w := []) space_nil (.membersText h) (space_nil : d.Space [])

theorem Derives.elemsText {x : Bytes} {xs : List Bytes} (h : ∀ y ∈ x :: xs, d.Derives .value y) :
    d.Derives .elements (elemsText (x :: xs)) := by
  induction xs generalizing x with
  | nil => exact .element (h x List.mem_cons_self)
  | cons y ys ih =>
    obtain ⟨hx, hrest⟩ := List.forall_mem_cons.mp h
    exact .moreElements hx (.bare _) (ih hrest)

theorem Derives.arrText {xs : List Bytes} (h : ∀ x ∈ xs, d.Derives .value x) : d.Derives .value (arrText xs) := by
  cases xs with
  | nil => exact .emptyArray (w := []) space_nil
  | cons x xs => exact .array (w := []) space_nil (.elemsText h) (space_nil : d.Space [])

/-- A numeral without leading zeros. -/
theorem intPart_decFuel {fuel n : Nat} (h : n < fuel) : rfc8259.intPart (decFuel fuel n) ∧ (0 < n → decFuel fuel n ≠ [ch '0']) := by
  have hdigit : ∀ n, n < 10 → isDigit (digit n) = true := fun n hn => isDigit_digit n hn
  induction fuel generalizing n with
  | zero => exact absurd h (Nat.not_lt_zero n)
  | succ fuel ih =>
    rw [decFuel]
    split
    · rename_i hn
      have hzero : ∀ n < 10, 0 < n → digit n ≠ ch '0' := by decide
      refine ⟨?_, fun hpos heq => hzero n hn hpos (List.cons.inj heq).1⟩
      by_cases hpos : 0 < n
      · exact .inr ⟨digit n, [], rfl, hdigit n hn, hzero n hn hpos, fun _ hd => absurd hd List.not_mem_nil⟩
      · obtain rfl : n = 0 := by omega
        exact .inl rfl
    · rename_i hn
      have hdiv : 0 < n / 10 := Nat.div_pos (by omega) (by decide)
      obtain ⟨hfront, hne⟩ := ih (n := n / 10) (by omega)
      obtain ⟨c, ds, heq, hc, hcz, hds⟩ := hfront.resolve_left (hne hdiv)
      rw [heq]
      refine ⟨.inr ⟨c, ds ++ [digit (n % 10)], rfl, hc, hcz, ?_⟩, fun _ hall => hcz (List.cons.inj hall).1⟩
      exact List.forall_mem_append.mpr ⟨hds, List.forall_mem_singleton.mpr (hdigit _ (Nat.mod_lt _ (by decide)))⟩

theorem Derives.decNat (n : Nat) : rfc8259.Derives .value (Lib.decNat n) := by
  have h : rfc8259.Number ([] ++ (Lib.decNat n ++ ([] ++ []))) :=
    .mk (.inl rfl) (intPart_decFuel (Nat.lt_succ_self n)).1 .none .none
  rw [List.nil_append, List.append_nil, List.append_nil] at h
  exact .number h

end Dialect

end Floofclaw.Lib
