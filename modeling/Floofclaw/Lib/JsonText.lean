import Floofclaw.Lib.Bytes

/-!
# JSON text

A grammar of JSON over byte texts, as the recursive scanners of C programs
accept it: leading zeros are allowed, white space is the six `isspace` octets,
and octets above the ASCII range are plain string characters. `Reads` relates a
text to its shape; an object is read together with its members in order, each
as its undecoded key body and the exact text of its value.
-/

set_option autoImplicit false

namespace Floofclaw.Lib

/-! ## White space and strings -/

def isSpace (c : Byte) : Bool := (9 ≤ c && c ≤ 13) || c == 32

/-- A text of white space only. -/
def Ws (w : Bytes) : Prop := ∀ c ∈ w, isSpace c = true

theorem Ws.nil : Ws [] := by simp [Ws]

/-- The text does not start with white space. -/
def NoSpaceHead (s : Bytes) : Prop := ∀ c t, s = c :: t → isSpace c = false

theorem NoSpaceHead.cons {c : Byte} {t : Bytes} (h : isSpace c = false) : NoSpaceHead (c :: t) := by
  intro d u hd
  rw [List.cons.injEq] at hd
  exact hd.1 ▸ h

theorem NoSpaceHead.append {s t : Bytes} (hs : NoSpaceHead s) (hne : s ≠ []) :
    NoSpaceHead (s ++ t) := by
  cases s with
  | nil => exact absurd rfl hne
  | cons c s => exact NoSpaceHead.cons (hs c s rfl)

def skipWs (s : Bytes) : Bytes := s.dropWhile isSpace

theorem skipWs_append {w s : Bytes} (hw : Ws w) (hs : NoSpaceHead s) : skipWs (w ++ s) = s := by
  induction w with
  | nil =>
    cases s with
    | nil => rfl
    | cons c s => simp [skipWs, hs c s rfl]
  | cons c w ih =>
    have hc : isSpace c = true := hw c (by simp)
    have hw' : Ws w := fun d hd => hw d (List.mem_cons_of_mem _ hd)
    simpa [skipWs, hc] using ih hw'

theorem skipWs_self {s : Bytes} (hs : NoSpaceHead s) : skipWs s = s := by
  simpa using skipWs_append Ws.nil hs

theorem skipWs_split (s : Bytes) : ∃ w, Ws w ∧ s = w ++ skipWs s := by
  refine ⟨s.takeWhile isSpace, fun c hc => List.mem_takeWhile_imp hc, ?_⟩
  exact (List.takeWhile_append_dropWhile (p := isSpace) (l := s)).symm

def isXDigit (c : Byte) : Bool :=
  (48 ≤ c && c ≤ 57) || (97 ≤ c && c ≤ 102) || (65 ≤ c && c ≤ 70)

/-- The octets a reverse solidus may escape by themselves. -/
def isSimpleEscape (c : Byte) : Bool :=
  c = ch '"' || c = ch '\\' || c = ch '/' || c = ch 'b' || c = ch 'f' || c = ch 'n' || c = ch 'r' || c = ch 't'

/-- An octet a string body holds without an escape. -/
def isPlain (c : Byte) : Bool := c ≠ ch '"' && c ≠ ch '\\' && 0x20 ≤ c

/-- The text between the quotes of a JSON string. -/
inductive StrBody : Bytes → Prop
  | nil : StrBody []
  | plain {c : Byte} {s : Bytes} : isPlain c = true → StrBody s → StrBody (c :: s)
  | simple {c : Byte} {s : Bytes} : isSimpleEscape c = true → StrBody s → StrBody (ch '\\' :: c :: s)
  | hex {a b c d : Byte} {s : Bytes} : isXDigit a = true → isXDigit b = true → isXDigit c = true →
      isXDigit d = true → StrBody s → StrBody (ch '\\' :: ch 'u' :: a :: b :: c :: d :: s)

theorem StrBody.append {s t : Bytes} (hs : StrBody s) (ht : StrBody t) : StrBody (s ++ t) := by
  induction hs with
  | nil => exact ht
  | plain h _ ih => exact .plain h ih
  | simple h _ ih => exact .simple h ih
  | hex ha hb hc hd _ ih => exact .hex ha hb hc hd ih

theorem StrBody.of_plain {s : Bytes} (h : ∀ c ∈ s, isPlain c = true) : StrBody s := by
  induction s with
  | nil => exact .nil
  | cons c s ih => exact .plain (h c (by simp)) (ih fun d hd => h d (List.mem_cons_of_mem _ hd))

theorem isPlain_iff (c : Byte) : isPlain c = true ↔ c ≠ ch '"' ∧ c ≠ ch '\\' ∧ ¬ c < 0x20 := by
  simp [isPlain, and_assoc]

theorem isSimpleEscape_ne_u {e : Byte} (h : isSimpleEscape e = true) : e ≠ ch 'u' := by
  rintro rfl
  revert h
  decide

/-- A quote inside a body is escaped. -/
theorem StrBody.around_quote {a b : Bytes} (h : StrBody (a ++ ch '"' :: b)) :
    ∃ a', a = a' ++ [ch '\\'] ∧ StrBody a' ∧ StrBody b := by
  generalize hs : a ++ ch '"' :: b = s at h
  induction h generalizing a with
  | nil => simp at hs
  | @plain c s hc _ ih =>
    cases a with
    | nil =>
      rw [List.nil_append, List.cons.injEq] at hs
      exact absurd hs.1.symm ((isPlain_iff c).mp hc).1
    | cons x a =>
      rw [List.cons_append, List.cons.injEq] at hs
      obtain ⟨a', rfl, ha', hb⟩ := ih hs.2
      exact ⟨x :: a', rfl, .plain (hs.1 ▸ hc) ha', hb⟩
  | @simple c s hc hbody ih =>
    cases a with
    | nil =>
      rw [List.nil_append, List.cons.injEq] at hs
      exact absurd hs.1 (by decide)
    | cons x a =>
      rw [List.cons_append, List.cons.injEq] at hs
      obtain ⟨rfl, hs⟩ := hs
      cases a with
      | nil =>
        rw [List.nil_append, List.cons.injEq] at hs
        exact ⟨[], rfl, .nil, hs.2 ▸ hbody⟩
      | cons y a =>
        rw [List.cons_append, List.cons.injEq] at hs
        obtain ⟨a', rfl, ha', hb⟩ := ih hs.2
        exact ⟨_ :: y :: a', rfl, .simple (hs.1 ▸ hc) ha', hb⟩
  | @hex p q r t s hp hq hr ht _ ih =>
    have hxq : ∀ x, isXDigit x = true → x ≠ ch '"' := by
      rintro x hx rfl
      exact absurd hx (by decide)
    rcases a with _ | ⟨x1, _ | ⟨x2, _ | ⟨x3, _ | ⟨x4, _ | ⟨x5, _ | ⟨x6, a⟩⟩⟩⟩⟩⟩ <;>
      simp only [List.nil_append, List.cons_append, List.cons.injEq] at hs
    · exact absurd hs.1 (by decide)
    · exact absurd hs.2.1 (by decide)
    · exact absurd hs.2.2.1.symm (hxq p hp)
    · exact absurd hs.2.2.2.1.symm (hxq q hq)
    · exact absurd hs.2.2.2.2.1.symm (hxq r hr)
    · exact absurd hs.2.2.2.2.2.1.symm (hxq t ht)
    · obtain ⟨h1, h2, h3, h4, h5, h6, hrest⟩ := hs
      obtain ⟨a', rfl, ha', hb⟩ := ih hrest
      subst h1 h2 h3 h4 h5 h6
      exact ⟨_ :: _ :: _ :: _ :: _ :: _ :: a', rfl, .hex hp hq hr ht ha', hb⟩

theorem StrBody.no_quote_head {b : Bytes} (h : StrBody (ch '"' :: b)) : False := by
  obtain ⟨a', ha, -⟩ := StrBody.around_quote (a := []) h
  simp at ha

/-- A body without a reverse solidus is plain. -/
theorem StrBody.plain_of_no_escape {b : Bytes} (h : StrBody b) (hb : ch '\\' ∉ b) : ∀ c ∈ b, isPlain c = true := by
  induction h with
  | nil => simp
  | plain hc _ ih =>
    rw [List.mem_cons, not_or] at hb
    exact List.forall_mem_cons.mpr ⟨hc, ih hb.2⟩
  | simple => simp at hb
  | hex => simp at hb

/-- A body has no control octet. -/
theorem StrBody.no_control {b : Bytes} (h : StrBody b) : ∀ c ∈ b, ¬ c < 0x20 := by
  have hxd : ∀ x, isXDigit x = true → ¬ x < 0x20 := by
    intro x hx hlt
    simp only [isXDigit, Bool.or_eq_true, Bool.and_eq_true, decide_eq_true_eq, UInt8.le_iff_toNat_le,
      UInt8.lt_iff_toNat_lt] at hx hlt
    have h48 : (48 : Byte).toNat = 48 := rfl
    have h97 : (97 : Byte).toNat = 97 := rfl
    have h65 : (65 : Byte).toNat = 65 := rfl
    have h32 : (0x20 : Byte).toNat = 32 := rfl
    omega
  have hse : ∀ x, isSimpleEscape x = true → ¬ x < 0x20 := by
    intro x hx
    simp only [isSimpleEscape, Bool.or_eq_true, decide_eq_true_eq] at hx
    rcases hx with ((((((rfl | rfl) | rfl) | rfl) | rfl) | rfl) | rfl) | rfl <;> decide
  induction h with
  | nil => simp
  | plain hc _ ih => exact List.forall_mem_cons.mpr ⟨((isPlain_iff _).mp hc).2.2, ih⟩
  | simple hc _ ih => exact List.forall_mem_cons.mpr ⟨by decide, List.forall_mem_cons.mpr ⟨hse _ hc, ih⟩⟩
  | hex hp hq hr ht _ ih =>
    simp only [List.forall_mem_cons]
    exact ⟨by decide, by decide, hxd _ hp, hxd _ hq, hxd _ hr, hxd _ ht, ih⟩

/-- A string body between quotes. -/
def quoted (b : Bytes) : Bytes := ch '"' :: (b ++ [ch '"'])

/-! ## Numbers -/

def Digits (s : Bytes) : Prop := s ≠ [] ∧ ∀ c ∈ s, isDigit c = true

/-- The optional fraction of a number. -/
inductive FracText : Bytes → Prop
  | none : FracText []
  | some {ds : Bytes} : Digits ds → FracText (ch '.' :: ds)

/-- The optional exponent of a number. -/
inductive ExpText : Bytes → Prop
  | none : ExpText []
  | some {e : Byte} {sg ds : Bytes} : e = ch 'e' ∨ e = ch 'E' → sg = [] ∨ sg = [ch '+'] ∨ sg = [ch '-'] →
      Digits ds → ExpText (e :: (sg ++ ds))

/-- The text of a number: sign, digits, fraction, exponent. -/
inductive NumText : Bytes → Prop
  | mk {sg ip fr ex : Bytes} : sg = [] ∨ sg = [ch '-'] → Digits ip → FracText fr → ExpText ex →
      NumText (sg ++ (ip ++ (fr ++ ex)))

theorem Digits.of_all {s : Bytes} (hne : s ≠ []) (h : s.all isDigit = true) : Digits s :=
  ⟨hne, by simpa using h⟩

theorem NumText.of_digits {ds : Bytes} (h : Digits ds) : NumText ds := by
  simpa using NumText.mk (.inl rfl) h .none .none

/-- What follows does not prolong a number. -/
def NoNumHead (r : Bytes) : Prop :=
  ∀ c t, r = c :: t → isDigit c = false ∧ c ≠ ch '.' ∧ c ≠ ch 'e' ∧ c ≠ ch 'E'

theorem NoNumHead.nil : NoNumHead [] := by simp [NoNumHead]

theorem NoNumHead.cons {c : Byte} {t : Bytes}
    (h : isDigit c = false ∧ c ≠ ch '.' ∧ c ≠ ch 'e' ∧ c ≠ ch 'E') : NoNumHead (c :: t) := by
  intro d u hd
  rw [List.cons.injEq] at hd
  exact hd.1 ▸ h

/-! ## Values -/

/-- What a text is read as: a value, the elements of an array, the members of an object. -/
inductive Part
  | value
  | elems (xs : List Bytes)
  | members (ms : List (Bytes × Bytes))

/-- `Reads p t`: the whole text `t` is a JSON text of shape `p`. -/
inductive Reads : Part → Bytes → Prop
  | true : Reads .value (lit "true")
  | false : Reads .value (lit "false")
  | null : Reads .value (lit "null")
  | num {t : Bytes} : NumText t → Reads .value t
  | str {b : Bytes} : StrBody b → Reads .value (quoted b)
  | arrEmpty {w : Bytes} : Ws w → Reads .value (ch '[' :: (w ++ [ch ']']))
  | arr {w body : Bytes} {xs : List Bytes} : Ws w → Reads (.elems xs) body →
      Reads .value (ch '[' :: (w ++ (body ++ [ch ']'])))
  | objEmpty {w : Bytes} : Ws w → Reads .value (ch '{' :: (w ++ [ch '}']))
  | obj {w body : Bytes} {ms : List (Bytes × Bytes)} : Ws w → Reads (.members ms) body →
      Reads .value (ch '{' :: (w ++ (body ++ [ch '}'])))
  | elem {v w : Bytes} : Reads .value v → Ws w → Reads (.elems [v]) (v ++ w)
  | elemCons {v w w' body : Bytes} {xs : List Bytes} : Reads .value v → Ws w → Ws w' →
      Reads (.elems xs) body → Reads (.elems (v :: xs)) (v ++ (w ++ (ch ',' :: (w' ++ body))))
  | member {k w1 w2 v w : Bytes} : StrBody k → Ws w1 → Ws w2 → Reads .value v → Ws w →
      Reads (.members [(k, v)]) (quoted k ++ (w1 ++ (ch ':' :: (w2 ++ (v ++ w)))))
  | memberCons {k w1 w2 v w w' body : Bytes} {ms : List (Bytes × Bytes)} : StrBody k → Ws w1 →
      Ws w2 → Reads .value v → Ws w → Ws w' → Reads (.members ms) body →
      Reads (.members ((k, v) :: ms))
        (quoted k ++ (w1 ++ (ch ':' :: (w2 ++ (v ++ (w ++ (ch ',' :: (w' ++ body))))))))

/-- A whole value text. -/
abbrev IsValue (t : Bytes) : Prop := Reads .value t

/-- A whole object text with its members in order. -/
inductive ObjText : Bytes → List (Bytes × Bytes) → Prop
  | empty {w : Bytes} : Ws w → ObjText (ch '{' :: (w ++ [ch '}'])) []
  | some {w body : Bytes} {ms : List (Bytes × Bytes)} : Ws w → Reads (.members ms) body →
      ObjText (ch '{' :: (w ++ (body ++ [ch '}']))) ms

/-- A whole array text with its elements in order. -/
inductive ArrText : Bytes → List Bytes → Prop
  | empty {w : Bytes} : Ws w → ArrText (ch '[' :: (w ++ [ch ']'])) []
  | some {w body : Bytes} {xs : List Bytes} : Ws w → Reads (.elems xs) body →
      ArrText (ch '[' :: (w ++ (body ++ [ch ']']))) xs

theorem ObjText.brace {t : Bytes} {ms : List (Bytes × Bytes)} (h : ObjText t ms) : ∃ u, t = ch '{' :: u := by
  cases h with
  | empty => exact ⟨_, rfl⟩
  | some => exact ⟨_, rfl⟩

theorem ObjText.isValue {t : Bytes} {ms : List (Bytes × Bytes)} (h : ObjText t ms) : IsValue t := by
  cases h with
  | empty hw => exact .objEmpty hw
  | some hw hb => exact .obj hw hb

theorem ArrText.isValue {t : Bytes} {xs : List Bytes} (h : ArrText t xs) : IsValue t := by
  cases h with
  | empty hw => exact .arrEmpty hw
  | some hw hb => exact .arr hw hb

theorem NumText.head {t : Bytes} (h : NumText t) :
    ∃ c u, t = c :: u ∧ (isDigit c = true ∨ c = ch '-') := by
  obtain ⟨hsg, ⟨hne, hd⟩, hfr, hex⟩ := h
  rename_i sg ip fr ex
  rcases hsg with rfl | rfl
  · cases ip with
    | nil => exact absurd rfl hne
    | cons c ip => exact ⟨c, _, rfl, .inl (hd c (by simp))⟩
  · exact ⟨ch '-', _, rfl, .inr rfl⟩

/-- The octets a value can start with. -/
def isValueHead (c : Byte) : Bool :=
  isDigit c || c = ch '-' || c = ch '"' || c = ch '{' || c = ch '[' || c = ch 't' || c = ch 'f' || c = ch 'n'

theorem isValueHead_noSpace (c : Byte) (h : isValueHead c = true) : isSpace c = false := by
  revert h
  have : ∀ n : Fin 256, isValueHead (UInt8.ofNat n) = true → isSpace (UInt8.ofNat n) = false := by
    decide +kernel
  simpa using this ⟨c.toNat, c.toNat_lt⟩

theorem IsValue.head {t : Bytes} (h : IsValue t) : ∃ c u, t = c :: u ∧ isValueHead c = true := by
  cases h with
  | true => exact ⟨_, _, rfl, rfl⟩
  | false => exact ⟨_, _, rfl, rfl⟩
  | null => exact ⟨_, _, rfl, rfl⟩
  | num hn =>
    obtain ⟨c, u, rfl, hc⟩ := hn.head
    refine ⟨c, u, rfl, ?_⟩
    rcases hc with hc | rfl
    · simp [isValueHead, hc]
    · rfl
  | str hb => exact ⟨_, _, rfl, rfl⟩
  | arrEmpty hw => exact ⟨_, _, rfl, rfl⟩
  | arr hw hb => exact ⟨_, _, rfl, rfl⟩
  | objEmpty hw => exact ⟨_, _, rfl, rfl⟩
  | obj hw hb => exact ⟨_, _, rfl, rfl⟩

theorem IsValue.noSpaceHead {t : Bytes} (h : IsValue t) : NoSpaceHead t := by
  obtain ⟨c, u, rfl, hc⟩ := h.head
  exact NoSpaceHead.cons (isValueHead_noSpace c hc)

theorem IsValue.ne_nil {t : Bytes} (h : IsValue t) : t ≠ [] := by
  obtain ⟨c, u, rfl, -⟩ := h.head
  simp

theorem Ws.noNumHead {w s : Bytes} (hw : Ws w) (hs : NoNumHead s) : NoNumHead (w ++ s) := by
  cases w with
  | nil => exact hs
  | cons c w =>
    have hc : isSpace c = true := hw c (by simp)
    refine NoNumHead.cons ⟨?_, ?_, ?_, ?_⟩
    · cases hd : isDigit c with
      | false => rfl
      | true =>
        have := isValueHead_noSpace c (by simp [isValueHead, hd])
        rw [hc] at this
        exact this
    all_goals
      rintro rfl
      exact absurd hc (by decide)

theorem NoNumHead.comma (t : Bytes) : NoNumHead (ch ',' :: t) := NoNumHead.cons (by decide)
theorem NoNumHead.brace (t : Bytes) : NoNumHead (ch '}' :: t) := NoNumHead.cons (by decide)
theorem NoNumHead.bracket (t : Bytes) : NoNumHead (ch ']' :: t) := NoNumHead.cons (by decide)

/-- The first octet of a non-empty member list is a quote. -/
theorem reads_members_head {ms : List (Bytes × Bytes)} {body : Bytes} (h : Reads (.members ms) body) :
    ∃ u, body = ch '"' :: u := by
  cases h with
  | member => exact ⟨_, rfl⟩
  | memberCons => exact ⟨_, rfl⟩

theorem reads_elems_head {xs : List Bytes} {body : Bytes} (h : Reads (.elems xs) body) :
    ∃ c u, body = c :: u ∧ isValueHead c = true := by
  cases h with
  | elem hv =>
    obtain ⟨c, u, rfl, hc⟩ := IsValue.head hv
    exact ⟨c, _, rfl, hc⟩
  | elemCons hv =>
    obtain ⟨c, u, rfl, hc⟩ := IsValue.head hv
    exact ⟨c, _, rfl, hc⟩

theorem reads_members_noSpaceHead {ms : List (Bytes × Bytes)} {body : Bytes}
    (h : Reads (.members ms) body) (t : Bytes) : NoSpaceHead (body ++ t) := by
  obtain ⟨u, rfl⟩ := reads_members_head h
  exact NoSpaceHead.cons (by decide)

theorem reads_elems_noSpaceHead {xs : List Bytes} {body : Bytes} (h : Reads (.elems xs) body)
    (t : Bytes) : NoSpaceHead (body ++ t) := by
  obtain ⟨c, u, rfl, hc⟩ := reads_elems_head h
  exact NoSpaceHead.cons (isValueHead_noSpace c hc)

/-- The parts of a text that are read as members or elements are texts of the grammar. -/
def Part.Wellformed : Part → Prop
  | .value => True
  | .elems xs => ∀ x ∈ xs, IsValue x
  | .members ms => ∀ m ∈ ms, StrBody m.1 ∧ IsValue m.2

theorem Reads.wellformed {p : Part} {t : Bytes} (h : Reads p t) : p.Wellformed := by
  induction h with
  | elem hv _ => simpa [Part.Wellformed] using hv
  | elemCons hv _ _ _ _ ih => exact List.forall_mem_cons.mpr ⟨hv, ih⟩
  | member hk _ _ hv _ => simpa [Part.Wellformed] using ⟨hk, hv⟩
  | memberCons hk _ _ hv _ _ _ _ ih => exact List.forall_mem_cons.mpr ⟨⟨hk, hv⟩, ih⟩
  | _ => trivial

theorem ObjText.wellformed {t : Bytes} {ms : List (Bytes × Bytes)} (h : ObjText t ms) :
    ∀ m ∈ ms, StrBody m.1 ∧ IsValue m.2 := by
  cases h with
  | empty => simp
  | some _ hb => exact hb.wellformed

theorem ArrText.wellformed {t : Bytes} {xs : List Bytes} (h : ArrText t xs) : ∀ x ∈ xs, IsValue x := by
  cases h with
  | empty => simp
  | some _ hb => exact hb.wellformed

/-- Members and elements are cut out of the text. -/
def Part.Within (t : Bytes) : Part → Prop
  | .value => True
  | .elems xs => ∀ x ∈ xs, x ⊆ t
  | .members ms => ∀ m ∈ ms, m.1 ⊆ t ∧ m.2 ⊆ t

theorem Reads.within {p : Part} {t : Bytes} (h : Reads p t) : p.Within t := by
  induction h with
  | elem _ _ => simp [Part.Within]
  | elemCons _ _ _ _ _ ih =>
    refine List.forall_mem_cons.mpr ⟨by simp, fun x hx => ?_⟩
    exact fun c hc => by simp [ih x hx hc]
  | member _ _ _ _ _ =>
    refine List.forall_mem_cons.mpr ⟨⟨fun c hc => ?_, fun c hc => ?_⟩, by simp⟩
    · simp [quoted, hc]
    · simp [hc]
  | memberCons _ _ _ _ _ _ _ _ ih =>
    refine List.forall_mem_cons.mpr ⟨⟨fun c hc => ?_, fun c hc => ?_⟩, fun m hm => ⟨fun c hc => ?_, fun c hc => ?_⟩⟩
    · simp [quoted, hc]
    · simp [hc]
    · simp [(ih m hm).1 hc]
    · simp [(ih m hm).2 hc]
  | _ => trivial

theorem ObjText.nulFree {t : Bytes} {ms : List (Bytes × Bytes)} (h : ObjText t ms) (hn : NulFree t) :
    ∀ m ∈ ms, NulFree m.1 ∧ NulFree m.2 := by
  cases h with
  | empty => simp
  | some _ hb =>
    intro m hm
    obtain ⟨h1, h2⟩ := hb.within m hm
    exact ⟨fun c hc => hn c (by simp [h1 hc]), fun c hc => hn c (by simp [h2 hc])⟩

theorem ArrText.nulFree {t : Bytes} {xs : List Bytes} (h : ArrText t xs) (hn : NulFree t) : ∀ x ∈ xs, NulFree x := by
  cases h with
  | empty => simp
  | some _ hb => exact fun x hx c hc => hn c (by simp [hb.within x hx hc])

/-- Members and elements are no more than the octets they are written with. -/
def Part.count : Part → Nat
  | .value => 0
  | .elems xs => xs.length
  | .members ms => ms.length

theorem Reads.count_le {p : Part} {t : Bytes} (h : Reads p t) : p.count ≤ t.length := by
  induction h with
  | elem hv _ =>
    obtain ⟨c, u, rfl, -⟩ := IsValue.head hv
    simp [Part.count]
  | elemCons _ _ _ _ _ ih => simp only [Part.count, List.length_append, List.length_cons] at ih ⊢; omega
  | member => simp [Part.count, quoted]
  | memberCons _ _ _ _ _ _ _ _ ih => simp only [Part.count, List.length_append, List.length_cons] at ih ⊢; omega
  | _ => exact Nat.zero_le _

theorem ObjText.count_le {t : Bytes} {ms : List (Bytes × Bytes)} (h : ObjText t ms) : ms.length ≤ t.length := by
  cases h with
  | empty => simp
  | some _ hb =>
    have := hb.count_le
    simp only [Part.count, List.length_append, List.length_cons] at this ⊢
    omega

/-! ## Writing -/

/-- Members separated by single commas, without white space. -/
def membersText : List (Bytes × Bytes) → Bytes
  | [] => []
  | [(k, v)] => quoted k ++ ch ':' :: v
  | (k, v) :: m :: ms => quoted k ++ ch ':' :: (v ++ ch ',' :: membersText (m :: ms))

def objText (ms : List (Bytes × Bytes)) : Bytes := ch '{' :: (membersText ms ++ [ch '}'])

theorem membersText_length (k v : Bytes) (ms : List (Bytes × Bytes)) :
    (membersText ((k, v) :: ms)).length + 1 = (((k, v) :: ms).map fun m => m.1.length + m.2.length + 4).sum := by
  induction ms generalizing k v with
  | nil =>
    simp [membersText, quoted]
    omega
  | cons m ms ih =>
    have htail : (membersText (m :: ms)).length + 1 = ((m :: ms).map fun m => m.1.length + m.2.length + 4).sum := ih m.1 m.2
    rw [membersText, List.map_cons, List.sum_cons, ← htail]
    simp [quoted]
    omega

theorem objText_length {ms : List (Bytes × Bytes)} (h : ms ≠ []) :
    (objText ms).length = (ms.map fun m => m.1.length + m.2.length + 4).sum + 1 := by
  obtain ⟨m, rest, rfl⟩ := List.exists_cons_of_ne_nil h
  rw [← membersText_length]
  simp [objText]

theorem membersText_length_le (ms : List (Bytes × Bytes)) :
    (membersText ms).length ≤ (ms.map fun m => m.1.length + m.2.length + 4).sum := by
  cases ms with
  | nil => simp [membersText]
  | cons m ms =>
    have hlen := membersText_length m.1 m.2 ms
    exact Nat.le_of_succ_le (Nat.le_of_eq hlen)

def elemsText : List Bytes → Bytes
  | [] => []
  | [v] => v
  | v :: x :: xs => v ++ ch ',' :: elemsText (x :: xs)

def arrText (xs : List Bytes) : Bytes := ch '[' :: (elemsText xs ++ [ch ']'])

example (x y : Bytes) : objText [(lit "a", quoted x), (lit "b", y)] =
    lit "\x7b\"a\":\"" ++ (x ++ (lit "\",\"b\":" ++ (y ++ lit "\x7d"))) := by
  simp [objText, membersText, quoted, lit]

theorem membersText_reads {m : Bytes × Bytes} {ms : List (Bytes × Bytes)}
    (h : ∀ x ∈ m :: ms, StrBody x.1 ∧ IsValue x.2) : Reads (.members (m :: ms)) (membersText (m :: ms)) := by
  induction ms generalizing m with
  | nil =>
    obtain ⟨k, v⟩ := m
    obtain ⟨hk, hv⟩ := h (k, v) (by simp)
    simpa [membersText] using Reads.member hk Ws.nil Ws.nil hv Ws.nil
  | cons m' ms ih =>
    obtain ⟨k, v⟩ := m
    obtain ⟨hk, hv⟩ := h (k, v) (by simp)
    have hrest := ih fun x hx => h x (List.mem_cons_of_mem _ hx)
    simpa [membersText] using Reads.memberCons hk Ws.nil Ws.nil hv Ws.nil Ws.nil hrest

theorem objText_reads {ms : List (Bytes × Bytes)} (h : ∀ x ∈ ms, StrBody x.1 ∧ IsValue x.2) :
    ObjText (objText ms) ms := by
  cases ms with
  | nil => exact .empty Ws.nil
  | cons m ms => exact .some Ws.nil (membersText_reads h)

theorem elemsText_reads {v : Bytes} {xs : List Bytes} (h : ∀ x ∈ v :: xs, IsValue x) :
    Reads (.elems (v :: xs)) (elemsText (v :: xs)) := by
  induction xs generalizing v with
  | nil => simpa [elemsText] using Reads.elem (h v (by simp)) Ws.nil
  | cons x xs ih =>
    have hrest := ih fun y hy => h y (List.mem_cons_of_mem _ hy)
    simpa [elemsText] using Reads.elemCons (h v (by simp)) Ws.nil Ws.nil hrest

theorem arrText_reads {xs : List Bytes} (h : ∀ x ∈ xs, IsValue x) : ArrText (arrText xs) xs := by
  cases xs with
  | nil => exact .empty Ws.nil
  | cons x xs => exact .some Ws.nil (elemsText_reads h)

end Floofclaw.Lib
