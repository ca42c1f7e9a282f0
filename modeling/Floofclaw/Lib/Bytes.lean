import Mathlib

/-!
# Byte text

Texts are lists of octets. A C string is such a list without the NUL octet;
`cstr` is what a reader that stops at the first NUL sees. Bounded writes keep
what fits below the terminator. Decimal numerals are printed and read back
octet by octet, so that a printed number is again a byte text.
-/

set_option autoImplicit false

namespace Floofclaw.Lib

abbrev Byte := UInt8
abbrev Bytes := List UInt8

/-- The octet of an ASCII character. -/
def ch (c : Char) : Byte := UInt8.ofNat c.toNat

/-- The octets of an ASCII literal. -/
def lit (s : String) : Bytes := s.toList.map ch

/-- The octets of a written-out text, without a walk through the string. -/
theorem lit_ofList (cs : List Char) : lit (String.ofList cs) = cs.map ch := by
  rw [lit, String.toList_ofList]

theorem lit_length (cs : List Char) : (lit (String.ofList cs)).length = cs.length := by
  rw [lit_ofList, List.length_map]

theorem lit_ne {cs ds : List Char} (h : (cs.map ch == ds.map ch) = false) : lit (String.ofList cs) ≠ lit (String.ofList ds) := by
  rw [lit_ofList, lit_ofList]
  exact ne_of_beq_false h

theorem lit_all {p : Byte → Bool} {cs : List Char} (h : (cs.map ch).all p = true) : (lit (String.ofList cs)).all p = true := by
  rwa [lit_ofList]

/-- No octet of the text is the string terminator. -/
def NulFree (s : Bytes) : Prop := ∀ c ∈ s, c ≠ 0

theorem NulFree.of_all {s : Bytes} (h : s.all (· != 0) = true) : NulFree s :=
  fun c hc => bne_iff_ne.mp (List.all_eq_true.mp h c hc)

/-- The text up to its first NUL: what `strlen` and `%s` see. -/
def cstr (s : Bytes) : Bytes := s.takeWhile (· ≠ 0)

theorem cstr_nulFree (s : Bytes) : NulFree (cstr s) := by
  intro c hc
  have := List.mem_takeWhile_imp hc
  simpa using this

theorem cstr_eq_self {s : Bytes} (h : NulFree s) : cstr s = s := by
  unfold cstr
  rw [List.takeWhile_eq_self_iff]
  intro c hc
  simpa using h c hc

theorem cstr_length_le (s : Bytes) : (cstr s).length ≤ s.length :=
  (List.takeWhile_sublist _).length_le

theorem NulFree.append {s t : Bytes} (hs : NulFree s) (ht : NulFree t) : NulFree (s ++ t) := by
  intro c hc
  rcases List.mem_append.mp hc with h | h
  · exact hs c h
  · exact ht c h

theorem NulFree.take {s : Bytes} (hs : NulFree s) (n : Nat) : NulFree (s.take n) :=
  fun c hc => hs c (List.mem_of_mem_take hc)

/-- A write that keeps what fits below the terminator of a buffer of `cap` octets. -/
def clip (cap : Nat) (s : Bytes) : Bytes := s.take (cap - 1)

theorem clip_length_lt {cap : Nat} (hcap : 0 < cap) (s : Bytes) : (clip cap s).length < cap := by
  unfold clip
  rw [List.length_take]
  omega

theorem clip_eq_self {cap : Nat} {s : Bytes} (h : s.length < cap) : clip cap s = s :=
  List.take_of_length_le (by omega)

theorem clip_nulFree {cap : Nat} {s : Bytes} (hs : NulFree s) : NulFree (clip cap s) :=
  hs.take _

/-- A buffer whose first octets were overwritten without a new terminator. -/
def overlay (written old : Bytes) : Bytes := cstr (written ++ old.drop written.length)

theorem overlay_nulFree (written old : Bytes) : NulFree (overlay written old) := cstr_nulFree _

theorem overlay_length_lt {cap : Nat} {written old : Bytes} (hw : written.length < cap)
    (ho : old.length < cap) : (overlay written old).length < cap := by
  have h := cstr_length_le (written ++ old.drop written.length)
  rw [List.length_append, List.length_drop] at h
  unfold overlay
  omega

/-- What shows of the old content behind an overwritten prefix. -/
def residue (written old : Bytes) : Bytes := if 0 ∈ written then [] else cstr (old.drop written.length)

theorem overlay_of_nul {written : Bytes} (h : 0 ∈ written) (old : Bytes) : overlay written old = cstr written := by
  obtain ⟨s, t, rfl⟩ := List.append_of_mem h
  simp [overlay, cstr, List.takeWhile_append]

theorem overlay_of_nulFree {written : Bytes} (h : 0 ∉ written) (old : Bytes) :
    overlay written old = written ++ cstr (old.drop written.length) := by
  have hfree : ∀ c ∈ written, decide (c ≠ 0) = true := by
    intro c hc
    exact decide_eq_true fun hzero => h (hzero ▸ hc)
  rw [overlay, cstr, List.takeWhile_append_of_pos hfree, cstr]

/-- Two buffers read the same after the same cut write exactly when their residues do. -/
theorem overlay_eq_iff (written a b : Bytes) : overlay written a = overlay written b ↔ residue written a = residue written b := by
  by_cases h : 0 ∈ written
  · simp [overlay_of_nul h, residue, h]
  · rw [overlay_of_nulFree h, overlay_of_nulFree h, residue, residue, if_neg h, if_neg h, List.append_cancel_left_eq]

/-! ## Decimal numerals -/

def isDigit (c : Byte) : Bool := 48 ≤ c && c ≤ 57

def digit (d : Nat) : Byte := UInt8.ofNat (48 + d)

theorem isDigit_digit : ∀ d, d < 10 → isDigit (digit d) = true := by decide

theorem digit_toNat : ∀ d, d < 10 → (digit d).toNat - 48 = d := by decide

/-- The number a digit string denotes. -/
def decValue (s : Bytes) : Nat := s.foldl (fun a c => a * 10 + (c.toNat - 48)) 0

theorem decValue_append_digit (s : Bytes) {d : Nat} (hd : d < 10) :
    decValue (s ++ [digit d]) = decValue s * 10 + d := by
  simp only [decValue, List.foldl_append, List.foldl_cons, List.foldl_nil, digit_toNat d hd]

def decFuel : Nat → Nat → Bytes
  | 0, _ => []
  | fuel + 1, n => if n < 10 then [digit n] else decFuel fuel (n / 10) ++ [digit (n % 10)]

/-- The decimal numeral of a natural number, without leading zeros. -/
def decNat (n : Nat) : Bytes := decFuel (n + 1) n

theorem decValue_decFuel (fuel n : Nat) (h : n < fuel) : decValue (decFuel fuel n) = n := by
  induction fuel generalizing n with
  | zero => omega
  | succ fuel ih =>
    unfold decFuel
    split
    · rename_i hn
      simpa [decValue] using digit_toNat n hn
    · rename_i hn
      rw [decValue_append_digit _ (Nat.mod_lt _ (by decide)), ih (n / 10) (by omega)]
      omega

theorem decFuel_digits (fuel n : Nat) : ∀ c ∈ decFuel fuel n, isDigit c = true := by
  induction fuel generalizing n with
  | zero => simp [decFuel]
  | succ fuel ih =>
    intro c hc
    unfold decFuel at hc
    split at hc
    · rename_i hn
      rw [List.mem_singleton] at hc
      exact hc ▸ isDigit_digit n hn
    · rcases List.mem_append.mp hc with hc | hc
      · exact ih _ c hc
      · rw [List.mem_singleton] at hc
        exact hc ▸ isDigit_digit _ (Nat.mod_lt _ (by decide))

theorem decFuel_ne_nil (fuel n : Nat) (h : 0 < fuel) : decFuel fuel n ≠ [] := by
  cases fuel with
  | zero => omega
  | succ fuel =>
    unfold decFuel
    split <;> simp

@[simp] theorem decValue_decNat (n : Nat) : decValue (decNat n) = n :=
  decValue_decFuel (n + 1) n (Nat.lt_succ_self n)

theorem decNat_digits (n : Nat) : ∀ c ∈ decNat n, isDigit c = true := decFuel_digits _ _

theorem decNat_ne_nil (n : Nat) : decNat n ≠ [] := decFuel_ne_nil _ _ (Nat.succ_pos n)

/-- The numeral `%lld` prints. -/
def decInt : Int → Bytes
  | .ofNat n => decNat n
  | .negSucc n => ch '-' :: decNat (n + 1)

theorem isDigit_ne_zero {c : Byte} (h : isDigit c = true) : c ≠ 0 := by
  rintro rfl
  simp [isDigit] at h

theorem decInt_nulFree (z : Int) : NulFree (decInt z) := by
  cases z with
  | ofNat n => exact fun c hc => isDigit_ne_zero (decNat_digits n c hc)
  | negSucc n =>
    intro c hc
    rcases List.mem_cons.mp hc with rfl | hc
    · decide
    · exact isDigit_ne_zero (decNat_digits _ c hc)

/-- The numeral padded with zeros to a minimal width, as `%06d` prints it. -/
def decPadded (width n : Nat) : Bytes :=
  List.replicate (width - (decNat n).length) (ch '0') ++ decNat n

theorem decFuel_length {k : Nat} (fuel n : Nat) (hk : 0 < k) (h : n < 10 ^ k) : (decFuel fuel n).length ≤ k := by
  induction fuel generalizing n k with
  | zero => simp [decFuel]
  | succ fuel ih =>
    unfold decFuel
    split
    · exact hk
    · rename_i hn
      obtain ⟨j, rfl⟩ : ∃ j, k = j + 1 := ⟨k - 1, by omega⟩
      have hj : 0 < j := by
        rcases Nat.eq_zero_or_pos j with rfl | hj
        · simp at h
          omega
        · exact hj
      have hdiv : n / 10 < 10 ^ j := by
        rw [Nat.div_lt_iff_lt_mul (by decide)]
        rwa [Nat.pow_succ] at h
      have := ih (n / 10) hj hdiv
      simp only [List.length_append, List.length_cons, List.length_nil]
      omega

theorem decPadded_length {width k n : Nat} (hk : 0 < k) (h : n < 10 ^ k) : (decPadded width n).length ≤ max width k := by
  have := decFuel_length (n + 1) n hk h
  simp only [decPadded, List.length_append, List.length_replicate]
  unfold decNat at this ⊢
  omega

theorem decPadded_digits (width n : Nat) : ∀ c ∈ decPadded width n, isDigit c = true := by
  intro c hc
  rcases List.mem_append.mp hc with hc | hc
  · rw [(List.mem_replicate.mp hc).2]
    decide
  · exact decNat_digits n c hc

/-- The padding says nothing: the numeral reads back as its number. -/
@[simp] theorem decValue_decPadded (width n : Nat) : decValue (decPadded width n) = n := by
  have hzeros : ∀ k, decValue (List.replicate k (ch '0')) = 0 := by
    intro k
    induction k with
    | zero => rfl
    | succ k ih =>
      rw [List.replicate_succ]
      exact ih
  have happend : ∀ s, decValue s = 0 → decValue (s ++ decNat n) = decValue (decNat n) := by
    intro s hs
    unfold decValue at hs ⊢
    rw [List.foldl_append, hs]
  rw [decPadded, happend _ (hzeros _), decValue_decNat]

example : decInt (-120) = lit "-120" := by decide
example : decPadded 6 42 = lit "000042" := by rw [lit_ofList]; decide

end Floofclaw.Lib
