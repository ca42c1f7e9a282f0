import Floofclaw.Source.JsonLookup

/-!
# Copies, escapes, compaction and objects as written

A bounded copy, escape or compaction succeeds exactly when its unbounded result
is shorter than the buffer. An escaped text is a string body that copies back to
the text, and the compaction of a value is a value of the same kind that
compacts to itself.
-/

set_option autoImplicit false

namespace Floofclaw.Source.Json
open Floofclaw.Lib

/-! ## String copies -/

theorem stringCopyLoop_fits {cap n : Nat} {s out d : Bytes} (h : stringCopyLoop cap n s out = (d, true)) :
    out.length ≤ d.length ∧ d.length < cap ∧ ∀ cap', d.length < cap' → stringCopyLoop cap' n s out = (d, true) := by
  induction n generalizing s out with
  | zero => simp [stringCopyLoop] at h
  | succ n ih =>
    cases s with
    | nil => simp [stringCopyLoop] at h
    | cons c s =>
      rw [stringCopyLoop] at h
      split at h
      · rename_i hc
        simp only [Prod.mk.injEq, decide_eq_true_eq] at h
        obtain ⟨rfl, hlt⟩ := h
        refine ⟨Nat.le_refl _, hlt, fun cap' hcap => ?_⟩
        rw [stringCopyLoop, if_pos hc, decide_eq_true hcap]
      · rename_i hc
        split at h
        · simp at h
        · rename_i e r he
          split at h
          · simp at h
          · rename_i hfit
            obtain ⟨hle, hlt, hcap⟩ := ih h
            rw [List.length_append] at hle
            refine ⟨by omega, hlt, fun cap' hc' => ?_⟩
            rw [stringCopyLoop, if_neg hc, he]
            dsimp only
            rw [if_neg (by omega), hcap cap' hc']

theorem stringCopyWrite_fits {cap : Nat} {v d : Bytes} (h : stringCopyWrite cap v = (d, true)) :
    d.length < cap ∧ ∀ cap', d.length < cap' → stringCopyWrite cap' v = (d, true) := by
  cases v with
  | nil => simp [stringCopyWrite] at h
  | cons c s =>
    simp only [stringCopyWrite] at h ⊢
    split at h
    · rename_i hc
      simp only [if_pos hc]
      exact (stringCopyLoop_fits h).2
    · simp at h

theorem jsonRefStringCopy_eq_some {cap : Nat} {v out : Bytes} :
    jsonRefStringCopy cap v = some out ↔ ∃ d, stringCopyWrite cap v = (d, true) ∧ out = cstr d := by
  unfold jsonRefStringCopy
  rcases stringCopyWrite cap v with ⟨d, _ | _⟩
  · simp
  · simp [eq_comm]

theorem jsonRefStringCopy_length {cap : Nat} {v out : Bytes} (h : jsonRefStringCopy cap v = some out) :
    out.length < cap := by
  obtain ⟨d, hd, rfl⟩ := jsonRefStringCopy_eq_some.mp h
  exact Nat.lt_of_le_of_lt (cstr_length_le d) (stringCopyWrite_fits hd).1

theorem jsonRefStringCopy_nulFree {cap : Nat} {v out : Bytes} (h : jsonRefStringCopy cap v = some out) :
    NulFree out := by
  obtain ⟨d, -, rfl⟩ := jsonRefStringCopy_eq_some.mp h
  exact cstr_nulFree d

/-- What a failed copy leaves behind also fits. -/
theorem stringCopyLoop_length {cap n : Nat} {s out : Bytes} (hout : out.length < cap) :
    (stringCopyLoop cap n s out).1.length < cap := by
  induction n generalizing s out with
  | zero => simpa [stringCopyLoop] using hout
  | succ n ih =>
    cases s with
    | nil => simpa [stringCopyLoop] using hout
    | cons c s =>
      rw [stringCopyLoop]
      split
      · exact hout
      · split
        · exact hout
        · split
          · exact hout
          · exact ih (by rw [List.length_append]; omega)

theorem stringCopyWrite_length {cap : Nat} (hcap : 0 < cap) (v : Bytes) : (stringCopyWrite cap v).1.length < cap := by
  cases v with
  | nil => simpa [stringCopyWrite] using hcap
  | cons c s =>
    simp only [stringCopyWrite]
    split
    · exact stringCopyLoop_length (by simpa using hcap)
    · simpa using hcap

/-- A larger buffer copies the same text. -/
theorem jsonRefStringCopy_mono {cap cap' : Nat} {v out : Bytes} (hcap : cap ≤ cap')
    (h : jsonRefStringCopy cap v = some out) : jsonRefStringCopy cap' v = some out := by
  obtain ⟨d, hd, rfl⟩ := jsonRefStringCopy_eq_some.mp h
  obtain ⟨hlt, hany⟩ := stringCopyWrite_fits hd
  exact jsonRefStringCopy_eq_some.mpr ⟨d, hany cap' (by omega), rfl⟩

/-! ## Escapes -/

/-- The unbounded escape of a text. -/
def escaped (s : Bytes) : Bytes := s.flatMap escapeByte

theorem hexValue_hexDigit : ∀ n, n < 16 → hexValue (hexDigit n) = some n := by decide

theorem isXDigit_hexDigit : ∀ n, n < 16 → isXDigit (hexDigit n) = true := by decide

theorem parseHex4_low {c : Byte} (h : c < 0x20) (r : Bytes) :
    parseHex4 (ch '0' :: ch '0' :: hexDigit (c.toNat / 16) :: hexDigit (c.toNat % 16) :: r) =
      some (c.toNat, r) := by
  have hlt : c.toNat < 32 := by simpa [UInt8.lt_iff_toNat_lt] using h
  have h0 : hexValue (ch '0') = some 0 := by decide
  simp only [parseHex4, h0, hexValue_hexDigit _ (show c.toNat / 16 < 16 by omega),
    hexValue_hexDigit _ (show c.toNat % 16 < 16 by omega)]
  congr 2
  omega

theorem utf8Write_low {c : Byte} (h : c < 0x20) : utf8Write c.toNat = [c] := by
  have hlt : c.toNat < 32 := by simpa [UInt8.lt_iff_toNat_lt] using h
  rw [utf8Write, if_pos (by omega)]
  simp

theorem unicodeEscape_low {c : Byte} (h : c < 0x20) (r : Bytes) :
    unicodeEscape (ch '0' :: ch '0' :: hexDigit (c.toNat / 16) :: hexDigit (c.toNat % 16) :: r) =
      some ([c], r) := by
  have hlt : c.toNat < 32 := by simpa [UInt8.lt_iff_toNat_lt] using h
  rw [unicodeEscape, parseHex4_low h]
  dsimp only
  rw [if_neg (by omega), if_neg (by omega), utf8Write_low h]

/-- An octet that is escaped by one letter. -/
private theorem copyItem_simple {e d : Byte} (r : Bytes) (hu : e ≠ ch 'u')
    (hd : simpleDecoded e = some d) : copyItem (ch '\\' :: e :: r) = some ([d], r) := by
  rw [copyItem, if_pos rfl, if_neg hu, hd]

/-- The three forms of an escaped octet: one letter, four hexadecimal digits, or the octet itself. -/
theorem escapeByte_cases (c : Byte) :
    (∃ e, e ≠ ch 'u' ∧ isSimpleEscape e = true ∧ simpleDecoded e = some c ∧ escapeByte c = [ch '\\', e]) ∨
      (c < 0x20 ∧ escapeByte c = ch '\\' :: ch 'u' :: ch '0' :: ch '0' :: [hexDigit (c.toNat / 16), hexDigit (c.toNat % 16)]) ∨
      (isPlain c = true ∧ escapeByte c = [c]) := by
  unfold escapeByte
  by_cases h1 : c = ch '"'
  · exact .inl ⟨ch '"', by decide, by decide, by rw [h1]; decide, if_pos h1⟩
  rw [if_neg h1]
  by_cases h2 : c = ch '\\'
  · exact .inl ⟨ch '\\', by decide, by decide, by rw [h2]; decide, if_pos h2⟩
  rw [if_neg h2]
  by_cases h3 : c = 8
  · exact .inl ⟨_, by decide, by decide, h3 ▸ by decide, if_pos h3⟩
  rw [if_neg h3]
  by_cases h4 : c = 12
  · exact .inl ⟨_, by decide, by decide, h4 ▸ by decide, if_pos h4⟩
  rw [if_neg h4]
  by_cases h5 : c = 10
  · exact .inl ⟨_, by decide, by decide, h5 ▸ by decide, if_pos h5⟩
  rw [if_neg h5]
  by_cases h6 : c = 13
  · exact .inl ⟨_, by decide, by decide, h6 ▸ by decide, if_pos h6⟩
  rw [if_neg h6]
  by_cases h7 : c = 9
  · exact .inl ⟨_, by decide, by decide, h7 ▸ by decide, if_pos h7⟩
  rw [if_neg h7]
  by_cases h8 : c < 0x20
  · exact .inr (.inl ⟨h8, if_pos h8⟩)
  · exact .inr (.inr ⟨(isPlain_iff c).mpr ⟨h1, h2, h8⟩, if_neg h8⟩)

theorem copyItem_escapeByte (c : Byte) (r : Bytes) : copyItem (escapeByte c ++ r) = some ([c], r) := by
  rcases escapeByte_cases c with ⟨e, hu, -, hdecoded, he⟩ | ⟨hlow, he⟩ | ⟨hplain, he⟩
  · rw [he]
    exact copyItem_simple r hu hdecoded
  · rw [he]
    exact unicodeEscape_low hlow r
  · obtain ⟨-, hslash, hlow⟩ := (isPlain_iff c).mp hplain
    rw [he, List.singleton_append, copyItem.eq_def]
    dsimp only
    rw [if_neg hslash, if_neg hlow]

theorem escapeByte_head (c : Byte) : ∃ e u, escapeByte c = e :: u ∧ e ≠ ch '"' := by
  rcases escapeByte_cases c with ⟨e, -, -, -, he⟩ | ⟨-, he⟩ | ⟨hplain, he⟩
  · exact ⟨_, _, he, by decide⟩
  · exact ⟨_, _, he, by decide⟩
  · exact ⟨_, _, he, ((isPlain_iff c).mp hplain).1⟩

theorem escapeByte_strBody (c : Byte) : StrBody (escapeByte c) := by
  rcases escapeByte_cases c with ⟨e, -, hsimple, -, he⟩ | ⟨hlow, he⟩ | ⟨hplain, he⟩
  · rw [he]
    exact .simple hsimple .nil
  · have hlt : c.toNat < 32 := by simpa [UInt8.lt_iff_toNat_lt] using hlow
    rw [he]
    exact .hex (by decide) (by decide) (isXDigit_hexDigit _ (by omega)) (isXDigit_hexDigit _ (by omega)) .nil
  · rw [he]
    exact .plain hplain .nil

theorem escaped_strBody (s : Bytes) : StrBody (escaped s) := by
  induction s with
  | nil => exact .nil
  | cons c s ih => exact (escapeByte_strBody c).append ih

theorem escaped_nulFree (s : Bytes) : NulFree (escaped s) := by
  have hbyte : ∀ n : Fin 256, (escapeByte (UInt8.ofNat n)).all (· != 0) = true := by decide +kernel
  intro x hx
  obtain ⟨c, -, hxc⟩ := List.mem_flatMap.mp hx
  have hc : (escapeByte c).all (· != 0) = true := by simpa using hbyte ⟨c.toNat, c.toNat_lt⟩
  exact NulFree.of_all hc x hxc

example : escaped (lit "a\"b") = lit "a\\\"b" := by decide +kernel

theorem escapeLoop_fits {cap : Nat} {s out e : Bytes} (h : escapeLoop cap s out = (e, true)) :
    e = out ++ escaped s := by
  induction s generalizing out with
  | nil => simpa [escapeLoop, escaped, eq_comm] using h
  | cons c s ih =>
    rw [escapeLoop] at h
    split at h
    · simp at h
    · rw [ih h]
      simp [escaped]

theorem escapeLoop_length {cap : Nat} {s out : Bytes} (hout : out.length < cap) :
    (escapeLoop cap s out).1.length < cap := by
  induction s generalizing out with
  | nil => simpa [escapeLoop] using hout
  | cons c s ih =>
    rw [escapeLoop]
    split
    · exact hout
    · exact ih (by rw [List.length_append]; omega)

theorem escapeLoop_complete {cap : Nat} {s out : Bytes} (h : (out ++ escaped s).length < cap) :
    escapeLoop cap s out = (out ++ escaped s, true) := by
  induction s generalizing out with
  | nil => simp [escapeLoop, escaped]
  | cons c s ih =>
    have hcons : escaped (c :: s) = escapeByte c ++ escaped s := by simp [escaped]
    rw [hcons, ← List.append_assoc] at h ⊢
    rw [escapeLoop, if_neg, ih h]
    simp only [List.length_append] at h
    omega

theorem jsonEscape_complete {cap : Nat} {src : Bytes} (h : (escaped (cstr src)).length < cap) :
    jsonEscape cap src = (escaped (cstr src), true) := by
  rw [jsonEscape, if_neg (by omega)]
  have hrun : escapeLoop cap (cstr src) [] = ([] ++ escaped (cstr src), true) :=
    escapeLoop_complete (by simpa using h)
  simpa using hrun

theorem jsonEscape_fits {cap : Nat} {src e : Bytes} (h : jsonEscape cap src = (e, true)) :
    e = escaped (cstr src) ∧ e.length < cap := by
  unfold jsonEscape at h
  split at h
  · simp at h
  · have hfit := escapeLoop_fits h
    have hlen : (escapeLoop cap (cstr src) []).1.length < cap :=
      escapeLoop_length (show ([] : Bytes).length < cap by simp; omega)
    rw [h] at hlen
    exact ⟨by simpa using hfit, hlen⟩

theorem stringCopyLoop_escaped (cap n : Nat) (s out r : Bytes) (hn : (escaped s).length < n)
    (hfit : (out ++ s).length < cap) :
    stringCopyLoop cap n (escaped s ++ ch '"' :: r) out = (out ++ s, true) := by
  induction s generalizing out n with
  | nil =>
    obtain ⟨m, rfl⟩ : ∃ m, n = m + 1 := ⟨n - 1, by omega⟩
    simpa [escaped, stringCopyLoop] using hfit
  | cons c s ih =>
    have hcons : escaped (c :: s) = escapeByte c ++ escaped s := by simp [escaped]
    obtain ⟨e, u, heu, hq⟩ := escapeByte_head c
    rw [hcons, List.length_append, heu, List.length_cons] at hn
    obtain ⟨m, rfl⟩ : ∃ m, n = m + 1 := ⟨n - 1, by omega⟩
    have hitem := copyItem_escapeByte c (escaped s ++ ch '"' :: r)
    rw [hcons, List.append_assoc]
    rw [heu, List.cons_append] at hitem ⊢
    simp only [List.length_append, List.length_cons] at hfit
    rw [stringCopyLoop, if_neg hq, hitem]
    dsimp only
    rw [if_neg (by simp; omega), ih m (out ++ [c]) (by omega) (by simp; omega)]
    simp

/-- An escaped C string is copied back whole into any buffer it fits. -/
theorem jsonRefStringCopy_escaped {cap : Nat} {s : Bytes} (hs : NulFree s) (hfit : s.length < cap) :
    jsonRefStringCopy cap (quoted (escaped s)) = some s := by
  refine jsonRefStringCopy_eq_some.mpr ⟨s, ?_, (cstr_eq_self hs).symm⟩
  rw [quoted, stringCopyWrite, if_pos rfl]
  simpa using stringCopyLoop_escaped cap _ s [] [] (by simp) (by simpa using hfit)

/-- A text without quotes, reverse solidi and control octets is its own escape. -/
theorem escaped_plain {s : Bytes} (h : ∀ c ∈ s, isPlain c = true) : escaped s = s := by
  induction s with
  | nil => rfl
  | cons c s ih =>
    obtain ⟨hq, hb, hlt⟩ := (isPlain_iff c).mp (h c (by simp))
    have hlt' : ¬ c.toNat < 32 := by simpa [UInt8.lt_iff_toNat_lt] using hlt
    have hctl : ∀ x : Byte, x.toNat < 32 → c ≠ x := by
      rintro x hx rfl
      exact hlt' hx
    have hone : escapeByte c = [c] := by
      rw [escapeByte, if_neg hq, if_neg hb, if_neg (hctl 8 (by decide)), if_neg (hctl 12 (by decide)),
        if_neg (hctl 10 (by decide)), if_neg (hctl 13 (by decide)), if_neg (hctl 9 (by decide)), if_neg hlt]
    have hrest : escaped s = s := ih fun d hd => h d (List.mem_cons_of_mem _ hd)
    rw [escaped, List.flatMap_cons, ← escaped, hone, hrest]
    rfl

theorem escaped_length (s : Bytes) : s.length ≤ (escaped s).length ∧ (escaped s).length ≤ 6 * s.length := by
  have hbyte : ∀ n : Fin 256, 1 ≤ (escapeByte (UInt8.ofNat n)).length ∧ (escapeByte (UInt8.ofNat n)).length ≤ 6 := by
    decide +kernel
  induction s with
  | nil => simp [escaped]
  | cons c s ih =>
    have hc : 1 ≤ (escapeByte c).length ∧ (escapeByte c).length ≤ 6 := by
      simpa using hbyte ⟨c.toNat, c.toNat_lt⟩
    have hcons : escaped (c :: s) = escapeByte c ++ escaped s := by simp [escaped]
    rw [hcons, List.length_append, List.length_cons]
    omega

example : (escaped (lit "\n\t")).length = 4 := by decide +kernel

/-! ## Compaction -/

theorem compactLoop_fits {cap : Nat} {b : Bool} {s out d : Bytes} (hout : out.length < cap)
    (h : compactLoop cap b s out = (d, true)) :
    d.length < cap ∧ out.length ≤ d.length ∧ ∀ cap', d.length < cap' → compactLoop cap' b s out = (d, true) := by
  fun_induction compactLoop cap b s out with
  | case1 b out =>
    simp only [Prod.mk.injEq] at h
    obtain ⟨rfl, hb⟩ := h
    exact ⟨hout, Nat.le_refl _, fun cap' _ => by rw [compactLoop, hb]⟩
  | case2 => simp at h
  | case3 => simp at h
  | case4 out e s hfit ih =>
    obtain ⟨hlt, hle, hcap⟩ := ih (by rw [List.length_append]; simp; omega) h
    rw [List.length_append] at hle
    refine ⟨hlt, by omega, fun cap' hc' => ?_⟩
    rw [compactLoop.eq_def]
    dsimp only
    rw [if_pos rfl, if_neg (by simp at hle; omega), hcap cap' hc']
  | case5 => simp at h
  | case6 c s out hb hfit ih =>
    obtain ⟨hlt, hle, hcap⟩ := ih (by rw [List.length_append]; simp; omega) h
    rw [List.length_append] at hle
    refine ⟨hlt, by omega, fun cap' hc' => ?_⟩
    rw [compactLoop.eq_def]
    dsimp only
    rw [if_neg hb, if_neg (by simp at hle; omega), hcap cap' hc']
  | case7 => simp at h
  | case8 s out hfit ih =>
    obtain ⟨hlt, hle, hcap⟩ := ih (by rw [List.length_append]; simp; omega) h
    rw [List.length_append] at hle
    refine ⟨hlt, by omega, fun cap' hc' => ?_⟩
    rw [compactLoop, if_pos rfl, if_neg (by simp at hle; omega), hcap cap' hc']
  | case9 c s out hq hsp ih =>
    obtain ⟨hlt, hle, hcap⟩ := ih hout h
    refine ⟨hlt, hle, fun cap' hc' => ?_⟩
    rw [compactLoop, if_neg hq, if_pos hsp, hcap cap' hc']
  | case10 => simp at h
  | case11 c s out hq hsp hfit ih =>
    obtain ⟨hlt, hle, hcap⟩ := ih (by rw [List.length_append]; simp; omega) h
    rw [List.length_append] at hle
    refine ⟨hlt, by omega, fun cap' hc' => ?_⟩
    rw [compactLoop, if_neg hq, if_neg hsp, if_neg (by simp at hle; omega), hcap cap' hc']

/-- Outside strings the loop turns `t` into `c`, whatever comes before and after. -/
def Squeezes (t c : Bytes) : Prop :=
  ∀ cap rest out, (out ++ c).length < cap →
    compactLoop cap false (t ++ rest) out = compactLoop cap false rest (out ++ c)

theorem Squeezes.nil : Squeezes [] [] := by
  intro cap rest out _
  simp

theorem Squeezes.append {t t' c c' : Bytes} (h : Squeezes t c) (h' : Squeezes t' c') :
    Squeezes (t ++ t') (c ++ c') := by
  intro cap rest out hfit
  rw [List.append_assoc, h cap (t' ++ rest) out (by simp at hfit ⊢; omega),
    h' cap rest (out ++ c) (by simpa using hfit), List.append_assoc]

theorem Squeezes.ws {w : Bytes} (hw : Ws w) : Squeezes w [] := by
  induction w with
  | nil => exact Squeezes.nil
  | cons c w ih =>
    intro cap rest out hfit
    have hc : isSpace c = true := hw c (by simp)
    have hq : c ≠ ch '"' := by
      rintro rfl
      exact absurd hc (by decide)
    rw [List.cons_append, compactLoop, if_neg hq, if_pos hc]
    exact ih (fun d hd => hw d (List.mem_cons_of_mem _ hd)) cap rest out hfit

/-- Octets the compaction copies outside strings. -/
def isSolid (c : Byte) : Bool := !isSpace c && c ≠ ch '"'

theorem Squeezes.solid {t : Bytes} (h : ∀ c ∈ t, isSolid c = true) : Squeezes t t := by
  induction t with
  | nil => exact Squeezes.nil
  | cons c t ih =>
    intro cap rest out hfit
    have hc := h c (by simp)
    simp only [isSolid, Bool.and_eq_true, Bool.not_eq_true', decide_eq_true_eq] at hc
    simp only [List.length_append, List.length_cons] at hfit
    rw [List.cons_append, compactLoop, if_neg hc.2, if_neg (by simp [hc.1]), if_neg (by omega),
      ih (fun d hd => h d (List.mem_cons_of_mem _ hd)) cap rest (out ++ [c]) (by simp; omega)]
    simp

theorem Squeezes.of_all {t : Bytes} (h : t.all isSolid = true) : Squeezes t t :=
  Squeezes.solid (by simpa using h)

theorem Squeezes.single {x : Char} (h : isSolid (ch x) = true) : Squeezes [ch x] [ch x] :=
  Squeezes.solid (by simpa using h)

theorem compactLoop_inString {cap : Nat} {c : Byte} {s out : Bytes} (hq : c ≠ ch '"')
    (hb : c ≠ ch '\\') (hfit : out.length + 1 < cap) :
    compactLoop cap true (c :: s) out = compactLoop cap true s (out ++ [c]) := by
  rw [compactLoop.eq_def]
  dsimp only
  rw [if_neg hb, if_neg (by omega), decide_eq_true hq]

private theorem compactLoop_escape {cap : Nat} {e : Byte} {s out : Bytes} (hfit : out.length + 2 < cap) :
    compactLoop cap true (ch '\\' :: e :: s) out = compactLoop cap true s (out ++ [ch '\\', e]) := by
  rw [compactLoop.eq_def]
  dsimp only
  rw [if_pos rfl, if_neg (by omega)]

private theorem isXDigit_plain (c : Byte) (h : isXDigit c = true) : c ≠ ch '"' ∧ c ≠ ch '\\' := by
  constructor
  all_goals
    rintro rfl
    exact absurd h (by decide)

private theorem compactLoop_body {b : Bytes} (hb : StrBody b) (cap : Nat) (rest out : Bytes)
    (hfit : (out ++ (b ++ [ch '"'])).length < cap) :
    compactLoop cap true (b ++ ch '"' :: rest) out = compactLoop cap false rest (out ++ (b ++ [ch '"'])) := by
  induction hb generalizing out with
  | nil =>
    rw [List.nil_append, compactLoop.eq_def]
    dsimp only
    simp only [List.length_append, List.length_nil, List.length_cons, List.nil_append] at hfit ⊢
    rw [if_neg (by decide), if_neg (by omega), decide_eq_false (by simp)]
  | @plain c s h _ ih =>
    obtain ⟨hq, hb, -⟩ := (isPlain_iff c).mp h
    simp only [List.length_append, List.length_cons] at hfit
    rw [List.cons_append, compactLoop_inString hq hb (by omega), ih _ (by simp; omega)]
    simp
  | @simple c s h _ ih =>
    simp only [List.length_append, List.length_cons] at hfit
    rw [List.cons_append, List.cons_append, compactLoop_escape (by omega), ih _ (by simp; omega)]
    simp
  | @hex a b c d s ha hb hc hd _ ih =>
    obtain ⟨ha1, ha2⟩ := isXDigit_plain a ha
    obtain ⟨hb1, hb2⟩ := isXDigit_plain b hb
    obtain ⟨hc1, hc2⟩ := isXDigit_plain c hc
    obtain ⟨hd1, hd2⟩ := isXDigit_plain d hd
    simp only [List.length_append, List.length_cons] at hfit
    simp only [List.cons_append]
    rw [compactLoop_escape (by omega), compactLoop_inString ha1 ha2 (by simp; omega),
      compactLoop_inString hb1 hb2 (by simp; omega), compactLoop_inString hc1 hc2 (by simp; omega),
      compactLoop_inString hd1 hd2 (by simp; omega), ih _ (by simp; omega)]
    simp

theorem Squeezes.quoted {b : Bytes} (hb : StrBody b) : Squeezes (quoted b) (quoted b) := by
  intro cap rest out hfit
  simp only [Lib.quoted, List.length_append, List.length_cons] at hfit
  rw [Lib.quoted, List.cons_append, compactLoop, if_pos rfl, if_neg (by omega), List.append_assoc,
    List.singleton_append, compactLoop_body hb _ _ _ (by simp; omega)]
  simp

private theorem digits_solid {ds : Bytes} (h : Digits ds) : ∀ c ∈ ds, isSolid c = true := by
  intro c hc
  have hd := h.2 c hc
  have hsp := isValueHead_noSpace c (by simp [isValueHead, hd])
  have hq : c ≠ ch '"' := by
    rintro rfl
    exact absurd hd (by decide)
  simp [isSolid, hsp, hq]

theorem numText_solid {t : Bytes} (h : NumText t) : ∀ c ∈ t, isSolid c = true := by
  obtain ⟨hsg, hip, hfr, hex⟩ := h
  intro c hc
  rcases List.mem_append.mp hc with hc | hc
  · rcases hsg with rfl | rfl
    · simp at hc
    · rw [List.mem_singleton.mp hc]
      decide
  rcases List.mem_append.mp hc with hc | hc
  · exact digits_solid hip c hc
  rcases List.mem_append.mp hc with hc | hc
  · cases hfr with
    | none => simp at hc
    | some hds =>
      rcases List.mem_cons.mp hc with rfl | hc
      · decide
      · exact digits_solid hds c hc
  · cases hex with
    | none => simp at hc
    | some hE hsg' hds =>
      rcases List.mem_cons.mp hc with rfl | hc
      · rcases hE with rfl | rfl <;> decide
      · rcases List.mem_append.mp hc with hc | hc
        · rcases hsg' with rfl | rfl | rfl
          · simp at hc
          · rw [List.mem_singleton.mp hc]
            decide
          · rw [List.mem_singleton.mp hc]
            decide
        · exact digits_solid hds c hc

/-- `c` is the compact form of the value text `t`. -/
structure Compacts (t c : Bytes) : Prop where
  squeezes : Squeezes t c
  stable : Squeezes c c
  value : IsValue c
  sameType : jsonRefInferType c = jsonRefInferType t

/-- What compaction makes of each shape. -/
def Compactable : Part → Bytes → Prop
  | .value, t => ∃ c, Compacts t c
  | .elems xs, t => ∃ c xs', Squeezes t c ∧ Squeezes c c ∧ Reads (.elems xs') c ∧ List.Forall₂ Compacts xs xs'
  | .members ms, t => ∃ c ms', Squeezes t c ∧ Squeezes c c ∧ Reads (.members ms') c ∧
      List.Forall₂ (fun m m' => m.1 = m'.1 ∧ Compacts m.2 m'.2) ms ms'

/-- A text has one compact form. -/
theorem Squeezes.unique {t c c' : Bytes} (h : Squeezes t c) (h' : Squeezes t c') : c = c' := by
  have h1 := h (c.length + c'.length + 1) [] [] (by rw [List.nil_append]; omega)
  have h2 := h' (c.length + c'.length + 1) [] [] (by rw [List.nil_append]; omega)
  rw [h1] at h2
  simpa [compactLoop] using h2

private theorem compacts_self {t : Bytes} (hv : IsValue t) (h : Squeezes t t) : Compactable .value t :=
  ⟨t, h, h, hv, rfl⟩

theorem Squeezes.wrap {x y : Char} {w t c : Bytes} (hx : isSolid (ch x) = true)
    (hy : isSolid (ch y) = true) (hw : Ws w) (h : Squeezes t c) :
    Squeezes (ch x :: (w ++ (t ++ [ch y]))) (ch x :: (c ++ [ch y])) := by
  simpa using (Squeezes.single hx).append ((Squeezes.ws hw).append (h.append (Squeezes.single hy)))

theorem reads_compactable {p : Part} {t : Bytes} (h : Reads p t) : Compactable p t := by
  induction h with
  | true => exact compacts_self .true (Squeezes.of_all (lit_all (by decide)))
  | false => exact compacts_self .false (Squeezes.of_all (lit_all (by decide)))
  | null => exact compacts_self .null (Squeezes.of_all (lit_all (by decide)))
  | num hn => exact compacts_self (.num hn) (Squeezes.solid (numText_solid hn))
  | str hb => exact compacts_self (.str hb) (Squeezes.quoted hb)
  | @arrEmpty w hw =>
    refine ⟨[ch '[', ch ']'], ?_, Squeezes.of_all (by decide), .arrEmpty Ws.nil, rfl⟩
    simpa using Squeezes.wrap (x := '[') (y := ']') (by decide) (by decide) hw Squeezes.nil
  | @objEmpty w hw =>
    refine ⟨[ch '{', ch '}'], ?_, Squeezes.of_all (by decide), .objEmpty Ws.nil, rfl⟩
    simpa using Squeezes.wrap (x := '{') (y := '}') (by decide) (by decide) hw Squeezes.nil
  | @arr w body xs hw hb ih =>
    obtain ⟨c, xs', hsq, hst, hr, -⟩ := ih
    refine ⟨ch '[' :: (c ++ [ch ']']), Squeezes.wrap (by decide) (by decide) hw hsq, ?_, .arr Ws.nil hr, rfl⟩
    simpa using Squeezes.wrap (x := '[') (y := ']') (by decide) (by decide) Ws.nil hst
  | @obj w body ms hw hb ih =>
    obtain ⟨c, ms', hsq, hst, hr, -⟩ := ih
    refine ⟨ch '{' :: (c ++ [ch '}']), Squeezes.wrap (by decide) (by decide) hw hsq, ?_, .obj Ws.nil hr, rfl⟩
    simpa using Squeezes.wrap (x := '{') (y := '}') (by decide) (by decide) Ws.nil hst
  | @elem v w hv hw ih =>
    obtain ⟨c, hc⟩ := ih
    refine ⟨c, [c], ?_, hc.stable, ?_, .cons hc .nil⟩
    · simpa using hc.squeezes.append (Squeezes.ws hw)
    · simpa using Reads.elem hc.value Ws.nil
  | @elemCons v w w' body xs hv hw hw' hb ihv ihb =>
    obtain ⟨c, hc⟩ := ihv
    obtain ⟨d, xs', hsq, hst, hr, hall⟩ := ihb
    have hcomma : Squeezes [ch ','] [ch ','] := Squeezes.single (by decide)
    refine ⟨c ++ (ch ',' :: d), c :: xs', ?_, ?_, ?_, .cons hc hall⟩
    · simpa using hc.squeezes.append ((Squeezes.ws hw).append (hcomma.append ((Squeezes.ws hw').append hsq)))
    · simpa using hc.stable.append (hcomma.append hst)
    · simpa using Reads.elemCons hc.value Ws.nil Ws.nil hr
  | @member k w1 w2 v w hk h1 h2 hv hw ih =>
    obtain ⟨c, hc⟩ := ih
    have hcolon : Squeezes [ch ':'] [ch ':'] := Squeezes.single (by decide)
    refine ⟨quoted k ++ (ch ':' :: c), [(k, c)], ?_, ?_, ?_, .cons ⟨rfl, hc⟩ .nil⟩
    · simpa using (Squeezes.quoted hk).append ((Squeezes.ws h1).append
        (hcolon.append ((Squeezes.ws h2).append (hc.squeezes.append (Squeezes.ws hw)))))
    · simpa using (Squeezes.quoted hk).append (hcolon.append hc.stable)
    · simpa using Reads.member hk Ws.nil Ws.nil hc.value Ws.nil
  | @memberCons k w1 w2 v w w' body ms hk h1 h2 hv hw hw' hb ihv ihb =>
    obtain ⟨c, hc⟩ := ihv
    obtain ⟨d, ms', hsq, hst, hr, hall⟩ := ihb
    have hcolon : Squeezes [ch ':'] [ch ':'] := Squeezes.single (by decide)
    have hcomma : Squeezes [ch ','] [ch ','] := Squeezes.single (by decide)
    refine ⟨quoted k ++ (ch ':' :: (c ++ (ch ',' :: d))), (k, c) :: ms', ?_, ?_, ?_, .cons ⟨rfl, hc⟩ hall⟩
    · simpa using (Squeezes.quoted hk).append ((Squeezes.ws h1).append (hcolon.append
        ((Squeezes.ws h2).append (hc.squeezes.append ((Squeezes.ws hw).append
          (hcomma.append ((Squeezes.ws hw').append hsq)))))))
    · simpa using (Squeezes.quoted hk).append (hcolon.append (hc.stable.append (hcomma.append hst)))
    · simpa using Reads.memberCons hk Ws.nil Ws.nil hc.value Ws.nil Ws.nil hr

theorem isValue_compacts {t : Bytes} (h : IsValue t) : ∃ c, Compacts t c := reads_compactable h

/-- The compaction of a text succeeds exactly when what is left of it fits. -/
theorem jsonCompact_squeezes {t c : Bytes} (hn : NulFree t) (hc : Squeezes t c) (cap : Nat) :
    jsonCompact cap t = if c.length < cap then some c else none := by
  have hrun : ∀ cap', c.length < cap' → compactLoop cap' false t [] = (c, true) := by
    intro cap' hcap
    have := hc cap' [] [] (by simpa using hcap)
    simpa [compactLoop] using this
  unfold jsonCompact jsonCompactWrite
  rw [cstr_eq_self hn]
  split
  · rename_i out hout
    split at hout
    · simp at hout
    · rename_i hcap
      obtain ⟨hlt, -, hany⟩ := compactLoop_fits (show ([] : Bytes).length < cap by simp; omega) hout
      have h1 := hany (out.length + c.length + 1) (by omega)
      rw [hrun _ (by omega), Prod.mk.injEq] at h1
      rw [h1.1, if_pos hlt]
  · rename_i out hout
    rw [if_neg]
    intro hlt
    rw [if_neg (by omega), hrun cap hlt] at hout
    simp at hout

theorem jsonCompact_eq {t c : Bytes} (hn : NulFree t) (hc : Compacts t c) (cap : Nat) :
    jsonCompact cap t = if c.length < cap then some c else none :=
  jsonCompact_squeezes hn hc.squeezes cap

theorem Compacts.of_stable {t : Bytes} (hv : IsValue t) (h : Squeezes t t) : Compacts t t :=
  ⟨h, h, hv, rfl⟩

theorem Compacts.run {t c : Bytes} (hc : Compacts t c) : compactLoop (c.length + 1) false t [] = (c, true) := by
  have := hc.squeezes (c.length + 1) [] [] (by simp)
  simpa [compactLoop] using this

theorem compactLoop_mem (cap : Nat) (b : Bool) (s out : Bytes) {x : Byte}
    (h : x ∈ (compactLoop cap b s out).1) : x ∈ out ∨ x ∈ s := by
  fun_induction compactLoop cap b s out with
  | case1 => exact .inl h
  | case2 => exact .inl h
  | case3 => exact .inl h
  | case4 out e s hfit ih => have := ih h; simp at this ⊢; tauto
  | case5 => exact .inl h
  | case6 c s out hb hfit ih => have := ih h; simp at this ⊢; tauto
  | case7 => exact .inl h
  | case8 s out hfit ih => have := ih h; simp at this ⊢; tauto
  | case9 c s out hq hsp ih => have := ih h; simp at this ⊢; tauto
  | case10 => exact .inl h
  | case11 c s out hq hsp hfit ih => have := ih h; simp at this ⊢; tauto

theorem compactLoop_length (cap : Nat) (b : Bool) (s out : Bytes) :
    (compactLoop cap b s out).1.length ≤ out.length + s.length := by
  fun_induction compactLoop cap b s out with
  | case1 => simp
  | case2 => simp
  | case3 => simp
  | case4 out e s hfit ih => simp at ih ⊢; omega
  | case5 => simp
  | case6 c s out hb hfit ih => simp at ih ⊢; omega
  | case7 => simp
  | case8 s out hfit ih => simp at ih ⊢; omega
  | case9 c s out hq hsp ih => simp at ih ⊢; omega
  | case10 => simp
  | case11 c s out hq hsp hfit ih => simp at ih ⊢; omega

theorem Compacts.length_le {t c : Bytes} (hc : Compacts t c) : c.length ≤ t.length := by
  have h := compactLoop_length (c.length + 1) false t []
  rw [hc.run] at h
  simpa using h

theorem Compacts.nulFree {t c : Bytes} (hn : NulFree t) (hc : Compacts t c) : NulFree c := by
  intro x hx
  have hmem := compactLoop_mem (c.length + 1) false t [] (x := x) (by rw [hc.run]; exact hx)
  exact hn x (by simpa using hmem)

/-! ## Printed numbers -/

theorem decNat_digitsText (n : Nat) : Digits (decNat n) := ⟨decNat_ne_nil n, decNat_digits n⟩

theorem decInt_numText (z : Int) : NumText (decInt z) := by
  cases z with
  | ofNat n => exact .of_digits (decNat_digitsText n)
  | negSucc n => simpa [decInt] using NumText.mk (.inr rfl) (decNat_digitsText (n + 1)) .none .none

private theorem decNat_split (n : Nat) :
    (decNat n).takeWhile isDigit = decNat n ∧ skipDigits (decNat n) = [] := by
  have hall : ∀ c ∈ decNat n, isDigit c = true := decNat_digits n
  exact ⟨List.takeWhile_eq_self_iff.mpr hall, by simpa [skipDigits] using List.dropWhile_eq_nil_iff.mpr hall⟩

private theorem decNat_head (n : Nat) : ∃ c u, decNat n = c :: u ∧ c ≠ ch '-' := by
  cases hd : decNat n with
  | nil => exact absurd hd (decNat_ne_nil n)
  | cons c u =>
    refine ⟨c, u, rfl, ?_⟩
    rintro rfl
    have hdigit : isDigit (ch '-') = true := decNat_digits n _ (by simp [hd])
    exact absurd hdigit (by decide)

theorem clampLong_of_range {z : Int} (hlo : int64Min ≤ z) (hhi : z ≤ int64Max) : clampLong z = (z, true) := by
  rw [clampLong, if_neg (Int.not_lt.mpr hlo), if_neg (Int.not_lt.mpr hhi)]

/-- A printed number is read as far as 64 bits go. -/
theorem strtoll_printed (z : Int) : strtoll (decInt z) = ((clampLong z).1, [], (clampLong z).2) := by
  cases z with
  | ofNat n =>
    obtain ⟨c, u, hcu, hc⟩ := decNat_head n
    obtain ⟨htake, hskip⟩ := decNat_split n
    have hsign : signSplit (decNat n) = (false, decNat n) := by
      rw [hcu, signSplit, if_neg hc]
    simp only [decInt, strtoll, hsign, htake, hskip, decValue_decNat, Bool.false_eq_true, if_false, Int.ofNat_eq_natCast]
  | negSucc n =>
    obtain ⟨htake, hskip⟩ := decNat_split (n + 1)
    have hsign : signSplit (ch '-' :: decNat (n + 1)) = (true, decNat (n + 1)) := rfl
    have hneg : -((n + 1 : Nat) : Int) = Int.negSucc n := rfl
    simp only [decInt, strtoll, hsign, htake, hskip, decValue_decNat, if_true]
    rw [hneg]

/-- A printed 64-bit number is read back. -/
theorem strtoll_decInt {z : Int} (hlo : int64Min ≤ z) (hhi : z ≤ int64Max) : strtoll (decInt z) = (z, [], true) := by
  rw [strtoll_printed, clampLong_of_range hlo hhi]

theorem inferType_numText {t : Bytes} (h : NumText t) : jsonRefInferType t = .number := by
  obtain ⟨c, u, rfl, hc⟩ := h.head
  have hne : ∀ x : Char, isDigit (ch x) = false → ch x ≠ ch '-' → c ≠ ch x := by
    rintro x hx hm rfl
    rcases hc with hc | hc
    · rw [hc] at hx
      exact absurd hx (by decide)
    · exact hm hc
  rw [jsonRefInferType, if_neg (hne _ (by decide) (by decide)), if_neg (hne _ (by decide) (by decide)),
    if_neg (hne _ (by decide) (by decide)), if_neg, if_neg (hne _ (by decide) (by decide)), if_pos]
  · rcases hc with hc | hc <;> simp [hc]
  · simp [hne 't' (by decide) (by decide), hne 'f' (by decide) (by decide)]

theorem jsonRefGetLong_decInt {z : Int} (hlo : int64Min ≤ z) (hhi : z ≤ int64Max) (old : Int) :
    jsonRefGetLong (decInt z) old = (z, true) := by
  have hend : parseJsonNumberEnd (decInt z) = some [] := by
    simpa using parseJsonNumberEnd_complete (decInt_numText z) NoNumHead.nil
  rw [jsonRefGetLong, if_pos ⟨inferType_numText (decInt_numText z), hend⟩, strtoll_decInt hlo hhi]
  rfl

theorem clampLong_range (z : Int) : int64Min ≤ (clampLong z).1 ∧ (clampLong z).1 ≤ int64Max := by
  unfold clampLong
  split
  · exact ⟨Int.le_refl _, by decide⟩
  · split
    · exact ⟨by decide, Int.le_refl _⟩
    · rename_i hlo hhi
      exact ⟨Int.not_lt.mp hlo, Int.not_lt.mp hhi⟩

theorem strtoll_range (s : Bytes) : int64Min ≤ (strtoll s).1 ∧ (strtoll s).1 ≤ int64Max := clampLong_range _

/-- Whatever a number read leaves behind is a 64-bit value. -/
theorem jsonRefObjectGetLong_range (obj key : Bytes) {old : Int} (hold : int64Min ≤ old ∧ old ≤ int64Max) :
    int64Min ≤ (jsonRefObjectGetLong obj key old).1 ∧ (jsonRefObjectGetLong obj key old).1 ≤ int64Max := by
  unfold jsonRefObjectGetLong
  split
  · exact hold
  · unfold jsonRefGetLong
    split
    · exact strtoll_range _
    · exact hold

/-! ## Objects with plain keys -/

/-- A key that is written without escapes and decoded by every lookup. -/
def plainKey (k : Bytes) : Bool := k.all isPlain && decide (k.length < 256)

/-- The value under the first member with the key. -/
def assoc (key : Bytes) : List (Bytes × Bytes) → Option Bytes
  | [] => none
  | (k, v) :: ms => if k = key then some v else assoc key ms

theorem assoc_here (k v : Bytes) (ms : List (Bytes × Bytes)) : assoc k ((k, v) :: ms) = some v := if_pos rfl

theorem assoc_next {k key : Bytes} (h : k ≠ key) (v : Bytes) (ms : List (Bytes × Bytes)) : assoc key ((k, v) :: ms) = assoc key ms :=
  if_neg h

theorem plainKey_strBody {k : Bytes} (h : plainKey k = true) : StrBody k := by
  simp only [plainKey, Bool.and_eq_true] at h
  exact StrBody.of_plain (by simpa using h.1)

theorem isPlain_ne_zero {c : Byte} (h : isPlain c = true) : c ≠ 0 := by
  rintro rfl
  exact absurd h (by decide)

theorem plainKey_lit {cs : List Char} (h : plainKey (cs.map ch) = true) : plainKey (lit (String.ofList cs)) = true := by
  rwa [lit_ofList]

theorem plainKey_copy {k : Bytes} (h : plainKey k = true) : jsonRefStringCopy 256 (quoted k) = some k := by
  simp only [plainKey, Bool.and_eq_true, decide_eq_true_eq, List.all_eq_true] at h
  have hcopy : jsonRefStringCopy 256 (quoted (escaped k)) = some k :=
    jsonRefStringCopy_escaped (fun c hc => isPlain_ne_zero (h.1 c hc)) h.2
  rwa [escaped_plain h.1] at hcopy

theorem memberLookup_plain {ms : List (Bytes × Bytes)} (h : ∀ m ∈ ms, plainKey m.1 = true) (key : Bytes) :
    memberLookup key ms = assoc key ms := by
  induction ms with
  | nil => rfl
  | cons m ms ih =>
    rw [memberLookup, plainKey_copy (h m (by simp)), assoc]
    dsimp only
    rw [ih fun x hx => h x (List.mem_cons_of_mem _ hx)]

/-- A whole value without the terminator octet: what a writer may splice into a C string. -/
structure CleanValue (v : Bytes) : Prop where
  value : IsValue v
  nulFree : NulFree v

/-- Members as a writer lays them down: plain keys, clean values. -/
def WrittenMembers (ms : List (Bytes × Bytes)) : Prop := ∀ m ∈ ms, plainKey m.1 = true ∧ CleanValue m.2

theorem WrittenMembers.nil : WrittenMembers [] := by simp [WrittenMembers]

theorem WrittenMembers.cons {k v : Bytes} {ms : List (Bytes × Bytes)} (hk : plainKey k = true) (hv : CleanValue v)
    (h : WrittenMembers ms) : WrittenMembers ((k, v) :: ms) :=
  List.forall_mem_cons.mpr ⟨⟨hk, hv⟩, h⟩

/-- A member under a key that is written out. -/
theorem WrittenMembers.key {cs : List Char} {v : Bytes} {ms : List (Bytes × Bytes)} (hk : plainKey (cs.map ch) = true)
    (hv : CleanValue v) (h : WrittenMembers ms) : WrittenMembers ((lit (String.ofList cs), v) :: ms) :=
  .cons (plainKey_lit hk) hv h

theorem WrittenMembers.append {ms ms' : List (Bytes × Bytes)} (h : WrittenMembers ms) (h' : WrittenMembers ms') :
    WrittenMembers (ms ++ ms') := by
  intro m hm
  rcases List.mem_append.mp hm with hm | hm
  · exact h m hm
  · exact h' m hm

theorem WrittenMembers.wellformed {ms : List (Bytes × Bytes)} (h : WrittenMembers ms) :
    ∀ x ∈ ms, StrBody x.1 ∧ IsValue x.2 := fun x hx => ⟨plainKey_strBody (h x hx).1, (h x hx).2.value⟩

theorem WrittenMembers.objText {ms : List (Bytes × Bytes)} (h : WrittenMembers ms) : ObjText (objText ms) ms :=
  objText_reads h.wellformed

theorem WrittenMembers.get {ms : List (Bytes × Bytes)} (h : WrittenMembers ms) (key : Bytes) :
    jsonRefObjectGet (Lib.objText ms) key = assoc key ms := by
  rw [jsonRefObjectGet_eq h.objText, memberLookup_plain fun m hm => (h m hm).1]

private theorem ch_nulFree {x : Char} (h : ch x ≠ 0) : NulFree [ch x] := by simpa [NulFree] using h

theorem quoted_nulFree {b : Bytes} (h : NulFree b) : NulFree (quoted b) :=
  (ch_nulFree (by decide)).append (h.append (ch_nulFree (by decide)))

theorem plainKey_nulFree {k : Bytes} (h : plainKey k = true) : NulFree k := by
  simp only [plainKey, Bool.and_eq_true, List.all_eq_true] at h
  exact fun c hc => isPlain_ne_zero (h.1 c hc)

private theorem membersText_nulFree {ms : List (Bytes × Bytes)} (h : ∀ m ∈ ms, NulFree m.1 ∧ NulFree m.2) :
    NulFree (membersText ms) := by
  induction ms with
  | nil => simp [membersText, NulFree]
  | cons m ms ih =>
    obtain ⟨k, v⟩ := m
    obtain ⟨hk, hv⟩ := h (k, v) (by simp)
    have hkey : NulFree (quoted k) := quoted_nulFree hk
    cases ms with
    | nil => exact hkey.append ((ch_nulFree (by decide)).append hv)
    | cons m' ms =>
      have hrest := ih fun x hx => h x (List.mem_cons_of_mem _ hx)
      exact hkey.append ((ch_nulFree (by decide)).append (hv.append ((ch_nulFree (by decide)).append hrest)))

theorem objText_nulFree {ms : List (Bytes × Bytes)} (h : ∀ m ∈ ms, NulFree m.1 ∧ NulFree m.2) : NulFree (objText ms) :=
  (ch_nulFree (x := '{') (by decide)).append ((membersText_nulFree h).append (ch_nulFree (by decide)))

/-- An object as written is a clean value. -/
theorem CleanValue.objText {ms : List (Bytes × Bytes)} (h : WrittenMembers ms) : CleanValue (objText ms) :=
  ⟨h.objText.isValue, objText_nulFree fun m hm => ⟨plainKey_nulFree (h m hm).1, (h m hm).2.nulFree⟩⟩

private theorem elemsText_nulFree {xs : List Bytes} (h : ∀ x ∈ xs, CleanValue x) : NulFree (elemsText xs) := by
  induction xs with
  | nil => simp [elemsText, NulFree]
  | cons v xs ih =>
    have hv := (h v (by simp)).nulFree
    cases xs with
    | nil => exact hv
    | cons x xs =>
      exact hv.append ((ch_nulFree (x := ',') (by decide)).append (ih fun y hy => h y (List.mem_cons_of_mem _ hy)))

theorem CleanValue.arrText {xs : List Bytes} (h : ∀ x ∈ xs, CleanValue x) : CleanValue (arrText xs) :=
  ⟨(arrText_reads fun x hx => (h x hx).value).isValue,
    (ch_nulFree (x := '[') (by decide)).append ((elemsText_nulFree h).append (ch_nulFree (by decide)))⟩

/-- An escaped text between quotes. -/
theorem CleanValue.text (s : Bytes) : CleanValue (quoted (escaped s)) :=
  ⟨.str (escaped_strBody s), quoted_nulFree (escaped_nulFree s)⟩

theorem CleanValue.long (z : Int) : CleanValue (decInt z) := ⟨.num (decInt_numText z), decInt_nulFree z⟩

/-- The value a lookup finds in a clean object is clean. -/
theorem CleanValue.get {obj key v : Bytes} {ms : List (Bytes × Bytes)} (h : ObjText obj ms) (hn : NulFree obj)
    (hv : jsonRefObjectGet obj key = some v) : CleanValue v := by
  rw [jsonRefObjectGet_eq h] at hv
  obtain ⟨m, hm, rfl⟩ := memberLookup_mem hv
  exact ⟨(h.wellformed m hm).2, (h.nulFree hn m hm).2⟩

theorem CleanValue.null : CleanValue (lit "null") := by
  exact ⟨.null, .of_all (lit_all (by decide))⟩

/-- A written object whose values are compact is compact. -/
theorem Squeezes.objText {ms : List (Bytes × Bytes)} (h : ∀ m ∈ ms, StrBody m.1 ∧ Squeezes m.2 m.2) :
    Squeezes (objText ms) (objText ms) := by
  have hcolon : Squeezes [ch ':'] [ch ':'] := Squeezes.single (by decide)
  have hcomma : Squeezes [ch ','] [ch ','] := Squeezes.single (by decide)
  have hbody : Squeezes (membersText ms) (membersText ms) := by
    induction ms with
    | nil => exact Squeezes.nil
    | cons m ms ih =>
      obtain ⟨k, v⟩ := m
      obtain ⟨hk, hv⟩ := h (k, v) List.mem_cons_self
      have hhead := (Squeezes.quoted hk).append (hcolon.append hv)
      have htail := ih fun m hm => h m (List.mem_cons_of_mem _ hm)
      cases ms with
      | nil => simpa [membersText] using hhead
      | cons m' ms => simpa [membersText] using hhead.append (hcomma.append htail)
  have hwrap := Squeezes.wrap (x := '{') (y := '}') (by decide) (by decide) Ws.nil hbody
  simpa [Lib.objText] using hwrap

theorem Squeezes.length_le {t c : Bytes} (h : Squeezes t c) : c.length ≤ t.length := by
  have hrun := h (c.length + 1) [] [] (by simp)
  have hlen := compactLoop_length (c.length + 1) false (t ++ []) []
  rw [hrun] at hlen
  simpa [compactLoop] using hlen

theorem Squeezes.text (s : Bytes) : Squeezes (Lib.quoted (escaped s)) (Lib.quoted (escaped s)) :=
  Squeezes.quoted (escaped_strBody s)

theorem escaped_inj {s t : Bytes} (hs : NulFree s) (ht : NulFree t) (h : escaped s = escaped t) : s = t := by
  have h1 : jsonRefStringCopy (s.length + t.length + 1) (quoted (escaped s)) = some s :=
    jsonRefStringCopy_escaped hs (by omega)
  have h2 : jsonRefStringCopy (s.length + t.length + 1) (quoted (escaped t)) = some t :=
    jsonRefStringCopy_escaped ht (by omega)
  rw [h, h2] at h1
  exact (Option.some.inj h1).symm

theorem newline_ws : NulFree (lit "\n") ∧ Ws (lit "\n") := by
  have hall : (lit "\n").all (fun c => c != 0 && isSpace c) = true := by decide
  simp only [List.all_eq_true, Bool.and_eq_true] at hall
  exact ⟨fun c hc => by simpa using (hall c hc).1, fun c hc => (hall c hc).2⟩

/-- A written object with white space behind it is read as itself. -/
theorem jsonRefTopObject_trailing {t w : Bytes} {ms : List (Bytes × Bytes)} (ht : ObjText t ms) (hn : NulFree (t ++ w))
    (hw : Ws w) : jsonRefTopObject (t ++ w) = some t := by
  have hskip : skipWs w = [] := by simpa using skipWs_append hw (s := []) (by simp [NoSpaceHead])
  have hnum : NoNumHead w := by simpa using Ws.noNumHead hw NoNumHead.nil
  have hfrom : jsonRefFromText (t ++ w) = some t := by
    rw [jsonRefFromText, cstr_eq_self hn, skipWs_self (ht.isValue.noSpaceHead.append ht.isValue.ne_nil),
      valueSpan_complete ht.isValue hnum]
    simp [hskip]
  rw [jsonRefTopObject, hfrom]
  simp [ObjText.inferType ht]

/-- A written object on a line of its own. -/
theorem jsonRefTopObject_line {ms : List (Bytes × Bytes)} (h : WrittenMembers ms) :
    jsonRefTopObject (objText ms ++ lit "\n") = some (objText ms) :=
  jsonRefTopObject_trailing h.objText ((CleanValue.objText h).nulFree.append newline_ws.1) newline_ws.2

theorem jsonRefFirstObject_line {ms : List (Bytes × Bytes)} (h : WrittenMembers ms) :
    jsonRefFirstObject (objText ms ++ lit "\n") = some (objText ms) := by
  have hnum : NoNumHead (lit "\n") := by simpa using Ws.noNumHead newline_ws.2 NoNumHead.nil
  have hspan := valueSpan_complete h.objText.isValue hnum
  rw [jsonRefFirstObject, cstr_eq_self ((CleanValue.objText h).nulFree.append newline_ws.1)]
  rw [objText, List.cons_append] at hspan ⊢
  rw [firstObjectLoop, if_pos rfl, hspan]

theorem escaped_append (s t : Bytes) : escaped (s ++ t) = escaped s ++ escaped t := List.flatMap_append

end Floofclaw.Source.Json
