import Floofclaw.Lib.Bytes

/-!
# UTF-8

The sequences of octets that encode text, by the table of lead and continuation
octets without overlong forms and surrogates. A text may be cut wherever what
follows does not start with a continuation octet, and such a place is never more
than three octets away.
-/

set_option autoImplicit false

namespace Floofclaw.Lib

/-- A continuation octet, `10xxxxxx`. -/
def isCont (c : Byte) : Bool := c &&& 0xC0 = 0x80

/-- The octets that encode one code point. -/
inductive CodePoint : Bytes → Prop
  | one {a : Byte} : a < 0x80 → CodePoint [a]
  | two {a b : Byte} : 0xC2 ≤ a → a ≤ 0xDF → isCont b = true → CodePoint [a, b]
  | three {a b c : Byte} : 0xE0 ≤ a → a ≤ 0xEF → (a = 0xE0 → 0xA0 ≤ b) → (a = 0xED → b ≤ 0x9F) → isCont b = true →
      isCont c = true → CodePoint [a, b, c]
  | four {a b c d : Byte} : 0xF0 ≤ a → a ≤ 0xF4 → (a = 0xF0 → 0x90 ≤ b) → (a = 0xF4 → b ≤ 0x8F) → isCont b = true →
      isCont c = true → isCont d = true → CodePoint [a, b, c, d]

inductive Utf8 : Bytes → Prop
  | nil : Utf8 []
  | cons {p s : Bytes} : CodePoint p → Utf8 s → Utf8 (p ++ s)

/-- The text is at its end, or goes on with an octet that continues nothing. -/
def AtStart (s : Bytes) : Prop := ∀ c t, s = c :: t → isCont c = false

theorem AtStart.nil : AtStart [] := by
  intro c t h
  cases h

theorem AtStart.cons {c : Byte} {s : Bytes} (h : isCont c = false) : AtStart (c :: s) := by
  intro d t hd
  rw [List.cons.injEq] at hd
  exact hd.1 ▸ h

theorem isCont_lt {c : Byte} (h : isCont c = true) : c < 0xC0 := by
  have hall : ∀ n : Fin 256, isCont (UInt8.ofNat n) = true → UInt8.ofNat n < 0xC0 := by decide +kernel
  have := hall ⟨c.toNat, c.toNat_lt⟩
  simpa using this (by simpa using h)

theorem isCont_ge {c : Byte} (h : isCont c = true) : 0x80 ≤ c := by
  have hall : ∀ n : Fin 256, isCont (UInt8.ofNat n) = true → 0x80 ≤ UInt8.ofNat n := by decide +kernel
  have := hall ⟨c.toNat, c.toNat_lt⟩
  simpa using this (by simpa using h)

example : isCont 0x80 = true ∧ isCont 0xC3 = false := by decide +kernel

/-- A code point is a lead octet and up to three continuation octets. -/
theorem CodePoint.shape {p : Bytes} (h : CodePoint p) :
    ∃ c t, p = c :: t ∧ isCont c = false ∧ t.length ≤ 3 ∧ ∀ d ∈ t, isCont d = true := by
  have hlead : ∀ {a : Byte}, 0xC0 ≤ a → isCont a = false := fun ha =>
    Bool.eq_false_iff.mpr fun hc => absurd (isCont_lt hc) (UInt8.not_lt.mpr ha)
  have htwo : (0xC0 : Byte) ≤ 0xC2 ∧ (0xC0 : Byte) ≤ 0xE0 ∧ (0xC0 : Byte) ≤ 0xF0 := by decide
  cases h with
  | one ha => exact ⟨_, [], rfl, Bool.eq_false_iff.mpr fun hc => absurd ha (UInt8.not_lt.mpr (isCont_ge hc)), by simp, by simp⟩
  | two ha _ hb => exact ⟨_, [_], rfl, hlead (UInt8.le_trans htwo.1 ha), by simp, by simpa using hb⟩
  | three ha _ _ _ hb hc => exact ⟨_, [_, _], rfl, hlead (UInt8.le_trans htwo.2.1 ha), by simp, by simpa using ⟨hb, hc⟩⟩
  | four ha _ _ _ hb hc hd => exact ⟨_, [_, _, _], rfl, hlead (UInt8.le_trans htwo.2.2 ha), by simp, by simpa using ⟨hb, hc, hd⟩⟩

theorem Utf8.append {s t : Bytes} (hs : Utf8 s) (ht : Utf8 t) : Utf8 (s ++ t) := by
  induction hs with
  | nil => exact ht
  | cons hp _ ih =>
    rw [List.append_assoc]
    exact .cons hp ih

theorem Utf8.atStart {s : Bytes} (h : Utf8 s) : AtStart s := by
  cases h with
  | nil => exact .nil
  | cons hp _ =>
    obtain ⟨c, t, rfl, hc, -, -⟩ := hp.shape
    exact .cons hc

/-- Cut where no sequence is under way, both parts are texts. -/
theorem Utf8.cut {a b : Bytes} (h : Utf8 (a ++ b)) (hb : AtStart b) : Utf8 a ∧ Utf8 b := by
  generalize hs : a ++ b = s at h
  induction h generalizing a with
  | nil =>
    rw [List.append_eq_nil_iff] at hs
    rw [hs.1, hs.2]
    exact ⟨.nil, .nil⟩
  | @cons p s hp hrest ih =>
    obtain ⟨c, t, rfl, hc, -, ht⟩ := hp.shape
    rcases List.append_eq_append_iff.mp hs with ⟨m, hm, hb'⟩ | ⟨m, hm, hs'⟩
    · -- the cut is inside the code point or in front of it
      cases a with
      | nil =>
        rw [List.nil_append] at hs
        exact ⟨.nil, hs ▸ .cons hp hrest⟩
      | cons d a =>
        rw [List.cons_append, List.cons.injEq] at hm
        cases m with
        | nil =>
          rw [List.append_nil] at hm
          rw [List.nil_append] at hb'
          rw [hb', ← hm.1, ← hm.2]
          refine ⟨?_, hrest⟩
          have := Utf8.cons hp .nil
          rwa [List.append_nil] at this
        | cons e m =>
          have he := ht e (by rw [hm.2]; simp)
          rw [hb _ _ hb'] at he
          cases he
    · obtain ⟨ha, hb⟩ := ih hs'.symm
      rw [hm]
      exact ⟨.cons hp ha, hb⟩

/-- From every place in a text it is at most three octets back to where a sequence starts. -/
theorem Utf8.near {s : Bytes} (h : Utf8 s) {n : Nat} (hn : n ≤ s.length) : ∃ k, k ≤ 3 ∧ k ≤ n ∧ AtStart (s.drop (n - k)) := by
  induction h generalizing n with
  | nil => exact ⟨0, by omega, by omega, by simpa using AtStart.nil⟩
  | @cons p s hp hrest ih =>
    obtain ⟨c, t, rfl, hc, hlen, -⟩ := hp.shape
    by_cases hin : n < (c :: t).length
    · have hshort : n ≤ 3 := by
        rw [List.length_cons] at hin
        omega
      refine ⟨n, hshort, Nat.le_refl n, ?_⟩
      rw [Nat.sub_self]
      exact .cons hc
    · obtain ⟨m, rfl⟩ : ∃ m, n = (c :: t).length + m := ⟨n - (c :: t).length, by omega⟩
      rw [List.length_append] at hn
      obtain ⟨k, hk, hkm, hstart⟩ := ih (n := m) (by omega)
      refine ⟨k, hk, by omega, ?_⟩
      have hsub : (c :: t).length + m - k = (c :: t).length + (m - k) := by omega
      rwa [hsub, ← List.drop_drop, List.drop_left]

/-- A code point is one ASCII octet, or none of its octets is ASCII. -/
theorem CodePoint.ascii_or_high {p : Bytes} (h : CodePoint p) : (∃ a, a < 0x80 ∧ p = [a]) ∨ ∀ c ∈ p, 0x80 ≤ c := by
  have hlead : ∀ {a : Byte}, 0xC2 ≤ a → 0x80 ≤ a := fun ha => UInt8.le_trans (by decide) ha
  have hlead' : ∀ {a : Byte}, 0xE0 ≤ a → 0x80 ≤ a := fun ha => UInt8.le_trans (by decide) ha
  have hlead'' : ∀ {a : Byte}, 0xF0 ≤ a → 0x80 ≤ a := fun ha => UInt8.le_trans (by decide) ha
  cases h with
  | one ha => exact .inl ⟨_, ha, rfl⟩
  | two ha _ hb => exact .inr (by simpa using ⟨hlead ha, isCont_ge hb⟩)
  | three ha _ _ _ hb hc => exact .inr (by simpa using ⟨hlead' ha, isCont_ge hb, isCont_ge hc⟩)
  | four ha _ _ _ hb hc hd => exact .inr (by simpa using ⟨hlead'' ha, isCont_ge hb, isCont_ge hc, isCont_ge hd⟩)

/-- How long the code point is that starts with the octet. -/
def leadLength (a : Byte) : Nat := if a < 0x80 then 1 else if a ≤ 0xDF then 2 else if a ≤ 0xEF then 3 else 4

theorem CodePoint.length_eq {a : Byte} {t : Bytes} (h : CodePoint (a :: t)) : (a :: t).length = leadLength a := by
  have hge : ∀ {x y : Byte}, x ≤ y → ¬ y < x := fun hxy => UInt8.not_lt.mpr hxy
  have hgt : ∀ {x y : Byte}, x < y → ¬ y ≤ x := fun hxy => UInt8.not_le.mpr hxy
  cases h with
  | one ha => exact (if_pos ha).symm
  | two ha ha' =>
    have hhigh : (0x80 : Byte) ≤ a := UInt8.le_trans (by decide) ha
    rw [leadLength, if_neg (hge hhigh), if_pos ha']
    rfl
  | three ha ha' =>
    have hhigh : (0x80 : Byte) ≤ a := UInt8.le_trans (by decide) ha
    have htwo : (0xDF : Byte) < a := UInt8.lt_of_lt_of_le (by decide) ha
    rw [leadLength, if_neg (hge hhigh), if_neg (hgt htwo), if_pos ha']
    rfl
  | four ha ha' =>
    have hhigh : (0x80 : Byte) ≤ a := UInt8.le_trans (by decide) ha
    have htwo : (0xDF : Byte) < a := UInt8.lt_of_lt_of_le (by decide) ha
    have hthree : (0xEF : Byte) < a := UInt8.lt_of_lt_of_le (by decide) ha
    rw [leadLength, if_neg (hge hhigh), if_neg (hgt htwo), if_neg (hgt hthree)]
    rfl

/-- Behind a text, what completes a longer text is one itself. -/
theorem Utf8.rest {a b : Bytes} (ha : Utf8 a) (h : Utf8 (a ++ b)) : Utf8 b := by
  induction ha with
  | nil => exact h
  | @cons p s hp hs ih =>
    apply ih
    rw [List.append_assoc] at h
    generalize hw : p ++ (s ++ b) = w at h
    obtain ⟨c, t, rfl, -⟩ := hp.shape
    cases h with
    | nil => cases hw
    | @cons q s' hq hs' =>
      obtain ⟨d, u, rfl, -⟩ := hq.shape
      obtain ⟨rfl, hrest⟩ := List.cons.inj hw
      have hlen : t.length = u.length := by
        have hboth := hp.length_eq.trans hq.length_eq.symm
        rw [List.length_cons, List.length_cons] at hboth
        omega
      rwa [(List.append_inj hrest hlen).2]

/-- A rewriting of single octets that leaves the non-ASCII ones alone keeps a text a text. -/
theorem Utf8.flatMap {f : Byte → Bytes} (hascii : ∀ a, a < 0x80 → Utf8 (f a)) (hhigh : ∀ a, 0x80 ≤ a → f a = [a]) {s : Bytes} (h : Utf8 s) :
    Utf8 (s.flatMap f) := by
  induction h with
  | nil => exact .nil
  | @cons p s hp _ ih =>
    rw [List.flatMap_append]
    refine .append ?_ ih
    rcases hp.ascii_or_high with ⟨a, ha, rfl⟩ | hp'
    · rw [List.flatMap_singleton]
      exact hascii a ha
    · have hsame : p.flatMap f = p := by
        rw [List.flatMap_def, List.map_congr_left fun c hc => hhigh c (hp' c hc), ← List.flatMap_def, List.flatMap_singleton']
      have hone := Utf8.cons hp .nil
      rw [List.append_nil] at hone
      rwa [hsame]

theorem Utf8.singleton {a : Byte} (h : a < 0x80) : Utf8 [a] := .cons (.one h) .nil

theorem Utf8.of_ascii {s : Bytes} (h : ∀ c ∈ s, c < 0x80) : Utf8 s := by
  induction s with
  | nil => exact .nil
  | cons c s ih => exact .cons (.one (h c List.mem_cons_self)) (ih fun d hd => h d (List.mem_cons_of_mem _ hd))

/-- A code point begins in one text and ends in what follows. -/
def Straddles (a b : Bytes) : Prop := ∃ p q, p ≠ [] ∧ q ≠ [] ∧ CodePoint (p ++ q) ∧ p <:+ a ∧ q <+: b

theorem straddles_conts {p q : Bytes} (h : CodePoint (p ++ q)) (hp : p ≠ []) : ∀ c ∈ q, isCont c = true := by
  obtain ⟨c, t, hpq, -, -, ht⟩ := h.shape
  cases p with
  | nil => exact absurd rfl hp
  | cons d p =>
    obtain ⟨-, rfl⟩ := List.cons.inj hpq
    exact fun e he => ht e (List.mem_append_right _ he)

theorem not_straddles {a b : Bytes} (h : AtStart b) : ¬ Straddles a b := by
  rintro ⟨p, q, hp, hq, hpoint, -, hqb⟩
  cases q with
  | nil => exact hq rfl
  | cons c q =>
    obtain ⟨r, rfl⟩ := hqb
    have hcont := straddles_conts hpoint hp c List.mem_cons_self
    rw [h c (q ++ r) rfl] at hcont
    cases hcont

/-- Octets that continue nothing add nothing to what follows. -/
theorem straddles_append {a b tail : Bytes} (htail : ∀ c ∈ tail, isCont c = false) : Straddles a (b ++ tail) ↔ Straddles a b := by
  constructor
  · rintro ⟨p, q, hp, hq, hpoint, hpa, r, hr⟩
    refine ⟨p, q, hp, hq, hpoint, hpa, ?_⟩
    rcases List.append_eq_append_iff.mp hr with ⟨m, hm, -⟩ | ⟨m, hm, hrest⟩
    · exact ⟨m, hm.symm⟩
    · cases m with
      | nil =>
        rw [List.append_nil] at hm
        exact hm ▸ List.prefix_rfl
      | cons c m =>
        have hcont := straddles_conts hpoint hp c (by rw [hm]; exact List.mem_append_right _ List.mem_cons_self)
        rw [htail c (by rw [hrest]; exact List.mem_cons_self)] at hcont
        cases hcont
  · rintro ⟨p, q, hp, hq, hpoint, hpa, hqb⟩
    exact ⟨p, q, hp, hq, hpoint, hpa, hqb.trans (List.prefix_append _ _)⟩

end Floofclaw.Lib
