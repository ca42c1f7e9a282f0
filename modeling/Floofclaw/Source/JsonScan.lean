import Floofclaw.Source.Json

/-!
# What the scanners accept

Every scanner of `support/json.c` is related to the grammar in both directions:
what it consumes is a text of the grammar, and a text of the grammar is
consumed whole when nothing after it prolongs a number.
-/

set_option autoImplicit false

namespace Floofclaw.Source.Json
open Floofclaw.Lib

/-! ## Strings and numbers -/

theorem stringBodyEnd_cons (c : Byte) (s : Bytes) (hq : c ≠ ch '"') (hb : c ≠ ch '\\') :
    stringBodyEnd (c :: s) = if c < 0x20 then none else stringBodyEnd s := by
  rw [stringBodyEnd.eq_def]
  simp only [if_neg hq, if_neg hb]

theorem stringBodyEnd_complete {b : Bytes} (hb : StrBody b) (r : Bytes) :
    stringBodyEnd (b ++ ch '"' :: r) = some r := by
  induction hb with
  | nil =>
    rw [List.nil_append, stringBodyEnd.eq_def]
    dsimp only
    exact if_pos rfl
  | plain h _ ih =>
    rw [isPlain_iff] at h
    rw [List.cons_append, stringBodyEnd_cons _ _ h.1 h.2.1, if_neg h.2.2, ih]
  | simple h _ ih =>
    rw [List.cons_append, List.cons_append, stringBodyEnd.eq_def]
    dsimp only
    rw [if_neg (by decide), if_pos rfl, if_neg (isSimpleEscape_ne_u h), if_pos h, ih]
  | hex ha hb hc hd _ ih =>
    simp only [List.cons_append]
    rw [stringBodyEnd.eq_def]
    dsimp only
    rw [if_neg (by decide), if_pos rfl, if_pos rfl, if_pos (by simp [ha, hb, hc, hd]), ih]

theorem stringBodyEnd_sound {s r : Bytes} (h : stringBodyEnd s = some r) :
    ∃ b, StrBody b ∧ s = b ++ ch '"' :: r := by
  fun_induction stringBodyEnd s with
  | case1 => simp at h
  | case2 s =>
    simp only [Option.some.injEq] at h
    exact ⟨[], .nil, by simp [h]⟩
  | case3 => simp at h
  | case4 h1 h2 h3 h4 s hx _ ih =>
    obtain ⟨b, hb, rfl⟩ := ih h
    simp only [Bool.and_eq_true] at hx
    exact ⟨_, .hex hx.1.1.1 hx.1.1.2 hx.1.2 hx.2 hb, by simp⟩
  | case5 => simp at h
  | case6 => simp at h
  | case7 e s hu hs _ ih =>
    obtain ⟨b, hb, rfl⟩ := ih h
    exact ⟨_, .simple hs hb, by simp⟩
  | case8 => simp at h
  | case9 => simp at h
  | case10 c s hq hb hlt ih =>
    obtain ⟨b, hb', rfl⟩ := ih h
    exact ⟨_, .plain ((isPlain_iff c).mpr ⟨hq, hb, hlt⟩) hb', by simp⟩

theorem parseJsonStringEnd_complete {b : Bytes} (hb : StrBody b) (r : Bytes) :
    parseJsonStringEnd (quoted b ++ r) = some r := by
  have h := stringBodyEnd_complete hb r
  simpa [quoted, parseJsonStringEnd] using h

theorem parseJsonStringEnd_sound {s r : Bytes} (h : parseJsonStringEnd s = some r) :
    ∃ b, StrBody b ∧ s = quoted b ++ r := by
  cases s with
  | nil => simp [parseJsonStringEnd] at h
  | cons c s =>
    simp only [parseJsonStringEnd] at h
    split at h
    · rename_i hc
      obtain ⟨b, hb, rfl⟩ := stringBodyEnd_sound h
      exact ⟨b, hb, by simp [quoted, hc]⟩
    · simp at h

theorem skipDigits_append {ds r : Bytes} (hd : ∀ c ∈ ds, isDigit c = true)
    (hr : ∀ c t, r = c :: t → isDigit c = false) : skipDigits (ds ++ r) = r := by
  induction ds with
  | nil =>
    cases r with
    | nil => rfl
    | cons c r => simp [skipDigits, hr c r rfl]
  | cons d ds ih =>
    have h := ih fun c hc => hd c (List.mem_cons_of_mem _ hc)
    simpa [skipDigits, hd d (by simp)] using h

theorem digitsEnd_complete {ds r : Bytes} (hd : Digits ds)
    (hr : ∀ c t, r = c :: t → isDigit c = false) : digitsEnd (ds ++ r) = some r := by
  cases ds with
  | nil => exact absurd rfl hd.1
  | cons d ds =>
    rw [List.cons_append, digitsEnd, if_pos (hd.2 d (by simp)),
      skipDigits_append (fun c hc => hd.2 c (List.mem_cons_of_mem _ hc)) hr]

theorem digitsEnd_sound {s r : Bytes} (h : digitsEnd s = some r) : ∃ ds, Digits ds ∧ s = ds ++ r := by
  cases s with
  | nil => simp [digitsEnd] at h
  | cons c s =>
    simp only [digitsEnd] at h
    split at h
    · rename_i hc
      simp only [Option.some.injEq] at h
      refine ⟨c :: s.takeWhile isDigit, ⟨by simp, ?_⟩, ?_⟩
      · intro d hd
        rcases List.mem_cons.mp hd with rfl | hd
        · exact hc
        · exact List.mem_takeWhile_imp hd
      · rw [← h, skipDigits, List.cons_append, List.takeWhile_append_dropWhile]
    · simp at h

/-- The optional parts of a number end where the grammar says. -/
theorem exponentEnd_complete {ex r : Bytes} (he : ExpText ex) (hr : NoNumHead r) :
    exponentEnd (ex ++ r) = some r := by
  have hd : ∀ c t, r = c :: t → isDigit c = false := fun c t h => (hr c t h).1
  cases he with
  | none =>
    cases r with
    | nil => rfl
    | cons c r =>
      obtain ⟨-, -, h1, h2⟩ := hr c r rfl
      simp [exponentEnd, h1, h2]
  | @some e sg ds hE hsg hds =>
    have hstep := digitsEnd_complete hds hd
    rw [List.cons_append, exponentEnd.eq_def]
    dsimp only
    rw [if_pos (by rcases hE with rfl | rfl <;> simp)]
    obtain ⟨hne, hall⟩ := hds
    rcases hsg with rfl | rfl | rfl
    · cases ds with
      | nil => exact absurd rfl hne
      | cons d ds =>
        have hdig : isDigit d = true := hall d (by simp)
        have hsign : ¬ ((decide (d = ch '+') || decide (d = ch '-')) = true) := by
          rintro h
          simp only [Bool.or_eq_true, decide_eq_true_eq] at h
          rcases h with rfl | rfl <;> exact absurd hdig (by decide)
        simp only [List.nil_append, List.cons_append]
        rw [if_neg hsign]
        exact hstep
    · simpa using hstep
    · simpa using hstep

theorem exponentEnd_sound {s r : Bytes} (h : exponentEnd s = some r) :
    ∃ ex, ExpText ex ∧ s = ex ++ r := by
  unfold exponentEnd at h
  split at h
  · simp only [Option.some.injEq] at h
    exact ⟨[], .none, by simp [← h]⟩
  · rename_i c t
    split at h
    · rename_i hc
      have hE : c = ch 'e' ∨ c = ch 'E' := by simpa using hc
      split at h
      · simp at h
      · rename_i d u
        split at h
        · rename_i hd
          have hsg : [d] = [] ∨ [d] = [ch '+'] ∨ [d] = [ch '-'] := by simpa using hd
          obtain ⟨ds, hds, rfl⟩ := digitsEnd_sound h
          exact ⟨_, .some hE hsg hds, by simp⟩
        · obtain ⟨ds, hds, hs⟩ := digitsEnd_sound h
          exact ⟨_, .some hE (.inl rfl) hds, by simp [hs]⟩
    · simp only [Option.some.injEq] at h
      exact ⟨[], .none, by simp [← h]⟩

theorem fractionEnd_complete {fr r : Bytes} (hf : FracText fr)
    (hr : ∀ c t, r = c :: t → isDigit c = false ∧ c ≠ ch '.') : fractionEnd (fr ++ r) = some r := by
  cases hf with
  | none =>
    cases r with
    | nil => rfl
    | cons c r => simp [fractionEnd, (hr c r rfl).2]
  | some hds =>
    rw [List.cons_append, fractionEnd, if_pos rfl]
    exact digitsEnd_complete hds fun c t h => (hr c t h).1

theorem fractionEnd_sound {s r : Bytes} (h : fractionEnd s = some r) :
    ∃ fr, FracText fr ∧ s = fr ++ r := by
  unfold fractionEnd at h
  split at h
  · simp only [Option.some.injEq] at h
    exact ⟨[], .none, by simp [← h]⟩
  · split at h
    · rename_i hc
      obtain ⟨ds, hds, rfl⟩ := digitsEnd_sound h
      exact ⟨_, .some hds, by simp [hc]⟩
    · simp only [Option.some.injEq] at h
      exact ⟨[], .none, by simp [← h]⟩

/-- An exponent, or what follows it, is no digit and no point. -/
private theorem expText_head {ex r : Bytes} (he : ExpText ex) (hr : NoNumHead r) :
    ∀ c t, ex ++ r = c :: t → isDigit c = false ∧ c ≠ ch '.' := by
  intro c t h
  cases he with
  | none => exact ⟨(hr c t h).1, (hr c t h).2.1⟩
  | some hE _ _ =>
    simp only [List.cons_append, List.cons.injEq] at h
    rcases hE with rfl | rfl <;> rw [← h.1] <;> decide

private theorem fracText_head {fr ex r : Bytes} (hf : FracText fr) (he : ExpText ex)
    (hr : NoNumHead r) : ∀ c t, fr ++ (ex ++ r) = c :: t → isDigit c = false := by
  intro c t h
  cases hf with
  | none => exact (expText_head he hr c t h).1
  | some _ =>
    simp only [List.cons_append, List.cons.injEq] at h
    rw [← h.1]
    decide

theorem parseJsonNumberEnd_complete {t r : Bytes} (ht : NumText t) (hr : NoNumHead r) :
    parseJsonNumberEnd (t ++ r) = some r := by
  obtain ⟨hsg, hip, hf, he⟩ := ht
  rename_i sg ip fr ex
  have h1 : digitsEnd (ip ++ (fr ++ (ex ++ r))) = some (fr ++ (ex ++ r)) :=
    digitsEnd_complete hip (fracText_head hf he hr)
  have h2 : fractionEnd (fr ++ (ex ++ r)) = some (ex ++ r) :=
    fractionEnd_complete hf (expText_head he hr)
  have h3 := exponentEnd_complete he hr
  rcases hsg with rfl | rfl
  · obtain ⟨hne, hall⟩ := hip
    cases ip with
    | nil => exact absurd rfl hne
    | cons d ip =>
      have hd : ¬ d = ch '-' := by
        rintro rfl
        have hm : isDigit (ch '-') = true := hall _ (List.mem_cons_self ..)
        exact absurd hm (by decide)
      simp only [List.nil_append, List.append_assoc, List.cons_append, parseJsonNumberEnd]
      rw [if_neg hd, ← List.cons_append, h1, Option.bind_some, h2, Option.bind_some, h3]
  · simp only [List.cons_append, List.nil_append, List.append_assoc, parseJsonNumberEnd, if_true]
    rw [h1, Option.bind_some, h2, Option.bind_some, h3]

theorem parseJsonNumberEnd_sound {s r : Bytes} (h : parseJsonNumberEnd s = some r) :
    ∃ t, NumText t ∧ s = t ++ r := by
  unfold parseJsonNumberEnd at h
  split at h
  · simp at h
  · rename_i c t
    obtain ⟨u, hu, h3⟩ := Option.bind_eq_some_iff.mp h
    obtain ⟨v, h1, h2⟩ := Option.bind_eq_some_iff.mp hu
    obtain ⟨ex, hex, rfl⟩ := exponentEnd_sound h3
    obtain ⟨fr, hfr, rfl⟩ := fractionEnd_sound h2
    split at h1
    · rename_i hc
      obtain ⟨ip, hip, rfl⟩ := digitsEnd_sound h1
      exact ⟨_, .mk (.inr rfl) hip hfr hex, by simp [hc]⟩
    · obtain ⟨ip, hip, hs⟩ := digitsEnd_sound h1
      exact ⟨_, .mk (.inl rfl) hip hfr hex, by simp [hs]⟩

theorem keywordEnd_complete (word r : Bytes) : keywordEnd word (word ++ r) = some r := by
  simp [keywordEnd]

theorem keywordEnd_sound {word s r : Bytes} (h : keywordEnd word s = some r) : s = word ++ r := by
  unfold keywordEnd at h
  split at h
  · rename_i hp
    simp only [Option.some.injEq] at h
    obtain ⟨t, rfl⟩ := List.isPrefixOf_iff_prefix.mp hp
    simpa using h
  · simp at h

/-! ## Values -/

theorem take_append_left (v r : Bytes) : (v ++ r).take ((v ++ r).length - r.length) = v := by
  simp

theorem memberEnd_complete {val : Bytes → Option Bytes} {k w1 w2 v r : Bytes} (hk : StrBody k)
    (h1 : Ws w1) (h2 : Ws w2) (hv : IsValue v) (hval : val (v ++ r) = some r) :
    memberEnd val (quoted k ++ (w1 ++ (ch ':' :: (w2 ++ (v ++ r))))) = some (quoted k, v, r) := by
  have hcolon : skipWs (w1 ++ (ch ':' :: (w2 ++ (v ++ r)))) = ch ':' :: (w2 ++ (v ++ r)) :=
    skipWs_append h1 (NoSpaceHead.cons (by decide))
  have hskip : skipWs (w2 ++ (v ++ r)) = v ++ r := skipWs_append h2 (hv.noSpaceHead.append hv.ne_nil)
  simp only [memberEnd, parseJsonStringEnd_complete hk, hcolon, if_true, hskip, hval]
  rw [take_append_left, take_append_left]

/-- A scanner that only consumes whole values. -/
def ConsumesValue (val : Bytes → Option Bytes) : Prop :=
  ∀ s r, val s = some r → ∃ v, IsValue v ∧ s = v ++ r

theorem memberEnd_sound {val : Bytes → Option Bytes} (hval : ConsumesValue val) {s kq v r : Bytes}
    (h : memberEnd val s = some (kq, v, r)) :
    ∃ k w1 w2, StrBody k ∧ kq = quoted k ∧ Ws w1 ∧ Ws w2 ∧ IsValue v ∧ val (v ++ r) = some r ∧
      s = quoted k ++ (w1 ++ (ch ':' :: (w2 ++ (v ++ r)))) := by
  unfold memberEnd at h
  split at h
  · simp at h
  · rename_i r1 hk
    obtain ⟨k, hkb, rfl⟩ := parseJsonStringEnd_sound hk
    obtain ⟨w1, hw1, hr1⟩ := skipWs_split r1
    split at h
    · simp at h
    · rename_i c r2 hc
      split at h
      · rename_i hcolon
        split at h
        · simp at h
        · rename_i r3 hv
          obtain ⟨w2, hw2, hr2⟩ := skipWs_split r2
          obtain ⟨v', hv', hsplit⟩ := hval _ _ hv
          simp only [Option.some.injEq, Prod.mk.injEq] at h
          obtain ⟨hkq, hvq, rfl⟩ := h
          rw [hsplit, take_append_left] at hvq
          rw [take_append_left] at hkq
          subst hvq hkq
          refine ⟨k, w1, w2, hkb, rfl, hw1, hw2, hv', ?_, ?_⟩
          · rw [← hsplit]
            exact hv
          · rw [hc, hcolon] at hr1
            rw [hsplit] at hr2
            rw [← hr2, ← hr1]
      · simp at h

theorem membersEnd_sound {val : Bytes → Option Bytes} (hval : ConsumesValue val) (n : Nat)
    {s r : Bytes} (h : membersEnd val n s = some r) :
    ∃ ms body, Reads (.members ms) body ∧ s = body ++ ch '}' :: r := by
  induction n generalizing s with
  | zero => simp [membersEnd] at h
  | succ n ih =>
    rw [membersEnd] at h
    split at h
    · simp at h
    · rename_i kq v r1 hm
      obtain ⟨k, w1, w2, hk, -, hw1, hw2, hv, -, rfl⟩ := memberEnd_sound hval hm
      obtain ⟨w, hw, hr1⟩ := skipWs_split r1
      split at h
      · simp at h
      · rename_i c r2 hc
        rw [hc] at hr1
        split at h
        · rename_i hcomma
          obtain ⟨w', hw', hr2⟩ := skipWs_split r2
          obtain ⟨ms, body, hb, hs⟩ := ih h
          refine ⟨_, _, .memberCons hk hw1 hw2 hv hw hw' hb, ?_⟩
          rw [hr1, hcomma, hr2, hs]
          simp
        · split at h
          · rename_i hbrace
            simp only [Option.some.injEq] at h
            refine ⟨_, _, .member hk hw1 hw2 hv hw, ?_⟩
            rw [hr1, hbrace, h]
            simp
          · simp at h

theorem elementsEnd_sound {val : Bytes → Option Bytes} (hval : ConsumesValue val) (n : Nat)
    {s r : Bytes} (h : elementsEnd val n s = some r) :
    ∃ xs body, Reads (.elems xs) body ∧ s = body ++ ch ']' :: r := by
  induction n generalizing s with
  | zero => simp [elementsEnd] at h
  | succ n ih =>
    rw [elementsEnd] at h
    split at h
    · simp at h
    · rename_i r1 hm
      obtain ⟨v, hv, rfl⟩ := hval _ _ hm
      obtain ⟨w, hw, hr1⟩ := skipWs_split r1
      split at h
      · simp at h
      · rename_i c r2 hc
        rw [hc] at hr1
        split at h
        · rename_i hcomma
          obtain ⟨w', hw', hr2⟩ := skipWs_split r2
          obtain ⟨xs, body, hb, hs⟩ := ih h
          refine ⟨_, _, .elemCons hv hw hw' hb, ?_⟩
          rw [hr1, hcomma, hr2, hs]
          simp
        · split at h
          · rename_i hbrace
            simp only [Option.some.injEq] at h
            refine ⟨_, _, .elem hv hw, ?_⟩
            rw [hr1, hbrace, h]
            simp
          · simp at h

theorem valueEnd_sound (fuel : Nat) : ConsumesValue (valueEnd fuel) := by
  induction fuel with
  | zero => intro s r h; simp [valueEnd] at h
  | succ fuel ih =>
    intro s r h
    cases s with
    | nil => simp [valueEnd] at h
    | cons c s =>
      rw [valueEnd] at h
      split at h
      · rename_i hc
        obtain ⟨b, hb, rfl⟩ := stringBodyEnd_sound h
        exact ⟨_, .str hb, by simp [quoted, hc]⟩
      split at h
      · rename_i hc
        obtain ⟨w, hw, hs⟩ := skipWs_split s
        split at h
        · simp at h
        · rename_i d t hd
          split at h
          · rename_i hdc
            simp only [Option.some.injEq] at h
            refine ⟨_, .objEmpty hw, ?_⟩
            rw [hs, hd, hc, hdc, h]
            simp
          · obtain ⟨ms, body, hb, hdt⟩ := membersEnd_sound ih _ h
            refine ⟨_, .obj hw hb, ?_⟩
            rw [hs, hd, hc, hdt]
            simp
      split at h
      · rename_i hc
        obtain ⟨w, hw, hs⟩ := skipWs_split s
        split at h
        · simp at h
        · rename_i d t hd
          split at h
          · rename_i hdc
            simp only [Option.some.injEq] at h
            refine ⟨_, .arrEmpty hw, ?_⟩
            rw [hs, hd, hc, hdc, h]
            simp
          · obtain ⟨xs, body, hb, hdt⟩ := elementsEnd_sound ih _ h
            refine ⟨_, .arr hw hb, ?_⟩
            rw [hs, hd, hc, hdt]
            simp
      split at h
      · exact ⟨_, .true, keywordEnd_sound h⟩
      split at h
      · exact ⟨_, .false, keywordEnd_sound h⟩
      split at h
      · exact ⟨_, .null, keywordEnd_sound h⟩
      split at h
      · obtain ⟨t, ht, hs⟩ := parseJsonNumberEnd_sound h
        exact ⟨_, .num ht, hs⟩
      · simp at h

/-- What completeness says of each shape. -/
def Scans : Part → Bytes → Prop
  | .value, t => ∀ fuel r, t.length ≤ fuel → NoNumHead r → valueEnd fuel (t ++ r) = some r
  | .elems _, t => ∀ fuel n r, t.length ≤ fuel → t.length ≤ n →
      elementsEnd (valueEnd fuel) n (t ++ ch ']' :: r) = some r
  | .members _, t => ∀ fuel n r, t.length ≤ fuel → t.length ≤ n →
      membersEnd (valueEnd fuel) n (t ++ ch '}' :: r) = some r

private theorem scans_num {t : Bytes} (ht : NumText t) : Scans .value t := by
  intro fuel r hlen hr
  obtain ⟨c, u, rfl, hc⟩ := ht.head
  have hend := parseJsonNumberEnd_complete ht hr
  cases fuel with
  | zero => simp at hlen
  | succ fuel =>
    rw [List.cons_append] at hend ⊢
    rw [valueEnd]
    have hne : ∀ x : Char, isDigit (ch x) = false → ch x ≠ ch '-' → c ≠ ch x := by
      rintro x hx hm rfl
      rcases hc with hc | hc
      · rw [hc] at hx
        exact absurd hx (by decide)
      · exact hm hc
    rw [if_neg (hne _ (by decide) (by decide)), if_neg (hne _ (by decide) (by decide)),
      if_neg (hne _ (by decide) (by decide)), if_neg (hne _ (by decide) (by decide)),
      if_neg (hne _ (by decide) (by decide)), if_neg (hne _ (by decide) (by decide)),
      if_pos (by rcases hc with hc | hc <;> simp [hc])]
    exact hend

theorem reads_scans {p : Part} {t : Bytes} (h : Reads p t) : Scans p t := by
  induction h with
  | true =>
    intro fuel r hlen hr
    obtain ⟨n, rfl⟩ : ∃ n, fuel = n + 1 := ⟨fuel - 1, by simp [lit] at hlen; omega⟩
    exact keywordEnd_complete (lit "true") r
  | false =>
    intro fuel r hlen hr
    obtain ⟨n, rfl⟩ : ∃ n, fuel = n + 1 := ⟨fuel - 1, by simp [lit] at hlen; omega⟩
    exact keywordEnd_complete (lit "false") r
  | null =>
    intro fuel r hlen hr
    obtain ⟨n, rfl⟩ : ∃ n, fuel = n + 1 := ⟨fuel - 1, by simp [lit] at hlen; omega⟩
    exact keywordEnd_complete (lit "null") r
  | num ht => exact scans_num ht
  | @str b hb =>
    intro fuel r hlen hr
    obtain ⟨n, rfl⟩ : ∃ n, fuel = n + 1 := ⟨fuel - 1, by simp [quoted] at hlen; omega⟩
    rw [quoted, List.cons_append, valueEnd, if_pos rfl]
    simpa using stringBodyEnd_complete hb r
  | @arrEmpty w hw =>
    intro fuel r hlen hr
    obtain ⟨n, rfl⟩ : ∃ n, fuel = n + 1 := ⟨fuel - 1, by simp at hlen; omega⟩
    have hskip : skipWs (w ++ ch ']' :: r) = ch ']' :: r :=
      skipWs_append hw (NoSpaceHead.cons (by decide))
    rw [List.cons_append, valueEnd, if_neg (by decide), if_neg (by decide), if_pos rfl,
      List.append_assoc, List.singleton_append, hskip]
    simp
  | @objEmpty w hw =>
    intro fuel r hlen hr
    obtain ⟨n, rfl⟩ : ∃ n, fuel = n + 1 := ⟨fuel - 1, by simp at hlen; omega⟩
    have hskip : skipWs (w ++ ch '}' :: r) = ch '}' :: r :=
      skipWs_append hw (NoSpaceHead.cons (by decide))
    rw [List.cons_append, valueEnd, if_neg (by decide), if_pos rfl,
      List.append_assoc, List.singleton_append, hskip]
    simp
  | @arr w body xs hw hb ih =>
    intro fuel r hlen hr
    obtain ⟨n, rfl⟩ : ∃ n, fuel = n + 1 := ⟨fuel - 1, by simp at hlen; omega⟩
    have hskip : skipWs (w ++ (body ++ ch ']' :: r)) = body ++ ch ']' :: r :=
      skipWs_append hw (reads_elems_noSpaceHead hb _)
    have hrun := ih n (body ++ ch ']' :: r).length r (by simp at hlen; omega) (by simp)
    obtain ⟨c, u, hcu, hc⟩ := reads_elems_head hb
    rw [List.cons_append, valueEnd, if_neg (by decide), if_neg (by decide), if_pos rfl,
      List.append_assoc, List.append_assoc, List.singleton_append, hskip]
    rw [hcu, List.cons_append] at hrun ⊢
    dsimp only
    rw [if_neg (by rintro rfl; exact absurd hc (by decide)), hrun]
  | @obj w body ms hw hb ih =>
    intro fuel r hlen hr
    obtain ⟨n, rfl⟩ : ∃ n, fuel = n + 1 := ⟨fuel - 1, by simp at hlen; omega⟩
    have hskip : skipWs (w ++ (body ++ ch '}' :: r)) = body ++ ch '}' :: r :=
      skipWs_append hw (reads_members_noSpaceHead hb _)
    have hrun := ih n (body ++ ch '}' :: r).length r (by simp at hlen; omega) (by simp)
    obtain ⟨u, hcu⟩ := reads_members_head hb
    rw [List.cons_append, valueEnd, if_neg (by decide), if_pos rfl,
      List.append_assoc, List.append_assoc, List.singleton_append, hskip]
    rw [hcu, List.cons_append] at hrun ⊢
    dsimp only
    rw [if_neg (by decide), hrun]
  | @elem v w hv hw ih =>
    intro fuel n r hfuel hn
    have hpos : 0 < v.length := List.length_pos_iff.mpr (IsValue.ne_nil hv)
    obtain ⟨n, rfl⟩ : ∃ m, n = m + 1 := ⟨n - 1, by simp at hn; omega⟩
    have hval := ih fuel (w ++ ch ']' :: r) (by simp at hfuel; omega) (Ws.noNumHead hw (NoNumHead.bracket r))
    have hskip : skipWs (w ++ ch ']' :: r) = ch ']' :: r := skipWs_append hw (NoSpaceHead.cons (by decide))
    rw [elementsEnd, List.append_assoc, hval]
    dsimp only
    rw [hskip]
    dsimp only
    rw [if_neg (by decide), if_pos rfl]
  | @elemCons v w w' body xs hv hw hw' hb ihv ihb =>
    intro fuel n r hfuel hn
    have hpos : 0 < v.length := List.length_pos_iff.mpr (IsValue.ne_nil hv)
    simp only [List.length_append, List.length_cons] at hfuel hn
    obtain ⟨n, rfl⟩ : ∃ m, n = m + 1 := ⟨n - 1, by omega⟩
    have hval := ihv fuel (w ++ (ch ',' :: (w' ++ (body ++ ch ']' :: r)))) (by omega)
      (Ws.noNumHead hw (NoNumHead.comma _))
    have hskip : skipWs (w ++ (ch ',' :: (w' ++ (body ++ ch ']' :: r)))) =
        ch ',' :: (w' ++ (body ++ ch ']' :: r)) := skipWs_append hw (NoSpaceHead.cons (by decide))
    have hskip' : skipWs (w' ++ (body ++ ch ']' :: r)) = body ++ ch ']' :: r :=
      skipWs_append hw' (reads_elems_noSpaceHead hb _)
    simp only [List.append_assoc, List.cons_append]
    rw [elementsEnd, hval]
    dsimp only
    rw [hskip]
    dsimp only
    rw [if_pos rfl, hskip']
    exact ihb fuel n r (by omega) (by omega)
  | @member k w1 w2 v w hk h1 h2 hv hw ih =>
    intro fuel n r hfuel hn
    simp only [List.length_append, List.length_cons] at hfuel hn
    obtain ⟨n, rfl⟩ : ∃ m, n = m + 1 := ⟨n - 1, by omega⟩
    have hval := ih fuel (w ++ ch '}' :: r) (by omega) (Ws.noNumHead hw (NoNumHead.brace r))
    have hskip : skipWs (w ++ ch '}' :: r) = ch '}' :: r := skipWs_append hw (NoSpaceHead.cons (by decide))
    simp only [List.append_assoc, List.cons_append]
    rw [membersEnd, memberEnd_complete hk h1 h2 hv hval]
    dsimp only
    rw [hskip]
    dsimp only
    rw [if_neg (by decide), if_pos rfl]
  | @memberCons k w1 w2 v w w' body ms hk h1 h2 hv hw hw' hb ihv ihb =>
    intro fuel n r hfuel hn
    simp only [List.length_append, List.length_cons] at hfuel hn
    obtain ⟨n, rfl⟩ : ∃ m, n = m + 1 := ⟨n - 1, by omega⟩
    have hval := ihv fuel (w ++ (ch ',' :: (w' ++ (body ++ ch '}' :: r)))) (by omega)
      (Ws.noNumHead hw (NoNumHead.comma _))
    have hskip : skipWs (w ++ (ch ',' :: (w' ++ (body ++ ch '}' :: r)))) =
        ch ',' :: (w' ++ (body ++ ch '}' :: r)) := skipWs_append hw (NoSpaceHead.cons (by decide))
    have hskip' : skipWs (w' ++ (body ++ ch '}' :: r)) = body ++ ch '}' :: r :=
      skipWs_append hw' (reads_members_noSpaceHead hb _)
    simp only [List.append_assoc, List.cons_append]
    rw [membersEnd, memberEnd_complete hk h1 h2 hv hval]
    dsimp only
    rw [hskip]
    dsimp only
    rw [if_pos rfl, hskip']
    exact ihb fuel n r (by omega) (by omega)

theorem parseJsonValueEnd_sound : ConsumesValue parseJsonValueEnd :=
  fun s r h => valueEnd_sound s.length s r h

theorem parseJsonValueEnd_complete {v r : Bytes} (hv : IsValue v) (hr : NoNumHead r) :
    parseJsonValueEnd (v ++ r) = some r :=
  reads_scans hv (v ++ r).length r (by simp) hr

theorem valueSpan_complete {v r : Bytes} (hv : IsValue v) (hr : NoNumHead r) :
    valueSpan (v ++ r) = some (v, r) := by
  rw [valueSpan, parseJsonValueEnd_complete hv hr]
  dsimp only
  rw [take_append_left]

theorem valueSpan_sound {s v r : Bytes} (h : valueSpan s = some (v, r)) : IsValue v ∧ s = v ++ r := by
  unfold valueSpan at h
  split at h
  · simp at h
  · rename_i r' hr
    obtain ⟨t, ht, rfl⟩ := parseJsonValueEnd_sound _ _ hr
    simp only [Option.some.injEq, Prod.mk.injEq] at h
    obtain ⟨rfl, rfl⟩ := h
    rw [take_append_left]
    exact ⟨ht, rfl⟩

end Floofclaw.Source.Json
