import Floofclaw.Source.ActionCoerce
import Floofclaw.Guarantees.FinishedResults
import Floofclaw.Guarantees.ActionOutputs
import Floofclaw.Lib.JsonLex

/-!
# Coerced arguments

Coercion prints the members of the arguments again. It keeps them, each with its
value or an equivalent one of the declared type, exactly where nothing is
rewritten, or where every key is legible and every value that is replaced has an
equivalent: a number text in a string, a spelling that is not cut, a word
without NUL behind it.
-/

set_option autoImplicit false

namespace Floofclaw.Guarantees.ArgumentCoercion
open Floofclaw.Lib Floofclaw.Source.Json Floofclaw.Source.Inbound Floofclaw.Source.AgentExec Floofclaw.Source.ActionCoerce
open Floofclaw.Guarantees.FinishedResults Floofclaw.Guarantees.ActionOutputs Floofclaw.Guarantees.CallEvents
open Floofclaw.Guarantees.FileReports Floofclaw.Guarantees.FirstEvent
open Floofclaw.Source.FileIntrinsics (boolText)

/-! ## The contract -/

/-- The value a declared primitive type gives to another one. -/
inductive Equivalent (type : Bytes) : JsonRef → JsonRef → Prop
  | number {v : JsonRef} {w n : Bytes} (htype : type = lit "integer" ∨ type = lit "number") (hv : Decodes v (w ++ n)) (hw : Ws w)
    (hn : NumText n) : Equivalent type v n
  | spelledNumber {v : JsonRef} (htype : type = lit "string") (hv : NumText v) : Equivalent type v (quoted v)
  | spelledBool (b : Bool) (htype : type = lit "string") : Equivalent type (boolText b) (quoted (boolText b))
  | word {v : JsonRef} (b : Bool) (htype : type = lit "boolean") (hv : Decodes v (boolText b)) : Equivalent type v (boolText b)
  | flag {v : JsonRef} (b : Bool) (htype : type = lit "boolean") (hv : jsonRefGetLong v 0 = (if b then 1 else 0, true)) :
    Equivalent type v (boolText b)

/-- The same key, and the same value or an equivalent one of its declared type. -/
def KeptMember (schema : JsonRef) (m m' : Bytes × Bytes) : Prop :=
  (m'.1 = m.1 ∨ ∃ s, Decodes (quoted m.1) s ∧ Decodes (quoted m'.1) s) ∧
    (m'.2 = m.2 ∨ ∃ s, Decodes (quoted m.1) s ∧ Equivalent (schemaPropType schema s) m.2 m'.2)

/-- An object with the members kept, in their order, which another coercion leaves alone. -/
def CoercesExactly (schema : JsonRef) (argsSchema args : Bytes) (ms : List (Bytes × Bytes)) (cap : Nat) : Prop :=
  (∃ ms', ObjectText (rtActionCoerceArgs argsSchema args cap).1 ms' ∧ List.Forall₂ (KeptMember schema) ms ms') ∧
    (rtActionCoerceArgs argsSchema (rtActionCoerceArgs argsSchema args cap).1 cap).1 = (rtActionCoerceArgs argsSchema args cap).1

/-- The members the iterator gets to. -/
def readMembers (ms : List (Bytes × Bytes)) : List (Bytes × Bytes) := ms.takeWhile fun m => (keyOf m).isSome

/-- The token that replaces the value of a member. -/
def tokenOf (schema : JsonRef) (m : Bytes × Bytes) : Option Bytes :=
  coercedToken (schemaPropType schema ((keyOf m).getD [])) m.2

def printedMember (schema : JsonRef) (m : Bytes × Bytes) : Bytes × Bytes :=
  (escaped ((keyOf m).getD []), (tokenOf schema m).getD m.2)

/-- The arguments are printed again: a member asks for it, and the keys and the whole fit. -/
structure Rewritten (schema : JsonRef) (ms : List (Bytes × Bytes)) (cap : Nat) : Prop where
  coerced : ∃ m ∈ readMembers ms, (tokenOf schema m).isSome = true
  keys : ∀ m ∈ readMembers ms, (escaped ((keyOf m).getD [])).length < rtMed
  fits : (objText ((readMembers ms).map (printedMember schema))).length + 1 ≤ cap

/-- A value with an equivalent one of the type, where the type asks for one. -/
structure HasEquivalent (type : Bytes) (v : JsonRef) : Prop where
  number : jsonRefInferType v = .string → type = lit "integer" ∨ type = lit "number" →
    ∃ w n, Decodes v (w ++ n) ∧ Ws w ∧ NumText n
  spelled : jsonRefInferType v = .number → type = lit "string" → v.length < rtLarge
  word : jsonRefInferType v = .string → type = lit "boolean" → ∃ s, Decodes v s ∧ NulFree s

/-- The condition. -/
def Coercible (schema : JsonRef) (ms : List (Bytes × Bytes)) (cap : Nat) : Prop :=
  Rewritten schema ms cap → Legible ms ∧
    ∀ m ∈ ms, (tokenOf schema m).isSome = true → HasEquivalent (schemaPropType schema ((keyOf m).getD [])) m.2

/-! ## What is printed -/

theorem keyText_nulFree (m : Bytes × Bytes) : NulFree ((keyOf m).getD []) := by
  cases h : keyOf m with
  | none => simp [NulFree]
  | some d => exact jsonRefStringCopy_nulFree h

theorem iterItems_read {obj : JsonRef} {ms : List (Bytes × Bytes)} (h : ObjText obj ms) (n cursor : Nat)
    (hn : ms.length ≤ n + cursor) : iterItems rtSmall obj n cursor = (readMembers (ms.drop cursor)).map itemOf := by
  induction n generalizing cursor with
  | zero =>
    rw [List.drop_eq_nil_of_le (by omega)]
    rfl
  | succ n ih =>
    rw [iterItems, jsonRefObjectIter_eq h, memberIter]
    cases hm : ms[cursor]? with
    | none =>
      rw [List.getElem?_eq_none_iff] at hm
      rw [List.drop_eq_nil_of_le hm]
      rfl
    | some m =>
      obtain ⟨hlt, hget⟩ := List.getElem?_eq_some_iff.mp hm
      rw [List.drop_eq_getElem_cons hlt, hget, readMembers, List.takeWhile_cons]
      cases hkey : keyOf m with
      | none =>
        rw [keyOf] at hkey
        dsimp only
        rw [hkey]
        rfl
      | some d =>
        have hcopy := hkey
        rw [keyOf] at hcopy
        dsimp only
        rw [hcopy, ih (cursor + 1) (by omega)]
        simp [itemOf, hkey, readMembers]

theorem objectItems_read {obj : JsonRef} {ms : List (Bytes × Bytes)} (h : ObjText obj ms) :
    objectItems obj = (readMembers ms).map itemOf :=
  iterItems_read h _ 0 (Nat.le_trans h.count_le (Nat.le_add_right _ _))

theorem coerceLoop_eq (schema : JsonRef) (ms : List (Bytes × Bytes)) :
    coerceLoop schema (ms.map itemOf) =
      if ∀ m ∈ ms, (escaped ((keyOf m).getD [])).length < rtMed then
        some (ms.any fun m => (tokenOf schema m).isSome, ms.map (printedMember schema))
      else none := by
  induction ms with
  | nil => rfl
  | cons m ms ih =>
    rw [List.map_cons, itemOf, coerceLoop, mirror_eq (keyText_nulFree m), ih]
    have hcons : (∀ x ∈ m :: ms, (escaped ((keyOf x).getD [])).length < rtMed) ↔
        (escaped ((keyOf m).getD [])).length < rtMed ∧ ∀ x ∈ ms, (escaped ((keyOf x).getD [])).length < rtMed := by
      simp only [List.forall_mem_cons]
    by_cases hkey : (escaped ((keyOf m).getD [])).length < rtMed
    · rw [if_pos hkey]
      by_cases hrest : ∀ x ∈ ms, (escaped ((keyOf x).getD [])).length < rtMed
      · rw [if_pos hrest, if_pos (hcons.mpr ⟨hkey, hrest⟩)]
        rfl
      · rw [if_neg hrest, if_neg fun hall => hrest (hcons.mp hall).2]
        rfl
    · rw [if_neg hkey, if_neg fun hall => hkey (hcons.mp hall).1]

theorem topObject_text {text : Bytes} {ms : List (Bytes × Bytes)} (h : ObjectText text ms) (hn : NulFree text) :
    ∃ t, jsonRefTopObject text = some t ∧ ObjText t ms := by
  obtain ⟨w, t, w', hw, hw', ht, rfl⟩ := h
  have hskip : skipWs (w ++ (t ++ w')) = t ++ w' := skipWs_append hw (ht.isValue.noSpaceHead.append ht.isValue.ne_nil)
  have hblank : skipWs w' = [] := by simpa using skipWs_append hw' (s := []) (by simp [NoSpaceHead])
  have hnum : NoNumHead w' := by simpa using Ws.noNumHead hw' NoNumHead.nil
  refine ⟨t, ?_, ht⟩
  rw [jsonRefTopObject, jsonRefFromText, cstr_eq_self hn, hskip, valueSpan_complete ht.isValue hnum]
  simp [hblank, ObjText.inferType ht]

theorem coerce_rewritten {schema : JsonRef} {argsSchema args : Bytes} {ms : List (Bytes × Bytes)} {cap : Nat}
    (hschema : jsonRefTopObject argsSchema = some schema) (hargs : ObjectText args ms) (hn : NulFree args)
    (h : Rewritten schema ms cap) :
    (rtActionCoerceArgs argsSchema args cap).1 = objText ((readMembers ms).map (printedMember schema)) := by
  obtain ⟨t, htop, ht⟩ := topObject_text hargs hn
  have hany : (readMembers ms).any (fun m => (tokenOf schema m).isSome) = true := List.any_eq_true.mpr h.coerced
  have hfits := h.fits
  rw [rtActionCoerceArgs, hschema, htop]
  dsimp only
  rw [objectItems_read ht, coerceLoop_eq, if_pos h.keys, hany]
  dsimp only
  rw [if_neg (by omega)]

theorem coerce_untouched {schema : JsonRef} {argsSchema args : Bytes} {ms : List (Bytes × Bytes)} {cap : Nat}
    (hschema : jsonRefTopObject argsSchema = some schema) (hargs : ObjectText args ms) (hn : NulFree args)
    (h : ¬ Rewritten schema ms cap) : (rtActionCoerceArgs argsSchema args cap).1 = args := by
  obtain ⟨t, htop, ht⟩ := topObject_text hargs hn
  rw [rtActionCoerceArgs, hschema, htop]
  dsimp only
  rw [objectItems_read ht, coerceLoop_eq]
  by_cases hkeys : ∀ m ∈ readMembers ms, (escaped ((keyOf m).getD [])).length < rtMed
  · rw [if_pos hkeys]
    cases hany : (readMembers ms).any (fun m => (tokenOf schema m).isSome) with
    | false => rfl
    | true =>
      dsimp only
      split
      · rfl
      · rename_i hroom
        exact absurd ⟨List.any_eq_true.mp hany, hkeys, Nat.not_lt.mp hroom⟩ h
  · rw [if_neg hkeys]

/-! ## Numbers in strings -/

/-- The octets `strtod` takes, none of which has a part in the structure of JSON. -/
def inNumeral (c : Byte) : Bool := isSpace c || isNanChar c || [ch '+', ch '-', ch '.', ch '(', ch ')'].contains c

def Numeral (s : Bytes) : Prop := ∀ c ∈ s, inNumeral c = true

theorem Numeral.of_all {s : Bytes} (h : s.all inNumeral = true) : Numeral s := List.all_eq_true.mp h

theorem Numeral.append {s t : Bytes} (h : Numeral s) (h' : Numeral t) : Numeral (s ++ t) :=
  fun c hc => (List.mem_append.mp hc).elim (h c) (h' c)

/-- The text behind a piece that `strtod` takes. -/
def Behind (s r : Bytes) : Prop := ∃ p, s = p ++ r ∧ Numeral p

theorem Behind.refl (s : Bytes) : Behind s s := ⟨[], rfl, by simp [Numeral]⟩

theorem Behind.trans {s r t : Bytes} (h : Behind s r) (h' : Behind r t) : Behind s t := by
  obtain ⟨p, rfl, hp⟩ := h
  obtain ⟨q, rfl, hq⟩ := h'
  exact ⟨p ++ q, by simp, hp.append hq⟩

theorem Behind.cons {c : Byte} {s : Bytes} (h : inNumeral c = true) : Behind (c :: s) s :=
  ⟨[c], rfl, by simpa [Numeral] using h⟩

theorem behind_dropWhile {p : Byte → Bool} (hp : ∀ c, p c = true → inNumeral c = true) (s : Bytes) : Behind s (s.dropWhile p) :=
  ⟨s.takeWhile p, List.takeWhile_append_dropWhile.symm, fun c hc => hp c (List.mem_takeWhile_imp hc)⟩

theorem inNumeral_all {p : Byte → Bool} (h : ∀ n : Fin 256, p (UInt8.ofNat n) = true → inNumeral (UInt8.ofNat n) = true) (c : Byte)
    (hc : p c = true) : inNumeral c = true := by
  have := h ⟨c.toNat, c.toNat_lt⟩
  simpa using this (by simpa using hc)

theorem behind_skipSign (s : Bytes) : Behind s (skipSign s) := by
  cases s with
  | nil => exact .refl _
  | cons c s =>
    rw [skipSign]
    split
    · rename_i hsign
      rcases hsign with rfl | rfl
      · exact .cons (by decide)
      · exact .cons (by decide)
    · exact .refl _

theorem behind_mantissa {digit : Byte → Bool} (hd : ∀ c, digit c = true → inNumeral c = true) {s r : Bytes}
    (h : mantissaRest digit s = some r) : Behind s r := by
  have hskip := behind_dropWhile hd s
  unfold mantissaRest at h
  split at h
  · rename_i hnil
    split at h
    · cases h
    · cases h
      rwa [hnil] at hskip
  · rename_i c t hrest
    rw [hrest] at hskip
    split at h
    · rename_i hpoint
      cases h
      obtain ⟨rfl, -⟩ := hpoint
      exact (hskip.trans (.cons (by decide))).trans (behind_dropWhile hd t)
    · split at h
      · cases h
        exact hskip
      · cases h

theorem behind_exponent {mark : Byte → Bool} (hm : ∀ c, mark c = true → inNumeral c = true) (s : Bytes) :
    Behind s (exponentRest mark s) := by
  cases s with
  | nil => exact .refl _
  | cons c s =>
    rw [exponentRest]
    split
    · rename_i hmark
      exact ((Behind.cons (hm c hmark.1)).trans (behind_skipSign s)).trans
        (behind_dropWhile (inNumeral_all (by decide +kernel)) _)
    · exact .refl _

theorem lowered_numeral {c : Byte} (h : inNumeral (lowered c) = true) : inNumeral c = true :=
  inNumeral_all (p := fun c => inNumeral (lowered c)) (by decide +kernel) c h

example : inNumeral (ch '-') = true := by decide +kernel

theorem behind_word {word s r : Bytes} (hword : word.all inNumeral = true) (h : behindWord word s = some r) : Behind s r := by
  unfold behindWord at h
  split at h
  · rename_i hmatch
    cases h
    refine ⟨s.take word.length, (List.take_append_drop _ _).symm, fun c hc => ?_⟩
    have hin : lowered c ∈ word := hmatch ▸ List.mem_map_of_mem hc
    exact lowered_numeral (List.all_eq_true.mp hword _ hin)
  · cases h

theorem behindWord_head {c w : Byte} {word s r : Bytes} (h : behindWord (w :: word) (c :: s) = some r) : lowered c = w := by
  unfold behindWord at h
  split at h
  · rename_i hmatch
    rw [List.length_cons, List.take_succ_cons, List.map_cons, List.cons.injEq] at hmatch
    exact hmatch.1
  · cases h

theorem behind_nan (s : Bytes) : Behind s (nanRest s) := by
  cases s with
  | nil => exact .refl _
  | cons c t =>
    rw [nanRest]
    split
    · rename_i hopen
      subst hopen
      split
      · exact .refl _
      · rename_i d r hrest
        split
        · rename_i hclose
          subst hclose
          have hskip := behind_dropWhile (inNumeral_all (p := isNanChar) (by decide +kernel)) t
          rw [hrest] at hskip
          exact ((Behind.cons (by decide)).trans hskip).trans (.cons (by decide))
        · exact .refl _
    · exact .refl _

/-- A text that `strtod` takes whole is made of its octets. -/
theorem numericString_numeral {s : Bytes} {integerOnly : Bool} (h : numericString s integerOnly = true) : Numeral s := by
  have hbehind : ∀ {r}, strtodRest s = some r → Behind s r := by
    intro r hr
    have hstart : Behind s (skipSign (skipWs s)) :=
      (behind_dropWhile (inNumeral_all (by decide +kernel)) s).trans (behind_skipSign _)
    unfold strtodRest at hr
    dsimp only at hr
    generalize skipSign (skipWs s) = s' at hstart hr
    refine hstart.trans ?_
    split at hr
    · rename_i t ht
      have hmark := behind_word (by decide) ht
      split at hr
      · rename_i r' hr'
        cases hr
        exact (hmark.trans (behind_mantissa (inNumeral_all (by decide +kernel)) hr')).trans
          (behind_exponent (inNumeral_all (by decide +kernel)) r')
      · cases hr
        -- only the zero is taken
        cases s' with
        | nil => cases ht
        | cons c s' =>
          refine .cons ?_
          have hmatch : behindWord [ch '0', ch 'x'] (c :: s') = some t := ht
          have hzero := behindWord_head hmatch
          exact lowered_numeral (by rw [hzero]; decide)
    · split at hr
      · rename_i r' hr'
        cases hr
        exact (behind_mantissa (inNumeral_all (by decide +kernel)) hr').trans (behind_exponent (inNumeral_all (by decide +kernel)) r')
      · split at hr
        · rename_i r' hr'
          cases hr
          rcases Option.or_eq_some_iff.mp hr' with hr' | ⟨-, hr'⟩
          · exact behind_word (by decide) hr'
          · exact behind_word (by decide) hr'
        · obtain ⟨r', hr', rfl⟩ := Option.map_eq_some_iff.mp hr
          exact (behind_word (by decide) hr').trans (behind_nan r')
  simp only [numericString, Bool.and_eq_true, decide_eq_true_eq] at h
  obtain ⟨p, hp, hnumeral⟩ := hbehind h.1
  rw [hp, List.append_nil]
  exact hnumeral

example : inNumeral (ch '(') = true := by decide +kernel

/-! ## Tokens -/

theorem decodes_copy {v : JsonRef} {s : Bytes} {cap : Nat} (hv : Decodes v s) (hn : NulFree s) (hfit : s.length < cap) :
    jsonRefStringCopy cap v = some s :=
  jsonRefStringCopy_eq_some.mpr ⟨s, (stringCopyWrite_fits hv).2 cap hfit, (cstr_eq_self hn).symm⟩

theorem numText_numeral {n : Bytes} (h : NumText n) : Numeral n :=
  numText_all (inNumeral_all (by decide +kernel)) (by decide) h

theorem numText_plain {n : Bytes} (h : NumText n) : PlainText n := by
  have hd : ∀ n : Fin 256, isDigit (UInt8.ofNat n) = true → isPlain (UInt8.ofNat n) = true := by decide +kernel
  refine numText_all (fun c hc => ?_) (by decide) h
  have := hd ⟨c.toNat, c.toNat_lt⟩
  simpa using this (by simpa using hc)

theorem Numeral.nulFree {s : Bytes} (h : Numeral s) : NulFree s := by
  rintro c hc rfl
  exact absurd (h 0 hc) (by decide)

/-- The two ways a token stands in a printed text. -/
theorem token_printable {type : Bytes} {v token : JsonRef} (h : coercedToken type v = some token) :
    IsValue token ∨ Numeral token := by
  unfold coercedToken at h
  split at h
  · rw [Option.filter_eq_some_iff] at h
    exact .inr (numericString_numeral (by simpa using h.2))
  · split at h
    · obtain ⟨e, he, rfl⟩ := Option.map_eq_some_iff.mp h
      exact .inl (isValue_quoted (mirror_strBody he))
    · split at h
      · rw [Option.filter_eq_some_iff] at h
        rcases (by simpa using h.2 : token = lit "true" ∨ token = lit "false") with rfl | rfl
        · exact .inl .true
        · exact .inl .false
      · split at h
        · split at h
          · split at h
            · cases h
              exact .inl .false
            · split at h
              · cases h
                exact .inl .true
              · cases h
          · cases h
        · cases h

/-! ## A printed text as it is read -/

/-- A comma or a closing brace. -/
def Ends (c : Byte) : Prop := c = ch ',' ∨ c = ch '}'

theorem Numeral.noEnd {s : Bytes} (h : Numeral s) : ∀ c ∈ s, ¬ Ends c := by
  rintro c hc (rfl | rfl)
  · exact absurd (h _ hc) (by decide)
  · exact absurd (h _ hc) (by decide)

theorem ws_noEnd {w : Bytes} (h : Ws w) : ∀ c ∈ w, ¬ Ends c := by
  rintro c hc (rfl | rfl)
  · exact absurd (h _ hc) (by decide)
  · exact absurd (h _ hc) (by decide)

/-- The first comma or brace of a text splits it in one way. -/
theorem end_split {x y r r' : Bytes} {c d : Byte} (hx : ∀ b ∈ x, ¬ Ends b) (hy : ∀ b ∈ y, ¬ Ends b) (hc : Ends c) (hd : Ends d)
    (h : x ++ c :: r = y ++ d :: r') : x = y ∧ c = d ∧ r = r' := by
  induction x generalizing y with
  | nil =>
    cases y with
    | nil => exact ⟨rfl, by simpa using h⟩
    | cons b y =>
      rw [List.nil_append, List.cons_append, List.cons.injEq] at h
      exact absurd (h.1 ▸ hc) (hy b List.mem_cons_self)
  | cons a x ih =>
    cases y with
    | nil =>
      rw [List.nil_append, List.cons_append, List.cons.injEq] at h
      exact absurd (h.1 ▸ hd) (hx a List.mem_cons_self)
    | cons b y =>
      rw [List.cons_append, List.cons_append, List.cons.injEq] at h
      obtain ⟨rfl, h⟩ := h
      obtain ⟨rfl, hrest⟩ := ih (fun b hb => hx b (List.mem_cons_of_mem _ hb)) (fun b hb => hy b (List.mem_cons_of_mem _ hb)) h
      exact ⟨rfl, hrest⟩

/-- A value that begins like a numeral has no comma and no brace. -/
theorem scalar_noEnd {a : Byte} {v : Bytes} (hv : IsValue (a :: v)) (ha : inNumeral a = true) : ∀ c ∈ a :: v, ¬ Ends c := by
  generalize hu : a :: v = u at hv
  cases hv with
  | true => exact (Numeral.of_all (lit_all (by decide))).noEnd
  | false => exact (Numeral.of_all (lit_all (by decide))).noEnd
  | null => exact (Numeral.of_all (lit_all (by decide))).noEnd
  | num hn => exact (numText_numeral hn).noEnd
  | str hb =>
    rw [quoted, List.cons.injEq] at hu
    exact absurd (hu.1 ▸ ha) (by decide)
  | arrEmpty hw =>
    rw [List.cons.injEq] at hu
    exact absurd (hu.1 ▸ ha) (by decide)
  | arr hw hb =>
    rw [List.cons.injEq] at hu
    exact absurd (hu.1 ▸ ha) (by decide)
  | objEmpty hw =>
    rw [List.cons.injEq] at hu
    exact absurd (hu.1 ▸ ha) (by decide)
  | obj hw hb =>
    rw [List.cons.injEq] at hu
    exact absurd (hu.1 ▸ ha) (by decide)

/-- A value is read out of a printed token, but for the white space around it. -/
theorem value_aligned {w v w' token r r' : Bytes} {c d : Byte} (hv : IsValue v) (htoken : IsValue token ∨ Numeral token)
    (hw : Ws w) (hw' : Ws w') (hc : Ends c) (hd : Ends d) (h : w ++ (v ++ (w' ++ d :: r')) = token ++ c :: r) :
    token = w ++ (v ++ w') ∧ d = c ∧ r' = r := by
  have hcspace : isSpace c = false := by rcases hc with rfl | rfl <;> decide
  have hdspace : isSpace d = false := by rcases hd with rfl | rfl <;> decide
  rcases htoken with hvalue | hnumeral
  · have hnum : NoNumHead (w' ++ d :: r') := by
      refine Ws.noNumHead hw' ?_
      rcases hd with rfl | rfl
      · exact NoNumHead.comma _
      · exact NoNumHead.brace _
    have hnum' : NoNumHead (c :: r) := by
      rcases hc with rfl | rfl
      · exact NoNumHead.comma _
      · exact NoNumHead.brace _
    have hbare := skip_eq hw .nil (hv.noSpaceHead.append hv.ne_nil) (hvalue.noSpaceHead.append hvalue.ne_nil) h
    obtain ⟨rfl, htail⟩ := value_inj hv hvalue hnum hnum' hbare
    have hrest := skip_eq hw' .nil (NoSpaceHead.cons hdspace) (NoSpaceHead.cons hcspace) htail
    rw [hbare] at h
    rw [hrest] at htail
    have hnil : w = [] := by simpa using h
    have hnil' : w' = [] := by simpa using htail
    rw [List.cons.injEq] at hrest
    exact ⟨by simp [hnil, hnil'], hrest⟩
  · -- the value is a scalar, so the first comma or brace is the one behind the token
    have hscalar : ∀ b ∈ v, ¬ Ends b := by
      rcases List.append_eq_append_iff.mp h with ⟨e, rfl, he⟩ | ⟨e, rfl, he⟩
      · cases v with
        | nil => simp
        | cons a v =>
          cases e with
          | nil =>
            rw [List.nil_append, List.cons_append, List.cons.injEq] at he
            obtain ⟨a', u, hcons, hhead⟩ := hv.head
            rw [List.cons.injEq] at hcons
            rw [← hcons.1, he.1] at hhead
            rcases hc with rfl | rfl <;> exact absurd hhead (by decide)
          | cons b e =>
            rw [List.cons_append, List.cons_append, List.cons.injEq] at he
            exact scalar_noEnd hv (he.1 ▸ hnumeral b (by simp))
      · cases e with
        | nil =>
          cases v with
          | nil => simp
          | cons a v =>
            rw [List.nil_append, List.cons_append, List.cons.injEq] at he
            obtain ⟨a', u, hcons, hhead⟩ := hv.head
            rw [List.cons.injEq] at hcons
            rw [← hcons.1, ← he.1] at hhead
            rcases hc with rfl | rfl <;> exact absurd hhead (by decide)
        | cons b e =>
          rw [List.cons_append, List.cons.injEq] at he
          have := hw b (by simp)
          rw [← he.1, hcspace] at this
          cases this
    have hsplit : (w ++ (v ++ w')) ++ d :: r' = token ++ c :: r := by simpa using h
    obtain ⟨rfl, rfl, rfl⟩ := end_split (by
      intro b hb
      rcases List.mem_append.mp hb with hb | hb
      · exact ws_noEnd hw b hb
      · rcases List.mem_append.mp hb with hb | hb
        · exact hscalar b hb
        · exact ws_noEnd hw' b hb) hnumeral.noEnd hd hc hsplit
    exact ⟨rfl, rfl, rfl⟩

/-- A member as it is printed, and as it is read back. -/
def ReadBack (item m : Bytes × Bytes) : Prop := m.1 = item.1 ∧ ∃ w w', Ws w ∧ Ws w' ∧ item.2 = w ++ (m.2 ++ w')

def Printable (item : Bytes × Bytes) : Prop := StrBody item.1 ∧ (IsValue item.2 ∨ Numeral item.2)

theorem members_aligned {items ms : List (Bytes × Bytes)} {body r tail : Bytes} (hitems : ∀ item ∈ items, Printable item)
    (hne : items ≠ []) (h : Reads (.members ms) body) (heq : body ++ ch '}' :: r = membersText items ++ ch '}' :: tail) :
    List.Forall₂ ReadBack items ms := by
  induction items generalizing ms body with
  | nil => exact absurd rfl hne
  | cons item items ih =>
    obtain ⟨key, token⟩ := item
    obtain ⟨⟨hkey, htoken⟩, hrest⟩ := List.forall_mem_cons.mp hitems
    obtain ⟨k, v, ms', w1, w2, t, rfl, hk, h1, h2, hv, hafter, rfl⟩ := members_first h
    have htext : ∃ c u, Ends c ∧ membersText ((key, token) :: items) ++ ch '}' :: tail = quoted key ++ ch ':' :: (token ++ c :: u) ∧
        ((items = [] ∧ c = ch '}') ∨ (items ≠ [] ∧ c = ch ',' ∧ u = membersText items ++ ch '}' :: tail)) := by
      cases items with
      | nil => exact ⟨ch '}', tail, .inr rfl, by simp [membersText], .inl ⟨rfl, rfl⟩⟩
      | cons item2 items =>
        exact ⟨ch ',', membersText (item2 :: items) ++ ch '}' :: tail, .inl rfl, by simp [membersText],
          .inr ⟨by simp, rfl, rfl⟩⟩
    obtain ⟨c, u, hc, htext, hnext⟩ := htext
    rw [htext] at heq
    simp only [List.append_assoc, List.cons_append] at heq
    obtain ⟨rfl, hcolon⟩ := quoted_inj hk hkey heq
    have hvalue := skip_eq h1 .nil (NoSpaceHead.cons (by decide)) (NoSpaceHead.cons (by decide)) hcolon
    rw [List.cons.injEq] at hvalue
    cases hafter with
    | last hw =>
      obtain ⟨htoken', hend, -⟩ := value_aligned hv htoken h2 hw hc (.inr rfl) hvalue.2
      rcases hnext with ⟨rfl, -⟩ | ⟨-, rfl, -⟩
      · exact .cons ⟨rfl, _, _, h2, hw, htoken'⟩ .nil
      · exact absurd hend (by decide)
    | @more w w' body' _ hw hw' hb =>
      simp only [List.append_assoc, List.cons_append] at hvalue
      obtain ⟨htoken', hend, hu⟩ := value_aligned hv htoken h2 hw hc (.inl rfl) hvalue.2
      rcases hnext with ⟨-, rfl⟩ | ⟨hmore, rfl, rfl⟩
      · exact absurd hend (by decide)
      · obtain ⟨item2, items, rfl⟩ := List.exists_cons_of_ne_nil hmore
        obtain ⟨q, hq⟩ := membersText_cons_quote item2 items
        have hnoSpace : NoSpaceHead (membersText (item2 :: items) ++ ch '}' :: tail) := by
          rw [hq]
          exact NoSpaceHead.cons (by decide)
        have hbody := skip_eq hw' .nil (reads_members_noSpaceHead hb _) hnoSpace hu
        exact .cons ⟨rfl, _, _, h2, hw, htoken'⟩ (ih hrest (by simp) hb hbody)

theorem objText_aligned {items ms : List (Bytes × Bytes)} (hitems : ∀ item ∈ items, Printable item)
    (h : ObjectText (objText items) ms) : List.Forall₂ ReadBack items ms := by
  have hobj := h.bare rfl (getLast?_objText items)
  generalize htext : objText items = text at hobj
  cases hobj with
  | @empty w hw =>
    cases items with
    | nil => exact .nil
    | cons item items =>
      obtain ⟨q, hq⟩ := membersText_cons_quote item items
      rw [objText, hq, List.cons.injEq] at htext
      have hbad := skip_eq .nil hw (NoSpaceHead.cons (by decide)) (NoSpaceHead.cons (by decide)) htext.2
      exact absurd (List.cons.inj hbad).1 (by decide)
  | @some w body _ hw hb =>
    rw [objText, List.cons.injEq] at htext
    cases items with
    | nil =>
      have hbad := skip_eq .nil hw (NoSpaceHead.cons (by decide)) (reads_members_noSpaceHead hb _) htext.2
      obtain ⟨q, hq⟩ := reads_members_head hb
      rw [hq, List.cons_append, List.cons.injEq] at hbad
      exact absurd hbad.1 (by decide)
    | cons item items =>
      obtain ⟨q, hq⟩ := membersText_cons_quote item items
      have hnoSpace : NoSpaceHead (membersText (item :: items) ++ [ch '}']) := by
        rw [hq]
        exact NoSpaceHead.cons (by decide)
      have hbody := skip_eq .nil hw hnoSpace (reads_members_noSpaceHead hb _) htext.2
      exact members_aligned hitems (by simp) hb hbody.symm

/-! ## What a kept text shows -/

theorem readMembers_subset {ms : List (Bytes × Bytes)} {m : Bytes × Bytes} (h : m ∈ readMembers ms) : m ∈ ms :=
  List.takeWhile_subset _ h

theorem readMembers_key {ms : List (Bytes × Bytes)} {m : Bytes × Bytes} (h : m ∈ readMembers ms) : ∃ d, keyOf m = some d :=
  Option.isSome_iff_exists.mp (List.mem_takeWhile_imp (p := fun m => (keyOf m).isSome) h)

theorem printedMember_printable {schema : JsonRef} {m : Bytes × Bytes} (hv : IsValue m.2) : Printable (printedMember schema m) := by
  refine ⟨escaped_strBody _, ?_⟩
  rw [printedMember]
  cases h : tokenOf schema m with
  | none => exact .inl hv
  | some token => exact token_printable h

/-- The first octet tells a token from the value it replaces. -/
theorem token_type {type : Bytes} {v token : JsonRef} (h : coercedToken type v = some token) :
    jsonRefInferType (skipWs token) ≠ jsonRefInferType v := by
  unfold coercedToken at h
  split at h
  · rename_i hstring
    rw [Option.filter_eq_some_iff] at h
    have hnumeral : Numeral token := numericString_numeral (by simpa using h.2)
    rw [hstring.1]
    cases hskip : skipWs token with
    | nil => decide
    | cons a u =>
      have ha : inNumeral a = true := hnumeral a ((List.dropWhile_sublist isSpace).subset (by
        rw [← skipWs, hskip]
        exact List.mem_cons_self))
      intro hquote
      have hinfer : ∀ n : Fin 256, inNumeral (UInt8.ofNat n) = true → jsonRefInferType [UInt8.ofNat n] ≠ .string := by
        decide +kernel
      have hhead : jsonRefInferType [a] = jsonRefInferType (a :: u) := rfl
      have := hinfer ⟨a.toNat, a.toNat_lt⟩ (by simpa using ha)
      exact this (by simpa [hhead] using hquote)
  · split at h
    · rename_i hspelled
      obtain ⟨e, -, rfl⟩ := Option.map_eq_some_iff.mp h
      have hbare : skipWs (quoted e) = quoted e := skipWs_self (NoSpaceHead.cons (by decide))
      rw [hbare]
      rcases hspelled.2 with hnum | hbool
      · rw [hnum]
        exact fun hbad => by cases hbad
      · rw [hbool]
        exact fun hbad => by cases hbad
    · split at h
      · rename_i hword
        rw [Option.filter_eq_some_iff] at h
        rw [hword.2]
        rcases (by simpa using h.2 : token = lit "true" ∨ token = lit "false") with rfl | rfl
        · decide
        · decide
      · split at h
        · rename_i hflag
          rw [hflag.2]
          split at h
          · split at h
            · cases h
              decide
            · split at h
              · cases h
                decide
              · cases h
          · cases h
        · cases h

example : inNumeral (ch '"') = false := by decide +kernel

/-- The spelling of a number, as far as its buffer holds it. -/
theorem spelled_token {v : JsonRef} (hv : NumText v) : coercedToken (lit "string") v = some (quoted (clip rtLarge v)) := by
  have hinfer := inferType_numText hv
  have hplain : PlainText (clip rtLarge v) := fun c hc => numText_plain hv c (List.mem_of_mem_take hc)
  have hspelling : spelling v = clip rtLarge v := by simp [spelling, hinfer]
  have hescaped : escaped (clip rtLarge v) = clip rtLarge v := escaped_plain hplain
  rw [coercedToken, if_neg (by simp [hinfer]), if_pos ⟨rfl, .inl hinfer⟩, hspelling, mirror_eq hplain.nulFree, hescaped,
    if_pos (by omega)]
  rfl

theorem token_differs {type : Bytes} {v token : JsonRef} (h : coercedToken type v = some token) {w v' w' : Bytes} (hv : IsValue v)
    (hw : Ws w) (htoken : token = w ++ (v' ++ w')) : v' ≠ v := by
  rintro rfl
  refine token_type h ?_
  rw [htoken, skipWs_append hw (hv.noSpaceHead.append hv.ne_nil)]
  obtain ⟨c, u, rfl, -⟩ := hv.head
  rfl

theorem isValue_numText {v : Bytes} (hv : IsValue v) (h : jsonRefInferType v = .number) : NumText v := by
  cases hv with
  | num hn => exact hn
  | _ => cases h

theorem getLong_number {v : JsonRef} {z : Int} (h : jsonRefGetLong v 0 = (z, true)) : jsonRefInferType v = .number := by
  unfold jsonRefGetLong at h
  split at h
  · rename_i hnum
    exact hnum.1
  · simp at h

/-- An equivalent value was one that its type asks for. -/
theorem equivalent_has {type : Bytes} {v v' : JsonRef} (h : Equivalent type v v')
    (hspelled : type = lit "string" → NumText v → v' = quoted v → v.length < rtLarge) : HasEquivalent type v := by
  have hnumber : ∀ {t}, t = lit "string" ∨ t = lit "boolean" → ¬ (t = lit "integer" ∨ t = lit "number") := by
    rintro t (rfl | rfl)
    · (repeat rw [lit_ofList]); decide
    · decide
  have hstring : ∀ {t}, t = lit "integer" ∨ t = lit "number" ∨ t = lit "boolean" → t ≠ lit "string" := by
    rintro t (rfl | rfl | rfl)
    · decide
    · decide
    · decide
  cases h with
  | number htype hv hw hn =>
    exact ⟨fun _ _ => ⟨_, _, hv, hw, hn⟩, fun _ hs => absurd hs (hstring (htype.imp_right .inl)), fun _ hb => absurd htype (hnumber (.inr hb))⟩
  | spelledNumber htype hv =>
    have hinfer := inferType_numText hv
    exact ⟨fun _ hn => absurd hn (hnumber (.inl htype)), fun _ _ => hspelled htype hv rfl,
      fun hs _ => absurd hs (by simp [hinfer])⟩
  | spelledBool b htype =>
    have hinfer : jsonRefInferType (boolText b) = .bool := by cases b <;> rfl
    exact ⟨fun _ hn => absurd hn (hnumber (.inl htype)), fun hn _ => absurd hn (by simp [hinfer]),
      fun hs _ => absurd hs (by simp [hinfer])⟩
  | word b htype hv =>
    have hnul : NulFree (boolText b) := by cases b <;> exact .of_all (by decide)
    exact ⟨fun _ hn => absurd hn (hnumber (.inr htype)), fun _ hs => absurd hs (hstring (.inr (.inr htype))), fun _ _ => ⟨_, hv, hnul⟩⟩
  | flag b htype hv =>
    have hinfer := getLong_number hv
    exact ⟨fun _ hn => absurd hn (hnumber (.inr htype)), fun _ hs => absurd hs (hstring (.inr (.inr htype))),
      fun hs _ => absurd hs (by simp [hinfer])⟩

theorem forall₂_both {α β : Type} {R S : α → β → Prop} {l : List α} {l' : List β} (hr : List.Forall₂ R l l')
    (hs : List.Forall₂ S l l') : ∀ a ∈ l, ∃ b, R a b ∧ S a b := by
  induction hr with
  | nil => simp
  | @cons a b l l' hab _ ih =>
    cases hs with
    | cons hab' hs' => exact List.forall_mem_cons.mpr ⟨⟨b, hab, hab'⟩, ih hs'⟩

/-- The key of a member that is kept is the one the iterator decoded. -/
theorem kept_key {m m' : Bytes × Bytes} {d : Bytes} (hread : m'.1 = escaped d)
    (h : m'.1 = m.1 ∨ ∃ s, Decodes (quoted m.1) s ∧ Decodes (quoted m'.1) s) : Decodes (quoted m.1) d := by
  rcases h with hsame | ⟨s, hs, hs'⟩
  · rw [← hsame, hread]
    exact decodes_escaped d
  · rw [hread] at hs'
    rwa [(decodes_escaped d).unique hs']

/-- An exact rewriting loses no key and makes no value up. -/
theorem exact_coercible {schema : JsonRef} {ms ms' : List (Bytes × Bytes)} (hvalues : ∀ m ∈ ms, IsValue m.2)
    (htext : ObjectText (objText ((readMembers ms).map (printedMember schema))) ms')
    (hkept : List.Forall₂ (KeptMember schema) ms ms') : Legible ms ∧
      ∀ m ∈ ms, (tokenOf schema m).isSome = true → HasEquivalent (schemaPropType schema ((keyOf m).getD [])) m.2 := by
  have haligned := objText_aligned (by
    intro item hitem
    obtain ⟨m, hm, rfl⟩ := List.mem_map.mp hitem
    exact printedMember_printable (hvalues m (readMembers_subset hm))) htext
  -- as many members are read back as there were, so the iterator got to all of them
  have hall : readMembers ms = ms := by
    refine (List.takeWhile_prefix _).eq_of_length ?_
    have := haligned.length_eq
    rw [List.length_map] at this
    exact this.trans hkept.length_eq.symm
  rw [hall, List.forall₂_map_left_iff] at haligned
  have hkeyOf : ∀ m ∈ ms, ∃ d, keyOf m = some d := fun m hm => readMembers_key (hall ▸ hm)
  have hboth := forall₂_both haligned hkept
  have hkey : ∀ m ∈ ms, Decodes (quoted m.1) ((keyOf m).getD []) := by
    intro m hm
    obtain ⟨m', ⟨hread, -⟩, hsame, -⟩ := hboth m hm
    exact kept_key hread hsame
  refine ⟨fun m hm => ?_, fun m hm htoken => ?_⟩
  · obtain ⟨d, hd⟩ := hkeyOf m hm
    have hdecodes := hkey m hm
    rw [hd, Option.getD_some] at hdecodes
    exact ⟨d, (stringCopyWrite_fits hdecodes).2 rtSmall (jsonRefStringCopy_length hd), jsonRefStringCopy_nulFree hd⟩
  · obtain ⟨m', ⟨-, w, w', hw, -, hprinted⟩, -, hvalue⟩ := hboth m hm
    obtain ⟨token, htok⟩ := Option.isSome_iff_exists.mp htoken
    rw [printedMember, htok, Option.getD_some] at hprinted
    rcases hvalue with hsame | ⟨s, hs, hequivalent⟩
    · exact absurd hsame (token_differs htok (hsame ▸ hvalues m hm) hw hprinted)
    · obtain rfl := hs.unique (hkey m hm)
      refine equivalent_has hequivalent fun htype hnum hquoted => ?_
      rw [tokenOf, htype, spelled_token hnum, Option.some.injEq] at htok
      rw [← htok, hquoted] at hprinted
      have hlen := congrArg List.length hprinted
      simp only [List.length_append, quoted, List.length_cons, List.length_nil, clip, List.length_take, rtLarge] at hlen ⊢
      omega

/-! ## What a coercible text becomes -/

/-- A string that is copied whole into some buffer decodes to what the buffer holds. -/
theorem decodes_of_copied {k d : Bytes} {cap : Nat} (hk : StrBody k) (h : stringCopyWrite cap (quoted k) = (d, true)) :
    Decodes (quoted k) d := by
  refine (stringCopyWrite_fits h).2 _ ?_
  rw [quoted, stringCopyWrite, if_pos rfl] at h
  obtain ⟨e, m, hrest, hle, -⟩ := stringCopyLoop_strBody hk (by simp) h
  rw [stringCopyLoop_quote hrest]
  simp [quoted]
  omega

theorem isValue_boolText {v : Bytes} (hv : IsValue v) (h : jsonRefInferType v = .bool) : ∃ b, v = boolText b := by
  cases hv with
  | true => exact ⟨true, rfl⟩
  | false => exact ⟨false, rfl⟩
  | num hn =>
    rw [inferType_numText hn] at h
    cases h
  | _ => cases h

/-- What a member is printed as, and read back as. -/
structure Settled (type v v' printed : Bytes) : Prop where
  value : IsValue v'
  reads : ∃ w, Ws w ∧ printed = w ++ v'
  kept : v' = v ∨ Equivalent type v v'
  stable : coercedToken type v' = none

theorem boolText_stable {type : Bytes} (b : Bool) (h : type ≠ lit "string") : coercedToken type (boolText b) = none := by
  have hinfer : jsonRefInferType (boolText b) = .bool := by cases b <;> rfl
  rw [coercedToken, hinfer, if_neg (by simp), if_neg (by simp [h]), if_neg (by simp), if_neg (by simp)]

theorem quoted_stable (e : Bytes) : coercedToken (lit "string") (quoted e) = none := by
  have hinfer : jsonRefInferType (quoted e) = .string := rfl
  rw [coercedToken, hinfer, if_neg (by (repeat rw [lit_ofList]); decide), if_neg (by simp), if_neg (by decide), if_neg (by decide)]

theorem number_stable {type n : Bytes} (hn : NumText n) (h : type = lit "integer" ∨ type = lit "number") :
    coercedToken type n = none := by
  have hinfer := inferType_numText hn
  have hne : type ≠ lit "string" ∧ type ≠ lit "boolean" := by
    rcases h with rfl | rfl
    · (repeat rw [lit_ofList]); decide
    · decide
  rw [coercedToken, hinfer, if_neg (by simp), if_neg (by simp [hne.1]), if_neg (by simp), if_neg (by simp [hne.2])]

/-- A value with an equivalent one is printed as that, and left alone from then on. -/
theorem printed_settled {type v : Bytes} (hv : IsValue v)
    (h : (coercedToken type v).isSome = true → HasEquivalent type v) :
    ∃ v', Settled type v v' ((coercedToken type v).getD v) := by
  cases htoken : coercedToken type v with
  | none => exact ⟨v, hv, ⟨[], .nil, rfl⟩, .inl rfl, htoken⟩
  | some token =>
    rw [Option.getD_some]
    obtain ⟨hnumber, hspelled, hword⟩ := h (by rw [htoken]; rfl)
    have hcase := htoken
    unfold coercedToken at hcase
    split at hcase
    · rename_i hstring
      obtain ⟨w, n, hdecodes, hw, hn⟩ := hnumber hstring.1 hstring.2
      rw [Option.filter_eq_some_iff] at hcase
      have hnul : NulFree (w ++ n) := hw.nulFree.append (numText_numeral hn).nulFree
      have hdup : jsonRefStringDup v = some (w ++ n) := decodes_copy hdecodes hnul (stringCopyWrite_fits hdecodes).1
      rw [hdup, Option.some.injEq] at hcase
      obtain ⟨rfl, -⟩ := hcase
      exact ⟨n, .num hn, ⟨w, hw, rfl⟩, .inr (.number hstring.2 hdecodes hw hn), number_stable hn hstring.2⟩
    · split at hcase
      · rename_i htype
        obtain ⟨rfl, hnum | hbool⟩ := htype
        · have hn := isValue_numText hv hnum
          rw [spelled_token hn, clip_eq_self (hspelled hnum rfl), Option.some.injEq] at htoken
          subst htoken
          exact ⟨quoted v, isValue_quoted (.of_plain (numText_plain hn)), ⟨[], .nil, rfl⟩, .inr (.spelledNumber rfl hn),
            quoted_stable v⟩
        · obtain ⟨b, rfl⟩ := isValue_boolText hv hbool
          have hprinted : coercedToken (lit "string") (boolText b) = some (quoted (boolText b)) := by cases b <;> (rw [lit_ofList]; decide)
          rw [hprinted, Option.some.injEq] at htoken
          subst htoken
          have hplain : StrBody (boolText b) := by cases b <;> exact strBody_key (by decide)
          exact ⟨_, isValue_quoted hplain, ⟨[], .nil, rfl⟩, .inr (.spelledBool b rfl), quoted_stable _⟩
      · split at hcase
        · rename_i htype
          obtain ⟨rfl, hstring⟩ := htype
          obtain ⟨s, hdecodes, hnul⟩ := hword hstring rfl
          rw [Option.filter_eq_some_iff] at hcase
          obtain ⟨d, hd, htok⟩ := jsonRefStringCopy_eq_some.mp hcase.1
          have hsame : d = s := by
            have hlong := (stringCopyWrite_fits hd).2 (d.length + s.length + 1) (by omega)
            rw [(stringCopyWrite_fits hdecodes).2 (d.length + s.length + 1) (by omega), Prod.mk.injEq] at hlong
            exact hlong.1.symm
          rw [hsame, cstr_eq_self hnul] at htok
          obtain ⟨b, hb⟩ : ∃ b, token = boolText b := by
            rcases (by simpa using hcase.2 : token = lit "true" ∨ token = lit "false") with h | h
            · exact ⟨true, h⟩
            · exact ⟨false, h⟩
          rw [hb]
          exact ⟨_, isValue_bool b, ⟨[], .nil, rfl⟩, .inr (.word b rfl (hb ▸ htok ▸ hdecodes)), boolText_stable b (lit_ne (by decide))⟩
        · split at hcase
          · rename_i htype
            obtain ⟨rfl, -⟩ := htype
            split at hcase
            · rename_i n hlong
              split at hcase
              · rename_i hzero
                cases hcase
                exact ⟨_, isValue_bool false, ⟨[], .nil, rfl⟩, .inr (.flag false rfl (by rw [hlong, hzero]; rfl)),
                  boolText_stable false (by decide)⟩
              · split at hcase
                · rename_i hone
                  cases hcase
                  exact ⟨_, isValue_bool true, ⟨[], .nil, rfl⟩, .inr (.flag true rfl (by rw [hlong, hone]; rfl)),
                    boolText_stable true (by decide)⟩
                · cases hcase
            · cases hcase
          · cases hcase

/-- A member behind its coercion. -/
def SettledMember (schema : JsonRef) (m m' : Bytes × Bytes) : Prop :=
  m'.1 = (printedMember schema m).1 ∧
    Settled (schemaPropType schema ((keyOf m).getD [])) m.2 m'.2 (printedMember schema m).2

theorem settled_members {schema : JsonRef} {ms : List (Bytes × Bytes)} (hvalues : ∀ m ∈ ms, IsValue m.2)
    (h : ∀ m ∈ ms, (tokenOf schema m).isSome = true → HasEquivalent (schemaPropType schema ((keyOf m).getD [])) m.2) :
    ∃ ms', List.Forall₂ (SettledMember schema) ms ms' := by
  induction ms with
  | nil => exact ⟨[], .nil⟩
  | cons m ms ih =>
    obtain ⟨hv, hvs⟩ := List.forall_mem_cons.mp hvalues
    obtain ⟨hm, hms⟩ := List.forall_mem_cons.mp h
    obtain ⟨ms', hrest⟩ := ih hvs hms
    obtain ⟨v', hv'⟩ := printed_settled hv hm
    exact ⟨(escaped ((keyOf m).getD []), v') :: ms', .cons ⟨rfl, hv'⟩ hrest⟩

theorem settled_reads {schema : JsonRef} {ms ms' : List (Bytes × Bytes)} (h : List.Forall₂ (SettledMember schema) ms ms')
    (hne : ms ≠ []) : Reads (.members ms') (membersText (ms.map (printedMember schema))) := by
  induction h with
  | nil => exact absurd rfl hne
  | @cons m m' ms ms' hm hrest ih =>
    obtain ⟨hkey, hvalue, ⟨w, hw, hprinted⟩, -, -⟩ := hm
    obtain ⟨k, v⟩ := m'
    obtain rfl : k = (printedMember schema m).1 := hkey
    cases hrest with
    | nil =>
      have := Reads.member (escaped_strBody ((keyOf m).getD [])) .nil hw hvalue .nil
      rw [List.map_cons, List.map_nil, ← Prod.eta (printedMember schema m), hprinted, membersText]
      simpa [printedMember] using this
    | cons hm2 hrest2 =>
      have := Reads.memberCons (escaped_strBody ((keyOf m).getD [])) .nil hw hvalue .nil .nil (ih (by simp))
      rw [List.map_cons, ← Prod.eta (printedMember schema m), hprinted, List.map_cons, membersText]
      simpa [printedMember] using this

theorem token_nulFree {type v token : Bytes} (h : coercedToken type v = some token) : NulFree token := by
  unfold coercedToken at h
  split at h
  · rw [Option.filter_eq_some_iff] at h
    exact jsonRefStringCopy_nulFree h.1
  · split at h
    · obtain ⟨e, he, rfl⟩ := Option.map_eq_some_iff.mp h
      exact (TaskPayloads.mirror_clean he).nulFree
    · split at h
      · rw [Option.filter_eq_some_iff] at h
        exact jsonRefStringCopy_nulFree h.1
      · split at h
        · split at h
          · split at h
            · cases h
              exact .of_all (by decide)
            · split at h
              · cases h
                exact .of_all (by decide)
              · cases h
          · cases h
        · cases h

theorem printed_nulFree {schema : JsonRef} {ms : List (Bytes × Bytes)} (h : ∀ m ∈ ms, NulFree m.2) :
    NulFree (objText (ms.map (printedMember schema))) := by
  refine objText_nulFree fun item hitem => ?_
  obtain ⟨m, hm, rfl⟩ := List.mem_map.mp hitem
  refine ⟨escaped_nulFree _, ?_⟩
  rw [printedMember]
  cases htoken : tokenOf schema m with
  | none => exact h m hm
  | some token => exact token_nulFree htoken

/-- Settled members are kept, and none of them is coerced again. -/
theorem settled_kept {schema : JsonRef} {ms ms' : List (Bytes × Bytes)} (h : List.Forall₂ (SettledMember schema) ms ms')
    (hbodies : ∀ m ∈ ms, StrBody m.1) (hlegible : Legible ms) :
    List.Forall₂ (KeptMember schema) ms ms' ∧ ∀ m' ∈ ms', tokenOf schema m' = none := by
  induction h with
  | nil => exact ⟨.nil, by simp⟩
  | @cons m m' ms ms' hm _ ih =>
    obtain ⟨hbody, hrest⟩ := List.forall_mem_cons.mp hbodies
    obtain ⟨hkept, hnone⟩ := ih hrest fun x hx => hlegible x (List.mem_cons_of_mem _ hx)
    obtain ⟨d, hd, hnul⟩ := hlegible m List.mem_cons_self
    have hkey : keyOf m = some d := jsonRefStringCopy_eq_some.mpr ⟨d, hd, (cstr_eq_self hnul).symm⟩
    obtain ⟨hprinted, -, -, hvalue, hstable⟩ := hm
    rw [printedMember, hkey, Option.getD_some] at hprinted
    rw [hkey, Option.getD_some] at hvalue hstable
    have hdecodes := decodes_of_copied hbody hd
    have hagain : keyOf m' = some d := by
      rw [keyOf, hprinted]
      exact jsonRefStringCopy_escaped hnul (stringCopyWrite_fits hd).1
    refine ⟨.cons ⟨.inr ⟨d, hdecodes, ?_⟩, hvalue.imp_right fun he => ⟨d, hdecodes, he⟩⟩ hkept, ?_⟩
    · rw [hprinted]
      exact decodes_escaped d
    · refine List.forall_mem_cons.mpr ⟨?_, hnone⟩
      rw [tokenOf, hagain, Option.getD_some]
      exact hstable

theorem keptMember_refl (schema : JsonRef) (ms : List (Bytes × Bytes)) : List.Forall₂ (KeptMember schema) ms ms := by
  induction ms with
  | nil => exact .nil
  | cons m ms ih => exact .cons ⟨.inl rfl, .inl rfl⟩ ih

/-- A legible object with equivalents for what is coerced is rewritten exactly. -/
theorem coercible_exact {schema : JsonRef} {argsSchema args : Bytes} {ms : List (Bytes × Bytes)} {cap : Nat}
    (hschema : jsonRefTopObject argsSchema = some schema) (hargs : ObjectText args ms) (hn : NulFree args)
    (hrewritten : Rewritten schema ms cap) (hlegible : Legible ms)
    (hequivalent : ∀ m ∈ ms, (tokenOf schema m).isSome = true → HasEquivalent (schemaPropType schema ((keyOf m).getD [])) m.2) :
    CoercesExactly schema argsSchema args ms cap := by
  obtain ⟨t, htop, ht⟩ := topObject_text hargs hn
  have hclean := CleanObject.of_top htop
  have hall : readMembers ms = ms := List.takeWhile_eq_self_iff.mpr fun m hm => by
    obtain ⟨d, hd, -⟩ := hlegible.key hm
    rw [hd]
    rfl
  have hne : ms ≠ [] := by
    obtain ⟨m, hm, -⟩ := hrewritten.coerced
    rintro rfl
    cases hm
  have htext := coerce_rewritten hschema hargs hn hrewritten
  rw [hall] at htext
  obtain ⟨ms', hsettled⟩ := settled_members (fun m hm => (ht.wellformed m hm).2) hequivalent
  have hobj : ObjectText (objText (ms.map (printedMember schema))) ms' :=
    ⟨[], _, [], .nil, .nil, .some (w := []) .nil (settled_reads hsettled hne), by simp [objText]⟩
  have hnul : NulFree (objText (ms.map (printedMember schema))) :=
    printed_nulFree fun m hm => (ht.nulFree hclean.nulFree m hm).2
  obtain ⟨hkept, hnone⟩ := settled_kept hsettled (fun m hm => (ht.wellformed m hm).1) hlegible
  rw [CoercesExactly, htext]
  refine ⟨⟨ms', hobj, hkept⟩, coerce_untouched hschema hobj hnul fun hagain => ?_⟩
  obtain ⟨m', hm', htoken⟩ := hagain.coerced
  rw [hnone m' (readMembers_subset hm')] at htoken
  cases htoken

/-! ## Every call -/

/-- A coercion is exact when it rewrites nothing, or loses no key and has an equivalent for each value it replaces. -/
theorem coercion_exact_iff {schema : JsonRef} {argsSchema args : Bytes} {ms : List (Bytes × Bytes)} {cap : Nat}
    (hschema : jsonRefTopObject argsSchema = some schema) (hargs : ObjectText args ms) (hn : NulFree args) :
    CoercesExactly schema argsSchema args ms cap ↔ Coercible schema ms cap := by
  by_cases hrewritten : Rewritten schema ms cap
  · constructor
    · rintro ⟨⟨ms', htext, hkept⟩, -⟩ -
      obtain ⟨t, -, ht⟩ := topObject_text hargs hn
      rw [coerce_rewritten hschema hargs hn hrewritten] at htext
      exact exact_coercible (fun m hm => (ht.wellformed m hm).2) htext hkept
    · intro h
      obtain ⟨hlegible, hequivalent⟩ := h hrewritten
      exact coercible_exact hschema hargs hn hrewritten hlegible hequivalent
  · have hsame := coerce_untouched hschema hargs hn hrewritten
    constructor
    · exact fun _ h => absurd h hrewritten
    · intro _
      rw [CoercesExactly, hsame]
      exact ⟨⟨ms, hargs, keptMember_refl schema ms⟩, hsame⟩

/-- A schema with one number. -/
def countSchema : Bytes := lit "\x7b\"properties\":\x7b\"n\":\x7b\"type\":\"number\"\x7d\x7d\x7d"

theorem oneMember_object {v : Bytes} (hv : IsValue v) : ObjectText (objText [(lit "n", v)]) [(lit "n", v)] := by
  have hlaid : Laid [(lit "n", v)] := ⟨by simp, by
    simp only [List.forall_mem_cons]
    exact ⟨⟨strBody_key (by decide), hv⟩, by simp⟩⟩
  exact ⟨[], _, [], .nil, .nil, hlaid.objText, by simp⟩

theorem coercion_exact_counted :
    CoercesExactly countSchema countSchema (objText [(lit "n", quoted (lit "42"))]) [(lit "n", quoted (lit "42"))] 11 := by
  refine (coercion_exact_iff (by decide +kernel) (oneMember_object (isValue_plain (s := lit "42") (lit_all (by decide))))
    (.of_all (by decide))).mpr fun _ => ⟨?_, ?_⟩
  · intro m hm
    rw [List.mem_singleton] at hm
    rw [hm]
    exact ⟨lit "n", by decide, .of_all (by decide)⟩
  · intro m hm _
    rw [List.mem_singleton] at hm
    have htype : schemaPropType countSchema ((keyOf (lit "n", quoted (lit "42"))).getD []) = lit "number" := by decide +kernel
    rw [hm, htype]
    refine ⟨fun _ _ => ⟨[], lit "42", decodes_plain (.of_all (by decide)), .nil, .of_digits (.of_all (by decide) (by decide))⟩, fun _ h => ?_, fun _ h => ?_⟩
    · exact absurd h (lit_ne (by decide))
    · exact absurd h (lit_ne (by decide))

example : inNumeral (ch 'x') = true := by decide +kernel

/-- A hexadecimal number in a string: what is left is no JSON. -/
theorem hexadecimal_unquoted :
    ¬ CoercesExactly countSchema countSchema (objText [(lit "n", quoted (lit "0x10"))]) [(lit "n", quoted (lit "0x10"))] 13 := by
  rintro ⟨⟨ms', htext, -⟩, -⟩
  have hleft : (rtActionCoerceArgs countSchema (objText [(lit "n", quoted (lit "0x10"))]) 13).1 = lit "\x7b\"n\":0x10\x7d" := by
    decide +kernel
  rw [hleft] at htext
  obtain ⟨t, htop, -⟩ := topObject_text htext (.of_all (lit_all (by decide)))
  have hnone : jsonRefTopObject (lit "\x7b\"n\":0x10\x7d") = none := by decide +kernel
  rw [hnone] at htop
  cases htop

end Floofclaw.Guarantees.ArgumentCoercion
