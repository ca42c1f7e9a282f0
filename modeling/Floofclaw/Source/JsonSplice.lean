import Floofclaw.Source.JsonFields

/-!
# Text spliced between quotes

A C string written between two quotes without escaping reads back as itself
exactly when it has no quote, no reverse solidus and no control octet. The
closing quote may even fall to an escape at the end of the text: what follows a
spliced text in the formats of the runtime is either the next member or no
quote at all, and both cases are covered.
-/

set_option autoImplicit false

namespace Floofclaw.Source.Json
open Floofclaw.Lib

/-! ## Decoding -/

theorem utf8Write_length (n : Nat) : (utf8Write n).length ≤ 4 := by
  unfold utf8Write
  split
  · simp
  split
  · simp
  split <;> simp

theorem parseHex4_rest {a b c d : Byte} {s r : Bytes} {n : Nat} (h : parseHex4 (a :: b :: c :: d :: s) = some (n, r)) :
    r = s := by
  rw [parseHex4] at h
  split at h
  · simp only [Option.some.injEq, Prod.mk.injEq] at h
    exact h.2.symm
  · simp at h

/-- The low half of a pair lies inside the body that holds the high one. -/
theorem lowSurrogate_strBody {hi : Nat} {b t item r : Bytes} (hb : StrBody b) (ht : ∀ s, t ≠ ch '\\' :: ch 'u' :: s)
    (h : lowSurrogate hi (b ++ t) = some (item, r)) :
    ∃ x b', b = x ++ b' ∧ StrBody b' ∧ r = b' ++ t ∧ x.length = 6 ∧ item.length ≤ 4 := by
  cases hb with
  | nil =>
    rw [List.nil_append] at h
    unfold lowSurrogate at h
    split at h
    · split at h
      · rename_i hpair
        obtain ⟨rfl, rfl⟩ := hpair
        exact absurd rfl (ht _)
      · simp at h
    · simp at h
  | @plain c s hc hs =>
    unfold lowSurrogate at h
    split at h
    · rename_i heq
      split at h
      · rename_i hpair
        rw [List.cons_append, List.cons.injEq] at heq
        exact absurd (heq.1.trans hpair.1) ((isPlain_iff c).mp hc).2.1
      · simp at h
    · simp at h
  | @simple c s hc hs =>
    rw [List.cons_append, List.cons_append, lowSurrogate, if_neg] at h
    · simp at h
    · rintro ⟨-, hu⟩
      exact isSimpleEscape_ne_u hc hu
  | @hex p q u v s hp hq hu hv hs =>
    simp only [List.cons_append] at h
    rw [lowSurrogate, if_pos ⟨rfl, rfl⟩] at h
    split at h
    · simp at h
    · rename_i lo rest hhex
      have hrest := parseHex4_rest hhex
      split at h
      · simp only [Option.some.injEq, Prod.mk.injEq] at h
        obtain ⟨rfl, rfl⟩ := h
        exact ⟨[ch '\\', ch 'u', p, q, u, v], s, rfl, hs, hrest, rfl, utf8Write_length _⟩
      · simp at h

/-- One decoded item of a body: a plain octet for itself, or an escape for something shorter. -/
theorem copyItem_strBody {b t item r : Bytes} (hb : StrBody b) (hne : b ≠ [])
    (ht : ∀ s, t ≠ ch '\\' :: ch 'u' :: s) (h : copyItem (b ++ t) = some (item, r)) :
    ∃ x b', b = x ++ b' ∧ StrBody b' ∧ r = b' ++ t ∧ x ≠ [] ∧ item.length ≤ x.length ∧
      (ch '\\' ∈ x → item.length < x.length) := by
  rw [copyItem.eq_def] at h
  cases hb with
  | nil => exact absurd rfl hne
  | @plain c s hc hs =>
    obtain ⟨-, hbs, hlt⟩ := (isPlain_iff c).mp hc
    simp only [List.cons_append, if_neg hbs, if_neg hlt, Option.some.injEq, Prod.mk.injEq] at h
    obtain ⟨rfl, rfl⟩ := h
    exact ⟨[c], s, rfl, hs, rfl, by simp, Nat.le_refl _, fun hm => absurd (List.mem_singleton.mp hm).symm hbs⟩
  | @simple c s hc hs =>
    simp only [List.cons_append, if_true, if_neg (isSimpleEscape_ne_u hc)] at h
    split at h
    · simp at h
    · simp only [Option.some.injEq, Prod.mk.injEq] at h
      obtain ⟨rfl, rfl⟩ := h
      exact ⟨[ch '\\', c], s, rfl, hs, rfl, by simp, by simp, fun _ => by simp⟩
  | @hex p q u v s hp hq hu hv hs =>
    simp only [List.cons_append, if_true] at h
    unfold unicodeEscape at h
    split at h
    · simp at h
    · rename_i hi rest hhex
      obtain rfl := parseHex4_rest hhex
      split at h
      · obtain ⟨x, b', rfl, hb', hr, hx, hitem⟩ := lowSurrogate_strBody hs ht h
        refine ⟨[ch '\\', ch 'u', p, q, u, v] ++ x, b', by simp, hb', hr, by simp, ?_, fun _ => ?_⟩ <;>
          simp only [List.length_append, List.length_cons, List.length_nil] <;> omega
      · split at h
        · simp at h
        · simp only [Option.some.injEq, Prod.mk.injEq] at h
          obtain ⟨rfl, rfl⟩ := h
          have hlen := utf8Write_length hi
          refine ⟨[ch '\\', ch 'u', p, q, u, v], s, rfl, hs, rfl, by simp, ?_, fun _ => ?_⟩ <;>
            simp only [List.length_cons, List.length_nil] <;> omega

/-- Decoding reads a body to its end and never grows it. -/
theorem stringCopyLoop_strBody {cap n : Nat} {b t out d : Bytes} (hb : StrBody b)
    (ht : ∀ s, t ≠ ch '\\' :: ch 'u' :: s) (h : stringCopyLoop cap n (b ++ t) out = (d, true)) :
    ∃ e m, stringCopyLoop cap m t (out ++ e) = (d, true) ∧ e.length ≤ b.length ∧
      (ch '\\' ∈ b → e.length < b.length) := by
  induction n generalizing b out with
  | zero => simp [stringCopyLoop] at h
  | succ n ih =>
    by_cases hne : b = []
    · subst hne
      exact ⟨[], n + 1, by simpa using h, by simp, by simp⟩
    · obtain ⟨c, s, rfl⟩ := List.exists_cons_of_ne_nil hne
      rw [List.cons_append, stringCopyLoop] at h
      split at h
      · rename_i hq
        exact absurd (hq ▸ hb) StrBody.no_quote_head
      · split at h
        · simp at h
        · rename_i item r hitem
          split at h
          · simp at h
          · obtain ⟨x, b', hx, hb', hr, hxne, hle, hlt⟩ := copyItem_strBody hb hne ht hitem
            subst hr
            obtain ⟨e, m, hm, hele, helt⟩ := ih hb' h
            rw [hx]
            refine ⟨item ++ e, m, by simpa using hm, ?_, fun hmem => ?_⟩
            · simp only [List.length_append]
              omega
            · simp only [List.length_append]
              rcases List.mem_append.mp hmem with hmem | hmem
              · have := hlt hmem
                omega
              · have := helt hmem
                omega

/-! ## Splicing -/

theorem stringCopyLoop_quote {cap n : Nat} {r out d : Bytes} (h : stringCopyLoop cap n (ch '"' :: r) out = (d, true)) :
    d = out := by
  cases n with
  | zero => simp [stringCopyLoop] at h
  | succ n =>
    rw [stringCopyLoop, if_pos rfl] at h
    exact (Prod.mk.inj h).1.symm

/-! ## Members around a spliced text -/

theorem quoted_inj {k k' r r' : Bytes} (hk : StrBody k) (hk' : StrBody k') (h : quoted k ++ r = quoted k' ++ r') :
    k = k' ∧ r = r' := by
  have hrest : r = r' := by
    have h1 := parseJsonStringEnd_complete hk r
    rw [h, parseJsonStringEnd_complete hk' r', Option.some.injEq] at h1
    exact h1.symm
  subst hrest
  have hq := List.append_cancel_right h
  rw [quoted, quoted, List.cons.injEq] at hq
  exact ⟨List.append_cancel_right hq.2, rfl⟩

theorem value_inj {v v' r r' : Bytes} (hv : IsValue v) (hv' : IsValue v') (hr : NoNumHead r) (hr' : NoNumHead r')
    (h : v ++ r = v' ++ r') : v = v' ∧ r = r' := by
  have h1 := valueSpan_complete hv hr
  rw [h, valueSpan_complete hv' hr', Option.some.injEq, Prod.mk.injEq] at h1
  exact ⟨h1.1.symm, h1.2.symm⟩

private theorem ws_append_inj {w s t : Bytes} (hw : Ws w) (ht : NoSpaceHead t) (h : w ++ s = t) :
    w = [] ∧ s = t := by
  cases w with
  | nil => exact ⟨rfl, h⟩
  | cons c w =>
    have hc := ht c (w ++ s) h.symm
    rw [hw c (by simp)] at hc
    cases hc

/-- What follows the value of the first member, short of the closing brace. -/
inductive AfterMember : List (Bytes × Bytes) → Bytes → Prop
  | last {w : Bytes} : Ws w → AfterMember [] w
  | more {w w' body : Bytes} {ms : List (Bytes × Bytes)} : Ws w → Ws w' → Reads (.members ms) body →
      AfterMember ms (w ++ (ch ',' :: (w' ++ body)))

theorem AfterMember.noNumHead {ms : List (Bytes × Bytes)} {t : Bytes} (h : AfterMember ms t) (r : Bytes) :
    NoNumHead (t ++ ch '}' :: r) := by
  cases h with
  | last hw => exact Ws.noNumHead hw (NoNumHead.brace r)
  | more hw hw' hb =>
    rw [List.append_assoc]
    exact Ws.noNumHead hw (NoNumHead.comma _)

/-- The first member of a text whose first key is known. -/
theorem members_head {ms : List (Bytes × Bytes)} {body r k s : Bytes} (h : Reads (.members ms) body) (hk : StrBody k)
    (hs : NoSpaceHead s) (heq : body ++ ch '}' :: r = quoted k ++ ch ':' :: s) :
    ∃ v ms' t, ms = (k, v) :: ms' ∧ IsValue v ∧ AfterMember ms' t ∧ v ++ (t ++ ch '}' :: r) = s := by
  have hkey : ∀ {k' w1 w2 v t : Bytes}, StrBody k' → Ws w1 → Ws w2 →
      quoted k' ++ (w1 ++ (ch ':' :: (w2 ++ (v ++ t)))) = quoted k ++ ch ':' :: s → k' = k ∧ v ++ t = s := by
    intro k' w1 w2 v t hk' h1 h2 hq
    obtain ⟨rfl, hrest⟩ := quoted_inj hk' hk hq
    obtain ⟨-, hcolon⟩ := ws_append_inj h1 (NoSpaceHead.cons (by decide)) hrest
    rw [List.cons.injEq] at hcolon
    exact ⟨rfl, (ws_append_inj h2 hs hcolon.2).2⟩
  cases h with
  | @member k' w1 w2 v w hk' h1 h2 hv hw =>
    obtain ⟨rfl, hvt⟩ := hkey hk' h1 h2 (by simpa using heq)
    exact ⟨v, [], w, rfl, hv, .last hw, hvt⟩
  | @memberCons k' w1 w2 v w w' body' ms' hk' h1 h2 hv hw hw' hb =>
    obtain ⟨rfl, hvt⟩ := hkey (t := w ++ (ch ',' :: (w' ++ body')) ++ ch '}' :: r) hk' h1 h2 (by simpa using heq)
    exact ⟨v, ms', _, rfl, hv, .more hw hw' hb, hvt⟩

theorem membersText_cons_quote (m : Bytes × Bytes) (ms : List (Bytes × Bytes)) :
    ∃ u, membersText (m :: ms) = ch '"' :: u := by
  obtain ⟨k, v⟩ := m
  cases ms <;> exact ⟨_, rfl⟩

/-- Members written before a spliced one are read as they were written. -/
theorem members_peel {pre ms0 : List (Bytes × Bytes)} {m : Bytes × Bytes} {r tail : Bytes}
    (hpre : ∀ x ∈ pre, StrBody x.1 ∧ IsValue x.2) {ms : List (Bytes × Bytes)} {body : Bytes}
    (h : Reads (.members ms) body) (heq : body ++ ch '}' :: r = membersText (pre ++ m :: ms0) ++ tail) :
    ∃ ms' body', ms = pre ++ ms' ∧ Reads (.members ms') body' ∧
      body' ++ ch '}' :: r = membersText (m :: ms0) ++ tail := by
  induction pre generalizing ms body with
  | nil => exact ⟨ms, body, rfl, h, heq⟩
  | cons x pre ih =>
    obtain ⟨k, v⟩ := x
    obtain ⟨hk, hv⟩ := hpre (k, v) (by simp)
    have hform : membersText ((k, v) :: (pre ++ m :: ms0)) =
        quoted k ++ ch ':' :: (v ++ ch ',' :: membersText (pre ++ m :: ms0)) := by
      cases pre <;> rfl
    obtain ⟨u, hu⟩ : ∃ u, membersText (pre ++ m :: ms0) = ch '"' :: u := by
      cases pre <;> exact membersText_cons_quote _ _
    rw [List.cons_append, hform] at heq
    obtain ⟨v', ms', t, hms, hv', hafter, hrest⟩ := members_head h hk
      (s := v ++ (ch ',' :: (membersText (pre ++ m :: ms0) ++ tail))) (hv.noSpaceHead.append hv.ne_nil)
      (by simpa using heq)
    obtain ⟨rfl, htail⟩ := value_inj hv' hv (hafter.noNumHead r) (NoNumHead.comma _) hrest
    cases hafter with
    | last hw =>
      obtain ⟨-, hbad⟩ := ws_append_inj hw (NoSpaceHead.cons (by decide)) htail
      rw [List.cons.injEq] at hbad
      exact absurd hbad.1 (by decide)
    | @more w w' body' _ hw hw' hb =>
      rw [List.append_assoc, List.cons_append] at htail
      obtain ⟨-, hcomma⟩ := ws_append_inj hw (NoSpaceHead.cons (by decide)) htail
      rw [List.cons.injEq, List.append_assoc] at hcomma
      obtain ⟨-, hbody⟩ := ws_append_inj hw' (by rw [hu]; exact NoSpaceHead.cons (by decide)) hcomma.2
      obtain ⟨ms2, body2, rfl, hb2, heq2⟩ := ih (fun x hx => hpre x (List.mem_cons_of_mem _ hx)) hb hbody
      exact ⟨ms2, body2, hms, hb2, heq2⟩

/-- An object whose text starts as it was written has its members laid down behind the brace. -/
theorem objText_members {m : Bytes × Bytes} {pm ms : List (Bytes × Bytes)} {v r tail : Bytes} (h : ObjText v ms)
    (heq : v ++ r = objText (m :: pm) ++ tail) :
    ∃ body, Reads (.members ms) body ∧ body ++ ch '}' :: r = membersText (m :: pm) ++ ch '}' :: tail := by
  obtain ⟨u, hu⟩ := membersText_cons_quote m pm
  have hhead : NoSpaceHead (membersText (m :: pm) ++ ch '}' :: tail) := by
    rw [hu]
    exact NoSpaceHead.cons (by decide)
  cases h with
  | @empty w hw =>
    have hrest : w ++ ch '}' :: r = membersText (m :: pm) ++ ch '}' :: tail := by simpa [objText] using heq
    obtain ⟨-, hbad⟩ := ws_append_inj hw hhead hrest
    rw [hu, List.cons_append, List.cons.injEq] at hbad
    exact absurd hbad.1 (by decide)
  | @some w body _ hw hb =>
    have hrest : w ++ (body ++ ch '}' :: r) = membersText (m :: pm) ++ ch '}' :: tail := by simpa [objText] using heq
    exact ⟨body, hb, (ws_append_inj hw hhead hrest).2⟩

/-- A text written as an object and accepted as one is accepted whole. -/
theorem jsonRefTopObject_whole {ms0 : List (Bytes × Bytes)} {event : JsonRef} (hn : NulFree (objText ms0))
    (h : jsonRefTopObject (objText ms0) = some event) : event = objText ms0 ∧ ∃ ms, ObjText (objText ms0) ms := by
  obtain ⟨hfrom, ms, hms⟩ := jsonRefTopObject_sound h
  obtain ⟨-, w, w', hw, hw', hsplit⟩ := jsonRefFromText_sound hfrom
  rw [cstr_eq_self hn] at hsplit
  obtain ⟨-, hev⟩ := ws_append_inj hw (t := objText ms0) (NoSpaceHead.cons (by decide)) hsplit.symm
  have hnil : w' = [] := by
    rcases List.eq_nil_or_concat w' with hnil | ⟨u, c, rfl⟩
    · exact hnil
    · have hlast := congrArg List.getLast? hev
      rw [List.concat_eq_append, ← List.append_assoc, List.getLast?_concat, objText, ← List.cons_append,
        List.getLast?_concat, Option.some.injEq] at hlast
      have hc : isSpace c = true := hw' c (by simp)
      rw [hlast] at hc
      exact absurd hc (by decide)
  rw [hnil, List.append_nil] at hev
  exact ⟨hev, ms, hev ▸ hms⟩

theorem memberLookup_here {k v : Bytes} (ms : List (Bytes × Bytes)) (hk : plainKey k = true) :
    memberLookup k ((k, v) :: ms) = some v := by
  simp [memberLookup, plainKey_copy hk]

theorem memberLookup_skip {key : Bytes} {pre : List (Bytes × Bytes)} (keys : List Bytes) (hpre : pre.map Prod.fst = keys)
    (h : keys.all (fun k => plainKey k && k != key) = true) (ms : List (Bytes × Bytes)) :
    memberLookup key (pre ++ ms) = memberLookup key ms := by
  subst hpre
  induction pre with
  | nil => rfl
  | cons m pre ih =>
    obtain ⟨k, v⟩ := m
    simp only [List.map_cons, List.all_cons, Bool.and_eq_true, bne_iff_ne] at h
    rw [List.cons_append, memberLookup, plainKey_copy h.1.1]
    dsimp only
    rw [if_neg h.1.2, ih h.2]

end Floofclaw.Source.Json
