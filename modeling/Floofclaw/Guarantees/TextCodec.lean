import Floofclaw.Lib.JsonTree
import Floofclaw.Source.JsonSplice
import Floofclaw.Source.Outbox

/-!
# Escaping and compaction

An escaped text between quotes is a JSON string that decodes to the text, and a
call that runs out of room leaves a front of it. Compaction drops white space
between tokens and nothing else.
-/

set_option autoImplicit false

namespace Floofclaw.Guarantees.TextCodec
open Floofclaw.Lib Floofclaw.Source.Json
open Floofclaw.Source.Outbox (jsonRefValueCompactDup)

/-! ## Escaping -/

/-- Between quotes the text is a JSON string that is copied back as `s` into every buffer with room. -/
structure Spells (e s : Bytes) : Prop where
  accepted : parseJsonStringEnd (quoted e) = some []
  decoded : ∀ outLen, s.length < outLen → jsonRefStringCopy outLen (quoted e) = some s

theorem spells_escaped {s : Bytes} (hs : NulFree s) : Spells (escaped s) s where
  accepted := by simpa using parseJsonStringEnd_complete (escaped_strBody s) []
  decoded := fun _ hfit => jsonRefStringCopy_escaped hs hfit

/-- Wherever the loop stops, it has put down the escapes of a front of the text. -/
theorem escapeLoop_front (outLen : Nat) (s out : Bytes) : ∃ p, p <+: s ∧ (escapeLoop outLen s out).1 = out ++ escaped p := by
  induction s generalizing out with
  | nil => exact ⟨[], List.prefix_rfl, by simp [escapeLoop, escaped]⟩
  | cons c s ih =>
    rw [escapeLoop]
    split
    · exact ⟨[], List.nil_prefix, by simp [escaped]⟩
    · obtain ⟨p, hp, heq⟩ := ih (out ++ escapeByte c)
      refine ⟨c :: p, List.cons_prefix_cons.mpr ⟨rfl, hp⟩, ?_⟩
      rw [heq, List.append_assoc]
      rfl

/-- A call with room leaves the whole text, one without a front of it; both can be read back. -/
theorem jsonEscape_spells {s : Bytes} (hs : NulFree s) (outLen : Nat) :
    ((jsonEscape outLen s).2 = true ↔ (escaped s).length < outLen) ∧
    ((jsonEscape outLen s).2 = true → (jsonEscape outLen s).1.length < outLen ∧ Spells (jsonEscape outLen s).1 s) ∧
    ((jsonEscape outLen s).2 = false → 0 < outLen → (jsonEscape outLen s).1.length < outLen ∧
      NulFree (jsonEscape outLen s).1 ∧ ∃ p, p <+: s ∧ Spells (jsonEscape outLen s).1 p) := by
  have hfull : (jsonEscape outLen s).2 = true → (jsonEscape outLen s).1 = escaped s ∧ (jsonEscape outLen s).1.length < outLen := by
    intro h
    obtain ⟨heq, hlen⟩ := jsonEscape_fits (Prod.ext rfl h)
    rw [cstr_eq_self hs] at heq
    exact ⟨heq, hlen⟩
  refine ⟨⟨fun h => ?_, fun h => ?_⟩, fun h => ?_, fun _ hpos => ?_⟩
  · obtain ⟨heq, hlen⟩ := hfull h
    rwa [heq] at hlen
  · rw [jsonEscape_complete (by rwa [cstr_eq_self hs])]
  · obtain ⟨heq, hlen⟩ := hfull h
    rw [heq] at hlen ⊢
    exact ⟨hlen, spells_escaped hs⟩
  · have hrun : jsonEscape outLen s = escapeLoop outLen s [] := by
      rw [jsonEscape, if_neg (by omega), cstr_eq_self hs]
    obtain ⟨p, hp, heq⟩ := escapeLoop_front outLen s []
    have hlen : (escapeLoop outLen s []).1.length < outLen := escapeLoop_length hpos
    rw [List.nil_append] at heq
    rw [hrun]
    rw [heq] at hlen ⊢
    exact ⟨hlen, escaped_nulFree p, p, hp, spells_escaped fun c hc => hs c (hp.subset hc)⟩

/-- Five octets hold the escape of a line feed and not that of the control octet behind it. -/
theorem jsonEscape_spells_cut :
    ∃ p, p <+: [10, 1] ∧ Spells (jsonEscape 5 [10, 1]).1 p :=
  ((jsonEscape_spells (s := [10, 1]) (.of_all (by decide)) 5).2.2 (by decide) (by decide)).2.2

/-! ## What compaction leaves out -/

/-- No octet outside strings is white space. -/
def Packed (st : LexState) (c : Byte) : Prop := st = .outside → isSpace c = false

def scanState (inString : Bool) : LexState := if inString then .inside else .outside

/-- What the loop puts down is packed, from the state its flag stands for. -/
theorem compactLoop_packed {cap : Nat} {b : Bool} {s out d : Bytes} (hs : NulFree s) (h : compactLoop cap b s out = (d, true)) :
    ∃ e, d = out ++ e ∧ Along Packed (scanState b) e := by
  fun_induction compactLoop cap b s out with
  | case1 b out =>
    obtain ⟨rfl, -⟩ := Prod.mk.inj h
    exact ⟨[], (List.append_nil _).symm, trivial⟩
  | case2 => simp at h
  | case3 => simp at h
  | case4 out e s hfit ih =>
    obtain ⟨e', rfl, he'⟩ := ih (fun x hx => hs x (List.mem_cons_of_mem _ (List.mem_cons_of_mem _ hx))) h
    exact ⟨ch '\\' :: e :: e', List.append_assoc _ _ _, (fun heq => by cases heq), (fun heq => by cases heq), he'⟩
  | case5 => simp at h
  | case6 c s out hb hfit ih =>
    obtain ⟨e', rfl, he'⟩ := ih (fun x hx => hs x (List.mem_cons_of_mem _ hx)) h
    have hstep : LexState.step .inside c = scanState (c ≠ ch '"') := by
      by_cases hq : c = ch '"'
      · rw [hq]
        rfl
      · rw [LexState.step, if_neg hq, if_neg hb, scanState, if_pos (decide_eq_true hq)]
    exact ⟨c :: e', List.append_assoc _ _ _, (fun heq => by cases heq), hstep ▸ he'⟩
  | case7 => simp at h
  | case8 s out hfit ih =>
    obtain ⟨e', rfl, he'⟩ := ih (fun x hx => hs x (List.mem_cons_of_mem _ hx)) h
    exact ⟨ch '"' :: e', List.append_assoc _ _ _, fun _ => by decide, he'⟩
  | case9 c s out hq hsp ih => exact ih (fun x hx => hs x (List.mem_cons_of_mem _ hx)) h
  | case10 => simp at h
  | case11 c s out hq hsp hfit ih =>
    obtain ⟨e', rfl, he'⟩ := ih (fun x hx => hs x (List.mem_cons_of_mem _ hx)) h
    have hstep : LexState.step .outside c = .outside := by
      rw [LexState.step, if_neg hq, if_neg (hs c List.mem_cons_self)]
    exact ⟨c :: e', List.append_assoc _ _ _, fun _ => Bool.eq_false_iff.mpr hsp, hstep.symm ▸ he'⟩

theorem Compacts.packed {t c : Bytes} (hn : NulFree c) (h : Compacts t c) : Along Packed .outside c := by
  obtain ⟨e, he, hpacked⟩ := compactLoop_packed hn (Compacts.of_stable h.value h.stable).run
  rw [List.nil_append] at he
  rw [he]
  exact hpacked

/-! ## What compaction keeps -/

theorem ArrText.compacts {t : Bytes} {xs : List Bytes} (h : ArrText t xs) :
    ∃ c xs', Compacts t c ∧ ArrText c xs' ∧ List.Forall₂ Compacts xs xs' := by
  cases h with
  | @empty w hw =>
    refine ⟨[ch '[', ch ']'], [], ⟨?_, .of_all (by decide), .arrEmpty .nil, rfl⟩, .empty .nil, .nil⟩
    simpa using Squeezes.wrap (x := '[') (y := ']') (by decide) (by decide) hw Squeezes.nil
  | @some w body _ hw hb =>
    obtain ⟨c, xs', hsq, hst, hr, hall⟩ := reads_compactable hb
    refine ⟨ch '[' :: (c ++ [ch ']']), xs', ⟨.wrap (by decide) (by decide) hw hsq, ?_, .arr .nil hr, rfl⟩, .some .nil hr, hall⟩
    simpa using Squeezes.wrap (x := '[') (y := ']') (by decide) (by decide) Ws.nil hst

theorem ObjText.compacts {t : Bytes} {ms : List (Bytes × Bytes)} (h : ObjText t ms) :
    ∃ c ms', Compacts t c ∧ ObjText c ms' ∧ List.Forall₂ (fun m m' => m.1 = m'.1 ∧ Compacts m.2 m'.2) ms ms' := by
  cases h with
  | @empty w hw =>
    refine ⟨[ch '\x7b', ch '\x7d'], [], ⟨?_, .of_all (by decide), .objEmpty .nil, rfl⟩, .empty .nil, .nil⟩
    simpa using Squeezes.wrap (x := '\x7b') (y := '\x7d') (by decide) (by decide) hw Squeezes.nil
  | @some w body _ hw hb =>
    obtain ⟨c, ms', hsq, hst, hr, hall⟩ := reads_compactable hb
    refine ⟨ch '\x7b' :: (c ++ [ch '\x7d']), ms', ⟨.wrap (by decide) (by decide) hw hsq, ?_, .obj .nil hr, rfl⟩, .some .nil hr, hall⟩
    simpa using Squeezes.wrap (x := '\x7b') (y := '\x7d') (by decide) (by decide) Ws.nil hst

theorem forall₂_zip_comp {α β γ : Type} {R : α → β → Prop} {xs : List α} {ys : List β} (h : List.Forall₂ R xs ys)
    {zs : List γ} {y : β} {z : γ} (hin : (y, z) ∈ ys.zip zs) : ∃ x, (x, z) ∈ xs.zip zs ∧ R x y := by
  induction h generalizing zs with
  | nil => cases hin
  | @cons x y' xs ys hxy _ ih =>
    cases zs with
    | nil => cases hin
    | cons z' zs =>
      rw [List.zip_cons_cons, List.mem_cons] at hin
      obtain heq | hin := hin
      · obtain ⟨rfl, rfl⟩ := Prod.mk.inj heq
        exact ⟨x, List.mem_cons_self, hxy⟩
      · obtain ⟨x', hx', hR⟩ := ih hin
        exact ⟨x', List.mem_cons_of_mem _ hx', hR⟩

/-- The compact form denotes what the text does. -/
theorem Denotes.compact {t c : Bytes} {T : Tree} (h : Denotes t T) (hc : Compacts t c) : Denotes c T := by
  induction h generalizing c with
  | @word t ht =>
    have hself : Squeezes t t := by
      obtain rfl | rfl | rfl := ht
      · exact .of_all (by decide)
      · exact .of_all (by decide)
      · exact .of_all (by decide)
    rw [hc.squeezes.unique hself]
    exact .word ht
  | num hn =>
    rw [hc.squeezes.unique (.solid (numText_solid hn))]
    exact .num hn
  | str hb =>
    rw [hc.squeezes.unique (.quoted hb)]
    exact .str hb
  | arr harr hlen _ ih =>
    obtain ⟨c', xs', hc', harr', hall⟩ := ArrText.compacts harr
    rw [hc.squeezes.unique hc'.squeezes]
    refine .arr harr' (hall.length_eq.symm.trans hlen) fun y T hin => ?_
    obtain ⟨x, hx, hxy⟩ := forall₂_zip_comp hall hin
    exact ih x T hx hxy
  | obj hobj hlen hkeys _ ih =>
    obtain ⟨c', ms', hc', hobj', hall⟩ := ObjText.compacts hobj
    rw [hc.squeezes.unique hc'.squeezes]
    refine .obj hobj' (hall.length_eq.symm.trans hlen) (fun m M hin => ?_) fun m M hin => ?_
    · obtain ⟨m', hm', hmm⟩ := forall₂_zip_comp hall hin
      rw [← hmm.1]
      exact hkeys m' M hm'
    · obtain ⟨m', hm', hmm⟩ := forall₂_zip_comp hall hin
      exact ih m' M hm' hmm.2

/-! ## One tree for each text -/

theorem ws_append_eq {w w' s s' : Bytes} (hw : Ws w) (hw' : Ws w') (hs : NoSpaceHead s) (hs' : NoSpaceHead s')
    (h : w ++ s = w' ++ s') : s = s' := by
  have hskip := congrArg skipWs h
  rwa [skipWs_append hw hs, skipWs_append hw' hs'] at hskip

/-- The first member of a text of members, and what follows its value. -/
theorem reads_members_first {ms : List (Bytes × Bytes)} {b : Bytes} (h : Reads (.members ms) b) :
    ∃ k w1 w2 v ms' tail, ms = (k, v) :: ms' ∧ b = quoted k ++ (w1 ++ (ch ':' :: (w2 ++ (v ++ tail)))) ∧
      StrBody k ∧ Ws w1 ∧ Ws w2 ∧ IsValue v ∧ AfterMember ms' tail := by
  cases h with
  | member hk h1 h2 hv hw => exact ⟨_, _, _, _, _, _, rfl, rfl, hk, h1, h2, hv, .last hw⟩
  | memberCons hk h1 h2 hv hw hw' hb => exact ⟨_, _, _, _, _, _, rfl, rfl, hk, h1, h2, hv, .more hw hw' hb⟩

theorem reads_members_inj {ms ms' : List (Bytes × Bytes)} {b b' r r' : Bytes} (h : Reads (.members ms) b)
    (h' : Reads (.members ms') b') (heq : b ++ ch '\x7d' :: r = b' ++ ch '\x7d' :: r') : ms = ms' := by
  induction ms generalizing ms' b b' with
  | nil => cases h
  | cons m ms ih =>
    obtain ⟨k, w1, w2, v, ms1, tail, hms, rfl, hk, h1, h2, hv, hafter⟩ := reads_members_first h
    obtain ⟨k', w1', w2', v', ms1', tail', rfl, rfl, hk', h1', h2', hv', hafter'⟩ := reads_members_first h'
    obtain ⟨rfl, rfl⟩ := List.cons.inj hms
    simp only [List.append_assoc, List.cons_append] at heq
    obtain ⟨rfl, hrest⟩ := quoted_inj hk hk' heq
    have hcolon := ws_append_eq h1 h1' (.cons (by decide)) (.cons (by decide)) hrest
    have hvalue := ws_append_eq h2 h2' (hv.noSpaceHead.append hv.ne_nil) (hv'.noSpaceHead.append hv'.ne_nil) (List.cons.inj hcolon).2
    obtain ⟨rfl, htail⟩ := value_inj hv hv' (hafter.noNumHead r) (hafter'.noNumHead r') hvalue
    cases hafter with
    | last hw =>
      cases hafter' with
      | last hw' => rfl
      | more hw' _ _ =>
        rw [List.append_assoc] at htail
        have := ws_append_eq hw hw' (.cons (by decide)) (.cons (by decide)) htail
        exact absurd (List.cons.inj this).1 (by decide)
    | more hw hsep hb =>
      cases hafter' with
      | last hw' =>
        rw [List.append_assoc] at htail
        have := ws_append_eq hw hw' (.cons (by decide)) (.cons (by decide)) htail
        exact absurd (List.cons.inj this).1 (by decide)
      | more hw' hsep' hb' =>
        simp only [List.append_assoc, List.cons_append] at htail
        have hcomma := ws_append_eq hw hw' (.cons (by decide)) (.cons (by decide)) htail
        have hbody := ws_append_eq hsep hsep' (reads_members_noSpaceHead hb _) (reads_members_noSpaceHead hb' _)
          (List.cons.inj hcomma).2
        rw [ih hb hb' hbody]

/-- An object text behind its brace and the white space there. -/
theorem ObjText.inside {t : Bytes} {ms : List (Bytes × Bytes)} (h : ObjText t ms) :
    ∃ w s, t = ch '\x7b' :: (w ++ s) ∧ Ws w ∧
      (ms = [] ∧ s = [ch '\x7d'] ∨ ∃ body, Reads (.members ms) body ∧ s = body ++ [ch '\x7d']) := by
  cases h with
  | @empty w hw => exact ⟨w, _, rfl, hw, .inl ⟨rfl, rfl⟩⟩
  | @some w body _ hw hb => exact ⟨w, _, rfl, hw, .inr ⟨body, hb, rfl⟩⟩

theorem ObjText.unique {t : Bytes} {ms ms' : List (Bytes × Bytes)} (h : ObjText t ms) (h' : ObjText t ms') : ms = ms' := by
  have hbrace : ∀ {ms1 : List (Bytes × Bytes)} {body : Bytes}, Reads (.members ms1) body → body ++ [ch '\x7d'] ≠ [ch '\x7d'] := by
    intro ms1 body hb he
    obtain ⟨u, rfl⟩ := reads_members_head hb
    exact absurd (List.cons.inj he).1 (by decide)
  have hhead : NoSpaceHead [ch '\x7d'] := .cons (by decide)
  obtain ⟨w, s, rfl, hw, hs⟩ := ObjText.inside h
  obtain ⟨w', s', ht, hw', hs'⟩ := ObjText.inside h'
  have hafter : ∀ {ms1 : List (Bytes × Bytes)} {s1 : Bytes}, (ms1 = [] ∧ s1 = [ch '\x7d'] ∨
      ∃ body, Reads (.members ms1) body ∧ s1 = body ++ [ch '\x7d']) → NoSpaceHead s1 := by
    rintro ms1 s1 (⟨-, rfl⟩ | ⟨body, hb, rfl⟩)
    · exact hhead
    · exact reads_members_noSpaceHead hb _
  have heq := ws_append_eq hw hw' (hafter hs) (hafter hs') (List.cons.inj ht).2
  subst heq
  obtain ⟨rfl, rfl⟩ | ⟨body, hb, rfl⟩ := hs
  · obtain ⟨rfl, -⟩ | ⟨body', hb', he⟩ := hs'
    · rfl
    · exact absurd he.symm (hbrace hb')
  · obtain ⟨-, he⟩ | ⟨body', hb', he⟩ := hs'
    · exact absurd he (hbrace hb)
    · exact reads_members_inj hb hb' he

theorem ArrText.unique {t : Bytes} {xs xs' : List Bytes} (h : ArrText t xs) (h' : ArrText t xs') : xs = xs' :=
  List.ext_getElem? fun i => by rw [← jsonRefArrayGet_eq h, jsonRefArrayGet_eq h']

/-- The type of the texts that denote the tree. -/
def treeType : Tree → JsonRefType
  | .word t => jsonRefInferType t
  | .num _ => .number
  | .str _ => .string
  | .arr _ => .array
  | .obj _ => .object

theorem word_type {t : Bytes} (h : t = lit "true" ∨ t = lit "false" ∨ t = lit "null") :
    jsonRefInferType t = .bool ∨ jsonRefInferType t = .null := by
  obtain rfl | rfl | rfl := h
  · exact .inl rfl
  · exact .inl rfl
  · exact .inr rfl

theorem denotes_type {t : Bytes} {T : Tree} (h : Denotes t T) : jsonRefInferType t = treeType T := by
  cases h with
  | word => rfl
  | num hn => exact inferType_numText hn
  | str => rfl
  | arr h => exact ArrText.inferType h
  | obj h => exact ObjText.inferType h

theorem zip_eq_of_unique {α β : Type} {R : α → β → Prop} {xs : List α} {ys ys' : List β} (hlen : xs.length = ys.length)
    (hlen' : xs.length = ys'.length) (hR' : ∀ x y, (x, y) ∈ xs.zip ys' → R x y)
    (hinj : ∀ x y, (x, y) ∈ xs.zip ys → ∀ y', R x y' → y = y') : ys = ys' := by
  induction xs generalizing ys ys' with
  | nil =>
    rw [List.length_eq_zero_iff.mp hlen.symm, List.length_eq_zero_iff.mp hlen'.symm]
  | cons x xs ih =>
    obtain ⟨y, ys, rfl⟩ := List.exists_cons_of_length_eq_add_one hlen.symm
    obtain ⟨y', ys', rfl⟩ := List.exists_cons_of_length_eq_add_one hlen'.symm
    rw [List.zip_cons_cons] at hR' hinj
    rw [hinj x y List.mem_cons_self y' (hR' x y' List.mem_cons_self),
      ih (Nat.succ.inj hlen) (Nat.succ.inj hlen') (fun x y h => hR' x y (List.mem_cons_of_mem _ h))
        fun x y h => hinj x y (List.mem_cons_of_mem _ h)]

/-- A text denotes one tree. -/
theorem Denotes.unique {t : Bytes} {T T' : Tree} (h : Denotes t T) (h' : Denotes t T') : T = T' := by
  have htype := (denotes_type h).symm.trans (denotes_type h')
  induction h generalizing T' with
  | @word t ht =>
    have hword := word_type ht
    cases h' with
    | word => rfl
    | _ => rcases hword with hw | hw <;> cases hw.symm.trans htype
  | num hn =>
    cases h' with
    | num => rfl
    | word ht => rcases word_type ht with hw | hw <;> cases htype.trans hw
    | _ => cases htype
  | @str b hb =>
    generalize hq : quoted b = q at h'
    cases h' with
    | str hb' => rw [List.append_cancel_right (List.cons.inj hq).2]
    | word ht => rcases word_type ht with hw | hw <;> cases htype.trans hw
    | _ => cases htype
  | @arr t xs ts harr hlen hden ih =>
    cases h' with
    | @arr _ xs' ts' harr' hlen' hden' =>
      obtain rfl := ArrText.unique harr harr'
      rw [zip_eq_of_unique hlen hlen' hden' fun x T hin T' hT' =>
        ih x T hin hT' ((denotes_type (hden x T hin)).symm.trans (denotes_type hT'))]
    | word ht => rcases word_type ht with hw | hw <;> cases htype.trans hw
    | _ => cases htype
  | @obj t ms ts hobj hlen hkeys hden ih =>
    cases h' with
    | @obj _ ms' ts' hobj' hlen' hkeys' hden' =>
      obtain rfl := ObjText.unique hobj hobj'
      have hmember : ∀ m M, (m, M) ∈ ms.zip ts' → m.1 = M.1 ∧ Denotes m.2 M.2 := fun m M hin =>
        ⟨hkeys' m M hin, hden' m M hin⟩
      rw [zip_eq_of_unique hlen hlen' hmember fun m M hin M' hM' => Prod.ext ((hkeys m M hin).symm.trans hM'.1)
        (ih m M hin hM'.2 ((denotes_type (hden m M hin)).symm.trans (denotes_type hM'.2)))]
    | word ht => rcases word_type ht with hw | hw <;> cases htype.trans hw
    | _ => cases htype

/-! ## Compaction -/

/-- Compaction of a value into a buffer of its own size succeeds, denotes the value's one tree, leaves no white
space outside strings and no control octet, and changes nothing the second time. -/
theorem jsonRefValueCompactDup_preserves {v : Bytes} (hv : IsValue v) :
    ∃ c T, jsonRefValueCompactDup v = some c ∧ IsValue c ∧ (∀ T', Denotes v T' ↔ T' = T) ∧ (∀ T', Denotes c T' ↔ T' = T) ∧
      Along Packed .outside c ∧ (∀ x ∈ c, ¬ x < 0x20) ∧ jsonRefValueCompactDup c = some c := by
  obtain ⟨c, hc⟩ := isValue_compacts hv
  obtain ⟨T, hT⟩ := hv.denotes
  have hnul : NulFree c := hc.value.nulFree
  have hself := Compacts.of_stable hc.value hc.stable
  have hpacked := Compacts.packed hnul hc
  have hkept := Denotes.compact hT hc
  refine ⟨c, T, ?_, hc.value, ?_, ?_, hpacked, ?_, ?_⟩
  · rw [jsonRefValueCompactDup, jsonCompact_eq hv.nulFree hc, if_pos (Nat.lt_succ_of_le hc.length_le)]
  · exact fun T' => ⟨fun h => Denotes.unique h hT, fun h => h ▸ hT⟩
  · exact fun T' => ⟨fun h => Denotes.unique h hkept, fun h => h ▸ hkept⟩
  · refine hpacked.and hc.value.tame.along fun st x hp hx hlt => ?_
    obtain ⟨hst, hsp⟩ := hx hlt
    rw [hp hst] at hsp
    exact Bool.false_ne_true hsp
  · rw [jsonRefValueCompactDup, jsonCompact_eq hnul hself, if_pos (Nat.lt_succ_self _)]

theorem jsonRefValueCompactDup_preserves_spaced : ∃ c, jsonRefValueCompactDup (lit "[ 1 ]") = some c ∧ IsValue c := by
  have hv : IsValue (lit "[ 1 ]") := (jsonRefFromText_sound (show jsonRefFromText (lit "[ 1 ]") = _ by rw [lit_ofList]; decide)).1
  obtain ⟨c, -, hc, hvalue, -⟩ := jsonRefValueCompactDup_preserves hv
  exact ⟨c, hc, hvalue⟩

end Floofclaw.Guarantees.TextCodec
