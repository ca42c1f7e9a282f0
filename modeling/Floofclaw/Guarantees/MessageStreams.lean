import Floofclaw.Lib.Growing
import Floofclaw.Source.MessageStream

/-!
# A reply in parts

How a reply is cut into feeds shows in what the sink gets only where the reply
breaks: the walk to the message string and the decoding of its items look at
nothing behind the item they take, so that more text never changes what was
read. A reply that outgrows the buffer, or whose message string is malformed,
is read as nothing at once, but in parts it has shown its front by then.
-/

set_option autoImplicit false

namespace Floofclaw.Guarantees.MessageStreams
open Floofclaw.Lib Floofclaw.Source.Json Floofclaw.Source.MessageStream

/-! ## Sequences -/

/-- The octets of one sequence: a lead and as many continuation octets as it asks for. -/
def Sequence (p : Bytes) : Prop := ∃ c t, p = c :: t ∧ utf8Width c = p.length ∧ ∀ b ∈ t, isCont b = true

/-- Text of whole sequences. -/
inductive Whole : Bytes → Prop
  | nil : Whole []
  | cons {p t : Bytes} : Sequence p → Whole t → Whole (p ++ t)

theorem utf8Width_cont {c : Byte} (h : isCont c = true) : utf8Width c = 0 := by
  have hall : ∀ n : Fin 256, isCont (UInt8.ofNat n) = true → utf8Width (UInt8.ofNat n) = 0 := by decide +kernel
  have := hall ⟨c.toNat, c.toNat_lt⟩
  simp only [UInt8.ofNat_toNat] at this
  exact this h

theorem utf8Width_le (c : Byte) : utf8Width c ≤ 4 := by
  unfold utf8Width
  repeat' split
  all_goals omega

theorem Sequence.lead {p : Bytes} (h : Sequence p) : ∃ c t, p = c :: t ∧ isCont c = false := by
  obtain ⟨c, t, rfl, hwidth, -⟩ := h
  refine ⟨c, t, rfl, ?_⟩
  by_contra hcont
  rw [Bool.not_eq_false] at hcont
  rw [utf8Width_cont hcont, List.length_cons] at hwidth
  omega

theorem Sequence.ne_nil {p : Bytes} (h : Sequence p) : p ≠ [] := by
  obtain ⟨c, t, rfl, -⟩ := h
  exact List.cons_ne_nil c t

theorem Sequence.length_le {p : Bytes} (h : Sequence p) : p.length ≤ 4 := by
  obtain ⟨c, t, -, hwidth, -⟩ := h
  exact hwidth ▸ utf8Width_le c

theorem Whole.atStart {s : Bytes} (h : Whole s) : AtStart s := by
  cases h with
  | nil => exact .nil
  | cons hp _ =>
    obtain ⟨c, t, rfl, hlead⟩ := hp.lead
    exact .cons hlead

theorem Whole.append {s t : Bytes} (hs : Whole s) (ht : Whole t) : Whole (s ++ t) := by
  induction hs with
  | nil => exact ht
  | cons hp _ ih =>
    rw [List.append_assoc]
    exact .cons hp ih

theorem Whole.single {p : Bytes} (h : Sequence p) : Whole p := by
  have := Whole.cons h .nil
  rwa [List.append_nil] at this

/-- A cut in front of an octet that is no continuation leaves whole sequences on both sides. -/
theorem Whole.cut {a b : Bytes} (h : Whole (a ++ b)) (hb : AtStart b) : Whole a ∧ Whole b := by
  generalize hs : a ++ b = s at h
  induction h generalizing a with
  | nil =>
    obtain ⟨rfl, rfl⟩ := List.append_eq_nil_iff.mp hs
    exact ⟨.nil, .nil⟩
  | @cons p t hp ht ih =>
    rcases List.append_eq_append_iff.mp hs with ⟨x, rfl, rfl⟩ | ⟨x, rfl, rfl⟩
    · -- the cut is within the first sequence, or in front of it
      cases x with
      | nil =>
        rw [List.append_nil] at hp
        exact ⟨.single hp, ht⟩
      | cons d x =>
        cases a with
        | nil => exact ⟨.nil, .cons hp ht⟩
        | cons c a =>
          obtain ⟨c', u, heq, -, hconts⟩ := hp
          rw [List.cons_append, List.cons.injEq] at heq
          have hcont := hconts d (by simp [← heq.2])
          rw [hb d (x ++ t) rfl] at hcont
          cases hcont
    · obtain ⟨hx, hb'⟩ := ih rfl
      exact ⟨.cons hp hx, hb'⟩

/-- What follows whole sequences in a text of whole sequences. -/
theorem Whole.rest {a b : Bytes} (ha : Whole a) (h : Whole (a ++ b)) : Whole b := by
  induction ha with
  | nil => exact h
  | @cons p t hp _ ih =>
    rw [List.append_assoc] at h
    refine ih ?_
    obtain ⟨c, u, rfl, hwidth, hconts⟩ := hp
    generalize hs : c :: u ++ (t ++ b) = s at h
    cases h with
    | nil => simp at hs
    | @cons q r hq hr =>
      obtain ⟨c', u', rfl, hwidth', -⟩ := hq
      rw [List.cons_append, List.cons_append, List.cons.injEq] at hs
      obtain ⟨rfl, hs⟩ := hs
      rw [hwidth, List.length_cons, List.length_cons] at hwidth'
      obtain ⟨-, rfl⟩ := List.append_inj hs (by omega)
      exact hr

/-! ## Items -/

/-- A reader has taken a front and would take it before any other text. -/
def Takes (read : Bytes → ScanItem) (s d rest : Bytes) : Prop :=
  ∃ tok, s = tok ++ rest ∧ d.length ≤ tok.length + 1 ∧ Sequence d ∧ ∀ y, read (tok ++ y) = .item d y

theorem hex_some {s : Bytes} {v : Nat} {rest : Bytes} (h : parseHex4 s = some (v, rest)) :
    ∃ tok, s = tok ++ rest ∧ tok.length = 4 ∧ ∀ y, parseHex4 (tok ++ y) = some (v, y) := by
  rw [parseHex4.eq_def] at h
  split at h
  · rename_i a b c d s
    split at h
    · rename_i ha hb hc hd
      cases h
      refine ⟨[a, b, c, d], rfl, rfl, fun y => ?_⟩
      change parseHex4 (a :: b :: c :: d :: y) = _
      rw [parseHex4, ha, hb, hc, hd]
    · cases h
  · cases h

theorem hex_none {s : Bytes} (h : parseHex4 s = none) (hlen : 4 ≤ s.length) (x : Bytes) : parseHex4 (s ++ x) = none := by
  match s, hlen with
  | a :: b :: c :: d :: s, _ =>
    change parseHex4 (a :: b :: c :: d :: (s ++ x)) = none
    rw [parseHex4.eq_def] at h ⊢
    dsimp only at h ⊢
    split at h
    · cases h
    · rfl

theorem width_ascii : ∀ n < 0x80, utf8Width (UInt8.ofNat n) = 1 := by decide
theorem width_two : ∀ n < 32, utf8Width (UInt8.ofNat (0xC0 + n)) = 2 := by decide
theorem width_three : ∀ n < 16, utf8Width (UInt8.ofNat (0xE0 + n)) = 3 := by decide
theorem width_four : ∀ n < 8, utf8Width (UInt8.ofNat (0xF0 + n)) = 4 := by decide
theorem cont_of_lt : ∀ n < 64, isCont (UInt8.ofNat (0x80 + n)) = true := by decide

theorem utf8Write_sequence {cp : Nat} (h : cp ≤ 0x10FFFF) : Sequence (utf8Write cp) := by
  have hconts (n : Nat) : isCont (UInt8.ofNat (0x80 + n % 64)) = true := cont_of_lt _ (Nat.mod_lt _ (by decide))
  unfold utf8Write
  split
  · exact ⟨_, [], rfl, width_ascii cp (by omega), nofun⟩
  · split
    · refine ⟨_, _, rfl, width_two _ (by omega), ?_⟩
      simp only [List.forall_mem_cons, hconts, List.not_mem_nil, false_implies, implies_true, and_self]
    · split
      · refine ⟨_, _, rfl, width_three _ (by omega), ?_⟩
        simp only [List.forall_mem_cons, hconts, List.not_mem_nil, false_implies, implies_true, and_self]
      · refine ⟨_, _, rfl, width_four _ (by omega), ?_⟩
        simp only [List.forall_mem_cons, hconts, List.not_mem_nil, false_implies, implies_true, and_self]

theorem ofCodePoint_item {cp : Nat} {rest d r : Bytes} (h : ScanItem.ofCodePoint cp rest = .item d r) :
    r = rest ∧ Sequence d ∧ ∀ y, ScanItem.ofCodePoint cp y = .item d y := by
  rw [ScanItem.ofCodePoint] at h
  cases happend : appendUtf8 cp with
  | none =>
    rw [happend] at h
    cases h
  | some out =>
    rw [happend] at h
    cases h
    refine ⟨rfl, ?_, fun y => by rw [ScanItem.ofCodePoint, happend]⟩
    rw [appendUtf8] at happend
    split at happend
    · cases happend
    · split at happend
      · rename_i hle
        cases happend
        exact utf8Write_sequence hle
      · cases happend

theorem ofCodePoint_bad {cp : Nat} {rest : Bytes} (h : ScanItem.ofCodePoint cp rest = .bad) (y : Bytes) :
    ScanItem.ofCodePoint cp y = .bad := by
  rw [ScanItem.ofCodePoint] at h ⊢
  cases happend : appendUtf8 cp with
  | none => rfl
  | some out =>
    rw [happend] at h
    cases h

theorem scanLow_item {hi : Nat} {s d rest : Bytes} (h : scanLow hi s = .item d rest) : Takes (scanLow hi) s d rest := by
  rw [scanLow] at h
  split at h
  · cases h
  · rename_i hlen
    split at h
    · cases h
    · rename_i hmark
      rw [Decidable.not_not] at hmark
      split at h
      · cases h
      · rename_i low r hhex
        split at h
        · cases h
        · rename_i hrange
          obtain ⟨rfl, hseq, hany⟩ := ofCodePoint_item h
          obtain ⟨tok, hdrop, htok, hread⟩ := hex_some hhex
          have hsplit : s = lit "\\u" ++ tok ++ rest := by
            rw [← hmark, List.append_assoc, ← hdrop, List.take_append_drop]
          have hlit : (lit "\\u").length = 2 := rfl
          refine ⟨lit "\\u" ++ tok, hsplit, ?_, hseq, fun y => ?_⟩
          · have := hseq.length_le
            rw [List.length_append]
            omega
          · rw [scanLow, if_neg (by simp only [List.length_append]; omega), List.append_assoc, List.take_left' hlit,
              if_neg (by simp), List.drop_left' hlit, hread]
            dsimp only
            rw [if_neg hrange, hany]

theorem scanLow_bad {hi : Nat} {s : Bytes} (h : scanLow hi s = .bad) (x : Bytes) : scanLow hi (s ++ x) = .bad := by
  rw [scanLow] at h
  split at h
  · cases h
  · rename_i hlen
    have htake : (s ++ x).take 2 = s.take 2 := List.take_append_of_le_length (by omega)
    have hdrop : (s ++ x).drop 2 = s.drop 2 ++ x := List.drop_append_of_le_length (by omega)
    rw [scanLow, if_neg (by rw [List.length_append]; omega), htake, hdrop]
    split at h
    · rename_i hmark
      rw [if_pos hmark]
    · rename_i hmark
      rw [if_neg hmark]
      split at h
      · rename_i hhex
        rw [hex_none hhex (by rw [List.length_drop]; omega)]
      · rename_i low r hhex
        obtain ⟨tok, htok, -, hread⟩ := hex_some hhex
        rw [htok, List.append_assoc, hread]
        dsimp only
        split at h
        · rename_i hrange
          rw [if_pos hrange]
        · rename_i hrange
          rw [if_neg hrange]
          exact ofCodePoint_bad h _

theorem scanUnicode_item {s d rest : Bytes} (h : scanUnicode s = .item d rest) : Takes scanUnicode s d rest := by
  rw [scanUnicode] at h
  split at h
  · cases h
  · split at h
    · cases h
    · rename_i hlen cp r hhex
      obtain ⟨tok, htok, hfour, hread⟩ := hex_some hhex
      split at h
      · rename_i hhigh
        obtain ⟨low, rfl, hshort, hseq, hlow⟩ := scanLow_item h
        refine ⟨tok ++ low, by rw [htok, List.append_assoc], by rw [List.length_append]; omega, hseq, fun y => ?_⟩
        rw [scanUnicode, if_neg (by simp only [List.length_append]; omega), List.append_assoc, hread]
        dsimp only
        rw [if_pos hhigh, hlow]
      · rename_i hhigh
        obtain ⟨rfl, hseq, hany⟩ := ofCodePoint_item h
        have := hseq.length_le
        refine ⟨tok, htok, by omega, hseq, fun y => ?_⟩
        rw [scanUnicode, if_neg (by simp only [List.length_append]; omega), hread]
        dsimp only
        rw [if_neg hhigh, hany]

theorem scanUnicode_bad {s : Bytes} (h : scanUnicode s = .bad) (x : Bytes) : scanUnicode (s ++ x) = .bad := by
  rw [scanUnicode] at h
  split at h
  · cases h
  · rename_i hlen
    rw [scanUnicode, if_neg (by rw [List.length_append]; omega)]
    split at h
    · rename_i hhex
      rw [hex_none hhex (by omega)]
    · rename_i cp r hhex
      obtain ⟨tok, htok, -, hread⟩ := hex_some hhex
      rw [htok, List.append_assoc, hread]
      dsimp only
      split at h
      · rename_i hhigh
        rw [if_pos hhigh]
        exact scanLow_bad h x
      · rename_i hhigh
        rw [if_neg hhigh]
        exact ofCodePoint_bad h _

theorem simpleDecoded_sequence {c d : Byte} (h : simpleDecoded c = some d) : Sequence [d] := by
  have hall : ∀ n : Fin 256, (simpleDecoded (UInt8.ofNat n)).all (fun d => utf8Width d = 1) = true := by decide +kernel
  have := hall ⟨c.toNat, c.toNat_lt⟩
  simp only [UInt8.ofNat_toNat, h, Option.all_some, decide_eq_true_eq] at this
  exact ⟨d, [], rfl, this, nofun⟩

example : utf8Width 0xC3 = 2 := by decide +kernel

theorem scanEscape_item {s d rest : Bytes} (h : scanEscape s = .item d rest) : Takes scanEscape s d rest := by
  cases s with
  | nil => cases h
  | cons c s =>
    rw [scanEscape] at h
    split at h
    · rename_i e he
      cases h
      refine ⟨[c], rfl, by simp, simpleDecoded_sequence he, fun y => ?_⟩
      change scanEscape (c :: y) = _
      rw [scanEscape, he]
    · rename_i he
      split at h
      · rename_i hu
        obtain ⟨tok, rfl, hlen, hseq, hany⟩ := scanUnicode_item h
        refine ⟨c :: tok, rfl, by rw [List.length_cons]; omega, hseq, fun y => ?_⟩
        rw [List.cons_append, scanEscape, he]
        dsimp only
        rw [if_pos hu, hany]
      · cases h

theorem scanEscape_bad {s : Bytes} (h : scanEscape s = .bad) (x : Bytes) : scanEscape (s ++ x) = .bad := by
  cases s with
  | nil => cases h
  | cons c s =>
    rw [scanEscape] at h
    rw [List.cons_append, scanEscape]
    split at h
    · cases h
    · split at h
      · rename_i hu
        rw [if_pos hu]
        exact scanUnicode_bad h x
      · rename_i hu
        rw [if_neg hu]

theorem scanRaw_item {c : Byte} {s d rest : Bytes} (h : scanRaw c s = .item d rest) : Takes (scanRaw c) s d rest := by
  rw [scanRaw] at h
  split at h
  · cases h
  · rename_i hcontrol
    split at h
    · cases h
    · rename_i hlead
      split at h
      · cases h
      · rename_i hlen
        split at h
        · rename_i hconts
          cases h
          have htake : (s.take (utf8Width c - 1)).length = utf8Width c - 1 := by
            rw [List.length_take]
            omega
          refine ⟨s.take (utf8Width c - 1), (List.take_append_drop _ _).symm, Nat.le_refl _, ?_, fun y => ?_⟩
          · refine ⟨c, _, rfl, ?_, List.all_eq_true.mp hconts⟩
            rw [List.length_cons, htake]
            omega
          · rw [scanRaw, if_neg hcontrol, if_neg hlead, if_neg (by rw [List.length_append]; omega), List.take_left' htake,
              List.drop_left' htake, if_pos hconts]
        · cases h

theorem scanRaw_bad {c : Byte} {s : Bytes} (h : scanRaw c s = .bad) (x : Bytes) : scanRaw c (s ++ x) = .bad := by
  rw [scanRaw] at h ⊢
  split at h
  · rename_i hcontrol
    rw [if_pos hcontrol]
  · rename_i hcontrol
    rw [if_neg hcontrol]
    split at h
    · rename_i hlead
      rw [if_pos hlead]
    · rename_i hlead
      rw [if_neg hlead]
      split at h
      · cases h
      · rename_i hlen
        rw [if_neg (by rw [List.length_append]; omega), List.take_append_of_le_length (by omega)]
        split at h
        · cases h
        · rename_i hconts
          rw [if_neg hconts]

theorem scanItem_item {c : Byte} {s d rest : Bytes} (h : scanItem c s = .item d rest) : Takes (scanItem c) s d rest := by
  have heq : scanItem c = if c = ch '\\' then scanEscape else scanRaw c := by
    funext s
    rw [scanItem]
    split <;> rfl
  rw [heq] at h ⊢
  split at h
  · rename_i hslash
    rw [if_pos hslash]
    exact scanEscape_item h
  · rename_i hslash
    rw [if_neg hslash]
    exact scanRaw_item h

theorem scanItem_bad {c : Byte} {s : Bytes} (h : scanItem c s = .bad) (x : Bytes) : scanItem c (s ++ x) = .bad := by
  rw [scanItem] at h ⊢
  split at h
  · rename_i hslash
    rw [if_pos hslash]
    exact scanEscape_bad h x
  · rename_i hslash
    rw [if_neg hslash]
    exact scanRaw_bad h x

/-! ## Strings -/

/-- A string that is complete is the same before any other text. -/
theorem scanLoop_complete {cap n : Nat} {s out u rest : Bytes} (h : scanLoop cap n s out = .complete u rest) :
    ∃ tok, s = tok ++ rest ∧ ∀ y m, tok.length ≤ m → scanLoop cap m (tok ++ y) out = .complete u y := by
  induction n generalizing s out with
  | zero => cases h
  | succ n ih =>
    cases s with
    | nil => cases h
    | cons c s =>
      rw [scanLoop] at h
      split at h
      · rename_i hquote
        cases h
        refine ⟨[c], rfl, fun y m hm => ?_⟩
        obtain ⟨m, rfl⟩ : ∃ k, m = k + 1 := ⟨m - 1, by simp at hm; omega⟩
        change scanLoop cap (m + 1) (c :: y) _ = _
        rw [scanLoop, if_pos hquote]
      · rename_i hquote
        split at h
        · cases h
        · cases h
        · rename_i d r hitem
          split at h
          · cases h
          · rename_i hroom
            obtain ⟨tok, rfl, -, -, hany⟩ := scanItem_item hitem
            obtain ⟨more, rfl, hrest⟩ := ih h
            refine ⟨c :: (tok ++ more), by simp, fun y m hm => ?_⟩
            rw [List.length_cons, List.length_append] at hm
            obtain ⟨m, rfl⟩ : ∃ k, m = k + 1 := ⟨m - 1, by omega⟩
            rw [List.cons_append, List.append_assoc, scanLoop, if_neg hquote, hany]
            dsimp only
            rw [if_neg hroom]
            exact hrest y m (by omega)

theorem scanString_complete {cap : Nat} {s u rest : Bytes} (h : scanString cap s = .complete u rest) :
    ∃ tok, s = tok ++ rest ∧ ∀ y, scanString cap (tok ++ y) = .complete u y := by
  obtain ⟨tok, htok, hany⟩ := scanLoop_complete h
  exact ⟨tok, htok, fun y => hany y _ (by rw [List.length_append]; omega)⟩

/-- What is decoded of a string, unless it is malformed. -/
def textOf : Scan → Option Bytes
  | .bad => none
  | .partly out => some out
  | .complete out _ => some out

theorem scanLoop_extends {cap n : Nat} {s out v : Bytes} (h : textOf (scanLoop cap n s out) = some v) (hout : Whole out) :
    out <+: v ∧ Whole v := by
  have hsame (v : Bytes) (hv : some out = some v) : out <+: v ∧ Whole v := by
    cases hv
    exact ⟨List.prefix_refl out, hout⟩
  induction n generalizing s out with
  | zero => exact hsame v h
  | succ n ih =>
    cases s with
    | nil => exact hsame v h
    | cons c s =>
      rw [scanLoop] at h
      split at h
      · exact hsame v h
      · split at h
        · cases h
        · exact hsame v h
        · rename_i d r hitem
          split at h
          · cases h
          · obtain ⟨tok, -, -, hseq, -⟩ := scanItem_item hitem
            have hmore : Whole (out ++ d) := hout.append (.single hseq)
            obtain ⟨hpre, hwhole⟩ := ih h hmore fun v hv => by
              cases hv
              exact ⟨List.prefix_refl _, hmore⟩
            exact ⟨(List.prefix_append out d).trans hpre, hwhole⟩

/-- More text adds to what is decoded, and mends nothing. -/
theorem scanLoop_more {cap n m : Nat} {s out x : Bytes} (hout : Whole out) (hm : (s ++ x).length ≤ m) :
    (textOf (scanLoop cap n s out) = none → textOf (scanLoop cap m (s ++ x) out) = none) ∧
      ∀ u v, textOf (scanLoop cap n s out) = some u → textOf (scanLoop cap m (s ++ x) out) = some v → u <+: v := by
  have hstops (s : Bytes) : ((some out : Option Bytes) = none → textOf (scanLoop cap m (s ++ x) out) = none) ∧
      ∀ u v, some out = some u → textOf (scanLoop cap m (s ++ x) out) = some v → u <+: v := by
    refine ⟨nofun, fun u v hu hv => ?_⟩
    cases hu
    exact (scanLoop_extends hv hout).1
  induction n generalizing s out m with
  | zero => exact hstops s
  | succ n ih =>
    cases s with
    | nil => exact hstops []
    | cons c s =>
      obtain ⟨m, rfl⟩ : ∃ k, m = k + 1 := ⟨m - 1, by simp at hm; omega⟩
      rw [List.cons_append, List.length_cons] at hm
      cases hitem : scanItem c s with
      | short =>
        have hscan : textOf (scanLoop cap (n + 1) (c :: s) out) = some out := by
          rw [scanLoop, hitem]
          split <;> rfl
        rw [hscan]
        exact hstops (c :: s)
      | bad =>
        rw [List.cons_append, scanLoop, scanLoop, hitem, scanItem_bad hitem x]
        split
        · exact ⟨nofun, fun u v hu hv => by cases hu; cases hv; exact List.prefix_refl _⟩
        · exact ⟨fun _ => rfl, fun u v hu => nomatch hu⟩
      | item d r =>
        obtain ⟨tok, rfl, -, hseq, hany⟩ := scanItem_item hitem
        rw [List.cons_append, scanLoop, scanLoop, hitem, List.append_assoc, hany]
        split
        · exact ⟨nofun, fun u v hu hv => by cases hu; cases hv; exact List.prefix_refl _⟩
        · dsimp only
          split
          · exact ⟨fun _ => rfl, fun u v hu => nomatch hu⟩
          · rw [List.append_assoc, List.length_append] at hm
            refine ih (hout.append (.single hseq)) (by omega) fun s => ⟨nofun, fun u v hu hv => ?_⟩
            cases hu
            exact (scanLoop_extends hv (hout.append (.single hseq))).1

/-! ## The walk -/

/-- A token is taken for what it is, and only the octet behind it is looked at. -/
theorem valueTurn_goes {ctx : StreamCtx} {below stack : List StreamCtx} {c : Byte} {s rest : Bytes}
    (h : valueTurn ctx below c s = .goes stack rest) :
    ∃ tok, s = tok ++ rest ∧ ∀ y, y.head? = rest.head? → valueTurn ctx below c (tok ++ y) = .goes stack y := by
  rw [valueTurn] at h
  split at h
  · rename_i hbracket
    split at h
    · cases h
    · rename_i hdepth
      cases h
      refine ⟨[], rfl, fun y _ => ?_⟩
      rw [List.nil_append, valueTurn, if_pos hbracket, if_neg hdepth]
  · rename_i hbracket
    split at h
    · rename_i hquote
      split at h
      · cases h
      · rename_i htarget
        split at h
        · rename_i value r hscan
          cases h
          obtain ⟨tok, rfl, hany⟩ := scanString_complete hscan
          refine ⟨tok, rfl, fun y _ => ?_⟩
          rw [valueTurn, if_neg hbracket, if_pos hquote, if_neg htarget, hany]
        · cases h
    · rename_i hquote
      split at h
      · cases h
      · rename_i d r hdrop
        split at h
        · cases h
        · rename_i hword
          cases h
          have hc : (!valueIsDoneChar c) = true := by simpa using hword
          rw [List.dropWhile_cons, if_pos hc] at hdrop
          refine ⟨s.takeWhile fun c => !valueIsDoneChar c, ?_, fun y hy => ?_⟩
          · rw [← hdrop, List.takeWhile_append_dropWhile]
          · cases y with
            | nil => cases hy
            | cons e y =>
              obtain rfl : e = d := Option.some.inj hy
              have hd : valueIsDoneChar e = true := by
                have := List.head?_dropWhile_not (fun c => !valueIsDoneChar c) s
                rw [hdrop] at this
                simpa using this
              have hend : List.dropWhile (fun c => !valueIsDoneChar c) (e :: y) = e :: y := by
                rw [List.dropWhile_cons, if_neg (by simp [hd])]
              have hall : ∀ x ∈ s.takeWhile fun c => !valueIsDoneChar c, (!valueIsDoneChar x) = true :=
                fun x hx => List.mem_takeWhile_imp (p := fun c => !valueIsDoneChar c) hx
              have hskip : List.dropWhile (fun c => !valueIsDoneChar c) (c :: ((s.takeWhile fun c => !valueIsDoneChar c) ++ e :: y)) =
                  e :: y := by
                rw [List.dropWhile_cons, if_pos hc, List.dropWhile_append_of_pos hall, hend]
              rw [valueTurn, if_neg hbracket, if_neg hquote, hskip]
              dsimp only
              rw [if_neg hword]

theorem tokenTurn_goes {ctx : StreamCtx} {below stack : List StreamCtx} {c : Byte} {s rest : Bytes}
    (h : tokenTurn ctx below c s = .goes stack rest) :
    ∃ tok, s = tok ++ rest ∧ ∀ y, y.head? = rest.head? → tokenTurn ctx below c (tok ++ y) = .goes stack y := by
  have hnone {f : Bytes → Turn} {stack' : List StreamCtx} (hf : ∀ y, f y = .goes stack' y) (hs : f s = .goes stack rest) :
      ∃ tok, s = tok ++ rest ∧ ∀ y, y.head? = rest.head? → f (tok ++ y) = .goes stack y := by
    rw [hf s, Turn.goes.injEq] at hs
    obtain ⟨rfl, rfl⟩ := hs
    exact ⟨[], rfl, fun y _ => hf y⟩
  simp only [tokenTurn] at h ⊢
  cases hkind : ctx.kind with
  | object =>
    rw [hkind] at h
    dsimp only at h ⊢
    by_cases hkey : ctx.state = 0
    · simp only [hkey, if_true] at h ⊢
      by_cases hclose : c = ch '\x7d'
      · simp only [hclose, if_true] at h ⊢
        exact hnone (fun _ => rfl) h
      · simp only [hclose, if_false] at h ⊢
        by_cases hquote : c ≠ ch '"'
        · rw [if_pos hquote] at h
          cases h
        · simp only [if_neg hquote] at h ⊢
          split at h
          · rename_i key r hscan
            cases h
            obtain ⟨tok, rfl, hany⟩ := scanString_complete hscan
            refine ⟨tok, rfl, fun y _ => ?_⟩
            rw [hany]
          · cases h
    · simp only [hkey, if_false] at h ⊢
      by_cases hcolon : ctx.state = 1
      · simp only [hcolon, if_true] at h ⊢
        by_cases hc : c = ch ':'
        · simp only [hc, if_true] at h ⊢
          exact hnone (fun _ => rfl) h
        · rw [if_neg hc] at h
          cases h
      · simp only [hcolon, if_false] at h ⊢
        by_cases hdone : ctx.state = 3
        · simp only [hdone, if_true] at h ⊢
          by_cases hcomma : c = ch ','
          · simp only [hcomma, if_true] at h ⊢
            exact hnone (fun _ => rfl) h
          · simp only [hcomma, if_false] at h ⊢
            by_cases hclose : c = ch '\x7d'
            · simp only [hclose, if_true] at h ⊢
              exact hnone (fun _ => rfl) h
            · rw [if_neg hclose] at h
              cases h
        · simp only [hdone, if_false] at h ⊢
          exact valueTurn_goes h
  | array =>
    rw [hkind] at h
    dsimp only at h ⊢
    by_cases hdone : ctx.state = 1
    · simp only [hdone, if_true] at h ⊢
      by_cases hcomma : c = ch ','
      · simp only [hcomma, if_true] at h ⊢
        exact hnone (fun _ => rfl) h
      · simp only [hcomma, if_false] at h ⊢
        by_cases hclose : c = ch ']'
        · simp only [hclose, if_true] at h ⊢
          exact hnone (fun _ => rfl) h
        · rw [if_neg hclose] at h
          cases h
    · simp only [hdone, if_false] at h ⊢
      by_cases hclose : ctx.state = 0 ∧ c = ch ']'
      · simp only [if_pos hclose] at h ⊢
        exact hnone (fun _ => rfl) h
      · simp only [if_neg hclose] at h ⊢
        exact valueTurn_goes h

theorem valueTurn_message {ctx : StreamCtx} {below : List StreamCtx} {c : Byte} {s body : Bytes}
    (h : valueTurn ctx below c s = .message body) : body = s ∧ ∀ y, valueTurn ctx below c y = .message y := by
  rw [valueTurn] at h
  split at h
  · split at h <;> cases h
  · rename_i hbracket
    split at h
    · rename_i hquote
      split at h
      · rename_i htarget
        cases h
        exact ⟨rfl, fun y => by rw [valueTurn, if_neg hbracket, if_pos hquote, if_pos htarget]⟩
      · split at h <;> cases h
    · split at h
      · cases h
      · split at h <;> cases h

/-- The message is reached at an opening quote, and before any text. -/
theorem tokenTurn_message {ctx : StreamCtx} {below : List StreamCtx} {c : Byte} {s body : Bytes}
    (h : tokenTurn ctx below c s = .message body) : body = s ∧ ∀ y, tokenTurn ctx below c y = .message y := by
  have hvalue (h : valueTurn ctx below c s = .message body) (heq : ∀ y, tokenTurn ctx below c y = valueTurn ctx below c y) :
      body = s ∧ ∀ y, tokenTurn ctx below c y = .message y := by
    obtain ⟨hbody, hany⟩ := valueTurn_message h
    exact ⟨hbody, fun y => (heq y).trans (hany y)⟩
  rw [tokenTurn] at h
  split at h
  · rename_i hkind
    split at h
    · split at h
      · cases h
      · split at h
        · cases h
        · split at h <;> cases h
    · rename_i hkey
      split at h
      · split at h <;> cases h
      · rename_i hcolon
        split at h
        · split at h
          · cases h
          · split at h <;> cases h
        · rename_i hdone
          refine hvalue h fun y => ?_
          rw [tokenTurn, hkind]
          dsimp only
          rw [if_neg hkey, if_neg hcolon, if_neg hdone]
  · rename_i hkind
    split at h
    · split at h
      · cases h
      · split at h <;> cases h
    · rename_i hdone
      split at h
      · cases h
      · rename_i hclose
        refine hvalue h fun y => ?_
        rw [tokenTurn, hkind]
        dsimp only
        rw [if_neg hdone, if_neg hclose]

theorem skipBlanks_append {s rest : Bytes} {c : Byte} (h : skipBlanks s = c :: rest) :
    ∃ blanks, s = blanks ++ c :: rest ∧ ∀ y, skipBlanks (blanks ++ c :: y) = c :: y := by
  have hc : isWs c = false := by
    have := List.head?_dropWhile_not isWs s
    rw [← skipBlanks, h] at this
    exact this
  refine ⟨s.takeWhile isWs, ?_, fun y => ?_⟩
  · rw [← h, skipBlanks, List.takeWhile_append_dropWhile]
  · rw [skipBlanks, List.dropWhile_append_of_pos fun x hx => List.mem_takeWhile_imp hx, List.dropWhile_cons, if_neg (by simp [hc])]

/-- What leads to the message leads to it before any text. -/
theorem locateLoop_message {n : Nat} {stack : List StreamCtx} {s body : Bytes} (h : locateLoop n stack s = .message body) :
    ∃ pre, s = pre ++ body ∧ pre ≠ [] ∧ ∀ y m, pre.length ≤ m → locateLoop m stack (pre ++ y) = .message y := by
  induction n generalizing stack s with
  | zero => cases h
  | succ n ih =>
    cases stack with
    | nil => cases h
    | cons ctx below =>
      rw [locateLoop] at h
      split at h
      · cases h
      · rename_i c s' hblanks
        obtain ⟨blanks, rfl, hskip⟩ := skipBlanks_append hblanks
        split at h
        · cases h
        · rename_i body' hturn
          cases h
          obtain ⟨rfl, hany⟩ := tokenTurn_message hturn
          refine ⟨blanks ++ [c], by simp, by simp, fun y m hm => ?_⟩
          obtain ⟨m, rfl⟩ : ∃ k, m = k + 1 := ⟨m - 1, by simp at hm; omega⟩
          rw [List.append_assoc, List.singleton_append, locateLoop, hskip]
          dsimp only
          rw [hany]
        · rename_i stack' rest hturn
          obtain ⟨tok, rfl, hgoes⟩ := tokenTurn_goes hturn
          obtain ⟨pre, rfl, hne, hrest⟩ := ih h
          refine ⟨blanks ++ c :: (tok ++ pre), by simp, by simp, fun y m hm => ?_⟩
          obtain ⟨m, rfl⟩ : ∃ k, m = k + 1 := ⟨m - 1, by simp at hm; omega⟩
          rw [List.length_append, List.length_cons, List.length_append] at hm
          have hhead : (pre ++ y).head? = (pre ++ body).head? := by
            cases pre with
            | nil => exact absurd rfl hne
            | cons d pre => rfl
          rw [List.append_assoc, List.cons_append, List.append_assoc, locateLoop, hskip]
          dsimp only
          rw [hgoes _ hhead]
          exact hrest y m (by omega)

theorem locate_message {raw body : Bytes} (h : locate raw = .message body) :
    ∃ pre, raw = pre ++ body ∧ ∀ y, locate (pre ++ y) = .message y := by
  rw [locate] at h
  split at h
  · cases h
  · rename_i c s hblanks
    split at h
    · rename_i hopen
      obtain ⟨blanks, rfl, hskip⟩ := skipBlanks_append hblanks
      obtain ⟨pre, rfl, -, hany⟩ := locateLoop_message h
      refine ⟨blanks ++ c :: pre, by simp, fun y => ?_⟩
      rw [List.append_assoc, List.cons_append, locate, hskip]
      dsimp only
      rw [if_pos hopen]
      exact hany y _ (by simp; omega)
    · cases h

/-! ## The reading -/

/-- What a feed of the whole text shows of its message; `none` where it is too long or the message is malformed. -/
def readMessage (t : Bytes) : Option Bytes :=
  if llmRespMax ≤ t.length then none
  else
    match locate t with
    | .nothing _ => some []
    | .message body => textOf (scanString llmRespMax body)

theorem readMessage_whole {t u : Bytes} (h : readMessage t = some u) : Whole u := by
  rw [readMessage] at h
  split at h
  · cases h
  · split at h
    · cases h
      exact .nil
    · exact (scanLoop_extends h .nil).2

theorem readMessage_growing : Growing readMessage := by
  refine ⟨rfl, ?_, ?_⟩
  · intro p x u v hu hv
    rw [readMessage] at hu hv
    split at hu
    · cases hu
    · split at hv
      · cases hv
      · cases hp : locate p with
        | nothing ok =>
          rw [hp] at hu
          cases hu
          exact List.nil_prefix
        | message body =>
          obtain ⟨pre, rfl, hany⟩ := locate_message hp
          rw [hp] at hu
          rw [List.append_assoc, hany] at hv
          exact (scanLoop_more .nil (Nat.le_refl _)).2 u v hu hv
  · intro p x hp
    rw [readMessage] at hp ⊢
    split
    · rfl
    · rename_i hlong
      rw [if_neg (by rw [List.length_append] at hlong; omega)] at hp
      cases hloc : locate p with
      | nothing ok =>
        rw [hloc] at hp
        cases hp
      | message body =>
        obtain ⟨pre, rfl, hany⟩ := locate_message hloc
        rw [hloc] at hp
        rw [List.append_assoc, hany]
        exact (scanLoop_more .nil (Nat.le_refl _)).1 hp

/-! ## Deltas -/

theorem backUp_boundary {s : Bytes} {n : Nat} (h : 0 < backUp s n) : isCont (s.getD (backUp s n) 0) = false := by
  induction n with
  | zero => exact absurd h (Nat.lt_irrefl 0)
  | succ n ih =>
    rw [backUp] at h ⊢
    split at h
    · rename_i hcont
      rw [if_pos hcont]
      exact ih h
    · rename_i hlead
      rw [if_neg hlead]
      simpa using hlead

theorem backUp_pos {s : Bytes} {n j : Nat} (hj : 0 < j) (hle : j ≤ n) (hlead : isCont (s.getD j 0) = false) : 0 < backUp s n := by
  induction n with
  | zero => omega
  | succ n ih =>
    rw [backUp]
    split
    · rename_i hcont
      refine ih ?_
      rcases Nat.lt_or_ge n j with hlt | hge
      · obtain rfl : j = n + 1 := by omega
        rw [hlead] at hcont
        cases hcont
      · exact hge
    · omega

theorem deltaLength_pos {s : Bytes} (h : Whole s) (hne : s ≠ []) : 0 < deltaLength s := by
  have hpos := List.length_pos_iff.mpr hne
  rw [deltaLength]
  rcases Nat.le_total s.length streamDeltaMax with hshort | hlong
  · rw [Nat.min_eq_left hshort]
    refine backUp_pos hpos (Nat.le_refl _) ?_
    rw [List.getD_eq_getElem?_getD, List.getElem?_eq_none (Nat.le_refl _)]
    rfl
  · rw [Nat.min_eq_right hlong]
    cases h with
    | nil => exact absurd rfl hne
    | @cons p t hp ht =>
      have hfour := hp.length_le
      have hdelta : streamDeltaMax = 512 := rfl
      refine backUp_pos (List.length_pos_iff.mpr hp.ne_nil) (by omega) ?_
      rw [List.getD_eq_getElem?_getD, List.getElem?_append_right (Nat.le_refl _), Nat.sub_self]
      cases t with
      | nil => rfl
      | cons c t => exact ht.atStart c t rfl

theorem deltaLength_cut {s : Bytes} (h : Whole s) (hne : s ≠ []) : Whole (s.take (deltaLength s)) ∧ Whole (s.drop (deltaLength s)) := by
  have hboundary := backUp_boundary (deltaLength_pos h hne)
  rw [← deltaLength] at hboundary
  refine Whole.cut (by rwa [List.take_append_drop]) fun c t heq => ?_
  have hget : s.getD (deltaLength s) 0 = c := by
    have hhead : (s.drop (deltaLength s))[0]? = some c := by rw [heq]; rfl
    rw [List.getElem?_drop, Nat.add_zero] at hhead
    rw [List.getD_eq_getElem?_getD, hhead, Option.getD_some]
  rwa [hget] at hboundary

/-- A text of whole sequences is handed on in deltas of whole sequences. -/
theorem emitLoop_whole {n : Nat} {s : Bytes} (h : Whole s) (hn : s.length ≤ n) :
    ∃ deltas, emitLoop (fun _ => true) n s = (deltas, .done) ∧ deltas.flatten = s ∧ ∀ d ∈ deltas, Whole d := by
  induction n generalizing s with
  | zero =>
    cases List.length_eq_zero_iff.mp (Nat.le_zero.mp hn)
    exact ⟨[], rfl, rfl, nofun⟩
  | succ n ih =>
    cases s with
    | nil => exact ⟨[], rfl, rfl, nofun⟩
    | cons c s =>
      have hne : c :: s ≠ [] := List.cons_ne_nil c s
      have hpos := deltaLength_pos h hne
      obtain ⟨hdelta, hrest⟩ := deltaLength_cut h hne
      obtain ⟨deltas, hloop, hflat, hwhole⟩ := ih hrest (by rw [List.length_drop]; omega)
      refine ⟨(c :: s).take (deltaLength (c :: s)) :: deltas, ?_, ?_, List.forall_mem_cons.mpr ⟨hdelta, hwhole⟩⟩
      · rw [emitLoop, if_neg (by omega), hloop]
        rfl
      · rw [List.flatten_cons, hflat, List.take_append_drop]

/-! ## Feeds -/

/-- A stream has handed on what a relay of its reading has. -/
structure Relays (s : LlmMessageStream) (r : Relay Byte Byte) : Prop where
  handed : s.handed.flatten = r.handed
  emitted : s.emitted = r.handed.length
  raw : s.disabled = false → s.raw = r.arrived
  dead : s.disabled = true → readMessage r.arrived = none
  whole : ∀ d ∈ s.handed, Whole d

theorem emitNewText_relays {s : LlmMessageStream} {r : Relay Byte Byte} {bytes v : Bytes} (h : Relays s r)
    (hr : r.Sound readMessage) (hlive : s.disabled = false) (hv : readMessage (r.arrived ++ bytes) = some v) :
    Relays (emitNewText (fun _ => true) { s with raw := s.raw ++ bytes } v).1 (r.take readMessage bytes) := by
  have hhanded := hr.take_some readMessage_growing hv
  obtain ⟨w, rfl⟩ := hr.extends readMessage_growing hv
  have hfront : Whole r.handed := by
    rw [← h.handed]
    have hwhole := h.whole
    generalize s.handed = ds at hwhole
    induction ds with
    | nil => exact .nil
    | cons d ds ih =>
      obtain ⟨hd, hds⟩ := List.forall_mem_cons.mp hwhole
      exact hd.append (ih hds)
  have hw : Whole w := hfront.rest (readMessage_whole hv)
  obtain ⟨deltas, hloop, hflat, hwhole⟩ := emitLoop_whole (n := (r.handed ++ w).length) hw (by simp)
  rw [emitNewText]
  dsimp only
  rw [h.emitted, if_neg (by simp), List.drop_left, hloop]
  refine ⟨?_, by rw [hhanded], fun _ => by rw [h.raw hlive]; rfl, fun hdead => ?_, List.forall_mem_append.mpr ⟨h.whole, hwhole⟩⟩
  · rw [List.flatten_append, h.handed, hflat, hhanded]
  · rw [hlive] at hdead
    cases hdead

/-- Each feed hands on what is new in the reading of all that was fed. -/
theorem feed_relays {s : LlmMessageStream} {r : Relay Byte Byte} (h : Relays s r) (hr : r.Sound readMessage) (bytes : Bytes) :
    Relays (llmMessageStreamFeed (fun _ => true) s bytes).1 (r.take readMessage bytes) := by
  have hnone (hv : readMessage (r.arrived ++ bytes) = none) {s' : LlmMessageStream} (hhanded : s'.handed = s.handed)
      (hemitted : s'.emitted = s.emitted) (hraw : s'.disabled = false → s'.raw = r.arrived ++ bytes) :
      Relays s' (r.take readMessage bytes) := by
    refine ⟨?_, ?_, hraw, fun _ => hv, fun d hd => h.whole d (hhanded ▸ hd)⟩
    · rw [hhanded, r.take_none hv, h.handed]
    · rw [hemitted, r.take_none hv, h.emitted]
  rw [llmMessageStreamFeed]
  by_cases hdisabled : s.disabled = true
  · rw [if_pos hdisabled]
    exact hnone (readMessage_growing.broken _ _ (h.dead hdisabled)) rfl rfl fun hlive => Bool.noConfusion (hdisabled.symm.trans hlive)
  · rw [if_neg hdisabled]
    have hlive : s.disabled = false := by simpa using hdisabled
    by_cases hempty : bytes = []
    · rw [if_pos hempty, hempty, hr.take_nil readMessage_growing]
      exact h
    · rw [if_neg hempty, h.raw hlive]
      by_cases hlong : llmRespMax < r.arrived.length + bytes.length + 1
      · rw [if_pos hlong]
        refine hnone ?_ rfl rfl nofun
        rw [readMessage, if_pos (by rw [List.length_append]; omega)]
      · rw [if_neg hlong]
        have hread : readMessage (r.arrived ++ bytes) =
            match locate (r.arrived ++ bytes) with
            | .nothing _ => some []
            | .message body => textOf (scanString llmRespMax body) := by
          rw [readMessage, if_neg (by rw [List.length_append]; omega)]
        have hstream : ({ s with raw := r.arrived ++ bytes } : LlmMessageStream) = { s with raw := s.raw ++ bytes } := by
          rw [h.raw hlive]
        rw [inspectStream]
        dsimp only
        cases hloc : locate (r.arrived ++ bytes) with
        | nothing ok =>
          rw [hloc] at hread
          have hnil : r.handed = [] := List.prefix_nil.mp (hr.extends readMessage_growing hread)
          have htake := hr.take_some readMessage_growing hread
          refine ⟨?_, ?_, fun _ => rfl, fun hdead => absurd hdead hdisabled, h.whole⟩
          · rw [htake, ← hnil]
            exact h.handed
          · rw [htake, ← hnil]
            exact h.emitted
        | message body =>
          rw [hloc] at hread
          dsimp only at hread ⊢
          cases hscan : scanString llmRespMax body with
          | bad =>
            rw [hscan] at hread
            exact hnone hread rfl rfl fun _ => rfl
          | partly v =>
            rw [hscan] at hread
            dsimp only
            rw [hstream]
            exact emitNewText_relays h hr hlive hread
          | complete v rest =>
            rw [hscan] at hread
            dsimp only
            rw [hstream]
            exact emitNewText_relays h hr hlive hread

theorem feedAll_relays (chunks : List Bytes) : Relays (feedAll chunks) (relay readMessage chunks) := by
  have hfold (s : LlmMessageStream) (r : Relay Byte Byte) (h : Relays s r) (hr : r.Sound readMessage) :
      Relays (chunks.foldl (fun s bytes => (llmMessageStreamFeed (fun _ => true) s bytes).1) s)
        (chunks.foldl (Relay.take readMessage) r) := by
    induction chunks generalizing s r with
    | nil => exact h
    | cons bytes chunks ih => exact ih _ _ (feed_relays h hr bytes) (hr.take readMessage_growing bytes)
  exact hfold _ _ ⟨rfl, rfl, fun _ => rfl, nofun, nofun⟩ (.init readMessage_growing)

/-! ## The text of the message -/

/-- The first message string of the whole reply, decoded as far as it is there; nothing where it is malformed. -/
def messageText (t : Bytes) : Bytes :=
  match locate t with
  | .nothing _ => []
  | .message body => (textOf (scanString (body.length + 1) body)).getD []

/-- How the reply is cut does not show: what is handed on is what one feed hands on, it is at every moment a front of the
message, and no delta splits a sequence. -/
def StreamsAlike (t : Bytes) : Prop :=
  ∀ chunks : List Bytes, chunks.flatten = t →
    (feedAll chunks).handed.flatten = (feedAll [t]).handed.flatten ∧
      (∀ front, front <+: chunks → (feedAll front).handed.flatten <+: messageText t) ∧
      ∀ delta ∈ (feedAll chunks).handed, Whole delta

/-- The message string has an item that is none. -/
def Malformed (t : Bytes) : Prop := ∃ body, locate t = .message body ∧ textOf (scanString (body.length + 1) body) = none

/-- The message string does not begin with an item that is there in full. -/
def Silent (t : Bytes) : Prop :=
  ∀ body c s, locate t = .message body → body = c :: s → c ≠ ch '"' → ∀ d r, scanItem c s ≠ .item d r

/-- The reply fits the buffer and its message is well formed, or its message shows nothing within the buffer. -/
def Meets (t : Bytes) : Prop := (t.length < llmRespMax ∧ ¬ Malformed t) ∨ Silent (t.take (llmRespMax - 1))

/-- A buffer that holds what is left to read is large enough. -/
theorem scanLoop_room {cap cap' n : Nat} {s out : Bytes} (hcap : out.length + s.length < cap) (hcap' : out.length + s.length < cap') :
    scanLoop cap n s out = scanLoop cap' n s out := by
  induction n generalizing s out with
  | zero => rfl
  | succ n ih =>
    cases s with
    | nil => rfl
    | cons c s =>
      rw [scanLoop, scanLoop]
      split
      · rfl
      · split
        · rfl
        · rfl
        · rename_i d r hitem
          obtain ⟨tok, rfl, hlen, -, -⟩ := scanItem_item hitem
          rw [List.length_cons, List.length_append] at hcap hcap'
          rw [if_neg (by omega), if_neg (by omega)]
          exact ih (by rw [List.length_append]; omega) (by rw [List.length_append]; omega)

theorem readMessage_some {t v : Bytes} (h : readMessage t = some v) : messageText t = v := by
  rw [readMessage] at h
  split at h
  · cases h
  · rename_i hfits
    rw [messageText]
    cases hloc : locate t with
    | nothing ok =>
      rw [hloc] at h
      exact Option.some.inj h
    | message body =>
      obtain ⟨pre, rfl, -⟩ := locate_message hloc
      rw [List.length_append] at hfits
      rw [hloc] at h
      dsimp only at h ⊢
      have hroom : scanString (body.length + 1) body = scanString llmRespMax body :=
        scanLoop_room (by simp) (by rw [List.length_nil]; omega)
      rw [hroom, h, Option.getD_some]

theorem readMessage_isSome (t : Bytes) : (readMessage t).isSome = true ↔ t.length < llmRespMax ∧ ¬ Malformed t := by
  rw [readMessage]
  by_cases hlong : llmRespMax ≤ t.length
  · rw [if_pos hlong]
    exact iff_of_false Bool.false_ne_true fun h => absurd h.1 (Nat.not_lt.mpr hlong)
  · rw [if_neg hlong]
    have hfits := Nat.lt_of_not_le hlong
    cases hloc : locate t with
    | nothing ok =>
      refine iff_of_true rfl ⟨hfits, ?_⟩
      rintro ⟨body, hbody, -⟩
      rw [hloc] at hbody
      cases hbody
    | message body =>
      obtain ⟨pre, rfl, -⟩ := locate_message hloc
      rw [List.length_append] at hfits
      have hroom : scanString llmRespMax body = scanString (body.length + 1) body :=
        scanLoop_room (by rw [List.length_nil]; omega) (by simp)
      dsimp only
      rw [hroom, Option.isSome_iff_ne_none, Malformed, hloc]
      simp only [Located.message.injEq, exists_eq_left', List.length_append, hfits, true_and, ne_eq]

theorem silent_iff (t : Bytes) : (∀ p, p <+: t → (readMessage p).getD [] = []) ↔ Silent (t.take (llmRespMax - 1)) := by
  have hmax : llmRespMax = 65536 := rfl
  constructor
  · rintro hall body c s hloc rfl hquote d r hitem
    obtain ⟨pre, hpre, hany⟩ := locate_message hloc
    obtain ⟨tok, rfl, -, hseq, htok⟩ := scanItem_item hitem
    have hfront : pre ++ c :: tok <+: t.take (llmRespMax - 1) := ⟨r, by rw [hpre, List.append_assoc, List.cons_append]⟩
    have hlen : (pre ++ c :: tok).length < llmRespMax := by
      have := hfront.length_le
      rw [List.length_take] at this
      omega
    have hscan : scanString llmRespMax (c :: tok) = .partly d := by
      have hone := htok []
      rw [List.append_nil] at hone
      have hroom : ¬ llmRespMax < ([] : Bytes).length + d.length + 1 := by
        have := hseq.length_le
        rw [List.length_nil]
        omega
      rw [scanString, List.length_cons, scanLoop, if_neg hquote, hone]
      dsimp only
      rw [if_neg hroom]
      cases tok.length <;> rfl
    have hshown := hall _ (hfront.trans (List.take_prefix _ t))
    rw [readMessage, if_neg (by omega), hany] at hshown
    dsimp only at hshown
    rw [hscan] at hshown
    exact hseq.ne_nil hshown
  · intro hsilent p hp
    rw [readMessage]
    split
    · rfl
    · rename_i hfits
      cases hloc : locate p with
      | nothing ok => rfl
      | message body =>
        dsimp only
        cases body with
        | nil => rfl
        | cons c s =>
          obtain ⟨pre, rfl, hany⟩ := locate_message hloc
          have hwithin : (pre ++ c :: s).length ≤ llmRespMax - 1 := by omega
          obtain ⟨x, hx⟩ := List.prefix_take_iff.mpr ⟨hp, hwithin⟩
          rw [scanString, List.length_cons, scanLoop]
          split
          · rfl
          · rename_i hquote
            cases hitem : scanItem c s with
            | bad => rfl
            | short => rfl
            | item d r =>
              obtain ⟨tok, rfl, -, -, htok⟩ := scanItem_item hitem
              refine absurd (htok (r ++ x)) (hsilent _ c _ ?_ rfl hquote d (r ++ x))
              rw [← hx, List.append_assoc, List.cons_append, List.append_assoc]
              exact hany _

/-! ## The reader of the reply -/

/-- How a reply is cut into feeds does not show in what is streamed, just where it fits the buffer and its message string is
well formed, or that string shows nothing at all. -/
theorem streams_alike_iff (t : Bytes) : StreamsAlike t ↔ Meets t := by
  rw [Meets, ← readMessage_isSome, ← silent_iff, ← relay_independent_iff readMessage_growing]
  constructor
  · intro h chunks hchunks
    have hsame := (h chunks hchunks).1
    rwa [(feedAll_relays _).handed, (feedAll_relays _).handed] at hsame
  · rintro h chunks rfl
    refine ⟨?_, ?_, (feedAll_relays _).whole⟩
    · rw [(feedAll_relays _).handed, (feedAll_relays _).handed]
      exact h chunks rfl
    · rintro front ⟨more, rfl⟩
      rw [(feedAll_relays _).handed]
      obtain ⟨p, hp, hread⟩ := (relay_sound readMessage_growing front).front
      rw [relay_arrived] at hp
      have hpt : p <+: (front ++ more).flatten := by
        rw [List.flatten_append]
        exact hp.trans (List.prefix_append _ _)
      rcases (relay_independent_iff readMessage_growing _).mp h with hsome | hsilent
      · obtain ⟨v, hv⟩ := Option.isSome_iff_exists.mp hsome
        obtain ⟨x, hx⟩ := hpt
        rw [readMessage_some hv]
        rw [← hx] at hv
        exact readMessage_growing.grows p x _ v hread hv
      · have hnothing := hsilent p hpt
        rw [hread, Option.getD_some] at hnothing
        rw [hnothing]
        exact List.nil_prefix

/-- A message with a line break as it stands: fed at once it shows nothing, fed up to the break its first line. -/
theorem raw_break_shows : ¬ ∀ t, StreamsAlike t := by
  intro hall
  have hsame := (hall (lit "\x7b\"message\":\"ok\nthen\"\x7d") [lit "\x7b\"message\":\"ok", lit "\nthen\"\x7d"] (by decide +kernel)).1
  revert hsame
  decide +kernel

end Floofclaw.Guarantees.MessageStreams
