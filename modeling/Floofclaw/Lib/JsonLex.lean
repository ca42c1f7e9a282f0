import Floofclaw.Lib.JsonText

/-!
# Scanning JSON texts octet by octet

A scanner that knows strings and their escapes and counts the containers that
are open. Over a whole JSON text it comes back to where it was; the greatest
count on the way is how deep the text nests.
-/

set_option autoImplicit false

namespace Floofclaw.Lib

/-- Where a scan stands; it is broken by a NUL outside strings. -/
inductive LexState
  | outside | inside | escaped | broken
  deriving DecidableEq, Repr

def LexState.step : LexState → Byte → LexState
  | .outside, c => if c = ch '"' then .inside else if c = 0 then .broken else .outside
  | .inside, c => if c = ch '"' then .outside else if c = ch '\\' then .escaped else .inside
  | .escaped, _ => .inside
  | .broken, _ => .broken

structure Lex where
  state : LexState
  depth : Nat
  deriving DecidableEq, Repr

def Lex.step (x : Lex) (c : Byte) : Lex :=
  ⟨x.state.step c,
    if x.state = .outside then
      if c = ch '{' ∨ c = ch '[' then x.depth + 1 else if c = ch '}' ∨ c = ch ']' then x.depth - 1 else x.depth
    else x.depth⟩

def Lex.run (x : Lex) (s : Bytes) : Lex := s.foldl Lex.step x

theorem Lex.run_append (x : Lex) (s t : Bytes) : x.run (s ++ t) = (x.run s).run t := List.foldl_append

theorem Lex.run_cons (x : Lex) (c : Byte) (s : Bytes) : x.run (c :: s) = (x.step c).run s := rfl

/-! ## Texts that bring a scan back -/

/-- Scanned outside a string, the text ends outside one, with as many containers open. -/
def Returns (s : Bytes) : Prop := ∀ d, Lex.run ⟨.outside, d⟩ s = ⟨.outside, d⟩

/-- Inside a string, up to its closing quote. -/
def StaysInside (s : Bytes) : Prop := ∀ d, Lex.run ⟨.inside, d⟩ s = ⟨.inside, d⟩

theorem StaysInside.nil : StaysInside [] := fun _ => rfl

theorem StaysInside.append {s t : Bytes} (h : StaysInside s) (h' : StaysInside t) : StaysInside (s ++ t) := fun d => by
  rw [Lex.run_append, h d, h' d]

theorem StaysInside.plain {c : Byte} (hq : c ≠ ch '"') (hb : c ≠ ch '\\') : StaysInside [c] := fun d => by
  simp [Lex.run, Lex.step, LexState.step, hq, hb]

theorem StaysInside.pair (c : Byte) : StaysInside [ch '\\', c] := fun d => by
  have hne : ch '\\' ≠ ch '"' := by decide
  simp [Lex.run, Lex.step, LexState.step, hne]

theorem StaysInside.quoted {s : Bytes} (h : StaysInside s) : Returns (quoted s) := fun d => by
  have hopen : Lex.step ⟨.outside, d⟩ (ch '"') = ⟨.inside, d⟩ := by
    have hne : ¬ (ch '"' = ch '{' ∨ ch '"' = ch '[') ∧ ¬ (ch '"' = ch '}' ∨ ch '"' = ch ']') := by decide
    simp [Lex.step, LexState.step, hne.1, hne.2]
  have hclose : Lex.run ⟨.inside, d⟩ [ch '"'] = ⟨.outside, d⟩ := by simp [Lex.run, Lex.step, LexState.step]
  rw [Floofclaw.Lib.quoted, Lex.run_cons, hopen, Lex.run_append, h d, hclose]

theorem isXDigit_ne {c : Byte} (h : isXDigit c = true) : c ≠ ch '"' ∧ c ≠ ch '\\' := by
  constructor
  · rintro rfl
    exact absurd h (by decide)
  · rintro rfl
    exact absurd h (by decide)

theorem StrBody.staysInside {b : Bytes} (h : StrBody b) : StaysInside b := by
  induction h with
  | nil => exact .nil
  | @plain c s hc _ ih =>
    obtain ⟨hq, hb, -⟩ := (isPlain_iff c).mp hc
    exact StaysInside.append (.plain hq hb) ih
  | @simple c s _ _ ih => exact StaysInside.append (.pair c) ih
  | @hex p q r t s hp hq hr ht _ ih =>
    have hdigits : StaysInside [p, q, r, t] :=
      .append (s := [p]) (.plain (isXDigit_ne hp).1 (isXDigit_ne hp).2) (.append (s := [q]) (.plain (isXDigit_ne hq).1 (isXDigit_ne hq).2)
        (.append (s := [r]) (.plain (isXDigit_ne hr).1 (isXDigit_ne hr).2) (.plain (isXDigit_ne ht).1 (isXDigit_ne ht).2)))
    exact (StaysInside.pair (ch 'u')).append (hdigits.append ih)

/-- Every octet of a number is a digit or one of five marks. -/
theorem numText_all {p : Byte → Prop} (hd : ∀ c, isDigit c = true → p c)
    (hmarks : p (ch '+') ∧ p (ch '-') ∧ p (ch '.') ∧ p (ch 'e') ∧ p (ch 'E')) {n : Bytes} (h : NumText n) : ∀ c ∈ n, p c := by
  obtain ⟨hplus, hminus, hpoint, hlower, hupper⟩ := hmarks
  have happend : ∀ {s t : Bytes}, (∀ c ∈ s, p c) → (∀ c ∈ t, p c) → ∀ c ∈ s ++ t, p c := fun hs ht c hc =>
    (List.mem_append.mp hc).elim (hs c) (ht c)
  have hdigits : ∀ {ds : Bytes}, Digits ds → ∀ c ∈ ds, p c := fun hds c hc => hd c (hds.2 c hc)
  have hsign : ∀ {sg : Bytes}, sg = [] ∨ sg = [ch '+'] ∨ sg = [ch '-'] → ∀ c ∈ sg, p c := by
    rintro sg (rfl | rfl | rfl)
    · simp
    · simpa using hplus
    · simpa using hminus
  obtain ⟨hsg, hip, hfr, hex⟩ := h
  refine happend (hsign (hsg.imp_right .inr)) (happend (hdigits hip) (happend ?_ ?_))
  · cases hfr with
    | none => simp
    | some hds => exact List.forall_mem_cons.mpr ⟨hpoint, hdigits hds⟩
  · cases hex with
    | none => simp
    | some he hs hds =>
      refine List.forall_mem_cons.mpr ⟨?_, happend (hsign hs) (hdigits hds)⟩
      rcases he with rfl | rfl
      · exact hlower
      · exact hupper

/-! ## Texts of the grammar are C strings -/

theorem Ws.nulFree {w : Bytes} (h : Ws w) : NulFree w := by
  rintro c hc rfl
  exact absurd (h 0 hc) (by decide)

theorem StrBody.quoted_nulFree {b : Bytes} (h : StrBody b) : NulFree (quoted b) := by
  rintro c hc rfl
  rcases List.mem_cons.mp hc with hquote | hc
  · exact absurd hquote (by decide)
  · rcases List.mem_append.mp hc with hbody | hquote
    · exact h.no_control 0 hbody (by decide)
    · exact absurd (List.mem_singleton.mp hquote) (by decide)

theorem NumText.nulFree {n : Bytes} (h : NumText n) : NulFree n :=
  numText_all (p := fun c => c ≠ 0) (fun c hc h0 => absurd (h0 ▸ hc) (by decide)) (by decide) h

theorem NulFree.cons {c : Byte} {s : Bytes} (hc : c ≠ 0) (h : NulFree s) : NulFree (c :: s) := List.forall_mem_cons.mpr ⟨hc, h⟩

theorem Reads.nulFree {p : Part} {t : Bytes} (h : Reads p t) : NulFree t := by
  have hclose : ∀ {c : Byte}, c ≠ 0 → NulFree [c] := fun hc => .cons hc (by simp [NulFree])
  induction h with
  | true => exact .of_all (by decide)
  | false => exact .of_all (by decide)
  | null => exact .of_all (by decide)
  | num hn => exact hn.nulFree
  | str hb => exact hb.quoted_nulFree
  | arrEmpty hw => exact .cons (by decide) (hw.nulFree.append (hclose (by decide)))
  | arr hw _ ih => exact .cons (by decide) (hw.nulFree.append (ih.append (hclose (by decide))))
  | objEmpty hw => exact .cons (by decide) (hw.nulFree.append (hclose (by decide)))
  | obj hw _ ih => exact .cons (by decide) (hw.nulFree.append (ih.append (hclose (by decide))))
  | elem _ hw ih => exact ih.append hw.nulFree
  | elemCons _ hw hw' _ ih ihs => exact ih.append (hw.nulFree.append (.cons (by decide) (hw'.nulFree.append ihs)))
  | member hk h1 h2 _ hw ih =>
    exact hk.quoted_nulFree.append (h1.nulFree.append (.cons (by decide) (h2.nulFree.append (ih.append hw.nulFree))))
  | memberCons hk h1 h2 _ hw hw' _ ih ihs =>
    exact hk.quoted_nulFree.append (h1.nulFree.append (.cons (by decide) (h2.nulFree.append
      (ih.append (hw.nulFree.append (.cons (by decide) (hw'.nulFree.append ihs)))))))

end Floofclaw.Lib
