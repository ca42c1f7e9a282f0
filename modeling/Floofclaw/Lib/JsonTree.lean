import Floofclaw.Lib.JsonLex
import Mathlib.Data.List.Forall2

/-!
# The trees JSON texts denote

A value text denotes a tree: words, numbers, strings and keys as they are
spelled, elements and members in their order. White space between the tokens is
no part of it.
-/

set_option autoImplicit false

namespace Floofclaw.Lib

/-- A value by its spelling. -/
inductive Tree
  | word (text : Bytes)
  | num (text : Bytes)
  | str (body : Bytes)
  | arr (items : List Tree)
  | obj (members : List (Bytes × Tree))

inductive Denotes : Bytes → Tree → Prop
  | word {t : Bytes} : t = lit "true" ∨ t = lit "false" ∨ t = lit "null" → Denotes t (.word t)
  | num {t : Bytes} : NumText t → Denotes t (.num t)
  | str {b : Bytes} : StrBody b → Denotes (quoted b) (.str b)
  | arr {t : Bytes} {xs : List Bytes} {ts : List Tree} : ArrText t xs → xs.length = ts.length →
      (∀ x T, (x, T) ∈ xs.zip ts → Denotes x T) → Denotes t (.arr ts)
  | obj {t : Bytes} {ms : List (Bytes × Bytes)} {ts : List (Bytes × Tree)} : ObjText t ms → ms.length = ts.length →
      (∀ m M, (m, M) ∈ ms.zip ts → m.1 = M.1) → (∀ m M, (m, M) ∈ ms.zip ts → Denotes m.2 M.2) → Denotes t (.obj ts)

theorem exists_forall₂ {α β : Type} {R : α → β → Prop} {xs : List α} (h : ∀ x ∈ xs, ∃ y, R x y) :
    ∃ ys, List.Forall₂ R xs ys := by
  induction xs with
  | nil => exact ⟨[], .nil⟩
  | cons x xs ih =>
    obtain ⟨hx, hxs⟩ := List.forall_mem_cons.mp h
    obtain ⟨y, hy⟩ := hx
    obtain ⟨ys, hys⟩ := ih hxs
    exact ⟨y :: ys, .cons hy hys⟩

theorem Denotes.of_elems {t : Bytes} {xs : List Bytes} (h : ArrText t xs) (hxs : ∀ x ∈ xs, ∃ T, Denotes x T) :
    ∃ T, Denotes t T := by
  obtain ⟨ts, hts⟩ := exists_forall₂ hxs
  obtain ⟨hlen, hzip⟩ := List.forall₂_iff_zip.mp hts
  exact ⟨.arr ts, .arr h hlen fun x T hin => hzip hin⟩

theorem Denotes.of_members {t : Bytes} {ms : List (Bytes × Bytes)} (h : ObjText t ms) (hms : ∀ m ∈ ms, ∃ T, Denotes m.2 T) :
    ∃ T, Denotes t T := by
  have hmember : ∀ m ∈ ms, ∃ M : Bytes × Tree, m.1 = M.1 ∧ Denotes m.2 M.2 := by
    intro m hm
    obtain ⟨T, hT⟩ := hms m hm
    exact ⟨(m.1, T), rfl, hT⟩
  obtain ⟨ts, hts⟩ := exists_forall₂ hmember
  obtain ⟨hlen, hzip⟩ := List.forall₂_iff_zip.mp hts
  exact ⟨.obj ts, .obj h hlen (fun m M hin => (hzip hin).1) fun m M hin => (hzip hin).2⟩

/-- The parts of a text that are values denote trees. -/
def Part.Denoted (t : Bytes) : Part → Prop
  | .value => ∃ T, Denotes t T
  | .elems xs => ∀ x ∈ xs, ∃ T, Denotes x T
  | .members ms => ∀ m ∈ ms, ∃ T, Denotes m.2 T

theorem Reads.denoted {p : Part} {t : Bytes} (h : Reads p t) : p.Denoted t := by
  induction h with
  | true => exact ⟨_, .word (.inl rfl)⟩
  | false => exact ⟨_, .word (.inr (.inl rfl))⟩
  | null => exact ⟨_, .word (.inr (.inr rfl))⟩
  | num hn => exact ⟨_, .num hn⟩
  | str hb => exact ⟨_, .str hb⟩
  | arrEmpty hw => exact Denotes.of_elems (.empty hw) nofun
  | arr hw hb ih => exact Denotes.of_elems (.some hw hb) ih
  | objEmpty hw => exact Denotes.of_members (.empty hw) nofun
  | obj hw hb ih => exact Denotes.of_members (.some hw hb) ih
  | elem _ _ ih => exact List.forall_mem_singleton.mpr ih
  | elemCons _ _ _ _ ih ihs => exact List.forall_mem_cons.mpr ⟨ih, ihs⟩
  | member _ _ _ _ _ ih => exact List.forall_mem_singleton.mpr ih
  | memberCons _ _ _ _ _ _ _ ih ihs => exact List.forall_mem_cons.mpr ⟨ih, ihs⟩

theorem IsValue.denotes {t : Bytes} (h : IsValue t) : ∃ T, Denotes t T := h.denoted

/-! ## Octets along a scan -/

/-- Every octet of the text has the property at the state in which a scan meets it. -/
def Along (P : LexState → Byte → Prop) : LexState → Bytes → Prop
  | _, [] => True
  | st, c :: s => P st c ∧ Along P (st.step c) s

theorem Along.append {P : LexState → Byte → Prop} {st : LexState} {s t : Bytes} (hs : Along P st s)
    (ht : Along P (s.foldl LexState.step st) t) : Along P st (s ++ t) := by
  induction s generalizing st with
  | nil => exact ht
  | cons c s ih => exact ⟨hs.1, ih hs.2 ht⟩

theorem Along.and {P Q : LexState → Byte → Prop} {st : LexState} {s : Bytes} (hp : Along P st s) (hq : Along Q st s)
    {p : Byte → Prop} (h : ∀ st c, P st c → Q st c → p c) : ∀ c ∈ s, p c := by
  induction s generalizing st with
  | nil => exact nofun
  | cons c s ih => exact List.forall_mem_cons.mpr ⟨h st c hp.1 hq.1, ih hp.2 hq.2⟩

/-- A control octet of the text is white space outside its strings. -/
def ControlsOutside (st : LexState) (c : Byte) : Prop := c < 0x20 → st = .outside ∧ isSpace c = true

theorem Along.no_control {st : LexState} {s : Bytes} (h : ∀ c ∈ s, ¬ c < 0x20) : Along ControlsOutside st s := by
  induction s generalizing st with
  | nil => trivial
  | cons c s ih =>
    obtain ⟨hc, hs⟩ := List.forall_mem_cons.mp h
    exact ⟨fun hlt => absurd hlt hc, ih hs⟩

/-- A scan passes the text from the outside to the outside and meets its control octets there. -/
structure Tame (s : Bytes) : Prop where
  along : Along ControlsOutside .outside s
  back : s.foldl LexState.step .outside = .outside

theorem Tame.nil : Tame [] := ⟨trivial, rfl⟩

theorem Tame.append {s t : Bytes} (hs : Tame s) (ht : Tame t) : Tame (s ++ t) :=
  ⟨hs.along.append (hs.back.symm ▸ ht.along), by rw [List.foldl_append, hs.back, ht.back]⟩

theorem Tame.cons {c : Byte} {s : Bytes} (hc : c ≠ ch '"' ∧ c ≠ 0) (hctl : c < 0x20 → isSpace c = true) (hs : Tame s) :
    Tame (c :: s) := by
  have hstep : LexState.step .outside c = .outside := by rw [LexState.step, if_neg hc.1, if_neg hc.2]
  refine ⟨⟨fun hlt => ⟨rfl, hctl hlt⟩, hstep.symm ▸ hs.along⟩, ?_⟩
  rw [List.foldl_cons, hstep, hs.back]

theorem Tame.mark {c : Byte} {s : Bytes} (hc : (c ≠ ch '"' ∧ c ≠ 0) ∧ ¬ c < 0x20) (hs : Tame s) : Tame (c :: s) :=
  hs.cons hc.1 fun hlt => absurd hlt hc.2

theorem Ws.tame {w : Bytes} (h : Ws w) : Tame w := by
  induction w with
  | nil => exact .nil
  | cons c w ih =>
    have hc : isSpace c = true := h c List.mem_cons_self
    refine (ih fun d hd => h d (List.mem_cons_of_mem _ hd)).cons ⟨?_, ?_⟩ fun _ => hc
    · rintro rfl
      exact absurd hc (by decide)
    · rintro rfl
      exact absurd hc (by decide)

theorem NumText.tame {n : Bytes} (h : NumText n) : Tame n := by
  have hdigit : ∀ c, isDigit c = true → (c ≠ ch '"' ∧ c ≠ 0) ∧ ¬ c < 0x20 := by
    have : ∀ k : Fin 256, isDigit (UInt8.ofNat k) = true →
        (UInt8.ofNat k ≠ ch '"' ∧ UInt8.ofNat k ≠ 0) ∧ ¬ UInt8.ofNat k < 0x20 := by decide +kernel
    intro c hc
    simpa using this ⟨c.toNat, c.toNat_lt⟩ (by simpa using hc)
  have hall := numText_all (p := fun c => (c ≠ ch '"' ∧ c ≠ 0) ∧ ¬ c < 0x20) hdigit (by decide) h
  clear h
  induction n with
  | nil => exact .nil
  | cons c n ih =>
    obtain ⟨hc, hn⟩ := List.forall_mem_cons.mp hall
    exact (ih hn).mark hc

theorem StrBody.tame {b : Bytes} (h : StrBody b) : Tame (quoted b) := by
  have hctl : ∀ c ∈ b ++ [ch '"'], ¬ c < 0x20 := by
    intro c hc
    obtain hc | hc := List.mem_append.mp hc
    · exact h.no_control c hc
    · rw [List.mem_singleton.mp hc]
      decide
  have hback := h.staysInside.quoted 0
  refine ⟨⟨fun hlt => absurd hlt (by decide), .no_control hctl⟩, ?_⟩
  have hstate : ∀ (s : Bytes) (x : Lex), (x.run s).state = s.foldl LexState.step x.state := by
    intro s
    induction s with
    | nil => exact fun _ => rfl
    | cons c s ih => exact fun x => ih (x.step c)
  have := hstate (quoted b) ⟨.outside, 0⟩
  rw [hback] at this
  exact this.symm

theorem Reads.tame {p : Part} {t : Bytes} (h : Reads p t) : Tame t := by
  induction h with
  | true => exact .mark (by decide) (.mark (by decide) (.mark (by decide) (.mark (by decide) .nil)))
  | false => exact .mark (by decide) (.mark (by decide) (.mark (by decide) (.mark (by decide) (.mark (by decide) .nil))))
  | null => exact .mark (by decide) (.mark (by decide) (.mark (by decide) (.mark (by decide) .nil)))
  | num hn => exact hn.tame
  | str hb => exact hb.tame
  | arrEmpty hw => exact .mark (by decide) (hw.tame.append (.mark (by decide) .nil))
  | arr hw _ ih => exact .mark (by decide) (hw.tame.append (ih.append (.mark (by decide) .nil)))
  | objEmpty hw => exact .mark (by decide) (hw.tame.append (.mark (by decide) .nil))
  | obj hw _ ih => exact .mark (by decide) (hw.tame.append (ih.append (.mark (by decide) .nil)))
  | elem _ hw ih => exact ih.append hw.tame
  | elemCons _ hw hw' _ ih ihs => exact ih.append (hw.tame.append (.mark (by decide) (hw'.tame.append ihs)))
  | member hk h1 h2 _ hw ih =>
    exact hk.tame.append (h1.tame.append (.mark (by decide) (h2.tame.append (ih.append hw.tame))))
  | memberCons hk h1 h2 _ hw hw' _ ih ihs =>
    exact hk.tame.append (h1.tame.append (.mark (by decide) (h2.tame.append
      (ih.append (hw.tame.append (.mark (by decide) (hw'.tame.append ihs)))))))

end Floofclaw.Lib
