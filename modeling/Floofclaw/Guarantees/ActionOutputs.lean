import Floofclaw.Source.ActionOutput
import Floofclaw.Guarantees.FileReports
import Floofclaw.Guarantees.CallEvents

/-!
# What extraction leaves in its buffers

Both buffers hold a JSON value exactly where every object that is printed into
one of them fits, and where a salvaged status and handle are read whole and need
no escape: they are written back as they were decoded.
-/

set_option autoImplicit false

namespace Floofclaw.Guarantees.ActionOutputs
open Floofclaw.Lib Floofclaw.Source.Json Floofclaw.Source.ActionOutput
open Floofclaw.Source.Inbound (escapeOrEmpty)
open Floofclaw.Source.FileIntrinsics (pathMax)
open Floofclaw.Guarantees.FileReports Floofclaw.Guarantees.FirstEvent
open Floofclaw.Guarantees.CallEvents (tailText membersText_tail)

/-! ## Strings and their decoding -/

/-- The value is a string that decodes to the text, however long it is. -/
def Decodes (v : JsonRef) (s : Bytes) : Prop := stringCopyWrite (v.length + 1) v = (s, true)

/-- The object has a string of that name. -/
def Says (obj : JsonRef) (key s : Bytes) : Prop := ∃ v, jsonRefObjectGet obj key = some v ∧ Decodes v s

theorem decodes_escaped (s : Bytes) : Decodes (quoted (escaped s)) s := by
  have hlen := (escaped_length s).1
  rw [Decodes, quoted, stringCopyWrite, if_pos rfl]
  simpa using stringCopyLoop_escaped _ ((escaped s).length + 1) s [] [] (by omega) (by simp; omega)

theorem decodes_plain {s : Bytes} (h : PlainText s) : Decodes (quoted s) s := by
  have := decodes_escaped s
  rwa [escaped_plain h] at this

theorem Decodes.unique {v : JsonRef} {s t : Bytes} (h : Decodes v s) (h' : Decodes v t) : s = t := by
  rw [Decodes] at h h'
  exact (Prod.mk.inj (h.symm.trans h')).1

theorem Says.unique {obj : JsonRef} {key s t : Bytes} (h : Says obj key s) (h' : Says obj key t) : s = t := by
  obtain ⟨v, hv, hs⟩ := h
  obtain ⟨v', hv', ht⟩ := h'
  obtain rfl := Option.some.inj (hv.symm.trans hv')
  exact hs.unique ht

theorem stringCopyLoop_grows (cap n : Nat) (s out : Bytes) : ∃ e, (stringCopyLoop cap n s out).1 = out ++ e := by
  induction n generalizing s out with
  | zero => exact ⟨[], by simp [stringCopyLoop]⟩
  | succ n ih =>
    cases s with
    | nil => exact ⟨[], by simp [stringCopyLoop]⟩
    | cons c s =>
      rw [stringCopyLoop]
      split
      · exact ⟨[], by simp⟩
      · split
        · exact ⟨[], by simp⟩
        · rename_i item r hitem
          split
          · exact ⟨[], by simp⟩
          · obtain ⟨e, he⟩ := ih r (out ++ item)
            exact ⟨item ++ e, by rw [he, List.append_assoc]⟩

/-- A buffer of another size holds a piece of what the whole text decodes to. -/
theorem stringCopyLoop_piece {cap n : Nat} {s out d : Bytes} (h : stringCopyLoop cap n s out = (d, true)) (cap' : Nat) :
    ∃ e, (stringCopyLoop cap' n s out).1 ++ e = d := by
  induction n generalizing s out with
  | zero => simp [stringCopyLoop] at h
  | succ n ih =>
    cases s with
    | nil => simp [stringCopyLoop] at h
    | cons c s =>
      obtain ⟨e, he⟩ := stringCopyLoop_grows cap (n + 1) (c :: s) out
      rw [h] at he
      rw [stringCopyLoop] at h ⊢
      split
      · exact ⟨e, he.symm⟩
      · rename_i hq
        rw [if_neg hq] at h
        split
        · exact ⟨e, he.symm⟩
        · rename_i item r hitem
          rw [hitem] at h
          dsimp only at h
          split
          · exact ⟨e, he.symm⟩
          · split at h
            · simp at h
            · exact ih h

theorem stringCopyWrite_piece {cap : Nat} {v : JsonRef} {s : Bytes} (h : stringCopyWrite cap v = (s, true)) (cap' : Nat) :
    ∃ e, (stringCopyWrite cap' v).1 ++ e = s := by
  cases v with
  | nil => simp [stringCopyWrite] at h
  | cons c u =>
    rw [stringCopyWrite] at h ⊢
    split
    · rename_i hc
      rw [if_pos hc] at h
      exact stringCopyLoop_piece h cap'
    · exact ⟨s, by simp⟩

theorem cstr_piece (s : Bytes) : ∃ e, cstr s ++ e = s := ⟨s.dropWhile (· ≠ 0), List.takeWhile_append_dropWhile⟩

/-- The field a bounded reader leaves is the start of what the string says. -/
theorem Says.field_piece {obj : JsonRef} {key s : Bytes} (h : Says obj key s) (cap : Nat) :
    ∃ e, stringField obj key cap [] ++ e = s := by
  obtain ⟨v, hv, hs⟩ := h
  obtain ⟨e, he⟩ := stringCopyWrite_piece hs cap
  rw [stringField, hv]
  dsimp only
  generalize hcopy : stringCopyWrite cap v = copy at he ⊢
  obtain ⟨out, ok⟩ := copy
  obtain ⟨e', he'⟩ := cstr_piece out
  cases ok with
  | true => exact ⟨e' ++ e, by rw [← List.append_assoc, he', he]⟩
  | false => exact ⟨e' ++ e, by simpa [overlay, ← List.append_assoc, he'] using he⟩

/-- A string without NUL that fits its buffer is read whole. -/
theorem Says.field_whole {obj : JsonRef} {key s : Bytes} {cap : Nat} (h : Says obj key s) (hnul : NulFree s)
    (hfit : s.length < cap) : stringField obj key cap [] = s := by
  obtain ⟨v, hv, hs⟩ := h
  rw [stringField, hv]
  dsimp only
  rw [(stringCopyWrite_fits hs).2 cap hfit]
  exact cstr_eq_self hnul

theorem field_fits (obj : JsonRef) (key : Bytes) {cap : Nat} (hcap : 0 < cap) :
    (stringField obj key cap []).length < cap ∧ NulFree (stringField obj key cap []) :=
  have h : TextField cap (stringField obj key cap []) := stringField_text ⟨by simp [NulFree], by simpa using hcap⟩
  ⟨h.fits, h.nulFree⟩

/-! ## Strings written as they were decoded -/

/-- What follows the value of a member. -/
def memberStop (c : Byte) : Bool := isSpace c || c = ch ',' || c = ch '}'

theorem afterMember_stops {ms : List (Bytes × Bytes)} {t : Bytes} (h : AfterMember ms t) (r : Bytes) :
    ∀ y u, t ++ ch '}' :: r = y :: u → memberStop y = true := by
  have hspace : ∀ {w s : Bytes} {y : Byte} {u : Bytes}, Ws w → (∀ z v, s = z :: v → memberStop z = true) →
      w ++ s = y :: u → memberStop y = true := by
    intro w s y u hw hs heq
    cases w with
    | nil => exact hs y u heq
    | cons c w =>
      rw [List.cons_append, List.cons.injEq] at heq
      rw [memberStop, ← heq.1, hw c List.mem_cons_self]
      rfl
  intro y u heq
  cases h with
  | last hw =>
    refine hspace hw (fun z v hz => ?_) heq
    rw [List.cons.injEq] at hz
    exact hz.1 ▸ (by decide)
  | more hw =>
    rw [List.append_assoc] at heq
    refine hspace hw (fun z v hz => ?_) heq
    rw [List.cons_append, List.cons.injEq] at hz
    exact hz.1 ▸ (by decide)

/-- A string read where a text was written between quotes ends inside the text, or its closing quote was escaped
and the next key follows the string at once. -/
theorem splice_short {b c rest t : Bytes} {x : Byte} (hb : StrBody b)
    (hsplit : b ++ ch '"' :: rest = c ++ ch '"' :: ch ',' :: ch '"' :: x :: t) (hrest : ∀ u, rest ≠ x :: u) :
    ∃ c', c = b ++ c' := by
  rcases List.append_eq_append_iff.mp hsplit with ⟨c', hc', -⟩ | ⟨b2, hb2, htail⟩
  · exact ⟨c', hc'⟩
  · cases b2 with
    | nil => exact ⟨[], by simpa using hb2.symm⟩
    | cons q b3 =>
      rw [List.cons_append, List.cons.injEq] at htail
      obtain ⟨rfl, htail⟩ := htail
      rw [hb2] at hb
      obtain ⟨a, -, -, hb3⟩ := StrBody.around_quote hb
      cases b3 with
      | nil =>
        rw [List.nil_append, List.cons.injEq] at htail
        exact absurd htail.1 (by decide)
      | cons y b4 =>
        rw [List.cons_append, List.cons.injEq] at htail
        obtain ⟨rfl, htail⟩ := htail
        cases b4 with
        | nil =>
          rw [List.nil_append, List.cons.injEq] at htail
          exact absurd htail.2.symm (hrest t)
        | cons z b5 =>
          rw [List.cons_append, List.cons.injEq] at htail
          obtain ⟨rfl, -⟩ := htail
          obtain ⟨a2, ha2, -⟩ := StrBody.around_quote (a := [ch ',']) hb3
          have := congrArg List.getLast? ha2
          rw [List.getLast?_concat] at this
          exact absurd this (by decide)

/-- Decoding never grows a body, and keeps its length only where nothing is escaped. -/
theorem Decodes.body {b s : Bytes} (hb : StrBody b) (h : Decodes (quoted b) s) :
    s.length ≤ b.length ∧ (ch '\\' ∈ b → s.length < b.length) := by
  rw [Decodes, quoted, stringCopyWrite, if_pos rfl] at h
  obtain ⟨e, m, hm, hle, hlt⟩ := stringCopyLoop_strBody hb (by simp [ch]) h
  rw [stringCopyLoop_quote hm, List.nil_append]
  exact ⟨hle, hlt⟩

/-- A spliced member that decodes to something as long as what was spliced: nothing in it is escaped. -/
theorem spliced_member {k c next v' body r tail : Bytes} {ms0 ms : List (Bytes × Bytes)} (hk : StrBody k)
    (hnext : next.head?.any (fun x => !memberStop x) = true) (h : Reads (.members ms) body)
    (heq : body ++ ch '}' :: r = membersText ((k, quoted c) :: (next, v') :: ms0) ++ tail) :
    ∃ v ms', ms = (k, v) :: ms' ∧ ∀ s, Decodes v s → c.length ≤ s.length → c.length = s.length ∧ PlainText c := by
  obtain ⟨x, k', rfl, hx⟩ : ∃ x k', next = x :: k' ∧ memberStop x = false := by
    cases next with
    | nil => cases hnext
    | cons x k' => exact ⟨x, k', rfl, by simpa using hnext⟩
  obtain ⟨t, ht⟩ : ∃ t, membersText ((k, quoted c) :: (x :: k', v') :: ms0) ++ tail =
      quoted k ++ ch ':' :: (quoted c ++ ch ',' :: ch '"' :: x :: t) := by
    refine ⟨k' ++ ch '"' :: ch ':' :: (v' ++ (tailText ms0 ++ tail)), ?_⟩
    rw [membersText, membersText_tail]
    simp [quoted]
  obtain ⟨v, ms', u, hms, hv, hafter, hrest⟩ := members_head h hk (NoSpaceHead.cons (by decide)) (heq.trans ht)
  refine ⟨v, ms', hms, fun s hs hlong => ?_⟩
  obtain ⟨b, hb, rfl⟩ : ∃ b, StrBody b ∧ v = quoted b := by
    obtain ⟨d, w, rfl, -⟩ := hv.head
    obtain rfl : d = ch '"' := (List.cons.inj hrest).1
    exact isValue_string hv rfl
  have hsplit : b ++ ch '"' :: (u ++ ch '}' :: r) = c ++ ch '"' :: ch ',' :: ch '"' :: x :: t := by
    simpa [quoted] using hrest
  obtain ⟨c', rfl⟩ := splice_short hb hsplit fun y hy => by
    have hstop := afterMember_stops hafter r x y hy
    rw [hx] at hstop
    cases hstop
  obtain ⟨hle, hlt⟩ := hs.body hb
  rw [List.length_append] at hlong
  have hnil : c' = [] := List.eq_nil_of_length_eq_zero (by omega)
  rw [hnil, List.append_nil]
  rw [hnil, List.length_nil] at hlong
  exact ⟨by omega, hb.plain_of_no_escape fun hmem => absurd (hlt hmem) (by omega)⟩

/-- The same behind members that are read as they were written, in an object at the start of the text. -/
theorem spliced_carries {k c next v' obj r tail s : Bytes} {pre ms0 ms : List (Bytes × Bytes)} (keys : List Bytes)
    (hkeys : pre.map Prod.fst = keys) (hpre : ∀ m ∈ pre, StrBody m.1 ∧ IsValue m.2)
    (hskip : keys.all (fun key => plainKey key && key != k) = true) (hk : plainKey k = true)
    (hnext : next.head?.any (fun x => !memberStop x) = true) (hobj : ObjText obj ms)
    (heq : obj ++ r = objText (pre ++ (k, quoted c) :: (next, v') :: ms0) ++ tail) (hsaid : Says obj k s)
    (hlong : c.length ≤ s.length) : c.length = s.length ∧ PlainText c := by
  obtain ⟨m, pm, hcons⟩ : ∃ m pm, pre ++ (k, quoted c) :: (next, v') :: ms0 = m :: pm := by
    cases pre with
    | nil => exact ⟨_, _, rfl⟩
    | cons m pre => exact ⟨_, _, rfl⟩
  rw [hcons] at heq
  obtain ⟨body, hbody, hsplit⟩ := objText_members hobj heq
  rw [← hcons] at hsplit
  obtain ⟨ms1, body1, hms, hbody1, hsplit1⟩ := members_peel hpre hbody hsplit
  obtain ⟨v, ms2, hms2, hkeep⟩ := spliced_member (plainKey_strBody hk) hnext hbody1 hsplit1
  obtain ⟨w, hget, hw⟩ := hsaid
  rw [jsonRefObjectGet_eq hobj, hms, hms2, memberLookup_skip keys hkeys hskip, memberLookup_here _ hk] at hget
  obtain rfl := Option.some.inj hget
  exact hkeep s hw hlong

/-! ## Salvaging -/

/-- Status and handle are what the oversized result said; its text may be left out. -/
def Faithful (value result : JsonRef) : Prop :=
  (∃ s, Says value (lit "status") s ∧ Says result (lit "status") s) ∧
  (∃ s, Says value (lit "handle") s ∧ Says result (lit "handle") s) ∧
  ∃ t, Says result (lit "text") t ∧ (t = [] ∨ Says value (lit "text") t)

/-- A string that fits 128 octets and is its own escape. -/
def ReadWhole (value : JsonRef) (key : Bytes) : Prop := ∃ s, Says value key s ∧ PlainText s ∧ s.length < rtSmall

/-- What the reader leaves of the text in 2048 octets: all of it, nothing, or more than its escape has room for. -/
def TextKept (value : JsonRef) : Prop :=
  rtMed * 8 ≤ (escaped (stringField value (lit "text") (rtMed * 4) [])).length ∨
    stringField value (lit "text") (rtMed * 4) [] = [] ∨
    Says value (lit "text") (stringField value (lit "text") (rtMed * 4) [])

structure SalvagesWhole (value : JsonRef) : Prop where
  status : ReadWhole value (lit "status")
  handle : ReadWhole value (lit "handle")
  text : TextKept value

theorem salvage_eq {value : JsonRef} {n : Nat} {salvaged : Bytes} (h : trySalvageManagedOp value n = some salvaged) :
    salvaged = objText (salvagedMembers (salvageStatus value) (salvageHandle value) (salvageText value)) ∧
      salvaged.length < n := by
  rw [trySalvageManagedOp] at h
  split at h
  · cases h
  · dsimp only at h
    split at h
    · cases h
    · rename_i hshort
      cases h
      exact ⟨rfl, Nat.not_le.mp hshort⟩

theorem ReadWhole.field {value : JsonRef} {key : Bytes} (h : ReadWhole value key) :
    PlainText (stringField value key rtSmall []) ∧ Says value key (stringField value key rtSmall []) := by
  obtain ⟨s, hs, hplain, hfit⟩ := h
  rw [hs.field_whole hplain.nulFree hfit]
  exact ⟨hplain, hs⟩

/-- What is read back of a spliced string is the string: so it was read whole and has no escape. -/
theorem readWhole_of_spliced {value : JsonRef} {key s : Bytes} (hvalue : Says value key s)
    (hkeep : (stringField value key rtSmall []).length ≤ s.length →
      (stringField value key rtSmall []).length = s.length ∧ PlainText (stringField value key rtSmall [])) :
    ReadWhole value key := by
  obtain ⟨e, he⟩ := hvalue.field_piece rtSmall
  have hlen := congrArg List.length he
  rw [List.length_append] at hlen
  obtain ⟨hsame, hplain⟩ := hkeep (by omega)
  have hnil : e = [] := List.eq_nil_of_length_eq_zero (by omega)
  rw [hnil, List.append_nil] at he
  have hfit := (field_fits value key (show 0 < rtSmall by decide)).1
  rw [he] at hplain hfit
  exact ⟨s, hvalue, hplain, hfit⟩

theorem salvageText_eq (value : JsonRef) :
    (salvageText value = escaped (stringField value (lit "text") (rtMed * 4) []) ∧
      (escaped (stringField value (lit "text") (rtMed * 4) [])).length < rtMed * 8) ∨
    (salvageText value = [] ∧ rtMed * 8 ≤ (escaped (stringField value (lit "text") (rtMed * 4) [])).length) := by
  have hnul := (field_fits value (lit "text") (show 0 < rtMed * 4 by decide)).2
  rw [salvageText, escapeOrEmpty, mirror_eq hnul]
  split
  · rename_i hfit
    exact .inl ⟨rfl, hfit⟩
  · rename_i hlong
    exact .inr ⟨rfl, Nat.not_lt.mp hlong⟩

/-- The text reads back as what the reader left, or as nothing. -/
theorem salvageText_decodes (value : JsonRef) :
    CleanValue (quoted (salvageText value)) ∧
      ∀ t, Decodes (quoted (salvageText value)) t → ((t = [] ∨ Says value (lit "text") t) ↔ TextKept value) := by
  rcases salvageText_eq value with ⟨heq, hfit⟩ | ⟨heq, hlong⟩
  · rw [heq]
    refine ⟨.text _, fun t ht => ?_⟩
    obtain rfl := ht.unique (decodes_escaped _)
    exact ⟨fun h => .inr h, fun h => h.resolve_left (Nat.not_le.mpr hfit)⟩
  · rw [heq]
    refine ⟨.text [], fun t ht => ?_⟩
    obtain rfl := ht.unique (decodes_escaped [])
    exact ⟨fun _ => .inl hlong, fun _ => .inl rfl⟩

theorem salvagedMembers_written {value : JsonRef} (hs : PlainText (salvageStatus value)) (hh : PlainText (salvageHandle value)) :
    WrittenMembers (salvagedMembers (salvageStatus value) (salvageHandle value) (salvageText value)) := by
  have hclean : ∀ {s : Bytes}, PlainText s → CleanValue (quoted s) := fun h => ⟨.str (.of_plain h), quoted_nulFree h.nulFree⟩
  exact .key (by decide) (hclean hs) (.key (by decide) (hclean hh) (.key (by decide) (salvageText_decodes value).1
    (.key (by decide) ⟨.true, .of_all (lit_all (by decide))⟩ .nil)))

theorem salvage_faithful {value : JsonRef} {n : Nat} {salvaged : Bytes} (h : trySalvageManagedOp value n = some salvaged) :
    (IsValue salvaged ∧ Faithful value salvaged) ↔ SalvagesWhole value := by
  obtain ⟨rfl, -⟩ := salvage_eq h
  constructor
  · rintro ⟨hvalue, ⟨s, hvs, hrs⟩, ⟨s', hvh, hrh⟩, t, ⟨w3, hget3, hw3⟩, htext⟩
    obtain ⟨ms, hms⟩ := isValue_object hvalue rfl
    have hwhole : objText (salvagedMembers (salvageStatus value) (salvageHandle value) (salvageText value)) ++ [] =
        objText ([] ++ salvagedMembers (salvageStatus value) (salvageHandle value) (salvageText value)) ++ [] := rfl
    have hstatus : ReadWhole value (lit "status") :=
      readWhole_of_spliced hvs (spliced_carries [] rfl (by simp) (by decide) (plainKey_lit (by decide)) (by decide) hms hwhole hrs)
    have hplain := hstatus.field.1
    have hpre : ∀ m ∈ [(lit "status", quoted (salvageStatus value))], StrBody m.1 ∧ IsValue m.2 := by
      simp only [List.forall_mem_cons]
      exact ⟨⟨strBody_key (lit_all (by decide)), isValue_quoted (.of_plain hplain)⟩, by simp⟩
    have hhandle : ReadWhole value (lit "handle") :=
      readWhole_of_spliced hvh (spliced_carries [lit "status"] rfl hpre (by decide) (by decide) (by decide) hms hwhole hrh)
    have hwritten := salvagedMembers_written hplain hhandle.field.1
    rw [hwritten.get] at hget3
    obtain rfl := Option.some.inj hget3
    exact ⟨hstatus, hhandle, ((salvageText_decodes value).2 t hw3).mp htext⟩
  · rintro ⟨hstatus, hhandle, htext⟩
    have hwritten := salvagedMembers_written hstatus.field.1 hhandle.field.1
    refine ⟨hwritten.objText.isValue, ⟨_, hstatus.field.2, _, hwritten.get _, decodes_plain hstatus.field.1⟩,
      ⟨_, hhandle.field.2, _, hwritten.get _, decodes_plain hhandle.field.1⟩, ?_⟩
    obtain ⟨t, ht⟩ : ∃ t, Decodes (quoted (salvageText value)) t := by
      rcases salvageText_eq value with ⟨heq, -⟩ | ⟨heq, -⟩
      · exact ⟨stringField value (lit "text") (rtMed * 4) [], by rw [heq]; exact decodes_escaped _⟩
      · exact ⟨[], by rw [heq]; exact decodes_escaped []⟩
    exact ⟨t, ⟨_, hwritten.get _, ht⟩, ((salvageText_decodes value).2 t ht).mpr htext⟩

/-! ## Printed replacements -/

/-- An object printed into a buffer of 4 KiB is JSON exactly where it is not cut. -/
theorem clip_value {ms : List (Bytes × Bytes)} (h : Laid ms) :
    IsValue (clip rtLarge (objText ms)) ↔ (objText ms).length < rtLarge := by
  constructor
  · intro hvalue
    by_contra hlong
    exact objText_cut h.objText (n := rtLarge - 1) (by simp only [rtLarge] at *; omega) hvalue
  · intro hfit
    rw [clip_eq_self hfit]
    exact h.objText.isValue

theorem isValue_decNat (n : Nat) : IsValue (decNat n) := .num (decInt_numText n)

theorem artifactRef_laid (path : Bytes) (outputBytes : Nat) (code : Bytes) : Laid (artifactRefMembers path outputBytes code) := by
  refine ⟨by simp [artifactRefMembers], ?_⟩
  simp only [artifactRefMembers, List.forall_mem_cons]
  exact ⟨⟨strBody_key (lit_all (by decide)), .true⟩, ⟨strBody_key (lit_all (by decide)), isValue_quoted (escapeOrEmpty_strBody _ _)⟩,
    ⟨strBody_key (lit_all (by decide)), isValue_decNat _⟩, ⟨strBody_key (lit_all (by decide)), isValue_quoted (escapeOrEmpty_strBody _ _)⟩, by simp⟩

theorem artifactError_laid (path : Bytes) (outputBytes : Nat) (message : Bytes) :
    Laid (artifactErrorMembers path outputBytes message) := by
  refine ⟨by simp [artifactErrorMembers], ?_⟩
  simp only [artifactErrorMembers, List.forall_mem_cons]
  exact ⟨⟨strBody_key (lit_all (by decide)), isValue_quoted (escapeOrEmpty_strBody _ _)⟩,
    ⟨strBody_key (lit_all (by decide)), isValue_quoted (escapeOrEmpty_strBody _ _)⟩, ⟨strBody_key (lit_all (by decide)), isValue_decNat _⟩, by simp⟩

theorem decNat_plain (n : Nat) : PlainText (decNat n) := fun c hc => isDigit_plain (decNat_digits n c hc)

theorem tooLarge_laid (path : Bytes) (outputBytes resultLen : Nat) : Laid (tooLargeMembers path outputBytes resultLen) := by
  have hmessage : PlainText (tooLargeMessage outputBytes resultLen) := by
    have hfixed : ∀ {s : Bytes}, s.all isPlain = true → PlainText s := fun h => PlainText.of_all h
    exact ((((((((hfixed (lit_all (by decide))).append (decNat_plain _)).append (hfixed (lit_all (by decide)))).append (decNat_plain _)).append
      (hfixed (by decide))).append (hfixed (by decide))).append (hfixed (lit_all (by decide)))).append (decNat_plain _)).append
      (hfixed (lit_all (by decide)))
  refine ⟨by simp [tooLargeMembers], ?_⟩
  simp only [tooLargeMembers, List.forall_mem_cons]
  exact ⟨⟨strBody_key (lit_all (by decide)), isValue_quoted (.of_plain hmessage)⟩,
    ⟨strBody_key (lit_all (by decide)), isValue_quoted (escapeOrEmpty_strBody _ _)⟩, ⟨strBody_key (lit_all (by decide)), isValue_decNat _⟩, by simp⟩

/-! ## Every output -/

/-- The object member of a managed output that does not fit its buffer. -/
def Oversized (output : Bytes) (managed : Bool) (value : JsonRef) : Prop :=
  managed = true ∧ ∃ root, jsonRefFirstObject output = some root ∧ jsonRefObjectGet root (lit "result") = some value ∧
    jsonRefInferType value = .object ∧ rtLarge < value.length + 1

/-- The two buffers of `rt_action_runner_complete_job` hold JSON, and a success never misquotes an oversized result. -/
def ExtractsJson (output path : Bytes) (managed : Bool) : Prop :=
  let e := rtActionOutputExtract output path rtLarge rtLarge managed
  IsValue e.result ∧ IsValue e.error ∧ ∀ value, Oversized output managed value → e.ok = true → Faithful value e.result

/-- An error that does not fit is replaced by an object that does. -/
def ErrorFits (root : JsonRef) (path : Bytes) (outputBytes : Nat) : Prop :=
  ∀ value, jsonRefObjectGet root (lit "error") = some value → rtLarge < value.length + 1 →
    (artifactRefError path outputBytes (lit "action error too large")).length < rtLarge

/-- The condition on an object member `result`. -/
def ResultFits (root value : JsonRef) (path : Bytes) (outputBytes : Nat) (managed : Bool) : Prop :=
  if rtLarge < value.length + 1 then
    if managed = true ∧ (trySalvageManagedOp value rtLarge).isSome = true then
      SalvagesWhole value ∧ ErrorFits root path outputBytes
    else (objText (tooLargeMembers path outputBytes rtLarge)).length < rtLarge
  else ErrorFits root path outputBytes

/-- Every object printed in the place of a member fits, and what is salvaged is read whole and needs no escape. -/
def Extractable (output path : Bytes) (managed : Bool) : Prop :=
  match jsonRefFirstObject output with
  | none =>
    (artifactRefObj path (cstr output).length (lit "invalid_action_output")).length < rtLarge ∧
      (artifactRefError path (cstr output).length (lit "invalid action output")).length < rtLarge
  | some root =>
    match jsonRefObjectGet root (lit "result") with
    | none => ErrorFits root path (cstr output).length
    | some value =>
      if jsonRefInferType value = .object then ResultFits root value path (cstr output).length managed
      else if jsonRefInferType value = .null then ErrorFits root path (cstr output).length
      else
        (artifactRefObj path (cstr output).length (lit "result_not_object")).length < rtLarge ∧
          ErrorFits root path (cstr output).length

theorem extractError_value {root : JsonRef} {ms : List (Bytes × Bytes)} (hroot : ObjText root ms) (hnul : NulFree root)
    (path : Bytes) (outputBytes : Nat) (result : Bytes) :
    (extractError root path outputBytes rtLarge result).result = result ∧
    (extractError root path outputBytes rtLarge result).ok = true ∧
    (IsValue (extractError root path outputBytes rtLarge result).error ↔ ErrorFits root path outputBytes) := by
  unfold extractError ErrorFits
  cases hget : jsonRefObjectGet root (lit "error") with
  | none => exact ⟨rfl, rfl, iff_of_true (by exact .null) (by rintro value hv; cases hv)⟩
  | some value =>
    dsimp only
    split
    · rename_i hlong
      refine ⟨rfl, rfl, (clip_value (artifactError_laid _ _ _)).trans ⟨fun h _ _ _ => h, fun h => h value rfl hlong⟩⟩
    · rename_i hshort
      refine ⟨rfl, rfl, iff_of_true (CleanValue.get hroot hnul hget).value ?_⟩
      rintro v hv hlong
      cases hv
      exact absurd hlong hshort

theorem not_oversized {output : Bytes} {managed : Bool} {root value : JsonRef} (hroot : jsonRefFirstObject output = some root)
    (hresult : jsonRefObjectGet root (lit "result") = some value)
    (h : ¬ (jsonRefInferType value = .object ∧ rtLarge < value.length + 1)) (v : JsonRef) : ¬ Oversized output managed v := by
  rintro ⟨-, root', hroot', hresult', hobj, hlong⟩
  obtain rfl := Option.some.inj (hroot.symm.trans hroot')
  obtain rfl := Option.some.inj (hresult.symm.trans hresult')
  exact h ⟨hobj, hlong⟩

/-- The rest of an extraction behind a result that is a value, and faithful if it was salvaged. -/
theorem extract_behind {output path result : Bytes} {managed : Bool} {root : JsonRef} {ms : List (Bytes × Bytes)} {good : Prop}
    (hroot : ObjText root ms) (hnul : NulFree root)
    (hrun : rtActionOutputExtract output path rtLarge rtLarge managed =
      extractError root path (cstr output).length rtLarge result)
    (hresult : (IsValue result ∧ ∀ value, Oversized output managed value → Faithful value result) ↔ good) :
    ExtractsJson output path managed ↔ good ∧ ErrorFits root path (cstr output).length := by
  obtain ⟨hres, hok, herr⟩ := extractError_value hroot hnul path (cstr output).length result
  rw [ExtractsJson, hrun, hres, hok, herr, ← hresult]
  constructor
  · rintro ⟨hvalue, herror, hfaithful⟩
    exact ⟨⟨hvalue, fun value hv => hfaithful value hv rfl⟩, herror⟩
  · rintro ⟨⟨hvalue, hfaithful⟩, herror⟩
    exact ⟨hvalue, herror, fun value hv _ => hfaithful value hv⟩

/-- Behind a value that was not salvaged only the error is left to fit. -/
theorem extract_fits {output path result : Bytes} {managed : Bool} {root : JsonRef} {ms : List (Bytes × Bytes)}
    (hroot : ObjText root ms) (hnul : NulFree root)
    (hrun : rtActionOutputExtract output path rtLarge rtLarge managed =
      extractError root path (cstr output).length rtLarge result)
    (hvalue : IsValue result) (hsmall : ∀ value, ¬ Oversized output managed value) :
    ExtractsJson output path managed ↔ ErrorFits root path (cstr output).length := by
  have hgood : (IsValue result ∧ ∀ value, Oversized output managed value → Faithful value result) ↔ True :=
    iff_of_true ⟨hvalue, fun v hv => absurd hv (hsmall v)⟩ trivial
  rw [extract_behind hroot hnul hrun hgood, true_and]

/-- The run behind a member `result`. -/
theorem extract_result {output : Bytes} {root value : JsonRef} (hroot : jsonRefFirstObject output = some root)
    (hresult : jsonRefObjectGet root (lit "result") = some value) (path : Bytes) (managed : Bool) :
    rtActionOutputExtract output path rtLarge rtLarge managed =
      extractResult root value path (cstr output).length rtLarge rtLarge managed := by
  rw [rtActionOutputExtract, hroot]
  simp only [hresult]

theorem emptyResult_value : IsValue (clip rtLarge (lit "\x7b\x7d")) := emptyObject_value

/-- Extraction leaves JSON in both buffers, and salvages faithfully, exactly where every piece fits and is its own escape. -/
theorem extraction_yields_json (output path : Bytes) (managed : Bool) :
    ExtractsJson output path managed ↔ Extractable output path managed := by
  unfold Extractable
  cases hfirst : jsonRefFirstObject output with
  | none =>
    have hrun : rtActionOutputExtract output path rtLarge rtLarge managed =
        { result := clip rtLarge (artifactRefObj path (cstr output).length (lit "invalid_action_output"))
          error := clip rtLarge (artifactRefError path (cstr output).length (lit "invalid action output")), ok := false } := by
      rw [rtActionOutputExtract, hfirst]
    rw [ExtractsJson, hrun]
    dsimp only
    rw [artifactRefObj, artifactRefError, clip_value (artifactRef_laid _ _ _), clip_value (artifactError_laid _ _ _)]
    exact ⟨fun h => ⟨h.1, h.2.1⟩, fun h => ⟨h.1, h.2, fun _ _ hok => absurd hok (by simp)⟩⟩
  | some root =>
    obtain ⟨⟨ms, hms⟩, hsub⟩ := Source.EventLog.firstObjectLoop_sound hfirst
    have hnul : NulFree root := fun c hc => cstr_nulFree _ c (hsub hc)
    dsimp only
    cases hget : jsonRefObjectGet root (lit "result") with
    | none =>
      dsimp only
      have hrun : rtActionOutputExtract output path rtLarge rtLarge managed =
          extractError root path (cstr output).length rtLarge (clip rtLarge (lit "\x7b\x7d")) := by
        rw [rtActionOutputExtract, hfirst]
        dsimp only
        rw [hget]
      refine extract_fits hms hnul hrun emptyResult_value ?_
      rintro value ⟨-, root', hroot', hresult', -⟩
      obtain rfl := Option.some.inj (hfirst.symm.trans hroot')
      rw [hget] at hresult'
      cases hresult'
    | some value =>
      dsimp only
      have hclean : CleanValue value := .get hms hnul hget
      by_cases hobj : jsonRefInferType value = .object
      · rw [if_pos hobj, ResultFits]
        by_cases hlong : rtLarge < value.length + 1
        · rw [if_pos hlong]
          by_cases hsalvage : managed = true ∧ (trySalvageManagedOp value rtLarge).isSome = true
          · obtain ⟨hmanaged, hsome⟩ := hsalvage
            obtain ⟨salvaged, hsalvaged⟩ := Option.isSome_iff_exists.mp hsome
            rw [if_pos ⟨hmanaged, hsome⟩]
            have hrun : rtActionOutputExtract output path rtLarge rtLarge managed =
                extractError root path (cstr output).length rtLarge salvaged := by
              rw [extract_result hfirst hget, extractResult, if_pos hobj, if_pos hlong, if_pos hmanaged, hsalvaged]
            refine extract_behind hms hnul hrun ?_
            rw [← salvage_faithful hsalvaged]
            constructor
            · rintro ⟨hvalue, hfaithful⟩
              exact ⟨hvalue, hfaithful value ⟨hmanaged, root, hfirst, hget, hobj, hlong⟩⟩
            · rintro ⟨hvalue, hfaithful⟩
              refine ⟨hvalue, ?_⟩
              rintro v ⟨-, root', hroot', hresult', -⟩
              obtain rfl := Option.some.inj (hfirst.symm.trans hroot')
              obtain rfl := Option.some.inj (hget.symm.trans hresult')
              exact hfaithful
          · rw [if_neg hsalvage]
            have hnone : (if managed then trySalvageManagedOp value rtLarge else none) = none := by
              cases managed with
              | false => rfl
              | true => simpa using hsalvage
            have hrun : rtActionOutputExtract output path rtLarge rtLarge managed =
                { result := clip rtLarge (lit "\x7b\x7d")
                  error := clip rtLarge (objText (tooLargeMembers path (cstr output).length rtLarge)), ok := false } := by
              rw [extract_result hfirst hget, extractResult, if_pos hobj, if_pos hlong, hnone]
            rw [ExtractsJson, hrun]
            dsimp only
            rw [clip_value (tooLarge_laid _ _ _)]
            exact ⟨fun h => h.2.1, fun h => ⟨emptyResult_value, h, fun _ _ hok => absurd hok (by simp)⟩⟩
        · rw [if_neg hlong]
          have hrun : rtActionOutputExtract output path rtLarge rtLarge managed =
              extractError root path (cstr output).length rtLarge value := by
            rw [extract_result hfirst hget, extractResult, if_pos hobj, if_neg hlong]
          exact extract_fits hms hnul hrun hclean.value (not_oversized hfirst hget fun h => hlong h.2)
      · rw [if_neg hobj]
        have hsmall : ∀ v, ¬ Oversized output managed v := not_oversized hfirst hget fun h => hobj h.1
        by_cases hnull : jsonRefInferType value = .null
        · rw [if_pos hnull]
          have hrun : rtActionOutputExtract output path rtLarge rtLarge managed =
              extractError root path (cstr output).length rtLarge (clip rtLarge (lit "\x7b\x7d")) := by
            rw [extract_result hfirst hget, extractResult, if_neg hobj, if_pos hnull]
          exact extract_fits hms hnul hrun emptyResult_value hsmall
        · rw [if_neg hnull]
          have hrun : rtActionOutputExtract output path rtLarge rtLarge managed =
              extractError root path (cstr output).length rtLarge
                (clip rtLarge (artifactRefObj path (cstr output).length (lit "result_not_object"))) := by
            rw [extract_result hfirst hget, extractResult, if_neg hobj, if_neg hnull]
          refine extract_behind hms hnul hrun ?_
          rw [artifactRefObj, clip_value (artifactRef_laid _ _ _)]
          exact ⟨fun h => h.1, fun h => ⟨h, fun v hv => absurd hv (hsmall v)⟩⟩

/-! ## A status with a quote -/

def quoteResult : List (Bytes × Bytes) :=
  [(lit "status", quoted (escaped (lit "a\"b"))), (lit "handle", quoted (escaped (lit "h"))),
    (lit "pad", quoted (escaped (List.replicate rtLarge (ch 'x'))))]

def quoteOutput : Bytes := objText [(lit "result", objText quoteResult)]

/-- A managed result of more than 4 KiB whose status has a quote is salvaged into a text that is no JSON. -/
theorem quoted_status_breaks_salvage : ¬ ExtractsJson quoteOutput (lit "runs/out.json") true := by
  have hresult : WrittenMembers quoteResult :=
    .key (by decide) (.text _) (.key (by decide) (.text _) (.key (by decide) (.text _) .nil))
  have houtput : WrittenMembers [(lit "result", objText quoteResult)] := .key (by decide) (.objText hresult) .nil
  have hfirst : jsonRefFirstObject quoteOutput = some quoteOutput :=
    Snapshot.jsonRefFirstObject_whole ⟨⟨_, houtput.objText⟩, (CleanValue.objText houtput).nulFree⟩
  have hget : jsonRefObjectGet quoteOutput (lit "result") = some (objText quoteResult) := houtput.get _
  have hfield : ∀ {key s : Bytes} {cap : Nat}, assoc key quoteResult = some (quoted (escaped s)) → NulFree s → s.length < cap →
      Says (objText quoteResult) key s ∧ stringField (objText quoteResult) key cap [] = s := by
    intro key s cap hkey hnul hfit
    have hsaid : Says (objText quoteResult) key s := ⟨_, (hresult.get key).trans hkey, decodes_escaped s⟩
    exact ⟨hsaid, hsaid.field_whole hnul hfit⟩
  obtain ⟨hsaid, hstatus⟩ : Says (objText quoteResult) (lit "status") (lit "a\"b") ∧
      stringField (objText quoteResult) (lit "status") rtSmall [] = lit "a\"b" := hfield rfl (.of_all (lit_all (by decide))) (by decide)
  obtain ⟨-, hhandle⟩ : Says (objText quoteResult) (lit "handle") (lit "h") ∧
      stringField (objText quoteResult) (lit "handle") rtSmall [] = lit "h" := hfield rfl (.of_all (by decide)) (by decide)
  have htext : stringField (objText quoteResult) (lit "text") (rtMed * 4) [] = [] := by
    have hnone : jsonRefObjectGet (objText quoteResult) (lit "text") = none := hresult.get _
    rw [stringField, hnone]
  obtain ⟨salvaged, hsalvaged⟩ : ∃ salvaged, trySalvageManagedOp (objText quoteResult) rtLarge = some salvaged := by
    rw [trySalvageManagedOp, salvageStatus, salvageHandle, salvageText, hstatus, hhandle, htext, if_neg (by decide)]
    dsimp only
    rw [if_neg (by (repeat rw [lit_ofList]); decide)]
    exact ⟨_, rfl⟩
  have hlong : rtLarge < (objText quoteResult).length + 1 := by
    have hpad := (escaped_length (List.replicate rtLarge (ch 'x'))).1
    rw [List.length_replicate] at hpad
    simp only [quoteResult, objText, membersText, quoted, List.length_cons, List.length_append]
    omega
  have hrun := extract_result hfirst hget (lit "runs/out.json") true
  have hobj : jsonRefInferType (objText quoteResult) = .object := rfl
  rw [extractResult, if_pos hobj, if_pos hlong, if_pos (show true = true from rfl), hsalvaged] at hrun
  dsimp only at hrun
  have hnul : NulFree quoteOutput := (CleanValue.objText houtput).nulFree
  have hobjText : ObjText quoteOutput [(lit "result", objText quoteResult)] := houtput.objText
  obtain ⟨hres, hok, -⟩ := extractError_value hobjText hnul (lit "runs/out.json") (cstr quoteOutput).length salvaged
  rw [ExtractsJson, hrun, hres, hok]
  rintro ⟨hvalue, -, hfaithful⟩
  have hwhole := (salvage_faithful hsalvaged).mp
    ⟨hvalue, hfaithful _ ⟨rfl, quoteOutput, hfirst, hget, rfl, hlong⟩ rfl⟩
  obtain ⟨s, hs, hplain, -⟩ := hwhole.status
  rw [hs.unique hsaid] at hplain
  exact absurd (hplain (ch '"') (by rw [lit_ofList]; decide)) (by decide)

end Floofclaw.Guarantees.ActionOutputs
