import Floofclaw.Guarantees.HttpPrefixes

/-!
# HTTP bodies

However a body is framed, by its length or in chunks with extensions and
trailers, and whatever other headers stand around the framing one, what is
parsed is that body.
-/

set_option autoImplicit false

namespace Floofclaw.Guarantees.HttpBodies
open Floofclaw.Lib Floofclaw.Source.Http1 Floofclaw.Guarantees.HttpPrefixes

/-! ## Chunked texts -/

/-- The number that hexadecimal digits go on to write. -/
def hexFrom : Nat → Bytes → Option Nat
  | n, [] => some n
  | n, c :: s => (hexOf c).bind fun v => hexFrom (n * 16 + v) s

def crlf : Bytes := lit "\r\n"

/-- A chunk's line up to its newline: the size, an extension, and the carriage return. -/
structure ChunkLine (size : Nat) (line : Bytes) : Prop where
  reads : ∃ digits ext, line = digits ++ (ext ++ [ch '\r']) ∧ digits ≠ [] ∧ hexFrom 0 digits = some size ∧ (ext = [] ∨ ∃ e, ext = ch ';' :: e) ∧ ch '\n' ∉ ext
  short : line.length ≤ http1ChunkLineMax

/-- A line of the trailer section. -/
def TrailerLine (t : Bytes) : Prop := t ≠ [] ∧ ch '\n' ∉ t

/-- A body and a way to send it in chunks. -/
inductive ChunkedText : Bytes → Bytes → Prop
  | last {line : Bytes} {trailers : List Bytes} : ChunkLine 0 line → (∀ t ∈ trailers, TrailerLine t) →
      ChunkedText [] (line ++ ch '\n' :: (trailers.flatMap (· ++ crlf) ++ crlf))
  | chunk {line d b text : Bytes} : ChunkLine d.length line → d ≠ [] → ChunkedText b text →
      ChunkedText (d ++ b) (line ++ ch '\n' :: (d ++ (crlf ++ text)))

theorem hexFrom_ge {n m : Nat} {s : Bytes} (h : hexFrom n s = some m) : n ≤ m := by
  induction s generalizing n with
  | nil =>
    cases h
    exact Nat.le_refl _
  | cons c s ih =>
    obtain ⟨v, -, hrest⟩ := Option.bind_eq_some_iff.mp h
    have hle := ih hrest
    omega

theorem hexOf_line {c : Byte} {v : Nat} (h : hexOf c = some v) : c ≠ ch ';' ∧ c ≠ ch '\r' ∧ c ≠ ch '\n' := by
  have hnone : hexOf (ch ';') = none ∧ hexOf (ch '\r') = none ∧ hexOf (ch '\n') = none := by decide
  refine ⟨?_, ?_, ?_⟩
  · rintro rfl
    rw [hnone.1] at h
    cases h
  · rintro rfl
    rw [hnone.2.1] at h
    cases h
  · rintro rfl
    rw [hnone.2.2] at h
    cases h

theorem hexFrom_no_newline {n m : Nat} {s : Bytes} (h : hexFrom n s = some m) : ch '\n' ∉ s := by
  induction s generalizing n with
  | nil => nofun
  | cons c s ih =>
    obtain ⟨v, hv, hrest⟩ := Option.bind_eq_some_iff.mp h
    rw [List.mem_cons, not_or]
    exact ⟨(hexOf_line hv).2.2.symm, ih hrest⟩

/-- The size of a chunk is read up to its extension. -/
theorem chunkSize_digits {cap n m : Nat} {digits tail : Bytes} {seen : Bool} (h : hexFrom n digits = some m) (hm : m ≤ cap + 1)
    (hseen : seen = true ∨ digits ≠ []) (htail : ∃ c t, tail = c :: t ∧ (c = ch ';' ∨ c = ch '\r')) :
    chunkSize cap n seen (digits ++ tail) = .ok m := by
  induction digits generalizing n seen with
  | nil =>
    cases h
    obtain ⟨c, t, rfl, hc⟩ := htail
    rw [List.nil_append, chunkSize, if_pos hc, if_pos (hseen.resolve_right fun hne => hne rfl)]
  | cons c digits ih =>
    obtain ⟨v, hv, hrest⟩ := Option.bind_eq_some_iff.mp h
    obtain ⟨hsemi, hcr, -⟩ := hexOf_line hv
    have hle := hexFrom_ge hrest
    rw [List.cons_append, chunkSize, if_neg (fun hc => hc.elim hsemi hcr), hv]
    simp only
    rw [if_neg (by omega)]
    exact ih hrest (.inl rfl)

theorem ChunkLine.size {size : Nat} {line : Bytes} (h : ChunkLine size line) {cap : Nat} (hcap : size ≤ cap) : chunkSize cap 0 false line = .ok size := by
  obtain ⟨digits, ext, rfl, hne, hdigits, hext, -⟩ := h.reads
  refine chunkSize_digits hdigits (by omega) (.inr hne) ?_
  rcases hext with rfl | ⟨e, rfl⟩
  · exact ⟨_, _, rfl, .inr rfl⟩
  · exact ⟨_, _, rfl, .inl rfl⟩

theorem ChunkLine.no_newline {size : Nat} {line : Bytes} (h : ChunkLine size line) : ch '\n' ∉ line := by
  obtain ⟨digits, ext, rfl, -, hdigits, -, hext⟩ := h.reads
  rw [List.mem_append, List.mem_append, not_or, not_or]
  exact ⟨hexFrom_no_newline hdigits, hext, by decide⟩

theorem crlf_cons (s : Bytes) : crlf ++ s = ch '\r' :: ch '\n' :: s := rfl

/-- The trailer section is passed over with its blank line. -/
theorem trailerEnd_lines {trailers : List Bytes} (h : ∀ t ∈ trailers, TrailerLine t) {n : Nat} (hn : (trailers.flatMap (· ++ crlf) ++ crlf).length ≤ n) :
    trailerEnd n (trailers.flatMap (· ++ crlf) ++ crlf) = some (trailers.flatMap (· ++ crlf) ++ crlf).length := by
  induction trailers generalizing n with
  | nil =>
    obtain ⟨n, rfl⟩ : ∃ j, n = j + 1 := ⟨n - 1, by simp only [List.flatMap_nil, List.nil_append] at hn; have : crlf.length = 2 := rfl; omega⟩
    rfl
  | cons t trailers ih =>
    obtain ⟨⟨hne, hline⟩, hrest⟩ := List.forall_mem_cons.mp h
    have hwhole : (t :: trailers).flatMap (· ++ crlf) ++ crlf = (t ++ [ch '\r']) ++ ch '\n' :: (trailers.flatMap (· ++ crlf) ++ crlf) := by
      rw [List.flatMap_cons, List.append_assoc, List.append_assoc, crlf_cons, List.append_assoc, List.singleton_append]
    have hmore := fun m => ih hrest (n := m)
    rw [hwhole] at hn ⊢
    generalize trailers.flatMap (· ++ crlf) ++ crlf = rest at hmore hn ⊢
    simp only [List.length_append, List.length_cons, List.length_nil] at hn ⊢
    obtain ⟨n, rfl⟩ : ∃ j, n = j + 1 := ⟨n - 1, by omega⟩
    have hno : ch '\n' ∉ t ++ [ch '\r'] := by
      rw [List.mem_append, not_or]
      exact ⟨hline, by decide⟩
    have hblank : ¬ isBlankLine (t ++ [ch '\r']) = true := by
      cases t with
      | nil => exact absurd rfl hne
      | cons c t =>
        rw [isBlankLine, Bool.or_eq_true, decide_eq_true_eq, decide_eq_true_eq, List.cons_append]
        rintro (hnil | hone)
        · cases hnil
        · have htail := (List.cons.inj hone).2
          exact absurd htail (List.append_ne_nil_of_right_ne_nil _ (List.cons_ne_nil _ _))
    rw [trailerEnd, takeLine_line hno]
    simp only
    rw [if_neg hblank, hmore n (by omega), Option.map_some, List.length_append, List.length_singleton]
    congr 1
    omega

/-- A chunked text decodes to its body. -/
theorem ChunkedText.decode {b text : Bytes} (h : ChunkedText b text) {cap n total : Nat} (hn : text.length < n) (hcap : total + b.length ≤ cap) :
    decodeChunked cap n total text = .whole b text.length := by
  induction h generalizing n total with
  | @last line trailers hline htrailers =>
    obtain ⟨n, rfl⟩ : ∃ j, n = j + 1 := ⟨n - 1, by omega⟩
    rw [decodeChunked, takeLine_line hline.no_newline]
    simp only
    rw [if_neg (Nat.not_lt.mpr hline.short), hline.size (Nat.zero_le _)]
    simp only
    rw [trailerEnd_lines htrailers (Nat.le_succ _)]
    generalize trailers.flatMap (· ++ crlf) ++ crlf = rest
    simp only [List.length_append, List.length_cons]
    congr 1
    omega
  | @chunk line d b text hline hne _ ih =>
    obtain ⟨n, rfl⟩ : ∃ j, n = j + 1 := ⟨n - 1, by omega⟩
    have hpos := List.length_pos_iff.mpr hne
    have htwo : crlf.length = 2 := rfl
    have hlen : (d ++ (crlf ++ text)).length = d.length + 2 + text.length := by
      rw [List.length_append, List.length_append, htwo, Nat.add_assoc]
    rw [List.length_append, List.length_cons, hlen] at hn ⊢
    rw [List.length_append] at hcap
    have hdrop : (d ++ (crlf ++ text)).drop (d.length + 2) = text := by
      rw [← List.drop_drop, List.drop_left]
      rfl
    rw [decodeChunked, takeLine_line hline.no_newline]
    simp only
    rw [if_neg (Nat.not_lt.mpr hline.short), hline.size (by omega)]
    obtain ⟨k, hk⟩ : ∃ k, d.length = k + 1 := ⟨d.length - 1, by omega⟩
    rw [hk] at hlen hdrop hpos ⊢
    simp only
    have hcrlf : ((d ++ (crlf ++ text)).drop (k + 1)).take 2 = lit "\r\n" := by
      rw [← hk, List.drop_left]
      rfl
    have hfront : (d ++ (crlf ++ text)).take (k + 1) = d := by rw [← hk, List.take_left]
    rw [if_neg (by omega), if_neg (by omega), if_neg (not_not_intro hcrlf), hdrop, hfront, ih (by omega) (by omega)]
    rw [Chunked.behind]
    congr 1
    omega

/-! ## Heads -/

/-- A header's name and value. -/
abbrev Field := Bytes × Bytes

/-- A header that stands on one line, without blanks around its value. -/
structure FieldOk (f : Field) : Prop where
  name : ch ':' ∉ f.1 ∧ ch '\r' ∉ f.1 ∧ ch '\n' ∉ f.1
  value : ch '\r' ∉ f.2 ∧ ch '\n' ∉ f.2
  front : ∀ c t, f.2 = c :: t → isBlank c = false
  back : ∀ t c, f.2 = t ++ [c] → isBlank c = false

/-- A header that says nothing about the framing. -/
structure PlainField (f : Field) : Prop where
  ok : FieldOk f
  noLength : ciEqual f.1 (lit "content-length") = false
  noCoding : ciEqual f.1 (lit "transfer-encoding") = false

/-- A header's line without its end. -/
def fieldLine (f : Field) : Bytes := f.1 ++ (lit ": " ++ f.2)

/-- Lines with their ends. -/
def lines (ls : List Bytes) : Bytes := ls.flatMap (· ++ crlf)

theorem lines_cons (l : Bytes) (ls : List Bytes) : lines (l :: ls) = lines [l] ++ lines ls := by
  rw [lines, List.flatMap_cons, lines, lines, List.flatMap_singleton]

theorem lines_append (ls ms : List Bytes) : lines (ls ++ ms) = lines ls ++ lines ms := List.flatMap_append

/-- The status line and the headers around the framing one. -/
structure ResponseHead where
  version : Byte
  code : Bytes
  status : Nat
  reason : Bytes
  before : List Field
  after : List Field
  version_ok : version = ch '0' ∨ version = ch '1'
  code_ok : ∃ a b c, code = [a, b, c] ∧ isDigit a = true ∧ isDigit b = true ∧ isDigit c = true ∧
    status = (a.toNat - 48) * 100 + (b.toNat - 48) * 10 + (c.toNat - 48)
  reason_ok : ch '\r' ∉ reason ∧ ch '\n' ∉ reason
  before_ok : ∀ f ∈ before, PlainField f
  after_ok : ∀ f ∈ after, PlainField f

def ResponseHead.statusLine (h : ResponseHead) : Bytes := lit "HTTP/1." ++ (h.version :: ch ' ' :: (h.code ++ h.reason))

/-- The head with its framing header and its blank line. -/
def ResponseHead.text (h : ResponseHead) (f : Field) : Bytes := lines (h.statusLine :: (h.before ++ f :: h.after).map fieldLine) ++ crlf

/-- A decimal text of a number. -/
structure Decimal (value : Bytes) (n : Nat) : Prop where
  some : value ≠ []
  digits : ∀ c ∈ value, isDigit c = true
  reads : value.foldl (fun n c => n * 10 + (c.toNat - 48)) 0 = n

/-- A body, the header that frames it, and the octets it is sent as. -/
inductive Framed (body : Bytes) : Field → Bytes → Prop
  | length {name value : Bytes} : ciEqual name (lit "content-length") = true → Decimal value body.length → body.length ≤ http1HeadMax * 1024 →
      Framed body (name, value) body
  | chunks {name codings last text : Bytes} : ciEqual name (lit "transfer-encoding") = true → ciEqual last (lit "chunked") = true →
      ChunkedText body text → Framed body (name, codings ++ last) text

/-- The blank line is found behind lines that are not empty. -/
theorem headEnd_lines {l : Bytes} {ls : List Bytes} (hls : ∀ m ∈ l :: ls, m ≠ [] ∧ ch '\r' ∉ m) (x : Bytes) :
    headEnd (lines (l :: ls) ++ (crlf ++ x)) = some (lines (l :: ls) ++ crlf).length := by
  induction ls generalizing l with
  | nil =>
    obtain ⟨-, hl⟩ := hls l List.mem_cons_self
    have hwhole : lines [l] ++ (crlf ++ x) = l ++ (blankLine ++ x) := by
      rw [lines, List.flatMap_singleton, List.append_assoc]
      rfl
    have hblank : headEnd (blankLine ++ x) = some 4 := by
      have hfront : blankLine.isPrefixOf (blankLine ++ x) = true := List.isPrefixOf_iff_prefix.mpr (List.prefix_append _ _)
      show (if blankLine.isPrefixOf (blankLine ++ x) then some 4 else _) = some 4
      rw [if_pos hfront]
    have htwo : crlf.length = 2 := rfl
    rw [hwhole, headEnd_skip hl, hblank, Option.map_some, lines, List.flatMap_singleton, List.length_append, List.length_append, htwo]
    congr 1
    omega
  | cons m ls ih =>
    obtain ⟨⟨-, hl⟩, hrest⟩ := List.forall_mem_cons.mp hls
    obtain ⟨hm, hmcr⟩ := hrest m List.mem_cons_self
    have hwhole : lines (l :: m :: ls) ++ (crlf ++ x) = l ++ ch '\r' :: ([ch '\n'] ++ (lines (m :: ls) ++ (crlf ++ x))) := by
      rw [lines, List.flatMap_cons, List.append_assoc, List.append_assoc, crlf_cons]
      rfl
    have hnext : ∃ c t, lines (m :: ls) ++ (crlf ++ x) = c :: t ∧ c ≠ ch '\r' := by
      cases m with
      | nil => exact absurd rfl hm
      | cons c t => exact ⟨c, _, rfl, fun h => hmcr (h ▸ List.mem_cons_self)⟩
    have hstep : headEnd (ch '\r' :: ([ch '\n'] ++ (lines (m :: ls) ++ (crlf ++ x)))) = some ((lines (m :: ls) ++ crlf).length + 2) := by
      rw [headEnd, if_neg, headEnd_skip (by decide : ch '\r' ∉ [ch '\n']), ih hrest]
      · rfl
      · obtain ⟨c, t, ht, hc⟩ := hnext
        rw [ht, List.isPrefixOf_iff_prefix]
        intro hfront
        have hthird := (List.cons_prefix_cons.mp (List.cons_prefix_cons.mp (List.cons_prefix_cons.mp hfront).2).2).1
        exact hc hthird.symm
    have htwo : crlf.length = 2 := rfl
    have hlen : (lines (l :: m :: ls) ++ crlf).length = (lines (m :: ls) ++ crlf).length + 2 + l.length := by
      rw [lines, List.flatMap_cons, ← lines]
      simp only [List.length_append, htwo]
      omega
    rw [hwhole, headEnd_skip hl, hstep, Option.map_some, hlen]

theorem headerValue_field {value : Bytes} (hcr : ch '\r' ∉ value) (hfront : ∀ c t, value = c :: t → isBlank c = false)
    (hback : ∀ t c, value = t ++ [c] → isBlank c = false) : headerValue (ch ' ' :: (value ++ [ch '\r'])) = value := by
  have hdrop : (ch ' ' :: (value ++ [ch '\r'])).dropWhile isBlank = value ++ [ch '\r'] := by
    rw [List.dropWhile_cons_of_pos (by decide)]
    cases value with
    | nil => rfl
    | cons c t => exact List.dropWhile_cons_of_neg (by rw [hfront c t rfl]; nofun)
  rw [headerValue, hdrop, List.rdropWhile_concat_pos _ _ _ (by decide)]
  induction value using List.reverseRecOn with
  | nil => rfl
  | append_singleton t c _ =>
    rw [List.rdropWhile_concat_neg]
    rw [Bool.or_eq_true, decide_eq_true_eq, hback t c rfl, or_iff_left (by nofun)]
    rintro rfl
    exact hcr (List.mem_append_right _ List.mem_cons_self)

/-- A header's line is scanned as its name and value. -/
theorem scanLine_field {f : Field} (hf : FieldOk f) (h : HeadInfo) : scanLine (fieldLine f ++ [ch '\r']) h = scanHead f.1 f.2 h := by
  have hother : ∀ d ∈ f.1, decide (d ≠ ch ':') = true := fun d hd => decide_eq_true fun hdc : d = ch ':' => hf.name.1 (hdc ▸ hd)
  have hwhole : fieldLine f ++ [ch '\r'] = f.1 ++ ch ':' :: (ch ' ' :: (f.2 ++ [ch '\r'])) := by
    rw [fieldLine, List.append_assoc, List.append_assoc]
    rfl
  have hdrop : (f.1 ++ ch ':' :: (ch ' ' :: (f.2 ++ [ch '\r']))).dropWhile (· ≠ ch ':') = ch ':' :: (ch ' ' :: (f.2 ++ [ch '\r'])) := by
    rw [List.dropWhile_append_of_pos hother]
    exact List.dropWhile_cons_of_neg (by decide)
  have htake : (f.1 ++ ch ':' :: (ch ' ' :: (f.2 ++ [ch '\r']))).takeWhile (· ≠ ch ':') = f.1 := by
    rw [List.takeWhile_append_of_pos hother, List.takeWhile_cons_of_neg (by decide), List.append_nil]
  rw [hwhole, scanLine, hdrop, htake]
  simp only
  rw [headerValue_field hf.value.1 hf.front hf.back]

theorem fieldLine_ok {f : Field} (hf : FieldOk f) : fieldLine f ≠ [] ∧ ch '\r' ∉ fieldLine f ∧ ch '\n' ∉ fieldLine f := by
  have hlit : lit ": " ≠ [] ∧ ch '\r' ∉ lit ": " ∧ ch '\n' ∉ lit ": " := by rw [lit_ofList]; decide
  refine ⟨List.append_ne_nil_of_right_ne_nil _ (List.append_ne_nil_of_left_ne_nil hlit.1 _), ?_, ?_⟩
  · simp only [fieldLine, List.mem_append, not_or]
    exact ⟨hf.name.2.1, hlit.2.1, hf.value.1⟩
  · simp only [fieldLine, List.mem_append, not_or]
    exact ⟨hf.name.2.2, hlit.2.2, hf.value.2⟩

/-- One more header is scanned. -/
theorem scanLines_field {f : Field} (hf : FieldOk f) {h h' : HeadInfo} (hscan : scanHead f.1 f.2 h = (h', false)) (n : Nat) (t : Bytes) :
    scanLines (n + 1) (lines [fieldLine f] ++ t) h = scanLines n t h' := by
  obtain ⟨hne, -, hline⟩ := fieldLine_ok hf
  have hwhole : lines [fieldLine f] ++ t = (fieldLine f ++ [ch '\r']) ++ ch '\n' :: t := by
    rw [lines, List.flatMap_singleton, List.append_assoc, List.append_assoc, crlf_cons]
    rfl
  have hno : ch '\n' ∉ fieldLine f ++ [ch '\r'] := by
    rw [List.mem_append, not_or]
    exact ⟨hline, by decide⟩
  have hblank : ¬ isBlankLine (fieldLine f ++ [ch '\r']) = true := by
    rw [isBlankLine, Bool.or_eq_true, decide_eq_true_eq, decide_eq_true_eq]
    rintro (hnil | hone)
    · exact absurd hnil (List.append_ne_nil_of_right_ne_nil _ (List.cons_ne_nil _ _))
    · exact hne (List.append_left_eq_self.mp hone)
  rw [scanLines, hwhole, takeLine_line hno]
  simp only
  rw [if_neg hblank, scanLine_field hf, hscan]

/-- The same framing. -/
def SameFraming (h h' : HeadInfo) : Prop := h'.contentLength = h.contentLength ∧ h'.chunked = h.chunked ∧ h'.bad = h.bad

theorem scanHead_plain {f : Field} (hf : PlainField f) (h : HeadInfo) : ∃ h', scanHead f.1 f.2 h = (h', false) ∧ SameFraming h h' := by
  rw [scanHead, if_neg (by rw [hf.noLength]; nofun), if_neg (by rw [hf.noCoding]; nofun)]
  split
  · refine ⟨_, rfl, ?_⟩
    split
    · exact ⟨rfl, rfl, rfl⟩
    · exact ⟨rfl, rfl, rfl⟩
  · exact ⟨_, rfl, rfl, rfl, rfl⟩

theorem scanLines_plain {fs : List Field} (hfs : ∀ f ∈ fs, PlainField f) {n : Nat} {t : Bytes} (hn : (lines (fs.map fieldLine) ++ t).length ≤ n)
    (h : HeadInfo) : ∃ n' h', t.length ≤ n' ∧ SameFraming h h' ∧ scanLines n (lines (fs.map fieldLine) ++ t) h = scanLines n' t h' := by
  induction fs generalizing n h with
  | nil => exact ⟨n, h, hn, ⟨rfl, rfl, rfl⟩, rfl⟩
  | cons f fs ih =>
    obtain ⟨hf, hrest⟩ := List.forall_mem_cons.mp hfs
    obtain ⟨h₁, hscan, hsame₁⟩ := scanHead_plain hf h
    have hwhole : lines ((f :: fs).map fieldLine) ++ t = lines [fieldLine f] ++ (lines (fs.map fieldLine) ++ t) := by
      rw [List.map_cons, lines_cons, List.append_assoc]
    have htwo : crlf.length = 2 := rfl
    have hone : 2 ≤ (lines [fieldLine f]).length := by
      rw [lines, List.flatMap_singleton, List.length_append, htwo]
      omega
    rw [hwhole] at hn ⊢
    rw [List.length_append] at hn
    obtain ⟨n, rfl⟩ : ∃ j, n = j + 1 := ⟨n - 1, by omega⟩
    rw [scanLines_field hf.ok hscan]
    obtain ⟨n', h', hn', hsame, hscan'⟩ := ih hrest (n := n) (by omega) h₁
    exact ⟨n', h', hn', ⟨hsame.1.trans hsame₁.1, hsame.2.1.trans hsame₁.2.1, hsame.2.2.trans hsame₁.2.2⟩, hscan'⟩

theorem contentLengthOf_digits {n m : Nat} {value : Bytes} (hdigits : ∀ c ∈ value, isDigit c = true)
    (hreads : value.foldl (fun n c => n * 10 + (c.toNat - 48)) n = m) (hm : m ≤ http1HeadMax * 1024) :
    n ≤ m ∧ contentLengthOf n value = some m := by
  induction value generalizing n with
  | nil =>
    cases hreads
    exact ⟨Nat.le_refl _, rfl⟩
  | cons c value ih =>
    obtain ⟨hc, hrest⟩ := List.forall_mem_cons.mp hdigits
    obtain ⟨hnext, hscan⟩ := ih hrest hreads
    have hle : n * 10 + (c.toNat - 48) ≤ m := hnext
    refine ⟨by omega, ?_⟩
    rw [contentLengthOf, if_pos hc, if_neg (by omega)]
    exact hscan

/-- The framing header says how the body is framed. -/
theorem scanHead_framed {body text : Bytes} {f : Field} (hframed : Framed body f text) (h : HeadInfo) :
    ∃ h', scanHead f.1 f.2 h = (h', false) ∧ h'.bad = h.bad ∧
      ((h'.chunked = h.chunked ∧ h'.contentLength = some body.length ∧ text = body) ∨ (h'.chunked = true ∧ ChunkedText body text)) := by
  cases hframed with
  | length hname hvalue hsize =>
    refine ⟨{ h with contentLength := some body.length }, ?_, rfl, .inl ⟨rfl, rfl, rfl⟩⟩
    rw [scanHead, if_pos hname, if_neg hvalue.some, (contentLengthOf_digits hvalue.digits hvalue.reads hsize).2]
  | @chunks name codings last _ hname hlast htext =>
    refine ⟨{ h with chunked := true }, ?_, rfl, .inr ⟨rfl, htext⟩⟩
    have hother : ¬ ciEqual name (lit "content-length") = true := by
      rw [ciEqual, decide_eq_true_eq] at hname ⊢
      rw [hname]
      exact lit_ne (by decide)
    have hseven : last.length = 7 := by
      rw [ciEqual, decide_eq_true_eq] at hlast
      have hlen := congrArg List.length hlast
      rw [List.length_map] at hlen
      exact hlen
    have hdrop : (codings ++ last).drop ((codings ++ last).length - 7) = last := by
      rw [List.length_append, hseven, Nat.add_sub_cancel, List.drop_left]
    rw [scanHead, if_neg hother, if_pos hname]
    simp only
    rw [if_pos ⟨by rw [List.length_append]; omega, by rw [hdrop]; exact hlast⟩]

theorem ResponseHead.statusLine_ok (h : ResponseHead) : h.statusLine ≠ [] ∧ ch '\r' ∉ h.statusLine ∧ ch '\n' ∉ h.statusLine := by
  have hlit : lit "HTTP/1." ≠ [] ∧ ch '\r' ∉ lit "HTTP/1." ∧ ch '\n' ∉ lit "HTTP/1." := by rw [lit_ofList]; decide
  have hversion : ch '\r' ≠ h.version ∧ ch '\n' ≠ h.version := by
    rcases h.version_ok with hv | hv <;> (rw [hv]; decide)
  have hdigit : ∀ {d : Byte}, isDigit d = true → ch '\r' ≠ d ∧ ch '\n' ≠ d := by
    intro d hd
    refine ⟨?_, ?_⟩ <;> (rintro rfl; exact absurd hd (by decide))
  have hcode : ch '\r' ∉ h.code ∧ ch '\n' ∉ h.code := by
    obtain ⟨a, b, c, hcode, ha, hb, hc, -⟩ := h.code_ok
    rw [hcode]
    simp only [List.mem_cons, List.not_mem_nil, or_false, not_or]
    exact ⟨⟨(hdigit ha).1, (hdigit hb).1, (hdigit hc).1⟩, (hdigit ha).2, (hdigit hb).2, (hdigit hc).2⟩
  have hspace : ch '\r' ≠ ch ' ' ∧ ch '\n' ≠ ch ' ' := by decide
  refine ⟨List.append_ne_nil_of_left_ne_nil hlit.1 _, ?_, ?_⟩
  · simp only [ResponseHead.statusLine, List.mem_append, List.mem_cons, not_or]
    exact ⟨hlit.2.1, hversion.1, hspace.1, hcode.1, h.reason_ok.1⟩
  · simp only [ResponseHead.statusLine, List.mem_append, List.mem_cons, not_or]
    exact ⟨hlit.2.2, hversion.2, hspace.2, hcode.2, h.reason_ok.2⟩

/-- What the scan of a head finds of the framing. -/
theorem ResponseHead.scanHeaders_text (h : ResponseHead) {f : Field} (hf : FieldOk f) {body text : Bytes} (hframed : Framed body f text) :
    (scanHeaders (h.text f)).bad = false ∧
      (((scanHeaders (h.text f)).chunked = false ∧ (scanHeaders (h.text f)).contentLength = some body.length ∧ text = body) ∨
        ((scanHeaders (h.text f)).chunked = true ∧ ChunkedText body text)) := by
  have hno : ch '\n' ∉ h.statusLine ++ [ch '\r'] := by
    rw [List.mem_append, not_or]
    exact ⟨h.statusLine_ok.2.2, by decide⟩
  have hwhole : h.text f = (h.statusLine ++ [ch '\r']) ++ ch '\n' ::
      (lines (h.before.map fieldLine) ++ (lines [fieldLine f] ++ (lines (h.after.map fieldLine) ++ crlf))) := by
    rw [ResponseHead.text, lines_cons, List.map_append, List.map_cons, lines_append, lines_cons (fieldLine f), lines, List.flatMap_singleton]
    simp only [List.append_assoc]
    rfl
  rw [scanHeaders, hwhole, takeLine_line hno]
  simp only
  obtain ⟨n₁, h₁, hn₁, hsame₁, hscan₁⟩ := scanLines_plain h.before_ok (Nat.le_refl _) (t := lines [fieldLine f] ++ (lines (h.after.map fieldLine) ++ crlf)) {}
  obtain ⟨h₂, hscan₂, hbad₂, hframe₂⟩ := scanHead_framed hframed h₁
  have htwo : crlf.length = 2 := rfl
  have hone : 2 ≤ (lines [fieldLine f]).length := by
    rw [lines, List.flatMap_singleton, List.length_append, htwo]
    omega
  rw [List.length_append] at hn₁
  obtain ⟨n₁, rfl⟩ : ∃ j, n₁ = j + 1 := ⟨n₁ - 1, by omega⟩
  obtain ⟨n₃, h₃, hn₃, hsame₃, hscan₃⟩ := scanLines_plain h.after_ok (t := crlf) (by omega : _ ≤ n₁) h₂
  have hend : scanLines n₃ crlf h₃ = h₃ := by
    cases n₃ <;> rfl
  rw [hscan₁, scanLines_field hf hscan₂, hscan₃, hend]
  refine ⟨by rw [hsame₃.2.2, hbad₂, hsame₁.2.2], ?_⟩
  rcases hframe₂ with ⟨hchunked, hlength, htext⟩ | ⟨hchunked, htext⟩
  · exact .inl ⟨by rw [hsame₃.2.1, hchunked, hsame₁.2.1], by rw [hsame₃.1, hlength], htext⟩
  · exact .inr ⟨by rw [hsame₃.2.1, hchunked], htext⟩

theorem ResponseHead.headed (h : ResponseHead) {f : Field} (hf : FieldOk f) {body text : Bytes} (hframed : Framed body f text) (x : Bytes) :
    Headed (h.text f ++ x) (h.text f).length h.status := by
  have hlines : ∀ m ∈ h.statusLine :: (h.before ++ f :: h.after).map fieldLine, m ≠ [] ∧ ch '\r' ∉ m := by
    have hfields : ∀ g ∈ h.before ++ f :: h.after, FieldOk g := by
      intro g hg
      rcases List.mem_append.mp hg with hg | hg
      · exact (h.before_ok g hg).ok
      · rcases List.mem_cons.mp hg with rfl | hg
        · exact hf
        · exact (h.after_ok g hg).ok
    refine List.forall_mem_cons.mpr ⟨⟨h.statusLine_ok.1, h.statusLine_ok.2.1⟩, fun m hm => ?_⟩
    obtain ⟨g, hg, rfl⟩ := List.mem_map.mp hm
    exact ⟨(fieldLine_ok (hfields g hg)).1, (fieldLine_ok (hfields g hg)).2.1⟩
  have hends : headEnd (h.text f ++ x) = some (h.text f).length := by
    rw [ResponseHead.text, List.append_assoc]
    exact headEnd_lines hlines x
  obtain ⟨a, b, c, hcode, ha, hb, hc, hstatus⟩ := h.code_ok
  obtain ⟨u, hu⟩ : ∃ u, h.text f ++ x = lit "HTTP/1." ++ (h.version :: ch ' ' :: a :: b :: c :: u) := by
    refine ⟨h.reason ++ (crlf ++ (lines ((h.before ++ f :: h.after).map fieldLine) ++ (crlf ++ x))), ?_⟩
    rw [ResponseHead.text, lines_cons, lines, List.flatMap_singleton, ResponseHead.statusLine, hcode]
    simp only [List.append_assoc, List.cons_append, List.nil_append]
  refine ⟨hends, ?_, ?_, ?_, ?_⟩
  · have hseven : (lit "HTTP/1.").length = 7 := lit_length _
    rw [hu]
    simp only [List.length_append, List.length_cons, hseven]
    omega
  · rw [hu, isHttp1, Bool.or_eq_true, List.isPrefixOf_iff_prefix, List.isPrefixOf_iff_prefix]
    rcases h.version_ok with hv | hv
    · rw [hv]
      exact .inl ⟨a :: b :: c :: u, rfl⟩
    · rw [hv]
      exact .inr ⟨a :: b :: c :: u, rfl⟩
  · have hdigits : ((h.text f ++ x).drop 9).take 3 = [a, b, c] := by
      rw [hu]
      rfl
    rw [statusCode, hdigits]
    simp only [ha, hb, hc, Bool.and_self, if_true, hstatus]
  · rw [List.take_left]
    exact (h.scanHeaders_text hf hframed).1

/-- However a body is framed and whatever follows it, it is what is parsed. -/
def BodiesKept : Prop :=
  ∀ (h : ResponseHead) (f : Field) (body text x : Bytes) (cap : Nat), FieldOk f → Framed body f text → isBodiless h.status = false → body.length < cap →
    ∃ r, fcHttp1ParseResponse (h.text f ++ (text ++ x)) cap = (.done, r) ∧ r.status = h.status ∧ r.body = body ∧ r.consumed = (h.text f ++ text).length

theorem bodies_kept : BodiesKept := by
  intro h f body text x cap hf hframed hbody hcap
  have hinfo := (h.scanHeaders_text hf hframed).2
  rw [(h.headed hf hframed (text ++ x)).parse cap, readHeaded, List.take_left, List.drop_left]
  generalize (!((lit "HTTP/1.0 ").isPrefixOf (h.text f ++ (text ++ x)) || (scanHeaders (h.text f)).closeRequested)) = keepAlive
  have hread : readBody (scanHeaders (h.text f)) (h.text f).length cap text { status := h.status, keepAlive := keepAlive } =
      (.done, { status := h.status, keepAlive := keepAlive, body := body, consumed := (h.text f).length + text.length }) := by
    rw [readBody, if_neg (by rw [hbody]; intro heq; cases heq)]
    rcases hinfo with ⟨hchunked, hlength, rfl⟩ | ⟨hchunked, htext⟩
    · rw [if_neg (by rw [hchunked]; intro heq; cases heq), hlength]
      simp only
      rw [if_neg (by omega), if_neg (by omega), if_neg (by omega), List.take_length]
    · rw [if_pos hchunked, if_neg (by omega), htext.decode (Nat.lt_succ_self _) (by omega)]
  refine ⟨_, readBody_append hread x, rfl, rfl, ?_⟩
  rw [List.length_append]

/-- A complete response is what it is by its octets alone, and bodies are kept, exactly when the head does not outgrow its bound. -/
theorem responses_stable_iff {buf : Bytes} {cap : Nat} {r : FcHttp1Response} (h : fcHttp1ParseResponse buf cap = (.done, r)) :
    (Stable cap buf r ∧ BodiesKept) ↔ ∃ headLen, headEnd buf = some headLen ∧ headLen ≤ http1HeadMax + 1 :=
  (and_iff_left bodies_kept).trans (stable_iff h)

/-- A short response without a body. -/
theorem responses_stable_short : Stable 1 (lit "HTTP/1.1 204 \r\n\r\n") { status := 204, consumed := 17 } ∧ BodiesKept :=
  (responses_stable_iff (by decide : fcHttp1ParseResponse (lit "HTTP/1.1 204 \r\n\r\n") 1 = (.done, { status := 204, consumed := 17 }))).mpr
    ⟨17, by decide, by decide⟩

/-- A response whose reason is longer than a head may be. -/
def longHead : Bytes := lit "HTTP/1.1 204 " ++ (List.replicate 16384 (ch 'a') ++ lit "\r\n\r\n")

/-- The long head is taken whole, and refused when its last octet is still to come. -/
theorem long_head_refused :
    ¬ ∀ (buf : Bytes) (cap : Nat) (r : FcHttp1Response), fcHttp1ParseResponse buf cap = (.done, r) → Stable cap buf r := by
  intro hclaim
  have hno : ch '\r' ∉ lit "HTTP/1.1 204 " ++ List.replicate 16384 (ch 'a') := by
    rw [List.mem_append, not_or]
    exact ⟨by rw [lit_ofList]; decide, fun h => absurd (List.eq_of_mem_replicate h) (by decide)⟩
  have hends : headEnd longHead = some 16401 := by
    have hblank : headEnd (lit "\r\n\r\n") = some 4 := by decide
    rw [longHead, ← List.append_assoc, headEnd_skip hno, hblank, List.length_append, List.length_replicate]
    rfl
  have hhead : Headed longHead 16401 204 := by
    refine ⟨hends, ?_, rfl, rfl, ?_⟩
    · rw [longHead, List.length_append]
      exact Nat.le_add_right_of_le (by decide)
    · have hlen : longHead.length = 16401 := by
        rw [longHead, List.length_append, List.length_append, List.length_replicate]
        rfl
      have hline : ch '\n' ∉ lit "HTTP/1.1 204 " ++ (List.replicate 16384 (ch 'a') ++ [ch '\r']) := by
        rw [List.mem_append, List.mem_append, not_or, not_or]
        exact ⟨by decide, fun h => absurd (List.eq_of_mem_replicate h) (by decide), by decide⟩
      have hwhole : longHead = (lit "HTTP/1.1 204 " ++ (List.replicate 16384 (ch 'a') ++ [ch '\r'])) ++ ch '\n' :: lit "\r\n" := by
        rw [longHead, List.append_assoc, List.append_assoc]
        rfl
      rw [List.take_of_length_le (Nat.le_of_eq hlen), scanHeaders, hwhole, takeLine_line hline]
      rfl
  obtain ⟨r, hdone⟩ : ∃ r, fcHttp1ParseResponse longHead 1 = (.done, r) := by
    rw [hhead.parse 1, readHeaded, readBody, if_pos (by decide : isBodiless 204 = true)]
    exact ⟨_, rfl⟩
  obtain ⟨n, hn, hbound⟩ := (stable_iff hdone).mp (hclaim longHead 1 _ hdone)
  rw [hends, Option.some.injEq] at hn
  rw [← hn] at hbound
  exact absurd hbound (by decide)

end Floofclaw.Guarantees.HttpBodies
