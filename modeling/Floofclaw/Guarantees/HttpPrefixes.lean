import Floofclaw.Source.Http1

/-!
# HTTP responses, octet by octet

A response that is complete stays the same when octets follow it, and none of
its fronts is complete or refused, as long as its head does not outgrow the
bound: a longer head is taken when it arrives at once and refused when it
arrives in parts.
-/

set_option autoImplicit false

namespace Floofclaw.Guarantees.HttpPrefixes
open Floofclaw.Lib Floofclaw.Source.Http1

/-! ## The end of the head -/

theorem headEnd_ge {s : Bytes} {n : Nat} (h : headEnd s = some n) : 4 ≤ n ∧ n ≤ s.length := by
  induction s generalizing n with
  | nil => cases h
  | cons c s ih =>
    rw [headEnd] at h
    split at h
    · rename_i hblank
      cases h
      have hle := (List.isPrefixOf_iff_prefix.mp hblank).length_le
      exact ⟨Nat.le_refl _, hle⟩
    · obtain ⟨m, hm, rfl⟩ := Option.map_eq_some_iff.mp h
      obtain ⟨hge, hle⟩ := ih hm
      rw [List.length_cons]
      omega

/-- The blank line is seen within its own octets. -/
theorem headEnd_take {s : Bytes} {n k : Nat} (h : headEnd s = some n) (hk : n ≤ k) : headEnd (s.take k) = some n := by
  induction s generalizing n k with
  | nil => cases h
  | cons c s ih =>
    have hge := headEnd_ge h
    rw [headEnd] at h
    cases k with
    | zero => omega
    | succ k =>
      rw [List.take_succ_cons, headEnd]
      split at h
      · rename_i hblank
        cases h
        rw [if_pos]
        rw [List.isPrefixOf_iff_prefix] at hblank ⊢
        have htake : (c :: s).take (k + 1) = c :: s.take k := List.take_succ_cons
        rw [← htake]
        exact List.prefix_take_iff.mpr ⟨hblank, hk⟩
      · rename_i hblank
        obtain ⟨m, hm, rfl⟩ := Option.map_eq_some_iff.mp h
        rw [if_neg, ih hm (by omega)]
        · rfl
        · rw [List.isPrefixOf_iff_prefix] at hblank ⊢
          intro hfront
          exact hblank (hfront.trans (List.cons_prefix_cons.mpr ⟨rfl, List.take_prefix k s⟩))

theorem headEnd_append {s : Bytes} {n : Nat} (h : headEnd s = some n) (x : Bytes) : headEnd (s ++ x) = some n := by
  induction s generalizing n with
  | nil => cases h
  | cons c s ih =>
    rw [headEnd] at h
    rw [List.cons_append, headEnd]
    split at h
    · rename_i hblank
      cases h
      rw [if_pos]
      rw [List.isPrefixOf_iff_prefix] at hblank ⊢
      exact hblank.trans (List.prefix_append (c :: s) x)
    · rename_i hblank
      obtain ⟨m, hm, rfl⟩ := Option.map_eq_some_iff.mp h
      have hge := headEnd_ge hm
      rw [if_neg, ih hm]
      · rfl
      · rw [List.isPrefixOf_iff_prefix] at hblank ⊢
        intro hfront
        have hlen : blankLine.length ≤ (c :: s).length := by
          have hfour : blankLine.length = 4 := by decide
          rw [List.length_cons]
          omega
        exact hblank (List.prefix_of_prefix_length_le hfront (List.prefix_append (c :: s) x) hlen)

theorem headEnd_front {s : Bytes} {n k : Nat} (h : headEnd s = some n) (hk : k < n) : headEnd (s.take k) = none := by
  cases hfront : headEnd (s.take k) with
  | none => rfl
  | some m =>
    have hle := (headEnd_ge hfront).2
    have hwhole := headEnd_append hfront (s.drop k)
    rw [List.take_append_drop, h, Option.some.injEq] at hwhole
    rw [List.length_take] at hle
    omega

/-- Octets without a carriage return are in front of every blank line. -/
theorem headEnd_skip {l : Bytes} (hl : ch '\r' ∉ l) (s : Bytes) : headEnd (l ++ s) = (headEnd s).map (· + l.length) := by
  induction l with
  | nil => rw [List.nil_append, List.length_nil]; simp
  | cons c l ih =>
    have hc : c ≠ ch '\r' := fun h => hl (h ▸ List.mem_cons_self)
    rw [List.cons_append, headEnd, if_neg, ih fun h => hl (List.mem_cons_of_mem _ h)]
    · rw [Option.map_map]
      rfl
    · rw [List.isPrefixOf_iff_prefix]
      exact fun hfront => hc (List.cons_prefix_cons.mp hfront).1.symm

/-! ## Lines -/

theorem takeLine_some {s line rest : Bytes} (h : takeLine s = some (line, rest)) : s = line ++ ch '\n' :: rest ∧ ch '\n' ∉ line := by
  rw [takeLine] at h
  split at h
  · cases h
  · rename_i d u hdrop
    rw [Option.some.injEq, Prod.mk.injEq] at h
    obtain ⟨rfl, rfl⟩ := h
    have hd : d = ch '\n' := by
      have hhead := List.head?_dropWhile_not (· ≠ ch '\n') s
      rw [hdrop] at hhead
      simpa using hhead
    refine ⟨?_, fun hmem => ?_⟩
    · have hwhole : s.takeWhile (· ≠ ch '\n') ++ s.dropWhile (· ≠ ch '\n') = s := List.takeWhile_append_dropWhile
      rw [hdrop, hd] at hwhole
      exact hwhole.symm
    · have hother := List.mem_takeWhile_imp hmem
      simp at hother

theorem takeLine_line {line : Bytes} (h : ch '\n' ∉ line) (rest : Bytes) : takeLine (line ++ ch '\n' :: rest) = some (line, rest) := by
  have hother : ∀ d ∈ line, decide (d ≠ ch '\n') = true := fun d hd => decide_eq_true fun hdc : d = ch '\n' => h (hdc ▸ hd)
  have hdrop : (line ++ ch '\n' :: rest).dropWhile (· ≠ ch '\n') = ch '\n' :: rest := by
    rw [List.dropWhile_append_of_pos hother]
    exact List.dropWhile_cons_of_neg (by decide)
  have htake : (line ++ ch '\n' :: rest).takeWhile (· ≠ ch '\n') = line := by
    rw [List.takeWhile_append_of_pos hother, List.takeWhile_cons_of_neg (by decide), List.append_nil]
  rw [takeLine, hdrop, htake]

theorem takeLine_none {s : Bytes} (h : ch '\n' ∉ s) : takeLine s = none := by
  cases hs : takeLine s with
  | none => rfl
  | some r =>
    obtain ⟨line, rest⟩ := r
    obtain ⟨rfl, -⟩ := takeLine_some hs
    exact absurd (List.mem_append_right _ List.mem_cons_self) h

theorem takeLine_append {s line rest : Bytes} (h : takeLine s = some (line, rest)) (x : Bytes) : takeLine (s ++ x) = some (line, rest ++ x) := by
  obtain ⟨rfl, hline⟩ := takeLine_some h
  rw [List.append_assoc, List.cons_append, takeLine_line hline]

/-- A front of a text has the same first line, or none yet. -/
theorem takeLine_take {s line rest : Bytes} (h : takeLine s = some (line, rest)) (k : Nat) :
    takeLine (s.take k) = if k ≤ line.length then none else some (line, rest.take (k - (line.length + 1))) := by
  obtain ⟨rfl, hline⟩ := takeLine_some h
  by_cases hk : k ≤ line.length
  · rw [if_pos hk, List.take_append_of_le_length hk]
    exact takeLine_none fun hmem => hline (List.mem_of_mem_take hmem)
  · obtain ⟨j, rfl⟩ : ∃ j, k = line.length + (j + 1) := ⟨k - line.length - 1, by omega⟩
    rw [if_neg hk, List.take_length_add_append, List.take_succ_cons, takeLine_line hline]
    congr 3
    omega

/-! ## Chunks -/

theorem trailerEnd_append {n m : Nat} (hnm : n ≤ m) {s : Bytes} {used : Nat} (h : trailerEnd n s = some used) (x : Bytes) :
    trailerEnd m (s ++ x) = some used := by
  induction n generalizing m s used with
  | zero => cases h
  | succ n ih =>
    obtain ⟨m, rfl⟩ : ∃ j, m = j + 1 := ⟨m - 1, by omega⟩
    rw [trailerEnd] at h
    split at h
    · cases h
    · rename_i line rest hline
      rw [trailerEnd, takeLine_append hline]
      simp only
      split at h
      · rw [if_pos ‹_›]
        exact h
      · obtain ⟨k, hk, rfl⟩ := Option.map_eq_some_iff.mp h
        rw [if_neg ‹_›, ih (by omega) hk]
        rfl

theorem trailerEnd_front {n m : Nat} {s : Bytes} {used k : Nat} (h : trailerEnd n s = some used) (hk : k < used) : trailerEnd m (s.take k) = none := by
  induction n generalizing m s used k with
  | zero => cases h
  | succ n ih =>
    cases m with
    | zero => rfl
    | succ m =>
      rw [trailerEnd] at h
      split at h
      · cases h
      · rename_i line rest hline
        rw [trailerEnd, takeLine_take hline]
        by_cases hshort : k ≤ line.length
        · rw [if_pos hshort]
        · rw [if_neg hshort]
          simp only
          split at h
          · cases h
            omega
          · obtain ⟨j, hj, rfl⟩ := Option.map_eq_some_iff.mp h
            rw [if_neg ‹_›, ih hj (by omega)]
            rfl

/-- What a step of the decoder has read when it comes to an end. -/
theorem decodeChunked_whole {cap n total : Nat} {s b : Bytes} {used : Nat} (h : decodeChunked cap (n + 1) total s = .whole b used) :
    ∃ line rest, takeLine s = some (line, rest) ∧ line.length ≤ http1ChunkLineMax ∧
      ((∃ t, chunkSize cap 0 false line = .ok 0 ∧ trailerEnd (rest.length + 1) rest = some t ∧ b = [] ∧ used = line.length + 1 + t) ∨
        ∃ size b' used', chunkSize cap 0 false line = .ok (size + 1) ∧ size + 1 + 2 ≤ rest.length ∧ total + (size + 1) ≤ cap ∧
          (rest.drop (size + 1)).take 2 = lit "\r\n" ∧
          decodeChunked cap n (total + (size + 1)) (rest.drop (size + 1 + 2)) = .whole b' used' ∧
          b = rest.take (size + 1) ++ b' ∧ used = line.length + 1 + (size + 1) + 2 + used') := by
  rw [decodeChunked] at h
  split at h
  · cases h
  · rename_i line rest hline
    split at h
    · cases h
    · rename_i hlen
      refine ⟨line, rest, hline, Nat.le_of_not_lt hlen, ?_⟩
      split at h
      · cases h
      · rename_i hsize
        split at h
        · cases h
        · rename_i t ht
          cases h
          exact .inl ⟨t, hsize, ht, rfl, rfl⟩
      · rename_i size hnonzero hsize
        obtain ⟨size, rfl⟩ : ∃ k, size = k + 1 := by
          cases size with
          | zero => exact absurd rfl hnonzero
          | succ k => exact ⟨k, rfl⟩
        split at h
        · cases h
        · rename_i hroom
          split at h
          · cases h
          · rename_i htotal
            split at h
            · cases h
            · rename_i hend
              cases hmore : decodeChunked cap n (total + (size + 1)) (rest.drop (size + 1 + 2)) with
              | needMore =>
                rw [hmore] at h
                cases h
              | refused e =>
                rw [hmore] at h
                cases h
              | whole b' used' =>
                rw [hmore] at h
                cases h
                exact .inr ⟨size, b', used', hsize, Nat.le_of_not_lt hroom, Nat.le_of_not_lt htotal, not_not.mp hend, hmore, rfl, rfl⟩

/-- Octets behind a whole body are not looked at. -/
theorem decodeChunked_append {cap n m total : Nat} (hnm : n ≤ m) {s b : Bytes} {used : Nat} (h : decodeChunked cap n total s = .whole b used)
    (x : Bytes) : decodeChunked cap m total (s ++ x) = .whole b used := by
  induction n generalizing m total s b used with
  | zero => cases h
  | succ n ih =>
    obtain ⟨m, rfl⟩ : ∃ j, m = j + 1 := ⟨m - 1, by omega⟩
    obtain ⟨line, rest, hline, hlen, hend⟩ := decodeChunked_whole h
    rw [decodeChunked, takeLine_append hline]
    simp only
    rw [if_neg (Nat.not_lt.mpr hlen)]
    rcases hend with ⟨t, hsize, ht, rfl, rfl⟩ | ⟨size, b', used', hsize, hroom, htotal, hcrlf, hmore, rfl, rfl⟩
    · rw [hsize]
      simp only
      rw [trailerEnd_append (by rw [List.length_append]; omega) ht x]
    · rw [hsize]
      simp only
      rw [if_neg (by rw [List.length_append]; omega), if_neg (by omega), if_neg, List.drop_append_of_le_length (by omega),
        ih (by omega) hmore, List.take_append_of_le_length (by omega)]
      · rfl
      · rw [List.drop_append_of_le_length (by omega), List.take_append_of_le_length (by rw [List.length_drop]; omega)]
        exact not_not_intro hcrlf

/-- A front of a whole body is waited on. -/
theorem decodeChunked_front {cap n m total : Nat} {s b : Bytes} {used k : Nat} (h : decodeChunked cap n total s = .whole b used) (hk : k < used) :
    decodeChunked cap m total (s.take k) = .needMore := by
  induction n generalizing m total s b used k with
  | zero => cases h
  | succ n ih =>
    cases m with
    | zero => rfl
    | succ m =>
      obtain ⟨line, rest, hline, hlen, hend⟩ := decodeChunked_whole h
      rw [decodeChunked, takeLine_take hline]
      by_cases hshort : k ≤ line.length
      · rw [if_pos hshort]
      rw [if_neg hshort]
      simp only
      rw [if_neg (Nat.not_lt.mpr hlen)]
      rcases hend with ⟨t, hsize, ht, rfl, rfl⟩ | ⟨size, b', used', hsize, hroom, htotal, hcrlf, hmore, rfl, rfl⟩
      · rw [hsize]
        simp only
        rw [trailerEnd_front ht (by omega)]
      · rw [hsize]
        simp only
        by_cases harrived : (rest.take (k - (line.length + 1))).length < size + 1 + 2
        · rw [if_pos harrived]
        · rw [List.length_take] at harrived
          rw [if_neg (by rw [List.length_take]; omega), if_neg (by omega), if_neg, List.drop_take,
            ih hmore (by omega : k - (line.length + 1) - (size + 1 + 2) < used')]
          · rfl
          · rw [List.drop_take, List.take_take, Nat.min_eq_left (by omega)]
            exact not_not_intro hcrlf

/-! ## Responses -/

/-- The same response, as its caller sees it. -/
def SameResponse (r r' : FcHttp1Response) : Prop := r'.status = r.status ∧ r'.body = r.body ∧ r'.consumed = r.consumed ∧ r'.keepAlive = r.keepAlive

/-- A complete response: every front of it is waited on, and it stays what it is when octets follow. -/
def Stable (cap : Nat) (buf : Bytes) (r : FcHttp1Response) : Prop :=
  (∀ k < r.consumed, (fcHttp1ParseResponse (buf.take k) cap).1 = .needMore) ∧
    ∀ x, ∃ r', fcHttp1ParseResponse (buf ++ x) cap = (.done, r') ∧ SameResponse r r'

/-- The head of a complete response. -/
structure Headed (buf : Bytes) (headLen status : Nat) : Prop where
  ends : headEnd buf = some headLen
  long : 12 ≤ buf.length
  http : isHttp1 buf = true
  code : statusCode buf = some status
  fine : (scanHeaders (buf.take headLen)).bad = false

/-- What a response is read from, with the body still in its framing. -/
def readHeaded (buf : Bytes) (headLen status cap : Nat) (body : Bytes) : FcHttp1Status × FcHttp1Response :=
  readBody (scanHeaders (buf.take headLen)) headLen cap body
    { status := status, keepAlive := !((lit "HTTP/1.0 ").isPrefixOf buf || (scanHeaders (buf.take headLen)).closeRequested) }

theorem Headed.parse {buf : Bytes} {headLen status : Nat} (h : Headed buf headLen status) (cap : Nat) :
    fcHttp1ParseResponse buf cap = readHeaded buf headLen status cap (buf.drop headLen) := by
  have hhttp : ¬ (buf.length < 12 ∨ isHttp1 buf = false) := by
    rw [not_or, h.http]
    exact ⟨Nat.not_lt.mpr h.long, nofun⟩
  rw [fcHttp1ParseResponse, h.ends]
  simp only
  rw [if_neg hhttp, h.code]
  simp only
  rw [h.fine, if_neg nofun]
  rfl

theorem headed_of_done {buf : Bytes} {cap : Nat} {r : FcHttp1Response} (h : fcHttp1ParseResponse buf cap = (.done, r)) :
    ∃ headLen status, Headed buf headLen status := by
  rw [fcHttp1ParseResponse] at h
  split at h
  · split at h <;> cases h
  · rename_i headLen hends
    split at h
    · cases h
    · rename_i hhttp
      rw [not_or] at hhttp
      split at h
      · cases h
      · rename_i status hcode
        simp only at h
        split at h
        · cases h
        · rename_i hfine
          exact ⟨headLen, status, hends, Nat.le_of_not_lt hhttp.1, Bool.not_eq_false _ ▸ hhttp.2, hcode, Bool.eq_false_iff.mpr hfine⟩

theorem isPrefixOf_take {p s : Bytes} {k : Nat} (h : p.length ≤ k) : p.isPrefixOf (s.take k) = p.isPrefixOf s := by
  rw [Bool.eq_iff_iff, List.isPrefixOf_iff_prefix, List.isPrefixOf_iff_prefix, List.prefix_take_iff]
  exact and_iff_left h

theorem isPrefixOf_append {p s : Bytes} (h : p.length ≤ s.length) (x : Bytes) : p.isPrefixOf (s ++ x) = p.isPrefixOf s := by
  rw [← isPrefixOf_take (s := s ++ x) h, List.take_left]

theorem versions_length : (lit "HTTP/1.0 ").length = 9 ∧ (lit "HTTP/1.1 ").length = 9 := ⟨lit_length _, lit_length _⟩

/-- No blank line is inside the status. -/
theorem Headed.status_no_cr {buf : Bytes} {headLen status : Nat} (h : Headed buf headLen status) : ch '\r' ∉ buf.take 12 := by
  have hversion : buf.take 9 = lit "HTTP/1.0 " ∨ buf.take 9 = lit "HTTP/1.1 " := by
    have hhttp := h.http
    rw [isHttp1, Bool.or_eq_true, List.isPrefixOf_iff_prefix, List.isPrefixOf_iff_prefix, List.prefix_iff_eq_take, List.prefix_iff_eq_take,
      versions_length.1, versions_length.2] at hhttp
    exact hhttp.imp Eq.symm Eq.symm
  have hcode : ch '\r' ∉ (buf.drop 9).take 3 := by
    have hstatus := h.code
    rw [statusCode] at hstatus
    split at hstatus
    · rename_i a b c hdigits
      split at hstatus
      · rename_i hall
        rw [Bool.and_eq_true, Bool.and_eq_true] at hall
        have hno : ∀ {d : Byte}, isDigit d = true → ch '\r' ≠ d := by
          rintro d hd rfl
          exact absurd hd (by decide)
        rw [hdigits]
        simp only [List.mem_cons, List.not_mem_nil, or_false, not_or]
        exact ⟨hno hall.1.1, hno hall.1.2, hno hall.2⟩
      · cases hstatus
    · cases hstatus
  rw [(List.take_add : buf.take (9 + 3) = _), List.mem_append, not_or]
  refine ⟨?_, hcode⟩
  rcases hversion with hv | hv <;> (rw [hv]; decide)

theorem Headed.headLen_ge {buf : Bytes} {headLen status : Nat} (h : Headed buf headLen status) : 16 ≤ headLen := by
  have hends := h.ends
  have hlong := h.long
  rw [← List.take_append_drop 12 buf, headEnd_skip h.status_no_cr] at hends
  obtain ⟨m, hm, rfl⟩ := Option.map_eq_some_iff.mp hends
  have hge := (headEnd_ge hm).1
  rw [List.length_take]
  omega

/-- The head reads the same in every text that has it whole and in every text that goes on behind it. -/
theorem Headed.take {buf : Bytes} {headLen status k : Nat} (h : Headed buf headLen status) (hk : headLen ≤ k) : Headed (buf.take k) headLen status where
  ends := headEnd_take h.ends hk
  long := by
    have hge := h.headLen_ge
    have hlong := h.long
    rw [List.length_take]
    omega
  http := by
    have hge := h.headLen_ge
    rw [isHttp1, isPrefixOf_take (by rw [versions_length.1]; omega), isPrefixOf_take (by rw [versions_length.2]; omega)]
    exact h.http
  code := by
    have hge := h.headLen_ge
    have hsame : ((buf.take k).drop 9).take 3 = (buf.drop 9).take 3 := by
      rw [List.drop_take, List.take_take, Nat.min_eq_left (by omega)]
    rw [statusCode, hsame]
    exact h.code
  fine := by
    rw [List.take_take, Nat.min_eq_left hk]
    exact h.fine

theorem Headed.append {buf : Bytes} {headLen status : Nat} (h : Headed buf headLen status) (x : Bytes) : Headed (buf ++ x) headLen status where
  ends := headEnd_append h.ends x
  long := by
    rw [List.length_append]
    exact Nat.le_add_right_of_le h.long
  http := by
    have hlong := h.long
    rw [isHttp1, isPrefixOf_append (by rw [versions_length.1]; omega), isPrefixOf_append (by rw [versions_length.2]; omega)]
    exact h.http
  code := by
    have hlong := h.long
    have hsame : ((buf ++ x).drop 9).take 3 = (buf.drop 9).take 3 := by
      rw [List.drop_append_of_le_length (by omega), List.take_append_of_le_length (by rw [List.length_drop]; omega)]
    rw [statusCode, hsame]
    exact h.code
  fine := by
    rw [List.take_append_of_le_length (headEnd_ge h.ends).2]
    exact h.fine

/-- The ways a body can be complete. -/
theorem readBody_done {info : HeadInfo} {headLen cap : Nat} {body : Bytes} {r r' : FcHttp1Response} (h : readBody info headLen cap body r = (.done, r')) :
    (isBodiless r.status = true ∧ r' = { r with consumed := headLen }) ∨
      (isBodiless r.status = false ∧ info.chunked = true ∧ cap ≠ 0 ∧
        ∃ b used, decodeChunked (cap - 1) (body.length + 1) 0 body = .whole b used ∧ r' = { r with body := b, consumed := headLen + used }) ∨
      (isBodiless r.status = false ∧ info.chunked = false ∧ cap ≠ 0 ∧ ∃ want, info.contentLength = some want ∧ want + 1 ≤ cap ∧
        want ≤ body.length ∧ r' = { r with body := body.take want, consumed := headLen + want }) := by
  rw [readBody] at h
  split at h
  · cases h
    exact .inl ⟨‹_›, rfl⟩
  · rename_i hbody
    rw [Bool.not_eq_true] at hbody
    split at h
    · split at h
      · cases h
      · split at h
        · cases h
        · cases h
        · rename_i b used hwhole
          cases h
          exact .inr (.inl ⟨hbody, ‹_›, ‹_›, b, used, hwhole, rfl⟩)
    · rename_i hchunked
      rw [Bool.not_eq_true] at hchunked
      split at h
      · rename_i want hwant
        split at h
        · cases h
        · split at h
          · cases h
          · split at h
            · cases h
            · cases h
              exact .inr (.inr ⟨hbody, hchunked, ‹_›, want, hwant, Nat.le_of_not_lt ‹_›, Nat.le_of_not_lt ‹_›, rfl⟩)
      · split at h
        · cases h
        · split at h <;> cases h

theorem readBody_append {info : HeadInfo} {headLen cap : Nat} {body : Bytes} {r r' : FcHttp1Response}
    (h : readBody info headLen cap body r = (.done, r')) (x : Bytes) : readBody info headLen cap (body ++ x) r = (.done, r') := by
  rcases readBody_done h with ⟨hbody, rfl⟩ | ⟨hbody, hchunked, hcap, b, used, hwhole, rfl⟩ | ⟨hbody, hchunked, hcap, want, hwant, hfits, hle, rfl⟩
  · rw [readBody, if_pos hbody]
  · rw [readBody, if_neg (by rw [hbody]; nofun), if_pos hchunked, if_neg hcap,
      decodeChunked_append (by rw [List.length_append]; omega) hwhole x]
  · rw [readBody, if_neg (by rw [hbody]; nofun), if_neg (by rw [hchunked]; nofun), hwant]
    simp only
    rw [if_neg hcap, if_neg (by omega), if_neg (by rw [List.length_append]; omega), List.take_append_of_le_length hle]

theorem readBody_front {info : HeadInfo} {headLen cap k : Nat} {body : Bytes} {r r' : FcHttp1Response}
    (h : readBody info headLen cap body r = (.done, r')) (hk : headLen + k < r'.consumed) :
    (readBody info headLen cap (body.take k) r).1 = .needMore := by
  rcases readBody_done h with ⟨hbody, rfl⟩ | ⟨hbody, hchunked, hcap, b, used, hwhole, rfl⟩ | ⟨hbody, hchunked, hcap, want, hwant, hfits, hle, rfl⟩
  · exact absurd hk (by simp only; omega)
  · simp only at hk
    rw [readBody, if_neg (by rw [hbody]; nofun), if_pos hchunked, if_neg hcap, decodeChunked_front hwhole (by omega)]
  · simp only at hk
    rw [readBody, if_neg (by rw [hbody]; nofun), if_neg (by rw [hchunked]; nofun), hwant]
    simp only
    rw [if_neg hcap, if_neg (by omega), if_pos (by rw [List.length_take]; omega)]

theorem readHeaded_take (buf : Bytes) {headLen k : Nat} (hk : headLen ≤ k) (h9 : 9 ≤ k) (status cap : Nat) (body : Bytes) :
    readHeaded (buf.take k) headLen status cap body = readHeaded buf headLen status cap body := by
  rw [readHeaded, readHeaded, List.take_take, Nat.min_eq_left hk, isPrefixOf_take (by rw [versions_length.1]; exact h9)]

/-- A complete response is stable exactly when its head does not outgrow the bound. -/
theorem stable_iff {buf : Bytes} {cap : Nat} {r : FcHttp1Response} (h : fcHttp1ParseResponse buf cap = (.done, r)) :
    Stable cap buf r ↔ ∃ headLen, headEnd buf = some headLen ∧ headLen ≤ http1HeadMax + 1 := by
  obtain ⟨headLen, status, hhead⟩ := headed_of_done h
  have hge := hhead.headLen_ge
  have hle := (headEnd_ge hhead.ends).2
  have hread := h
  rw [hhead.parse cap] at hread
  have hconsumed : headLen ≤ r.consumed := by
    rcases readBody_done hread with ⟨-, rfl⟩ | ⟨-, -, -, b, used, -, rfl⟩ | ⟨-, -, -, want, -, -, -, rfl⟩
    · exact Nat.le_refl _
    · exact Nat.le_add_right _ _
    · exact Nat.le_add_right _ _
  constructor
  · rintro ⟨hfronts, -⟩
    refine ⟨headLen, hhead.ends, ?_⟩
    by_contra hlong
    have hlast := hfronts (headLen - 1) (by omega)
    rw [fcHttp1ParseResponse, headEnd_front hhead.ends (by omega)] at hlast
    simp only at hlast
    rw [if_pos (by rw [List.length_take]; omega)] at hlast
    cases hlast
  · rintro ⟨n, hn, hbound⟩
    rw [hhead.ends, Option.some.injEq] at hn
    subst hn
    refine ⟨fun k hk => ?_, fun x => ⟨r, ?_, rfl, rfl, rfl, rfl⟩⟩
    · by_cases hin : k < headLen
      · rw [fcHttp1ParseResponse, headEnd_front hhead.ends hin]
        simp only
        rw [if_neg (by rw [List.length_take]; omega)]
      · have hsplit : (buf.take k).drop headLen = (buf.drop headLen).take (k - headLen) := List.drop_take
        rw [(hhead.take (Nat.le_of_not_lt hin)).parse cap, readHeaded_take buf (Nat.le_of_not_lt hin) (by omega), hsplit]
        exact readBody_front hread (by omega)
    · have hsame : readHeaded (buf ++ x) headLen status cap (buf.drop headLen ++ x) = readHeaded buf headLen status cap (buf.drop headLen ++ x) := by
        have hfront := readHeaded_take (buf ++ x) (k := buf.length) hle (by omega) status cap (buf.drop headLen ++ x)
        rw [List.take_left] at hfront
        exact hfront.symm
      rw [(hhead.append x).parse cap, List.drop_append_of_le_length hle, hsame]
      exact readBody_append hread x

end Floofclaw.Guarantees.HttpPrefixes
