import Floofclaw.Source.ActionOutput
import Floofclaw.Guarantees.FileReports
import Floofclaw.Guarantees.CallEvents

/-!
# Finished results

Wrapping a result puts a status and a handle in front of its members. It does
so exactly where the object has a member and the wrapped text fits the buffer of
the caller; where the text of the result mentions `"status"` anywhere, nothing
is put in front, and the object has a status only if it had one.
-/

set_option autoImplicit false

namespace Floofclaw.Guarantees.FinishedResults
open Floofclaw.Lib Floofclaw.Source.Json Floofclaw.Source.ActionReports Floofclaw.Source.ActionOutput
open Floofclaw.Guarantees.FileReports Floofclaw.Guarantees.FirstEvent

/-- The text of an object, with white space around it. -/
def ObjectText (text : Bytes) (ms : List (Bytes × Bytes)) : Prop :=
  ∃ w t w', Ws w ∧ Ws w' ∧ ObjText t ms ∧ text = w ++ (t ++ w')

def HasStatus (ms : List (Bytes × Bytes)) : Prop := ∃ m ∈ ms, jsonRefStringCopy rtSmall (quoted m.1) = some (lit "status")

def finishedMembers (requestId : Bytes) : List (Bytes × Bytes) :=
  [(lit "status", quoted (lit "finished")), (lit "handle", quoted (escaped requestId))]

/-- Left as it was with a status of its own, or the same object behind a status and a handle; and wrapped for good. -/
def WrapsExactly (resultLen : Nat) (ms : List (Bytes × Bytes)) (result requestId : Bytes) : Prop :=
  ((wrapFinishedResultIn resultLen result requestId = result ∧ HasStatus ms) ∨
    ObjectText (wrapFinishedResultIn resultLen result requestId) (finishedMembers requestId ++ ms)) ∧
  wrapFinishedResultIn resultLen (wrapFinishedResultIn resultLen result requestId) requestId =
    wrapFinishedResultIn resultLen result requestId

/-- The text with the two members spliced in front. -/
def wrappedText (result requestId : Bytes) : Bytes :=
  ch '{' :: membersText (finishedMembers requestId) ++ (if result.length > 2 then [ch ','] else []) ++ result.drop 1

/-- The results that are spliced: a bare object text without the word, and an id that fits. -/
structure Spliced (result requestId : Bytes) : Prop where
  long : 2 ≤ result.length
  id : requestId ≠ []
  opened : result.head? = some (ch '{')
  closed : result.getLast? = some (ch '}')
  silent : before (lit "\"status\"") result = none
  handle : (escaped requestId).length < rtSmall
  scratch : (wrappedText result requestId).length < rtXl

/-- The condition: a spliced object has a member, or no room for one, and fits; any other has a status. -/
def Wrappable (resultLen : Nat) (ms : List (Bytes × Bytes)) (result requestId : Bytes) : Prop :=
  (Spliced result requestId ∧ (ms ≠ [] ∨ result = lit "\x7b\x7d") ∧ (wrappedText result requestId).length < resultLen) ∨
    (¬ Spliced result requestId ∧ HasStatus ms)

/-! ## Members of a text -/

/-- The first member of a text, and what follows its value. -/
theorem members_first {ms : List (Bytes × Bytes)} {body : Bytes} (h : Reads (.members ms) body) :
    ∃ k v ms' w1 w2 t, ms = (k, v) :: ms' ∧ StrBody k ∧ Ws w1 ∧ Ws w2 ∧ IsValue v ∧ AfterMember ms' t ∧
      body = quoted k ++ (w1 ++ ch ':' :: (w2 ++ (v ++ t))) := by
  cases h with
  | @member k w1 w2 v w hk h1 h2 hv hw => exact ⟨k, v, [], w1, w2, w, rfl, hk, h1, h2, hv, .last hw, rfl⟩
  | @memberCons k w1 w2 v w w' body' ms' hk h1 h2 hv hw hw' hb =>
    exact ⟨k, v, ms', w1, w2, _, rfl, hk, h1, h2, hv, .more hw hw' hb, rfl⟩

theorem skip_eq {w w' s s' : Bytes} (hw : Ws w) (hw' : Ws w') (hs : NoSpaceHead s) (hs' : NoSpaceHead s')
    (h : w ++ s = w' ++ s') : s = s' := by
  rw [← skipWs_append hw hs, h, skipWs_append hw' hs']

/-- A text is read as the members of an object in one way. -/
theorem members_unique {ms ms' : List (Bytes × Bytes)} {b b' r r' : Bytes} (h : Reads (.members ms) b)
    (h' : Reads (.members ms') b') (heq : b ++ ch '}' :: r = b' ++ ch '}' :: r') : ms = ms' := by
  induction ms generalizing ms' b b' with
  | nil => cases h
  | cons m ms ih =>
    obtain ⟨k, v, ms1, w1, w2, t, hms, hk, h1, h2, hv, hafter, rfl⟩ := members_first h
    obtain ⟨k', v', ms1', w1', w2', t', rfl, hk', h1', h2', hv', hafter', rfl⟩ := members_first h'
    rw [List.cons.injEq] at hms
    obtain ⟨rfl, rfl⟩ := hms
    simp only [List.append_assoc, List.cons_append] at heq
    obtain ⟨rfl, hrest⟩ := quoted_inj hk hk' heq
    have hcolon := skip_eq h1 h1' (NoSpaceHead.cons (by decide)) (NoSpaceHead.cons (by decide)) hrest
    rw [List.cons.injEq] at hcolon
    have hvalue := skip_eq h2 h2' (hv.noSpaceHead.append hv.ne_nil) (hv'.noSpaceHead.append hv'.ne_nil) hcolon.2
    obtain ⟨rfl, htail⟩ := value_inj hv hv' (hafter.noNumHead r) (hafter'.noNumHead r') hvalue
    cases hafter with
    | last hw =>
      cases hafter' with
      | last hw' => rfl
      | more hw' hw2 hb =>
        rw [List.append_assoc] at htail
        have hbad := skip_eq hw hw' (NoSpaceHead.cons (by decide)) (NoSpaceHead.cons (by decide)) htail
        rw [List.cons.injEq] at hbad
        exact absurd hbad.1 (by decide)
    | more hw hw2 hb =>
      cases hafter' with
      | last hw' =>
        rw [List.append_assoc] at htail
        have hbad := skip_eq hw hw' (NoSpaceHead.cons (by decide)) (NoSpaceHead.cons (by decide)) htail
        rw [List.cons.injEq] at hbad
        exact absurd hbad.1 (by decide)
      | more hw' hw2' hb' =>
        rw [List.append_assoc, List.append_assoc, List.cons_append, List.cons_append] at htail
        have hcomma := skip_eq hw hw' (NoSpaceHead.cons (by decide)) (NoSpaceHead.cons (by decide)) htail
        rw [List.cons.injEq, List.append_assoc, List.append_assoc] at hcomma
        have hbody := skip_eq hw2 hw2' (reads_members_noSpaceHead hb _) (reads_members_noSpaceHead hb' _) hcomma.2
        rw [ih hb hb' hbody]

theorem ObjText.unique {t : Bytes} {ms ms' : List (Bytes × Bytes)} (h : ObjText t ms) (h' : ObjText t ms') : ms = ms' := by
  cases h with
  | @empty w hw =>
    generalize ht : ch '{' :: (w ++ [ch '}']) = t at h'
    cases h' with
    | empty => rfl
    | @some w' body _ hw' hb =>
      rw [List.cons.injEq] at ht
      have hbad := skip_eq hw hw' (NoSpaceHead.cons (by decide)) (reads_members_noSpaceHead hb _) ht.2
      obtain ⟨u, rfl⟩ := reads_members_head hb
      rw [List.cons_append, List.cons.injEq] at hbad
      exact absurd hbad.1 (by decide)
  | @some w body _ hw hb =>
    generalize ht : ch '{' :: (w ++ (body ++ [ch '}'])) = t at h'
    cases h' with
    | @empty w' hw' =>
      rw [List.cons.injEq] at ht
      have hbad := skip_eq hw hw' (reads_members_noSpaceHead hb _) (NoSpaceHead.cons (by decide)) ht.2
      obtain ⟨u, rfl⟩ := reads_members_head hb
      rw [List.cons_append, List.cons.injEq] at hbad
      exact absurd hbad.1 (by decide)
    | @some w' body' _ hw' hb' =>
      rw [List.cons.injEq] at ht
      exact members_unique hb hb' (skip_eq hw hw' (reads_members_noSpaceHead hb _) (reads_members_noSpaceHead hb' _) ht.2)

/-- The object inside its white space is the same however the text is split. -/
theorem ObjectText.unique {text : Bytes} {ms ms' : List (Bytes × Bytes)} (h : ObjectText text ms)
    (h' : ObjectText text ms') : ms = ms' := by
  obtain ⟨w, t, w2, hw, -, ht, rfl⟩ := h
  obtain ⟨w', t', w2', hw', -, ht', heq⟩ := h'
  have hobj := skip_eq hw hw' (ht.isValue.noSpaceHead.append ht.isValue.ne_nil)
    (ht'.isValue.noSpaceHead.append ht'.isValue.ne_nil) heq
  obtain ⟨rfl, -⟩ := object_inj ht ht' hobj
  exact ObjText.unique ht ht'

/-- A text that begins with a brace and ends with one has no white space around its object. -/
theorem ObjectText.bare {text : Bytes} {ms : List (Bytes × Bytes)} (h : ObjectText text ms)
    (hopen : text.head? = some (ch '{')) (hclose : text.getLast? = some (ch '}')) : ObjText text ms := by
  obtain ⟨w, t, w', hw, hw', ht, rfl⟩ := h
  obtain rfl : w = [] := by
    cases w with
    | nil => rfl
    | cons c w =>
      rw [List.cons_append, List.head?_cons, Option.some.injEq] at hopen
      have := hw c List.mem_cons_self
      rw [hopen] at this
      exact absurd this (by decide)
  obtain rfl : w' = [] := by
    by_contra hne
    rw [List.nil_append, List.getLast?_append_of_ne_nil _ hne] at hclose
    have := hw' _ (List.mem_of_getLast? hclose)
    exact absurd this (by decide)
  simpa using ht

/-- Members written in front of others. -/
theorem members_before {ms ms' : List (Bytes × Bytes)} {w body : Bytes} (hms : ∀ m ∈ ms, StrBody m.1 ∧ IsValue m.2)
    (hne : ms ≠ []) (hw : Ws w) (h : Reads (.members ms') body) :
    Reads (.members (ms ++ ms')) (membersText ms ++ ch ',' :: (w ++ body)) := by
  induction ms with
  | nil => exact absurd rfl hne
  | cons m ms ih =>
    obtain ⟨k, v⟩ := m
    obtain ⟨⟨hk, hv⟩, hrest⟩ := List.forall_mem_cons.mp hms
    cases ms with
    | nil =>
      have := Reads.memberCons hk .nil .nil hv .nil hw h
      simpa [membersText] using this
    | cons m2 ms =>
      have := Reads.memberCons hk .nil .nil hv .nil .nil (ih hrest (by simp))
      simpa [membersText] using this

/-! ## The two outcomes -/

theorem wrap_spliced {result requestId : Bytes} (hid : NulFree requestId) (h : Spliced result requestId) :
    rtActionWrapFinishedResult result requestId = wrappedText result requestId := by
  have hlong := h.long
  have hscratch := h.scratch
  rw [rtActionWrapFinishedResult, if_neg, if_neg, if_neg, mirror_eq hid, if_pos h.handle]
  · dsimp only
    rw [if_neg]
    · rfl
    · exact Nat.not_le.mpr hscratch
  · rw [h.silent]
    simp
  · rw [h.opened, h.closed]
    simp
  · rintro (hshort | hnil)
    · omega
    · exact h.id hnil

theorem wrap_unspliced {result requestId : Bytes} (hid : NulFree requestId) (h : ¬ Spliced result requestId) :
    rtActionWrapFinishedResult result requestId = result := by
  rw [rtActionWrapFinishedResult]
  split
  · rfl
  rename_i hlong
  split
  · rfl
  rename_i hbraces
  split
  · rfl
  rename_i hsilent
  rw [mirror_eq hid]
  by_cases hhandle : (escaped requestId).length < rtSmall
  · rw [if_pos hhandle]
    change (if (wrappedText result requestId).length ≥ rtXl then result else wrappedText result requestId) = result
    split
    · rfl
    · rename_i hscratch
      rw [not_or] at hlong hbraces
      refine absurd ⟨by omega, hlong.2, not_not.mp hbraces.1, not_not.mp hbraces.2, ?_, hhandle, Nat.not_le.mp hscratch⟩ h
      simpa using hsilent
  · rw [if_neg hhandle]

theorem finishedMembers_laid (requestId : Bytes) : Laid (finishedMembers requestId) := by
  refine ⟨by simp [finishedMembers], ?_⟩
  simp only [finishedMembers, List.forall_mem_cons]
  exact ⟨⟨strBody_key (lit_all (by decide)), isValue_plain (lit_all (by decide))⟩,
    ⟨strBody_key (lit_all (by decide)), isValue_quoted (escaped_strBody _)⟩, by simp⟩

/-- The splice is an object with the two members in front. -/
theorem wrappedText_object {result requestId : Bytes} {ms : List (Bytes × Bytes)} (h : ObjText result ms)
    (hmember : ms ≠ [] ∨ result = lit "\x7b\x7d") : ObjText (wrappedText result requestId) (finishedMembers requestId ++ ms) := by
  have hlaid := finishedMembers_laid requestId
  by_cases hempty : result = lit "\x7b\x7d"
  · have hms : ms = [] := ObjText.unique h (hempty ▸ ObjText.empty (w := []) .nil)
    have htext : wrappedText result requestId = objText (finishedMembers requestId) := by
      rw [wrappedText, hempty]
      simp [objText, lit]
    rw [hms, htext, List.append_nil]
    exact hlaid.objText
  · cases h with
    | empty hw => exact absurd rfl (hmember.resolve_right hempty)
    | @some w body _ hw hb =>
      have hlong : (ch '{' :: (w ++ (body ++ [ch '}']))).length > 2 := by
        obtain ⟨u, hu⟩ := reads_members_head hb
        rw [hu]
        simp
        omega
      have hreads := members_before hlaid.2 hlaid.1 hw hb
      have hobj := ObjText.some (w := []) .nil hreads
      rw [wrappedText, if_pos hlong]
      simpa using hobj

/-- Behind the two members of an object without any stands a comma and no member. -/
theorem wrappedText_blank {result requestId : Bytes} (h : ObjText result []) (hblank : result ≠ lit "\x7b\x7d") {t r : Bytes}
    {ms : List (Bytes × Bytes)} (heq : t ++ r = wrappedText result requestId) : ¬ ObjText t ms := by
  intro ht
  cases h with
  | some hw hb => cases hb
  | @empty w hw =>
    have hne : w ≠ [] := by
      rintro rfl
      exact hblank rfl
    have hlong : (ch '{' :: (w ++ [ch '}'])).length > 2 := by
      have := List.length_pos_iff.mpr hne
      simp
      omega
    rw [wrappedText, if_pos hlong] at heq
    obtain ⟨u, hu⟩ := membersText_cons_quote (lit "status", quoted (lit "finished")) [(lit "handle", quoted (escaped requestId))]
    have hquote : finishedMembers requestId =
        [(lit "status", quoted (lit "finished"))] ++ (lit "handle", quoted (escaped requestId)) :: [] := rfl
    obtain ⟨body, hb, hbody⟩ : ∃ body, Reads (.members ms) body ∧ body ++ ch '}' :: r =
        membersText ([(lit "status", quoted (lit "finished"))] ++ (lit "handle", quoted (escaped requestId)) :: []) ++
          (ch ',' :: (w ++ [ch '}'])) := by
      cases ht with
      | @empty w' hw' =>
        have hrest : w' ++ ch '}' :: r = [] ++ (ch '"' :: (u ++ ch ',' :: (w ++ [ch '}']))) := by
          rw [finishedMembers, hu] at heq
          simpa using heq
        have hbad := skip_eq hw' .nil (NoSpaceHead.cons (by decide)) (NoSpaceHead.cons (by decide)) hrest
        rw [List.cons.injEq] at hbad
        exact absurd hbad.1 (by decide)
      | @some w' body _ hw' hb =>
        have hrest : w' ++ (body ++ ch '}' :: r) = [] ++ (ch '"' :: (u ++ ch ',' :: (w ++ [ch '}']))) := by
          rw [finishedMembers, hu] at heq
          simpa using heq
        refine ⟨body, hb, ?_⟩
        have hskip := skip_eq hw' .nil (reads_members_noSpaceHead hb _) (NoSpaceHead.cons (by decide)) hrest
        rw [← hquote, finishedMembers, hu, hskip]
        simp
    obtain ⟨ms1, body1, -, hb1, hbody1⟩ := members_peel (by
      simp only [List.forall_mem_cons]
      exact ⟨⟨strBody_key (lit_all (by decide)), isValue_plain (lit_all (by decide))⟩, by simp⟩) hb hbody
    have hform : body1 ++ ch '}' :: r =
        quoted (lit "handle") ++ ch ':' :: (quoted (escaped requestId) ++ ch ',' :: (w ++ [ch '}'])) := by
      rw [hbody1]
      simp [membersText]
    obtain ⟨v, ms2, t2, -, hv, hafter, hrest⟩ := members_head hb1 (strBody_key (lit_all (by decide)))
      (NoSpaceHead.cons (by decide)) hform
    obtain ⟨-, htail⟩ := value_inj hv (.str (escaped_strBody requestId)) (hafter.noNumHead r) (NoNumHead.comma _) hrest
    cases hafter with
    | last hw2 =>
      have hbad := skip_eq hw2 .nil (NoSpaceHead.cons (by decide)) (NoSpaceHead.cons (by decide)) htail
      rw [List.cons.injEq] at hbad
      exact absurd hbad.1 (by decide)
    | @more w2 w3 body2 _ hw2 hw3 hb2 =>
      rw [List.append_assoc, List.cons_append] at htail
      have hcomma := skip_eq hw2 .nil (NoSpaceHead.cons (by decide)) (NoSpaceHead.cons (by decide)) htail
      rw [List.cons.injEq, List.append_assoc] at hcomma
      have hbad := skip_eq hw3 hw (reads_members_noSpaceHead hb2 _) (NoSpaceHead.cons (by decide)) hcomma.2
      obtain ⟨u2, rfl⟩ := reads_members_head hb2
      rw [List.cons_append, List.cons.injEq] at hbad
      exact absurd hbad.1 (by decide)

/-! ## Pieces of a wrapped text -/

theorem wrappedText_head (result requestId : Bytes) : ∃ u, wrappedText result requestId = lit "\x7b\"status\"" ++ u :=
  ⟨_, rfl⟩

theorem before_status (u : Bytes) : (before (lit "\"status\"") (lit "\x7b\"status\"" ++ u)).isSome = true := rfl

/-- No piece of a wrapped text is spliced again: it mentions the word, or it does not end with a brace. -/
theorem wrappedText_unspliced (result requestId : Bytes) (n : Nat) : ¬ Spliced ((wrappedText result requestId).take n) requestId := by
  intro h
  obtain ⟨u, hu⟩ := wrappedText_head result requestId
  have hclosed := h.closed
  have hsilent := h.silent
  have hlen : (lit "\x7b\"status\"").length = 9 := lit_length _
  rw [hu] at hclosed hsilent
  by_cases hn : n < 9
  · rw [List.take_append_of_le_length (by omega)] at hclosed
    have hopen : ∀ k < 9, ((lit "\x7b\"status\"").take k).getLast? ≠ some (ch '}') := by rw [lit_ofList]; decide
    exact hopen n hn hclosed
  · rw [List.take_append, List.take_of_length_le (by omega)] at hsilent
    have := before_status (u.take (n - (lit "\x7b\"status\"").length))
    rw [hsilent] at this
    cases this

theorem wrap_twice {resultLen : Nat} {result requestId : Bytes} (hid : NulFree requestId) (hfit : result.length < resultLen) :
    wrapFinishedResultIn resultLen (wrapFinishedResultIn resultLen result requestId) requestId =
      wrapFinishedResultIn resultLen result requestId := by
  have hcap : 0 < resultLen := by omega
  rw [wrapFinishedResultIn, wrap_unspliced hid, clip_eq_self]
  · exact clip_length_lt hcap _
  · by_cases h : Spliced result requestId
    · rw [wrapFinishedResultIn, wrap_spliced hid h]
      exact wrappedText_unspliced result requestId (resultLen - 1)
    · rwa [wrapFinishedResultIn, wrap_unspliced hid h, clip_eq_self hfit]

/-- An object at the start of a wrapped text. -/
theorem ObjectText.inside {text rest result requestId : Bytes} {ms : List (Bytes × Bytes)} (h : ObjectText text ms)
    (heq : text ++ rest = wrappedText result requestId) :
    ∃ t w, ObjText t ms ∧ text = t ++ w ∧ t ++ (w ++ rest) = wrappedText result requestId := by
  obtain ⟨w, t, w', hw, -, ht, rfl⟩ := h
  obtain rfl : w = [] := by
    cases w with
    | nil => rfl
    | cons c w =>
      obtain ⟨u, hu⟩ := wrappedText_head result requestId
      rw [hu] at heq
      obtain ⟨rfl, -⟩ : c = ch '{' ∧ _ := List.cons.inj heq
      exact absurd (hw _ List.mem_cons_self) (by decide)
  exact ⟨t, w', ht, rfl, by simpa using heq⟩

/-! ## Every result -/

/-- An object that fits its buffer is wrapped exactly when it is spliced whole, or left alone with a status of its own. -/
theorem finished_result_wraps {resultLen : Nat} {ms : List (Bytes × Bytes)} {result requestId : Bytes}
    (hresult : ObjectText result ms) (hid : NulFree requestId) (hfit : result.length < resultLen) :
    WrapsExactly resultLen ms result requestId ↔ Wrappable resultLen ms result requestId := by
  by_cases hs : Spliced result requestId
  · have hobj := hresult.bare hs.opened hs.closed
    have hwrap : wrapFinishedResultIn resultLen result requestId = (wrappedText result requestId).take (resultLen - 1) := by
      rw [wrapFinishedResultIn, wrap_spliced hid hs, clip]
    constructor
    · rintro ⟨⟨hsame, -⟩ | htext, -⟩
      · rw [hwrap] at hsame
        exact absurd (hsame ▸ hs) (wrappedText_unspliced result requestId _)
      · rw [hwrap] at htext
        obtain ⟨t, w, ht, htake, hsplit⟩ := htext.inside (List.take_append_drop _ _)
        have hmember : ms ≠ [] ∨ result = lit "\x7b\x7d" := by
          by_contra hnone
          rw [not_or, not_not] at hnone
          exact wrappedText_blank (hnone.1 ▸ hobj) hnone.2 hsplit ht
        refine .inl ⟨hs, hmember, ?_⟩
        by_contra hlong
        have hshort := congrArg List.length htake
        rw [List.length_take, List.length_append] at hshort
        have htt : t = (wrappedText result requestId).take t.length := by rw [← hsplit, List.take_left]
        have hwhole : ObjText (wrappedText result requestId) (finishedMembers requestId ++ ms) :=
          wrappedText_object hobj hmember
        have hcut := objText_cut hwhole (n := t.length) (by omega)
        rw [← htt] at hcut
        exact hcut ht.isValue
    · rintro (⟨-, hmember, hroom⟩ | ⟨hns, -⟩)
      · refine ⟨.inr ?_, wrap_twice hid hfit⟩
        rw [wrapFinishedResultIn, wrap_spliced hid hs, clip_eq_self hroom]
        exact ⟨[], _, [], .nil, .nil, wrappedText_object hobj hmember, by simp⟩
      · exact absurd hs hns
  · have hwrap : wrapFinishedResultIn resultLen result requestId = result := by
      rw [wrapFinishedResultIn, wrap_unspliced hid hs, clip_eq_self hfit]
    constructor
    · rintro ⟨⟨-, hstatus⟩ | htext, -⟩
      · exact .inr ⟨hs, hstatus⟩
      · rw [hwrap] at htext
        have := congrArg List.length (hresult.unique htext)
        simp only [finishedMembers, List.length_append, List.length_cons, List.length_nil] at this
        omega
    · rintro (⟨hspliced, -⟩ | ⟨-, hstatus⟩)
      · exact absurd hspliced hs
      · exact ⟨.inl ⟨hwrap, hstatus⟩, wrap_twice hid hfit⟩

/-- A result of an external action, in its buffer of 4 KiB. -/
theorem finished_result_wraps_counter :
    WrapsExactly rtLarge [(lit "total", lit "3")] (lit "\x7b\"total\":3\x7d") (lit "req_run_001_000001") := by
  have htotal : Laid [(lit "total", lit "3")] := ⟨by simp, by
    simp only [List.forall_mem_cons]
    exact ⟨⟨strBody_key (lit_all (by decide)), isValue_decInt 3⟩, by simp⟩⟩
  have hobj : ObjectText (lit "\x7b\"total\":3\x7d") [(lit "total", lit "3")] :=
    ⟨[], _, [], .nil, .nil, htotal.objText, by (repeat rw [lit_ofList]); decide⟩
  refine (finished_result_wraps hobj (.of_all (lit_all (by decide))) (by decide +kernel)).mpr (.inl ⟨?_, .inl (by simp), by decide +kernel⟩)
  exact ⟨by rw [lit_ofList]; decide, by rw [lit_ofList]; decide, by decide, by decide, by decide +kernel, by decide +kernel, by decide +kernel⟩

/-- A status below the top is enough for the object to be left without one. -/
theorem nested_status_unwrapped :
    ObjectText (lit "\x7b\"page\":\x7b\"status\":200\x7d\x7d") [(lit "page", lit "\x7b\"status\":200\x7d")] ∧
      ¬ WrapsExactly rtLarge [(lit "page", lit "\x7b\"status\":200\x7d")]
        (lit "\x7b\"page\":\x7b\"status\":200\x7d\x7d") (lit "req_run_001_000001") := by
  have hinner : Laid [(lit "status", lit "200")] := ⟨by simp, by
    simp only [List.forall_mem_cons]
    exact ⟨⟨strBody_key (lit_all (by decide)), isValue_decInt 200⟩, by simp⟩⟩
  have houter : Laid [(lit "page", lit "\x7b\"status\":200\x7d")] := ⟨by simp, by
    simp only [List.forall_mem_cons]
    exact ⟨⟨strBody_key (lit_all (by decide)), hinner.objText.isValue⟩, by simp⟩⟩
  have hobj : ObjectText (lit "\x7b\"page\":\x7b\"status\":200\x7d\x7d") [(lit "page", lit "\x7b\"status\":200\x7d")] :=
    ⟨[], _, [], .nil, .nil, houter.objText, by (repeat rw [lit_ofList]); decide⟩
  refine ⟨hobj, ?_⟩
  rintro ⟨⟨-, m, hm, hstatus⟩ | htext, -⟩
  · rw [List.mem_singleton.mp hm] at hstatus
    exact absurd hstatus (by decide)
  · have hwrap : wrapFinishedResultIn rtLarge (lit "\x7b\"page\":\x7b\"status\":200\x7d\x7d") (lit "req_run_001_000001") =
        lit "\x7b\"page\":\x7b\"status\":200\x7d\x7d" := by decide +kernel
    rw [hwrap] at htext
    have := congrArg List.length (hobj.unique htext)
    simp only [finishedMembers, List.length_append, List.length_cons, List.length_nil] at this
    omega

end Floofclaw.Guarantees.FinishedResults
