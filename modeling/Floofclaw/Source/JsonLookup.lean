import Floofclaw.Source.JsonScan

/-!
# What the lookups return

The lookups of `support/json.c` walk the text again on every call. Over a text
of the grammar they are functions of its members and elements alone, and a
string copy depends on its buffer only through one length comparison.
-/

set_option autoImplicit false

namespace Floofclaw.Source.Json
open Floofclaw.Lib

/-! ## Texts -/

theorem isValue_object {v : Bytes} (hv : IsValue v) (ht : jsonRefInferType v = .object) :
    ∃ ms, ObjText v ms := by
  cases hv with
  | obj hw hb => exact ⟨_, .some hw hb⟩
  | objEmpty hw => exact ⟨_, .empty hw⟩
  | num hn =>
    obtain ⟨c, u, rfl, hc⟩ := hn.head
    rw [jsonRefInferType] at ht
    split at ht
    · rename_i h
      subst h
      rcases hc with hc | hc <;> exact absurd hc (by decide)
    · repeat' split at ht
      all_goals cases ht
  | _ => cases ht

theorem isValue_array {v : Bytes} (hv : IsValue v) (ht : jsonRefInferType v = .array) :
    ∃ xs, ArrText v xs := by
  cases hv with
  | arr hw hb => exact ⟨_, .some hw hb⟩
  | arrEmpty hw => exact ⟨_, .empty hw⟩
  | num hn =>
    obtain ⟨c, u, rfl, hc⟩ := hn.head
    rw [jsonRefInferType] at ht
    split at ht
    · cases ht
    · split at ht
      · rename_i h
        subst h
        rcases hc with hc | hc <;> exact absurd hc (by decide)
      · repeat' split at ht
        all_goals cases ht
  | _ => cases ht

theorem isValue_string {v : Bytes} (hv : IsValue v) (ht : jsonRefInferType v = .string) :
    ∃ b, StrBody b ∧ v = quoted b := by
  cases hv with
  | str hb => exact ⟨_, hb, rfl⟩
  | num hn =>
    obtain ⟨c, u, rfl, hc⟩ := hn.head
    rw [jsonRefInferType] at ht
    split at ht
    · cases ht
    · split at ht
      · cases ht
      · split at ht
        · rename_i h
          subst h
          rcases hc with hc | hc <;> exact absurd hc (by decide)
        · repeat' split at ht
          all_goals cases ht
  | _ => cases ht

theorem ObjText.inferType {t : Bytes} {ms : List (Bytes × Bytes)} (h : ObjText t ms) :
    jsonRefInferType t = .object := by
  cases h <;> rfl

theorem ArrText.inferType {t : Bytes} {xs : List Bytes} (h : ArrText t xs) :
    jsonRefInferType t = .array := by
  cases h <;> rfl

theorem jsonRefFromText_complete {v : Bytes} (hv : IsValue v) (hn : NulFree v) :
    jsonRefFromText v = some v := by
  have hspan : valueSpan v = some (v, []) := by
    simpa using valueSpan_complete hv NoNumHead.nil
  rw [jsonRefFromText, cstr_eq_self hn, skipWs_self hv.noSpaceHead, hspan]
  rfl

theorem jsonRefFromText_sound {text v : Bytes} (h : jsonRefFromText text = some v) :
    IsValue v ∧ ∃ w w', Ws w ∧ Ws w' ∧ cstr text = w ++ (v ++ w') := by
  unfold jsonRefFromText at h
  split at h
  · simp at h
  · rename_i v' r hv
    split at h
    · rename_i hr
      simp only [Option.some.injEq] at h
      subst h
      obtain ⟨hval, hs⟩ := valueSpan_sound hv
      obtain ⟨w, hw, hw'⟩ := skipWs_split (cstr text)
      obtain ⟨u, hu, hu'⟩ := skipWs_split r
      rw [hr, List.append_nil] at hu'
      exact ⟨hval, w, u, hw, hu, by rw [hw', hs, hu']⟩
    · simp at h

theorem jsonRefFromText_nulFree {text v : Bytes} (h : jsonRefFromText text = some v) : NulFree v := by
  obtain ⟨-, w, w', -, -, hs⟩ := jsonRefFromText_sound h
  intro c hc
  exact cstr_nulFree text c (by rw [hs]; simp [hc])

theorem jsonRefTopObject_complete {t : Bytes} {ms : List (Bytes × Bytes)} (ht : ObjText t ms)
    (hn : NulFree t) : jsonRefTopObject t = some t := by
  rw [jsonRefTopObject, jsonRefFromText_complete ht.isValue hn]
  simp [ObjText.inferType ht]

theorem jsonRefTopObject_sound {text v : Bytes} (h : jsonRefTopObject text = some v) :
    jsonRefFromText text = some v ∧ ∃ ms, ObjText v ms := by
  unfold jsonRefTopObject at h
  split at h
  · simp at h
  · rename_i v' hv
    split at h
    · rename_i ht
      simp only [Option.some.injEq] at h
      subst h
      exact ⟨hv, isValue_object (jsonRefFromText_sound hv).1 ht⟩
    · simp at h

/-! ## Members -/

/-- `json_ref_object_get` over the members: an undecodable key before the match fails the lookup. -/
def memberLookup (key : Bytes) : List (Bytes × Bytes) → Option Bytes
  | [] => none
  | (k, v) :: ms =>
    match jsonRefStringCopy 256 (quoted k) with
    | none => none
    | some decoded => if decoded = key then some v else memberLookup key ms

theorem memberLookup_mem {key v : Bytes} {ms : List (Bytes × Bytes)} (h : memberLookup key ms = some v) :
    ∃ m ∈ ms, m.2 = v := by
  induction ms with
  | nil => simp [memberLookup] at h
  | cons m ms ih =>
    rw [memberLookup] at h
    split at h
    · simp at h
    · split at h
      · exact ⟨m, by simp, by simpa using h⟩
      · obtain ⟨x, hx, hv⟩ := ih h
        exact ⟨x, List.mem_cons_of_mem _ hx, hv⟩

theorem memberLookup_isValue {key v : Bytes} {ms : List (Bytes × Bytes)}
    (hms : ∀ m ∈ ms, StrBody m.1 ∧ IsValue m.2) (h : memberLookup key ms = some v) : IsValue v := by
  obtain ⟨m, hm, rfl⟩ := memberLookup_mem h
  exact (hms m hm).2

/-- One call of `json_ref_object_iter` over the members. -/
def memberIter (keyOutLen : Nat) (ms : List (Bytes × Bytes)) (cursor : Nat) : IterResult :=
  match ms[cursor]? with
  | none => .done
  | some (k, v) =>
    match jsonRefStringCopy keyOutLen (quoted k) with
    | none => .fail
    | some decoded => .item decoded v

/-- One member read off the front of a member list, with what the loops see after it. -/
private theorem reads_members_uncons {ms : List (Bytes × Bytes)} {body : Bytes}
    (h : Reads (.members ms) body) (r : Bytes) :
    ∃ k v ms', ms = (k, v) :: ms' ∧ ∃ rest, memberEnd parseJsonValueEnd (body ++ ch '}' :: r) =
        some (quoted k, v, rest) ∧
      ((ms' = [] ∧ skipWs rest = ch '}' :: r) ∨
        ∃ body' u, Reads (.members ms') body' ∧ body'.length < body.length ∧ skipWs rest = ch ',' :: u ∧
          skipWs u = body' ++ ch '}' :: r) := by
  cases h with
  | @member k w1 w2 v w hk h1 h2 hv hw =>
    have hval := parseJsonValueEnd_complete hv (Ws.noNumHead hw (NoNumHead.brace r))
    refine ⟨k, v, [], rfl, w ++ ch '}' :: r, ?_, .inl ⟨rfl, ?_⟩⟩
    · simp only [List.append_assoc, List.cons_append]
      exact memberEnd_complete hk h1 h2 hv hval
    · exact skipWs_append hw (NoSpaceHead.cons (by decide))
  | @memberCons k w1 w2 v w w' body' ms' hk h1 h2 hv hw hw' hb =>
    have hval := parseJsonValueEnd_complete hv
      (Ws.noNumHead hw (NoNumHead.comma (w' ++ (body' ++ ch '}' :: r))))
    refine ⟨k, v, ms', rfl, w ++ (ch ',' :: (w' ++ (body' ++ ch '}' :: r))), ?_,
      .inr ⟨body', w' ++ (body' ++ ch '}' :: r), hb, ?_, ?_, ?_⟩⟩
    · simp only [List.append_assoc, List.cons_append]
      exact memberEnd_complete hk h1 h2 hv hval
    · simp only [List.length_append, List.length_cons]
      omega
    · exact skipWs_append hw (NoSpaceHead.cons (by decide))
    · exact skipWs_append hw' (reads_members_noSpaceHead hb _)

private theorem objectGetLoop_eq (key : Bytes) (n : Nat) {ms : List (Bytes × Bytes)} {body : Bytes}
    (h : Reads (.members ms) body) (hn : body.length ≤ n) (r : Bytes) :
    objectGetLoop key n (body ++ ch '}' :: r) = memberLookup key ms := by
  induction n generalizing ms body with
  | zero =>
    obtain ⟨u, rfl⟩ := reads_members_head h
    simp at hn
  | succ n ih =>
    obtain ⟨k, v, ms', rfl, rest, hm, hnext⟩ := reads_members_uncons h r
    rw [objectGetLoop, hm, memberLookup]
    dsimp only
    cases jsonRefStringCopy 256 (quoted k) with
    | none => rfl
    | some decoded =>
      dsimp only
      split
      · rfl
      · rcases hnext with ⟨rfl, hrest⟩ | ⟨body', u, hb, hlen, hrest, hu⟩
        · rw [hrest]
          rfl
        · rw [hrest]
          dsimp only
          rw [if_pos rfl, hu]
          exact ih hb (by omega)

theorem jsonRefObjectGet_eq {t : Bytes} {ms : List (Bytes × Bytes)} (h : ObjText t ms) (key : Bytes) :
    jsonRefObjectGet t key = memberLookup key ms := by
  cases h with
  | @empty w hw =>
    have hskip : skipWs (w ++ [ch '}']) = [ch '}'] := skipWs_append hw (NoSpaceHead.cons (by decide))
    rw [jsonRefObjectGet, if_pos rfl, hskip]
    rfl
  | @some w body ms hw hb =>
    have hskip : skipWs (w ++ (body ++ [ch '}'])) = body ++ [ch '}'] :=
      skipWs_append hw (reads_members_noSpaceHead hb _)
    rw [jsonRefObjectGet, if_pos rfl, hskip]
    exact objectGetLoop_eq key _ hb (by simp; omega) []

private theorem objectIterLoop_eq (cap n : Nat) (cursor : Nat) {ms : List (Bytes × Bytes)} {body : Bytes}
    (h : Reads (.members ms) body) (hn : body.length ≤ n) (r : Bytes) :
    objectIterLoop cap n cursor (body ++ ch '}' :: r) = memberIter cap ms cursor := by
  induction n generalizing ms body cursor with
  | zero =>
    obtain ⟨u, rfl⟩ := reads_members_head h
    simp at hn
  | succ n ih =>
    obtain ⟨k, v, ms', rfl, rest, hm, hnext⟩ := reads_members_uncons h r
    rw [objectIterLoop, hm]
    dsimp only
    cases cursor with
    | zero => rfl
    | succ cursor =>
      dsimp only
      rcases hnext with ⟨rfl, hrest⟩ | ⟨body', u, hb, hlen, hrest, hu⟩
      · rw [hrest]
        rfl
      · rw [hrest]
        dsimp only
        rw [if_neg (by decide), if_pos rfl, hu, ih _ hb (by omega)]
        rfl

theorem jsonRefObjectIter_eq {t : Bytes} {ms : List (Bytes × Bytes)} (h : ObjText t ms)
    (cap cursor : Nat) : jsonRefObjectIter cap t cursor = memberIter cap ms cursor := by
  cases h with
  | @empty w hw =>
    have hskip : skipWs (w ++ [ch '}']) = [ch '}'] := skipWs_append hw (NoSpaceHead.cons (by decide))
    rw [jsonRefObjectIter, if_pos rfl, hskip]
    rfl
  | @some w body ms hw hb =>
    have hskip : skipWs (w ++ (body ++ [ch '}'])) = body ++ [ch '}'] :=
      skipWs_append hw (reads_members_noSpaceHead hb _)
    obtain ⟨u, hu⟩ := reads_members_head hb
    have hrun := objectIterLoop_eq cap (ch '{' :: (w ++ (body ++ [ch '}']))).length cursor hb (by simp; omega) []
    rw [jsonRefObjectIter, if_pos rfl, hskip]
    rw [hu, List.cons_append] at hrun ⊢
    dsimp only
    rw [if_neg (by decide)]
    exact hrun

/-! ## Elements -/

private theorem reads_elems_uncons {xs : List Bytes} {body : Bytes} (h : Reads (.elems xs) body)
    (r : Bytes) :
    ∃ v xs', xs = v :: xs' ∧ ∃ rest, valueSpan (body ++ ch ']' :: r) = some (v, rest) ∧
      ((xs' = [] ∧ skipWs rest = ch ']' :: r) ∨
        ∃ body' u, Reads (.elems xs') body' ∧ body'.length < body.length ∧ skipWs rest = ch ',' :: u ∧
          skipWs u = body' ++ ch ']' :: r) := by
  cases h with
  | @elem v w hv hw =>
    refine ⟨v, [], rfl, w ++ ch ']' :: r, ?_, .inl ⟨rfl, ?_⟩⟩
    · rw [List.append_assoc]
      exact valueSpan_complete hv (Ws.noNumHead hw (NoNumHead.bracket r))
    · exact skipWs_append hw (NoSpaceHead.cons (by decide))
  | @elemCons v w w' body' xs' hv hw hw' hb =>
    refine ⟨v, xs', rfl, w ++ (ch ',' :: (w' ++ (body' ++ ch ']' :: r))), ?_,
      .inr ⟨body', w' ++ (body' ++ ch ']' :: r), hb, ?_, ?_, ?_⟩⟩
    · simp only [List.append_assoc, List.cons_append]
      exact valueSpan_complete hv (Ws.noNumHead hw (NoNumHead.comma _))
    · simp only [List.length_append, List.length_cons]
      omega
    · exact skipWs_append hw (NoSpaceHead.cons (by decide))
    · exact skipWs_append hw' (reads_elems_noSpaceHead hb _)

private theorem arrayGetLoop_eq (index : Nat) {xs : List Bytes} {body : Bytes}
    (h : Reads (.elems xs) body) (r : Bytes) : arrayGetLoop index (body ++ ch ']' :: r) = xs[index]? := by
  induction index generalizing xs body with
  | zero =>
    obtain ⟨v, xs', rfl, rest, hv, -⟩ := reads_elems_uncons h r
    rw [arrayGetLoop, hv]
    rfl
  | succ index ih =>
    obtain ⟨v, xs', rfl, rest, hv, hnext⟩ := reads_elems_uncons h r
    rw [arrayGetLoop, hv]
    dsimp only
    rcases hnext with ⟨rfl, hrest⟩ | ⟨body', u, hb, -, hrest, hu⟩
    · rw [hrest]
      rfl
    · rw [hrest]
      dsimp only
      rw [if_pos rfl, hu, ih hb]
      rfl

theorem jsonRefArrayGet_eq {t : Bytes} {xs : List Bytes} (h : ArrText t xs) (index : Nat) :
    jsonRefArrayGet t index = xs[index]? := by
  cases h with
  | @empty w hw =>
    have hskip : skipWs (w ++ [ch ']']) = [ch ']'] := skipWs_append hw (NoSpaceHead.cons (by decide))
    rw [jsonRefArrayGet, if_pos rfl, hskip]
    rfl
  | @some w body xs hw hb =>
    have hskip : skipWs (w ++ (body ++ [ch ']'])) = body ++ [ch ']'] :=
      skipWs_append hw (reads_elems_noSpaceHead hb _)
    obtain ⟨c, u, hu, hc⟩ := reads_elems_head hb
    have hrun := arrayGetLoop_eq index hb []
    rw [jsonRefArrayGet, if_pos rfl, hskip]
    rw [hu, List.cons_append] at hrun ⊢
    dsimp only
    rw [if_neg (by rintro rfl; exact absurd hc (by decide))]
    exact hrun

private theorem arraySizeLoop_eq (n size : Nat) {xs : List Bytes} {body : Bytes}
    (h : Reads (.elems xs) body) (hn : body.length ≤ n) (r : Bytes) :
    arraySizeLoop n (body ++ ch ']' :: r) size = size + xs.length := by
  induction n generalizing xs body size with
  | zero =>
    obtain ⟨c, u, rfl, -⟩ := reads_elems_head h
    simp at hn
  | succ n ih =>
    obtain ⟨v, xs', rfl, rest, hv, hnext⟩ := reads_elems_uncons h r
    rw [arraySizeLoop, hv]
    dsimp only
    rcases hnext with ⟨rfl, hrest⟩ | ⟨body', u, hb, hlen, hrest, hu⟩
    · rw [hrest]
      rfl
    · rw [hrest]
      dsimp only
      rw [if_pos rfl, hu, ih _ hb (by omega), List.length_cons]
      omega

theorem jsonRefArraySize_eq {t : Bytes} {xs : List Bytes} (h : ArrText t xs) :
    jsonRefArraySize t = xs.length := by
  cases h with
  | @empty w hw =>
    have hskip : skipWs (w ++ [ch ']']) = [ch ']'] := skipWs_append hw (NoSpaceHead.cons (by decide))
    rw [jsonRefArraySize, if_pos rfl, hskip]
    rfl
  | @some w body xs hw hb =>
    have hskip : skipWs (w ++ (body ++ [ch ']'])) = body ++ [ch ']'] :=
      skipWs_append hw (reads_elems_noSpaceHead hb _)
    obtain ⟨c, u, hu, hc⟩ := reads_elems_head hb
    have hrun := arraySizeLoop_eq (ch '[' :: (w ++ (body ++ [ch ']']))).length 0 hb (by simp; omega) []
    rw [jsonRefArraySize, if_pos rfl, hskip]
    rw [hu, List.cons_append] at hrun ⊢
    dsimp only
    rw [if_neg (by rintro rfl; exact absurd hc (by decide)), hrun, Nat.zero_add]

end Floofclaw.Source.Json
