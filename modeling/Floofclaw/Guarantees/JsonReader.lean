import Floofclaw.Lib.JsonGrammar
import Floofclaw.Source.JsonLookup

/-!
# What the JSON reader accepts

The scanner of `support/json.c` accepts the texts of RFC 8259 with two
liberties, and no others: the six `isspace` octets are white space, and an
integer part may have leading zeros. What it returns is the value without the
white space around it.
-/

set_option autoImplicit false

namespace Floofclaw.Guarantees.JsonReader
open Floofclaw.Lib Floofclaw.Lib.Dialect Floofclaw.Source.Json

/-! ## The productions and the shapes the scanners read -/

/-- What a production's text is to the scanners; a list of items may be followed by white space. -/
def Scanned : Production → Bytes → Prop
  | .value, t => IsValue t
  | .elements, t => ∀ w, Ws w → ∃ xs, Reads (.elems xs) (t ++ w)
  | .members, t => ∀ w, Ws w → ∃ ms, Reads (.members ms) (t ++ w)

theorem numText_of_number {t : Bytes} (h : relaxed.Number t) : NumText t := by
  obtain ⟨hsg, hip, hfr, hex⟩ := h
  exact .mk hsg hip hfr hex

theorem derives_scanned {p : Production} {t : Bytes} (h : relaxed.Derives p t) : Scanned p t := by
  induction h with
  | true => exact Reads.true
  | false => exact Reads.false
  | null => exact Reads.null
  | number hn => exact Reads.num (numText_of_number hn)
  | string hb => exact Reads.str hb
  | emptyArray hw => exact Reads.arrEmpty hw
  | @array w w' body hw _ hw' ih =>
    obtain ⟨xs, hxs⟩ := ih w' hw'
    have hread := Reads.arr hw hxs
    rwa [List.append_assoc] at hread
  | emptyObject hw => exact Reads.objEmpty hw
  | @object w w' body hw _ hw' ih =>
    obtain ⟨ms, hms⟩ := ih w' hw'
    have hread := Reads.obj hw hms
    rwa [List.append_assoc] at hread
  | element _ ih => exact fun w hw => ⟨_, .elem ih hw⟩
  | @moreElements v s body _ hs _ ihv ihb =>
    intro w hw
    obtain ⟨hw1, hw2⟩ := hs
    obtain ⟨xs, hxs⟩ := ihb w hw
    refine ⟨v :: xs, ?_⟩
    have hread := Reads.elemCons ihv hw1 hw2 hxs
    simpa only [List.append_assoc, List.cons_append] using hread
  | @member k s v hk hs _ ih =>
    intro w hw
    obtain ⟨hw1, hw2⟩ := hs
    refine ⟨[(k, v)], ?_⟩
    have hread := Reads.member hk hw1 hw2 ih hw
    simpa only [List.append_assoc, List.cons_append] using hread
  | @moreMembers k s v s' body hk hs _ hs' _ ihv ihb =>
    intro w hw
    obtain ⟨hw1, hw2⟩ := hs
    obtain ⟨hw3, hw4⟩ := hs'
    obtain ⟨ms, hms⟩ := ihb w hw
    refine ⟨(k, v) :: ms, ?_⟩
    have hread := Reads.memberCons hk hw1 hw2 ihv hw3 hw4 hms
    simpa only [List.append_assoc, List.cons_append] using hread

/-- What a shape's text derives from. -/
def Derived : Part → Bytes → Prop
  | .value, t => relaxed.Derives .value t
  | .elems _, t => ∃ body w, t = body ++ w ∧ Ws w ∧ relaxed.Derives .elements body
  | .members _, t => ∃ body w, t = body ++ w ∧ Ws w ∧ relaxed.Derives .members body

theorem reads_derived {p : Part} {t : Bytes} (h : Reads p t) : Derived p t := by
  induction h with
  | true => exact Derives.true
  | false => exact Derives.false
  | null => exact Derives.null
  | num hn =>
    obtain ⟨hsg, hip, hfr, hex⟩ := hn
    exact Derives.number (.mk hsg hip hfr hex)
  | str hb => exact Derives.string hb
  | arrEmpty hw => exact Derives.emptyArray hw
  | arr hw _ ih =>
    obtain ⟨body, w', rfl, hw', hbody⟩ := ih
    rw [List.append_assoc]
    exact Derives.array hw hbody hw'
  | objEmpty hw => exact Derives.emptyObject hw
  | obj hw _ ih =>
    obtain ⟨body, w', rfl, hw', hbody⟩ := ih
    rw [List.append_assoc]
    exact Derives.object hw hbody hw'
  | elem _ hw ih => exact ⟨_, _, rfl, hw, .element ih⟩
  | @elemCons v w w' body xs _ hw hw' _ ihv ihb =>
    obtain ⟨rest, w3, rfl, hw3, hrest⟩ := ihb
    refine ⟨v ++ ((w ++ ch ',' :: w') ++ rest), w3, ?_, hw3, .moreElements ihv (.mk hw hw') hrest⟩
    simp only [List.append_assoc, List.cons_append]
  | @member k w1 w2 v w hk hw1 hw2 _ hw ih =>
    refine ⟨quoted k ++ ((w1 ++ ch ':' :: w2) ++ v), w, ?_, hw, .member hk (.mk hw1 hw2) ih⟩
    simp only [List.append_assoc, List.cons_append]
  | @memberCons k w1 w2 v w w' body ms hk hw1 hw2 _ hw hw' _ ihv ihb =>
    obtain ⟨rest, w3, rfl, hw3, hrest⟩ := ihb
    refine ⟨quoted k ++ ((w1 ++ ch ':' :: w2) ++ (v ++ ((w ++ ch ',' :: w') ++ rest))), w3, ?_, hw3,
      .moreMembers hk (.mk hw1 hw2) ihv (.mk hw hw') hrest⟩
    simp only [List.append_assoc, List.cons_append]

theorem derives_value_iff (t : Bytes) : relaxed.Derives .value t ↔ IsValue t :=
  ⟨fun h => derives_scanned h, fun h => reads_derived h⟩

/-! ## The reader -/

/-- `json_ref_from_text` accepts the JSON texts of the relaxed dialect, and returns the value. -/
theorem jsonRefFromText_accepts (text v : Bytes) : jsonRefFromText text = some v ↔ relaxed.Text (cstr text) v := by
  constructor
  · intro h
    obtain ⟨hv, w, w', hw, hw', htext⟩ := jsonRefFromText_sound h
    exact ⟨w, w', hw, hw', (derives_value_iff v).mpr hv, htext⟩
  · rintro ⟨w, w', hw, hw', hv, htext⟩
    have hv := (derives_value_iff v).mp hv
    have htail : NoNumHead (w' ++ []) := Ws.noNumHead hw' .nil
    have hspan : valueSpan (v ++ w') = some (v, w') := by
      rw [List.append_nil] at htail
      exact valueSpan_complete hv htail
    have hws : skipWs w' = [] := by
      have hskip := skipWs_append hw' (show NoSpaceHead [] from nofun)
      rwa [List.append_nil] at hskip
    have hstart : skipWs (cstr text) = v ++ w' := by
      rw [htext]
      exact skipWs_append hw (hv.noSpaceHead.append hv.ne_nil)
    rw [jsonRefFromText, hstart, hspan]
    dsimp only
    rw [if_pos hws]

end Floofclaw.Guarantees.JsonReader
