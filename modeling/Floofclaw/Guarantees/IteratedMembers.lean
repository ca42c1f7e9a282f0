import Floofclaw.Guarantees.CallEvents
import Floofclaw.Guarantees.ArgumentCoercion

/-!
# The members a loop over an object sees

`json_ref_object_iter` reports a key that does not fit its buffer as the end of
the object. A loop that passes on the members whose keys are not reserved
passes on all of them exactly where every key is read whole.
-/

set_option autoImplicit false

namespace Floofclaw.Guarantees.IteratedMembers
open Floofclaw.Lib Floofclaw.Source.Json Floofclaw.Source.AgentExec
open Floofclaw.Guarantees.CallEvents
open Floofclaw.Guarantees.ActionOutputs (Decodes)
open Floofclaw.Guarantees.ArgumentCoercion (decodes_copy)

/-- The key of the member, in full. -/
def Names (m : Bytes × Bytes) (key : Bytes) : Prop := Decodes (quoted m.1) key

instance (v : JsonRef) (s : Bytes) : Decidable (Decodes v s) := inferInstanceAs (Decidable (_ = _))

instance (m : Bytes × Bytes) (key : Bytes) : Decidable (Names m key) := inferInstanceAs (Decidable (Decodes _ _))

/-- What a string decodes to. -/
def decoded (v : JsonRef) : Bytes := (stringCopyWrite (v.length + 1) v).1

/-- The members without the reserved ones. -/
def unreserved (reserved : List Bytes) (ms : List (Bytes × Bytes)) : List (Bytes × Bytes) :=
  ms.filter fun m => reserved.all fun key => ¬ Names m key

/-- The members the iterator yields before it stops. -/
def seen (ms : List (Bytes × Bytes)) : List (Bytes × Bytes) := ms.takeWhile fun m => (keyOf m).isSome

/-- A key that the loop passes on. -/
def sent (reserved : List Bytes) (x : Bytes × JsonRef) : Bool := !reserved.contains x.1

/-- The items of the loop. -/
def passed (reserved : List Bytes) (ms : List (Bytes × Bytes)) : List (Bytes × JsonRef) :=
  ((seen ms).map itemOf).filter (sent reserved)

/-- Reserved keys are read whole. -/
def Short (reserved : List Bytes) : Prop := ∀ key ∈ reserved, NulFree key ∧ key.length < rtSmall

theorem Short.of_all {reserved : List Bytes}
    (h : reserved.all (fun key => key.all (· ≠ 0) && decide (key.length < rtSmall)) = true) : Short reserved := by
  intro key hkey
  have hok := List.all_eq_true.mp h key hkey
  simp only [Bool.and_eq_true, List.all_eq_true, decide_eq_true_eq] at hok
  exact hok

/-! ## The iterator -/

theorem iterItems_seen {obj : JsonRef} {ms : List (Bytes × Bytes)} (h : ObjText obj ms) (n cursor : Nat)
    (hn : ms.length ≤ n + cursor) : iterItems rtSmall obj n cursor = (seen (ms.drop cursor)).map itemOf := by
  induction n generalizing cursor with
  | zero =>
    rw [List.drop_eq_nil_of_le (by omega)]
    rfl
  | succ n ih =>
    rw [iterItems, jsonRefObjectIter_eq h, memberIter]
    cases hm : ms[cursor]? with
    | none =>
      rw [List.getElem?_eq_none_iff] at hm
      rw [List.drop_eq_nil_of_le hm]
      rfl
    | some m =>
      obtain ⟨hlt, hget⟩ := List.getElem?_eq_some_iff.mp hm
      rw [List.drop_eq_getElem_cons hlt, hget, seen, List.takeWhile_cons, keyOf]
      dsimp only
      cases hd : jsonRefStringCopy rtSmall (quoted m.1) with
      | none => rfl
      | some d =>
        rw [ih (cursor + 1) (by omega), Option.isSome_some, if_pos rfl, List.map_cons, itemOf, keyOf, hd]
        rfl

theorem objectItems_seen {obj : JsonRef} {ms : List (Bytes × Bytes)} (h : ObjText obj ms) :
    objectItems obj = (seen ms).map itemOf :=
  iterItems_seen h _ 0 (Nat.le_trans h.count_le (Nat.le_add_right _ _))

/-! ## Keys -/

theorem decoded_eq {v : JsonRef} {s : Bytes} (h : Decodes v s) : decoded v = s := congrArg Prod.fst h

/-- A key read into a buffer is the key in full. -/
theorem names_of_copy {m : Bytes × Bytes} {cap : Nat} {d : Bytes} (hbody : StrBody m.1)
    (h : stringCopyWrite cap (quoted m.1) = (d, true)) : Names m d := by
  refine (stringCopyWrite_fits h).2 _ ?_
  rw [quoted, stringCopyWrite, if_pos rfl] at h
  obtain ⟨e, n, hn, hle, -⟩ := stringCopyLoop_strBody hbody (by simp [ch]) h
  rw [stringCopyLoop_quote hn, List.nil_append, quoted]
  simp only [List.length_cons, List.length_append, List.length_nil]
  omega

theorem keyOf_names {m : Bytes × Bytes} {d : Bytes} (h : Names m d) (hnul : NulFree d) (hlen : d.length < rtSmall) :
    keyOf m = some d :=
  decodes_copy h hnul hlen

theorem itemOf_key {m : Bytes × Bytes} {d : Bytes} (h : keyOf m = some d) : itemOf m = (d, m.2) := by
  rw [itemOf, h, Option.getD_some]

theorem itemOf_nulFree (m : Bytes × Bytes) : NulFree (itemOf m).1 := by
  rw [itemOf]
  cases h : keyOf m with
  | none => simp [NulFree]
  | some key => exact jsonRefStringCopy_nulFree h

theorem unreserved_iff {reserved : List Bytes} {m : Bytes × Bytes} :
    (reserved.all fun key => ¬ Names m key) = true ↔ ∀ key ∈ reserved, ¬ Names m key := by
  simp

theorem sent_iff {reserved : List Bytes} {x : Bytes × JsonRef} : sent reserved x = true ↔ x.1 ∉ reserved := by
  simp [sent]

theorem unreserved_cons (reserved : List Bytes) (m : Bytes × Bytes) (ms : List (Bytes × Bytes)) :
    unreserved reserved (m :: ms) =
      if (reserved.all fun key => ¬ Names m key) = true then m :: unreserved reserved ms else unreserved reserved ms :=
  List.filter_cons

theorem passed_cons (reserved : List Bytes) {m : Bytes × Bytes} (ms : List (Bytes × Bytes)) (h : (keyOf m).isSome = true) :
    passed reserved (m :: ms) = if sent reserved (itemOf m) then itemOf m :: passed reserved ms else passed reserved ms := by
  rw [passed, seen, List.takeWhile_cons, if_pos h, List.map_cons, List.filter_cons]
  rfl

theorem passed_unseen (reserved : List Bytes) {m : Bytes × Bytes} (ms : List (Bytes × Bytes)) (h : keyOf m = none) :
    passed reserved (m :: ms) = [] := by
  rw [passed, seen, List.takeWhile_cons, h, Option.isSome_none, if_neg Bool.false_ne_true]
  rfl

/-! ## All of them, or not -/

section Reserved
variable {reserved : List Bytes} (hshort : Short reserved)
include hshort

/-- A reserved key is read whole. -/
theorem reserved_legible {m : Bytes × Bytes} (h : (reserved.all fun key => ¬ Names m key) ≠ true) :
    ∃ d, stringCopyWrite rtSmall (quoted m.1) = (d, true) ∧ NulFree d := by
  obtain ⟨key, hkey, hname⟩ := List.all_eq_false.mp (Bool.eq_false_iff.mpr h)
  obtain ⟨hnul, hlen⟩ := hshort key hkey
  have hnames : Names m key := by simpa using hname
  exact ⟨key, (stringCopyWrite_fits hnames).2 _ hlen, hnul⟩

theorem unreserved_of_unseen {m : Bytes × Bytes} (h : keyOf m = none) : (reserved.all fun key => ¬ Names m key) = true := by
  refine unreserved_iff.mpr fun key hkey hnames => ?_
  obtain ⟨hnul, hlen⟩ := hshort key hkey
  rw [keyOf_names hnames hnul hlen] at h
  cases h

theorem unreserved_of_sent {m : Bytes × Bytes} (hsent : sent reserved (itemOf m) = true) :
    (reserved.all fun key => ¬ Names m key) = true := by
  refine unreserved_iff.mpr fun key hkey hnames => ?_
  obtain ⟨hnul, hlen⟩ := hshort key hkey
  rw [itemOf_key (keyOf_names hnames hnul hlen), sent_iff] at hsent
  exact hsent hkey

/-- Nothing is passed on beyond the unreserved members. -/
theorem passed_length (ms : List (Bytes × Bytes)) : (passed reserved ms).length ≤ (unreserved reserved ms).length := by
  induction ms with
  | nil => exact Nat.le_refl _
  | cons m ms ih =>
    rw [unreserved_cons]
    cases hkey : keyOf m with
    | none => simp [passed_unseen reserved ms hkey]
    | some key =>
      rw [passed_cons reserved ms (by rw [hkey, Option.isSome_some])]
      by_cases hsent : sent reserved (itemOf m) = true
      · rw [if_pos hsent, if_pos (unreserved_of_sent hshort hsent)]
        exact Nat.succ_le_succ ih
      · rw [if_neg hsent]
        split
        · exact Nat.le_succ_of_le ih
        · exact ih

/-- Where every key is read whole, what is passed on are the unreserved members. -/
theorem passed_legible {ms : List (Bytes × Bytes)} (h : Legible ms) (hbody : ∀ m ∈ ms, StrBody m.1) :
    passed reserved ms = (unreserved reserved ms).map fun m => (decoded (quoted m.1), m.2) := by
  induction ms with
  | nil => rfl
  | cons m ms ih =>
    obtain ⟨⟨d, hd, hnul⟩, hrest⟩ := List.forall_mem_cons.mp h
    obtain ⟨hm, hbodies⟩ := List.forall_mem_cons.mp hbody
    have hnames := names_of_copy hm hd
    have hkey := keyOf_names hnames hnul (stringCopyWrite_fits hd).1
    have hagree : sent reserved (itemOf m) = reserved.all fun key => ¬ Names m key := by
      rw [Bool.eq_iff_iff]
      refine ⟨unreserved_of_sent hshort, fun hall => ?_⟩
      rw [itemOf_key hkey, sent_iff]
      exact fun hmem => unreserved_iff.mp hall d hmem hnames
    rw [passed_cons reserved ms (by rw [hkey, Option.isSome_some]), hagree, unreserved_cons, ih hrest hbodies]
    split
    · rw [List.map_cons, itemOf_key hkey, decoded_eq hnames]
    · rfl

/-- If what is made of the items matches the unreserved members one by one, key for key, every key was read whole. -/
theorem legible_of_shown {β : Type} {shown : Bytes × Bytes → β → Prop} {make : Bytes × JsonRef → β} {ms : List (Bytes × Bytes)}
    (hnames : ∀ m ∈ ms, ∀ key, shown m (make (key, m.2)) → Names m key)
    (h : List.Forall₂ shown (unreserved reserved ms) ((passed reserved ms).map make)) : Legible ms := by
  induction ms with
  | nil => nofun
  | cons m ms ih =>
    obtain ⟨hm, hrest⟩ := List.forall_mem_cons.mp hnames
    rw [unreserved_cons] at h
    cases hkey : keyOf m with
    | none =>
      rw [passed_unseen reserved ms hkey, if_pos (unreserved_of_unseen hshort hkey)] at h
      cases h
    | some key =>
      rw [passed_cons reserved ms (by rw [hkey, Option.isSome_some])] at h
      by_cases hfree : (reserved.all fun key => ¬ Names m key) = true
      · rw [if_pos hfree] at h
        by_cases hsent : sent reserved (itemOf m) = true
        · rw [if_pos hsent, List.map_cons] at h
          cases h with
          | cons hhead htail =>
            refine List.forall_mem_cons.mpr ⟨?_, ih hrest htail⟩
            rw [itemOf_key hkey] at hhead
            exact ⟨key, (stringCopyWrite_fits (hm key hhead)).2 _ (jsonRefStringCopy_length hkey), jsonRefStringCopy_nulFree hkey⟩
        · -- the loop has fewer items than there are members left
          rw [if_neg hsent] at h
          have hlen := h.length_eq
          have hle := passed_length hshort ms
          simp only [List.length_cons, List.length_map] at hlen
          omega
      · rw [if_neg hfree, if_neg fun hsent => hfree (unreserved_of_sent hshort hsent)] at h
        exact List.forall_mem_cons.mpr ⟨reserved_legible hshort hfree, ih hrest h⟩

end Reserved

end Floofclaw.Guarantees.IteratedMembers

/-! ## Lookups among foreign keys

`json_ref_object_get` decodes every key up to the one it looks for into 256
octets and compares C strings. A key in front that cannot be read there ends the
lookup, and one with an escaped NUL stands for its front. -/

namespace Floofclaw.Guarantees.ExactLookup
open Floofclaw.Lib Floofclaw.Source.Json
open Floofclaw.Guarantees.IteratedMembers

/-- The value of the first member with the key. -/
def lookupExact (key : Bytes) (ms : List (Bytes × Bytes)) : Option Bytes :=
  (ms.find? fun m => decide (Names m key)).map Prod.snd

/-- The key of the member is `d` and has room in the buffer of the lookup. -/
def ReadAs (m : Bytes × Bytes) (d : Bytes) : Prop := Names m d ∧ d.length < 256

/-- No member up to the one looked for misleads the lookup. -/
inductive Clear (key : Bytes) : List (Bytes × Bytes) → Prop
  | nil : Clear key []
  | here {m : Bytes × Bytes} {ms : List (Bytes × Bytes)} : Names m key → Clear key (m :: ms)
  | other {m : Bytes × Bytes} {ms : List (Bytes × Bytes)} {d : Bytes} : ReadAs m d → cstr d ≠ key → Clear key ms →
      Clear key (m :: ms)
  -- behind a key that cannot be read nothing is found
  | unread {m : Bytes × Bytes} {ms : List (Bytes × Bytes)} : (∀ d, ¬ ReadAs m d) → (∀ m' ∈ ms, ¬ Names m' key) →
      Clear key (m :: ms)
  -- a key that is cut to the one looked for, in front of a member with the same value
  | cut {m : Bytes × Bytes} {ms : List (Bytes × Bytes)} {d : Bytes} : ReadAs m d → d ≠ key → cstr d = key →
      lookupExact key ms = some m.2 → Clear key (m :: ms)

theorem lookupExact_here {key : Bytes} {m : Bytes × Bytes} (ms : List (Bytes × Bytes)) (h : Names m key) :
    lookupExact key (m :: ms) = some m.2 := by
  rw [lookupExact, List.find?_cons, decide_eq_true h]
  rfl

theorem lookupExact_next {key : Bytes} {m : Bytes × Bytes} (ms : List (Bytes × Bytes)) (h : ¬ Names m key) :
    lookupExact key (m :: ms) = lookupExact key ms := by
  rw [lookupExact, List.find?_cons, decide_eq_false h]
  rfl

theorem lookupExact_none {key : Bytes} {ms : List (Bytes × Bytes)} :
    lookupExact key ms = none ↔ ∀ m ∈ ms, ¬ Names m key := by
  rw [lookupExact, Option.map_eq_none_iff, List.find?_eq_none]
  simp only [decide_eq_true_eq]

theorem names_unique {m : Bytes × Bytes} {d d' : Bytes} (h : Names m d) (h' : Names m d') : d = d' :=
  ActionOutputs.Decodes.unique h h'

/-- What the lookup sees of a key. -/
theorem copy_some {m : Bytes × Bytes} {s : Bytes} (hbody : StrBody m.1) :
    jsonRefStringCopy 256 (quoted m.1) = some s ↔ ∃ d, ReadAs m d ∧ s = cstr d := by
  rw [jsonRefStringCopy_eq_some]
  refine exists_congr fun d => and_congr_left fun _ => ⟨fun h => ?_, fun h => ?_⟩
  · exact ⟨names_of_copy hbody h, (stringCopyWrite_fits h).1⟩
  · exact (stringCopyWrite_fits h.1).2 256 h.2

section Key
variable {key : Bytes} (hnul : NulFree key) (hlen : key.length < 256)
include hnul hlen

theorem memberLookup_iff {ms : List (Bytes × Bytes)} (hms : ∀ m ∈ ms, StrBody m.1) :
    memberLookup key ms = lookupExact key ms ↔ Clear key ms := by
  induction ms with
  | nil => exact ⟨fun _ => .nil, fun _ => rfl⟩
  | cons m ms ih =>
    obtain ⟨hbody, hrest⟩ := List.forall_mem_cons.mp hms
    cases hcopy : jsonRefStringCopy 256 (quoted m.1) with
    | none =>
      have hunread : ∀ d, ¬ ReadAs m d := by
        intro d hd
        have := (copy_some hbody).mpr ⟨d, hd, rfl⟩
        rw [hcopy] at this
        cases this
      have hother : ¬ Names m key := fun h => hunread key ⟨h, hlen⟩
      have hstop : memberLookup key (m :: ms) = none := by rw [memberLookup, hcopy]
      rw [hstop, lookupExact_next ms hother, eq_comm, lookupExact_none]
      refine ⟨fun h => .unread hunread h, fun h => ?_⟩
      cases h with
      | here h => exact absurd h hother
      | other h => exact absurd h (hunread _)
      | unread _ h => exact h
      | cut h => exact absurd h (hunread _)
    | some s =>
      obtain ⟨d, hd, rfl⟩ := (copy_some hbody).mp hcopy
      by_cases hmatch : cstr d = key
      · have hfound : memberLookup key (m :: ms) = some m.2 := by
          rw [memberLookup, hcopy]
          exact if_pos hmatch
        by_cases hsame : d = key
        · have hhere : Names m key := hsame ▸ hd.1
          rw [hfound, lookupExact_here ms hhere]
          exact ⟨fun _ => .here hhere, fun _ => rfl⟩
        · have hother : ¬ Names m key := fun h => hsame (names_unique hd.1 h)
          rw [hfound, lookupExact_next ms hother, eq_comm]
          refine ⟨fun h => .cut hd hsame hmatch h, fun h => ?_⟩
          cases h with
          | here h => exact absurd h hother
          | other h hne => exact absurd hmatch (names_unique hd.1 h.1 ▸ hne)
          | unread h => exact absurd hd (h d)
          | cut _ _ _ h => exact h
      · have hother : ¬ Names m key := by
          intro h
          rw [names_unique hd.1 h, cstr_eq_self hnul] at hmatch
          exact hmatch rfl
        have hnext : memberLookup key (m :: ms) = memberLookup key ms := by
          rw [memberLookup, hcopy]
          exact if_neg hmatch
        rw [hnext, lookupExact_next ms hother, ih hrest]
        refine ⟨fun h => .other hd hmatch h, fun h => ?_⟩
        cases h with
        | here h => exact absurd h hother
        | other _ _ h => exact h
        | unread h => exact absurd hd (h d)
        | cut h _ heq => exact absurd heq (names_unique hd.1 h.1 ▸ hmatch)

end Key

/-- A lookup returns the value of the first member with the key, and fails where there is none, exactly when
no member in front misleads it. -/
theorem jsonRefObjectGet_exact_iff {obj key : Bytes} {ms : List (Bytes × Bytes)} (h : ObjText obj ms) (hnul : NulFree key)
    (hlen : key.length < 256) : jsonRefObjectGet obj key = lookupExact key ms ↔ Clear key ms := by
  rw [jsonRefObjectGet_eq h]
  exact memberLookup_iff hnul hlen fun m hm => (h.wellformed m hm).1

/-- A key that is half of a surrogate pair, in front of the one looked for. -/
def besideSurrogate : List (Bytes × Bytes) := [(lit "\\ud800", lit "1"), (lit "a", lit "2")]

/-- A key that goes on behind an escaped NUL. -/
def besideNul : List (Bytes × Bytes) := [(lit "a\\u0000b", lit "1")]

theorem digit_value {c : Byte} (h : isDigit c = true) : IsValue [c] :=
  .num (.of_digits (.of_all (List.cons_ne_nil _ _) (by rw [List.all_cons, h]; rfl)))

theorem besideSurrogate_text : ObjText (objText besideSurrogate) besideSurrogate := by
  have hkey : StrBody (lit "\\ud800") := .hex (by decide) (by decide) (by decide) (by decide) .nil
  refine objText_reads (List.forall_mem_cons.mpr ⟨⟨hkey, digit_value (c := ch '1') (by decide)⟩, ?_⟩)
  exact List.forall_mem_singleton.mpr ⟨.plain (by decide) .nil, digit_value (c := ch '2') (by decide)⟩

theorem besideNul_text : ObjText (objText besideNul) besideNul := by
  have hkey : StrBody (lit "a\\u0000b") :=
    .plain (by decide) (.hex (by decide) (by decide) (by decide) (by decide) (.plain (by decide) .nil))
  exact objText_reads (List.forall_mem_singleton.mpr ⟨hkey, digit_value (c := ch '1') (by decide)⟩)

/-- The member `a` is missed behind the half pair, and found where there is none. -/
theorem foreign_keys_mislead :
    (ObjText (objText besideSurrogate) besideSurrogate ∧ jsonRefObjectGet (objText besideSurrogate) (lit "a") = none ∧
      lookupExact (lit "a") besideSurrogate = some (lit "2")) ∧
    (ObjText (objText besideNul) besideNul ∧ jsonRefObjectGet (objText besideNul) (lit "a") = some (lit "1") ∧
      lookupExact (lit "a") besideNul = none) :=
  ⟨⟨besideSurrogate_text, by decide +kernel, by decide +kernel⟩, besideNul_text, by decide +kernel, by decide +kernel⟩

example : decoded (lit "\"a\"") = lit "a" := by decide +kernel

/-- A neighbour that is read whole does not mislead. -/
theorem plain_neighbour_clear : jsonRefObjectGet (objText [(lit "b", lit "1"), (lit "a", lit "2")]) (lit "a") =
    lookupExact (lit "a") [(lit "b", lit "1"), (lit "a", lit "2")] := by
  have htext : ObjText (objText [(lit "b", lit "1"), (lit "a", lit "2")]) [(lit "b", lit "1"), (lit "a", lit "2")] := by
    refine objText_reads (List.forall_mem_cons.mpr ⟨⟨.plain (by decide) .nil, digit_value (c := ch '1') (by decide)⟩, ?_⟩)
    exact List.forall_mem_singleton.mpr ⟨.plain (by decide) .nil, digit_value (c := ch '2') (by decide)⟩
  have hfirst : ReadAs (lit "b", lit "1") (lit "b") := ⟨by decide +kernel, by decide⟩
  have hsecond : Names (lit "a", lit "2") (lit "a") := by decide +kernel
  exact (jsonRefObjectGet_exact_iff htext (.of_all (by decide)) (by decide)).mpr (.other hfirst (by decide) (.here hsecond))

end Floofclaw.Guarantees.ExactLookup
