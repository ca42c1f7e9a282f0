import Floofclaw.Source.MediaManifest
import Floofclaw.Guarantees.OperationRecords

/-!
# The media manifest codec is canonical

Printing into the buffer is appending one text after the other, so the writer's
text is one text of the grammar and its length is compared with the capacity
once. The reader finds the descriptors in that text; what it accepts it has
rebuilt, so an accepted text is the text of the descriptors it returns.
-/

set_option autoImplicit false

namespace Floofclaw.Guarantees.MediaCodec
open Floofclaw.Lib Floofclaw.Source.Json Floofclaw.Source.MediaManifest
open Floofclaw.Guarantees.TaskStoreText (elemsText_cons InLong)
open Floofclaw.Guarantees.OperationRecords (getLong_printed)

/-! ## The writer appends -/

theorem mediaJsonPuts_fits (t : Bytes) (json : MediaJson) (h : json.data.length + t.length < json.cap) :
    ∃ json', mediaJsonPuts t json = some json' ∧ json'.data = json.data ++ t := by
  rw [mediaJsonPuts, dif_neg (by omega)]
  exact ⟨_, rfl, rfl⟩

theorem mediaJsonPuts_none {t : Bytes} {json : MediaJson} (h : json.cap ≤ json.data.length + t.length) :
    mediaJsonPuts t json = none := by
  rw [mediaJsonPuts, dif_pos (by omega)]

theorem mediaJsonPuts_eq_some {t : Bytes} {json json' : MediaJson} (h : mediaJsonPuts t json = some json') :
    json'.data = json.data ++ t ∧ json'.cap = json.cap := by
  unfold mediaJsonPuts at h
  split at h
  · cases h
  · cases h
    exact ⟨rfl, rfl⟩

/-- Two texts one after the other are one text. -/
theorem mediaJsonPuts_bind (a b : Bytes) (json : MediaJson) :
    ((mediaJsonPuts a json).bind fun json => mediaJsonPuts b json) = mediaJsonPuts (a ++ b) json := by
  by_cases ha : json.data.length + a.length < json.cap
  · obtain ⟨json1, h1, hd1⟩ := mediaJsonPuts_fits a json ha
    have hc1 := (mediaJsonPuts_eq_some h1).2
    rw [h1, Option.bind_some]
    by_cases hb : json1.data.length + b.length < json1.cap
    · obtain ⟨json2, h2, hd2⟩ := mediaJsonPuts_fits b json1 hb
      have hab : json.data.length + (a ++ b).length < json.cap := by
        rw [hd1, hc1] at hb
        simpa [Nat.add_assoc] using hb
      obtain ⟨json3, h3, hd3⟩ := mediaJsonPuts_fits (a ++ b) json hab
      rw [h2, h3]
      refine congrArg some (MediaJson.ext ?_ ?_)
      · rw [hd2, hd3, hd1, List.append_assoc]
      · rw [(mediaJsonPuts_eq_some h2).2, (mediaJsonPuts_eq_some h3).2, hc1]
    · rw [mediaJsonPuts_none (by omega), mediaJsonPuts_none]
      rw [hd1, hc1] at hb
      simp only [List.length_append] at hb ⊢
      omega
  · rw [mediaJsonPuts_none (by omega), Option.bind_none, mediaJsonPuts_none]
    rw [List.length_append]
    omega

theorem mediaJsonPuts_nil (json : MediaJson) : mediaJsonPuts [] json = some json := by
  obtain ⟨json', h, hd⟩ := mediaJsonPuts_fits [] json (by simpa using json.fits)
  rw [h]
  exact congrArg some (MediaJson.ext (by simpa using hd) (mediaJsonPuts_eq_some h).2)

theorem mediaJsonEscape_eq (text : CString) (json : MediaJson) :
    mediaJsonEscape text json = mediaJsonPuts (escaped text.1) json := by
  have hself : cstr text.1 = text.1 := cstr_eq_self text.2
  unfold mediaJsonEscape
  split
  · rename_i out h
    obtain ⟨hout, hlen⟩ := jsonEscape_fits h
    rw [hself] at hout
    obtain ⟨json', h', hd⟩ := mediaJsonPuts_fits (escaped text.1) json (by rw [← hout]; omega)
    rw [h']
    exact congrArg some (MediaJson.ext ((congrArg (json.data ++ ·) hout).trans hd.symm) (mediaJsonPuts_eq_some h').2.symm)
  · rename_i out h
    rw [mediaJsonPuts_none]
    by_contra hfits
    have hdone : (escaped (cstr text.1)).length < json.cap - json.data.length := by
      rw [hself]
      omega
    rw [jsonEscape_complete hdone] at h
    cases h

theorem decNat_length_le {n : Nat} (h : n < 2 ^ 64) : (decNat n).length ≤ 20 :=
  decFuel_length (n + 1) n (by decide) (Nat.lt_trans h (by decide))

theorem mediaJsonU64_eq {n : Nat} (h : n < 2 ^ 64) (json : MediaJson) :
    mediaJsonU64 n json = mediaJsonPuts (decNat n) json := by
  have := decNat_length_le h
  rw [mediaJsonU64, if_neg (by omega)]

/-! ## The canonical text -/

def itemMembers (item : FcMediaDescriptor) : List (Bytes × Bytes) :=
  [(lit "id", quoted (escaped item.id.1)), (lit "filename", quoted (escaped item.filename.1)),
    (lit "media_type", quoted (escaped item.mediaType.1)), (lit "size_bytes", decNat item.sizeBytes.toNat),
    (lit "source_url", quoted (escaped item.sourceUrl.1))]

def itemText (item : FcMediaDescriptor) : Bytes := objText (itemMembers item)

def manifestMembers (items : List FcMediaDescriptor) (totalBytes : UInt64) : List (Bytes × Bytes) :=
  [(lit "version", decNat 1), (lit "count", decNat items.length), (lit "total_bytes", decNat totalBytes.toNat),
    (lit "items", arrText (items.map itemText))]

/-- The one text of a list of descriptors. -/
def canonicalText (items : List FcMediaDescriptor) (totalBytes : UInt64) : Bytes :=
  objText (manifestMembers items totalBytes) ++ lit "\n"

theorem putItem_eq (first : Bool) (item : FcMediaDescriptor) (json : MediaJson) :
    putItem first item json = mediaJsonPuts ((if first then [] else lit ",") ++ itemText item) json := by
  cases first <;>
    simp only [putItem, mediaJsonEscape_eq, mediaJsonU64_eq item.sizeBytes.toNat_lt, Option.bind_eq_bind,
      Option.bind_some, Bool.false_eq_true, if_false, if_true, mediaJsonPuts_bind]
  all_goals
    congr 1
    simp [itemText, itemMembers, objText, membersText, quoted, lit]

theorem putItems_eq (first : Bool) (items : List FcMediaDescriptor) (json : MediaJson) :
    putItems first items json = mediaJsonPuts (if first then elemsText (items.map itemText)
      else items.flatMap fun item => ch ',' :: itemText item) json := by
  induction items generalizing first json with
  | nil => cases first <;> exact (mediaJsonPuts_nil json).symm
  | cons item items ih =>
    have hrest : putItems false items =
        fun json => mediaJsonPuts (items.flatMap fun item => ch ',' :: itemText item) json := funext fun json => ih false json
    rw [putItems, hrest, putItem_eq, mediaJsonPuts_bind]
    cases first
    · simp [lit]
    · simp [elemsText_cons, List.flatMap_map]

theorem putManifest_eq {items : List FcMediaDescriptor} (hlen : items.length < 2 ^ 64) (totalBytes : UInt64)
    (json : MediaJson) : putManifest items totalBytes json = mediaJsonPuts (canonicalText items totalBytes) json := by
  simp only [putManifest, mediaJsonU64_eq hlen, mediaJsonU64_eq totalBytes.toNat_lt, putItems_eq, if_pos,
    Option.bind_eq_bind, mediaJsonPuts_bind]
  congr 1
  have hone : decNat 1 = [ch '1'] := by decide
  simp [canonicalText, manifestMembers, objText, membersText, arrText, quoted, lit, hone]

/-! ## The capacity -/

/-- What one item adds to the capacity. -/
def itemBound (item : FcMediaDescriptor) : Nat :=
  192 + 6 * (item.id.1.length + item.filename.1.length + item.mediaType.1.length + item.sourceUrl.1.length)

theorem addEscapedBound_eq {value cap : Nat} {text : CString} (h : addEscapedBound value text = some cap) :
    cap = value + 6 * text.1.length := by
  unfold addEscapedBound at h
  split at h
  · cases h
  · cases h
    omega

theorem addItemBound_eq {value cap : Nat} {item : FcMediaDescriptor} (h : addItemBound value item = some cap) :
    cap = value + itemBound item := by
  simp only [addItemBound, Option.bind_eq_bind, Option.bind_eq_some_iff] at h
  obtain ⟨c0, h0, c1, h1, c2, h2, c3, h3, h4⟩ := h
  have hc0 : c0 = value + 192 := by
    unfold addSize at h0
    split at h0
    · cases h0
    · exact (Option.some.inj h0).symm
  have hc1 := addEscapedBound_eq h1
  have hc2 := addEscapedBound_eq h2
  have hc3 := addEscapedBound_eq h3
  have hc4 := addEscapedBound_eq h4
  unfold itemBound
  omega

theorem capacity_eq {items : List FcMediaDescriptor} {cap : Nat} (h : capacity items = some cap) :
    cap = 256 + (items.map itemBound).sum := by
  have hfold : ∀ value, items.foldlM addItemBound value = some cap → cap = value + (items.map itemBound).sum := by
    clear h
    induction items with
    | nil =>
      intro value h
      simpa using (Option.some.inj h).symm
    | cons item items ih =>
      intro value h
      rw [List.foldlM_cons, Option.bind_eq_bind, Option.bind_eq_some_iff] at h
      obtain ⟨value1, h1, hrest⟩ := h
      have hv := addItemBound_eq h1
      have hr := ih value1 hrest
      rw [List.map_cons, List.sum_cons]
      omega
  exact hfold 256 h

theorem itemText_length (item : FcMediaDescriptor) : (itemText item).length < itemBound item := by
  have h1 := (escaped_length item.id.1).2
  have h2 := (escaped_length item.filename.1).2
  have h3 := (escaped_length item.mediaType.1).2
  have h4 := (escaped_length item.sourceUrl.1).2
  have h5 := decNat_length_le item.sizeBytes.toNat_lt
  have hkeys : (lit "id").length = 2 ∧ (lit "filename").length = 8 ∧ (lit "media_type").length = 10 ∧
      (lit "size_bytes").length = 10 ∧ (lit "source_url").length = 10 := ⟨lit_length _, lit_length _, lit_length _, lit_length _, lit_length _⟩
  rw [itemText, objText_length (by simp [itemMembers]), itemBound]
  simp only [itemMembers, List.map_cons, List.map_nil, List.sum_cons, List.sum_nil, quoted, List.length_cons,
    List.length_append, List.length_nil]
  omega

theorem elemsText_length (items : List FcMediaDescriptor) :
    (elemsText (items.map itemText)).length ≤ (items.map itemBound).sum := by
  have hitem : ∀ item : FcMediaDescriptor, (ch ',' :: itemText item).length ≤ itemBound item := fun item => itemText_length item
  have hrest : ∀ items : List FcMediaDescriptor,
      (items.flatMap fun item => ch ',' :: itemText item).length ≤ (items.map itemBound).sum := by
    intro items
    induction items with
    | nil => simp
    | cons item items ih =>
      rw [List.flatMap_cons, List.length_append, List.map_cons, List.sum_cons]
      exact Nat.add_le_add (hitem item) ih
  cases items with
  | nil => simp [elemsText]
  | cons item items =>
    have hhead := itemText_length item
    have htail := hrest items
    rw [List.map_cons, elemsText_cons, List.flatMap_map, List.length_append, List.map_cons, List.sum_cons]
    omega

/-- The canonical text fits the capacity computed for it. -/
theorem canonicalText_length {items : List FcMediaDescriptor} (hlen : items.length < 2 ^ 64) (totalBytes : UInt64)
    {cap : Nat} (hcap : capacity items = some cap) : (canonicalText items totalBytes).length < cap := by
  have hitems := elemsText_length items
  have hcount := decNat_length_le hlen
  have htotal := decNat_length_le totalBytes.toNat_lt
  have hkeys : (lit "version").length = 7 ∧ (lit "count").length = 5 ∧ (lit "total_bytes").length = 11 ∧
      (lit "items").length = 5 ∧ (decNat 1).length = 1 ∧ (lit "\n").length = 1 := by (repeat rw [lit_ofList]); decide
  rw [capacity_eq hcap, canonicalText, List.length_append, objText_length (by simp [manifestMembers])]
  simp only [manifestMembers, List.map_cons, List.map_nil, List.sum_cons, List.sum_nil, arrText, List.length_cons,
    List.length_append, List.length_nil]
  omega

theorem length_le_capacity {items : List FcMediaDescriptor} {cap : Nat} (h : capacity items = some cap) :
    items.length ≤ cap := by
  have hsum : ∀ items : List FcMediaDescriptor, items.length ≤ (items.map itemBound).sum := by
    intro items
    induction items with
    | nil => simp
    | cons item items ih =>
      rw [List.length_cons, List.map_cons, List.sum_cons, itemBound]
      omega
  have := hsum items
  rw [capacity_eq h]
  omega

theorem buildCanonical_fits {items : List FcMediaDescriptor} (hne : items ≠ []) (totalBytes : UInt64) {cap : Nat}
    (hcap : capacity items = some cap) (hmax : cap ≤ mediaFileMax) :
    buildCanonical items totalBytes = .ok (canonicalText items totalBytes) ∧
      (canonicalText items totalBytes).length < cap := by
  have hlen : items.length < 2 ^ 64 :=
    Nat.lt_of_le_of_lt (Nat.le_trans (length_le_capacity hcap) hmax) (by decide)
  have hfits := canonicalText_length hlen totalBytes hcap
  refine ⟨?_, hfits⟩
  have hpos : 0 < cap := Nat.lt_of_le_of_lt (Nat.zero_le _) hfits
  obtain ⟨json, hjson, hdata⟩ := mediaJsonPuts_fits (canonicalText items totalBytes) ⟨[], cap, hpos⟩ (by simpa using hfits)
  rw [buildCanonical, if_neg hne, hcap]
  dsimp only
  rw [if_neg (by omega), dif_pos hpos, putManifest_eq hlen, hjson]
  exact congrArg Except.ok hdata

theorem buildCanonical_eq_ok {items : List FcMediaDescriptor} {totalBytes : UInt64} {text : Bytes}
    (h : buildCanonical items totalBytes = .ok text) :
    items ≠ [] ∧ text = canonicalText items totalBytes ∧
      ∃ cap, capacity items = some cap ∧ cap ≤ mediaFileMax ∧ text.length < cap := by
  have h0 := h
  unfold buildCanonical at h
  split at h
  · cases h
  rename_i hne
  split at h
  · cases h
  rename_i cap hcap
  split at h
  · cases h
  rename_i hmax
  obtain ⟨hok, hlen⟩ := buildCanonical_fits hne totalBytes hcap (by omega)
  rw [hok] at h0
  cases h0
  exact ⟨hne, rfl, cap, hcap, by omega, hlen⟩

/-! ## The reader -/

theorem decNat_inLong {n : Nat} (h : n < 2 ^ 63) : InLong n := by
  constructor
  · exact Int.le_trans (by decide) (Int.natCast_nonneg n)
  · have : (n : Int) < 2 ^ 63 := by exact_mod_cast h
    unfold int64Max
    omega

theorem objectLong_printed {obj key : Bytes} {n : Nat} (hn : n < 2 ^ 63)
    (hget : jsonRefObjectGet obj key = some (decNat n)) : objectLong obj key = some (n : Int) := by
  have hprinted : jsonRefObjectGetLong obj key 0 = ((n : Int), true) := getLong_printed (decNat_inLong hn) hget 0
  rw [objectLong, hprinted]

theorem objectStringDup_printed {obj key : Bytes} {s : CString}
    (hget : jsonRefObjectGet obj key = some (quoted (escaped s.1))) : objectStringDup obj key = some s := by
  have hroom : s.1.length < (quoted (escaped s.1)).length + 1 := by
    have := (escaped_length s.1).1
    simp only [quoted, List.length_cons, List.length_append, List.length_nil]
    omega
  obtain ⟨out, hout, hcstr⟩ := stringCopyWrite_of_copy (jsonRefStringCopy_escaped s.2 hroom)
  have hstring : (jsonRefObjectGet obj key).filter (fun v => jsonRefInferType v = .string) =
      some (quoted (escaped s.1)) := by
    rw [hget]
    rfl
  rw [objectStringDup, hstring, Option.bind_some, jsonRefStringDup, hout]
  exact congrArg some (Subtype.ext hcstr)

theorem itemMembers_written (item : FcMediaDescriptor) : WrittenMembers (itemMembers item) :=
  .key (by decide) (.text _) <| .key (by decide) (.text _) <| .key (by decide) (.text _) <|
    .key (by decide) (.long item.sizeBytes.toNat) <| .key (by decide) (.text _) .nil

theorem itemText_clean (item : FcMediaDescriptor) : CleanValue (itemText item) := .objText (itemMembers_written item)

theorem manifestMembers_written (items : List FcMediaDescriptor) (totalBytes : UInt64) :
    WrittenMembers (manifestMembers items totalBytes) := by
  refine .key (by decide) (.long 1) <| .key (by decide) (.long items.length) <|
    .key (by decide) (.long totalBytes.toNat) <| .key (by decide) (.arrText ?_) .nil
  intro x hx
  obtain ⟨item, -, rfl⟩ := List.mem_map.mp hx
  exact itemText_clean item

theorem parseItem_itemText {item : FcMediaDescriptor} (hsize : item.sizeBytes.toNat < 2 ^ 63) :
    parseItem (itemText item) = some item := by
  have hget : ∀ key, jsonRefObjectGet (itemText item) key = assoc key (itemMembers item) := (itemMembers_written item).get
  have hobj : jsonRefInferType (itemText item) = .object := ObjText.inferType (itemMembers_written item).objText
  have hid : objectStringDup (itemText item) (lit "id") = some item.id := objectStringDup_printed (hget _)
  have hfilename : objectStringDup (itemText item) (lit "filename") = some item.filename :=
    objectStringDup_printed (hget _)
  have htype : objectStringDup (itemText item) (lit "media_type") = some item.mediaType :=
    objectStringDup_printed (hget _)
  have hurl : objectStringDup (itemText item) (lit "source_url") = some item.sourceUrl :=
    objectStringDup_printed (hget _)
  have hlong : objectLong (itemText item) (lit "size_bytes") = some (item.sizeBytes.toNat : Int) :=
    objectLong_printed hsize (hget _)
  have hcast : UInt64.ofNat ((item.sizeBytes.toNat : Int)).toNat = item.sizeBytes := by simp
  simp [parseItem, hobj, hid, hfilename, htype, hurl, hlong, guard]

/-- What both loops make of the sizes of a list. -/
def totalFrom (total : UInt64) (items : List FcMediaDescriptor) : UInt64 :=
  items.foldl (fun total item => total + item.sizeBytes) total

/-- The checks both loops make of one item after another. -/
def Admitted (allowLoopback : Bool) : UInt64 → List FcMediaDescriptor → Prop
  | _, [] => True
  | total, item :: items =>
    fcMediaManifestValidateDescriptor allowLoopback item = none ∧ ¬ item.sizeBytes > uint64Max - total ∧
      ¬ total + item.sizeBytes > fcMediaMaxTotalBytes ∧ Admitted allowLoopback (total + item.sizeBytes) items

theorem writeTotal_eq_ok {allowLoopback : Bool} {i : Nat} {total sum : UInt64} {items : List FcMediaDescriptor}
    (h : writeTotal allowLoopback i total items = .ok sum) :
    Admitted allowLoopback total items ∧ sum = totalFrom total items := by
  induction items generalizing i total with
  | nil => exact ⟨trivial, (Except.ok.inj h).symm⟩
  | cons item items ih =>
    rw [writeTotal] at h
    split at h
    · cases h
    rename_i hvalid
    split at h
    · cases h
    rename_i hwrap
    split at h
    · cases h
    rename_i hmax
    obtain ⟨hrest, hsum⟩ := ih h
    exact ⟨⟨hvalid, hwrap, hmax, hrest⟩, hsum⟩

theorem validated_size {allowLoopback : Bool} {item : FcMediaDescriptor}
    (h : fcMediaManifestValidateDescriptor allowLoopback item = none) :
    item.sizeBytes ≠ 0 ∧ item.sizeBytes ≤ fcMediaMaxItemBytes := by
  unfold fcMediaManifestValidateDescriptor at h
  repeat' split at h
  all_goals try cases h
  rename_i hsize _
  simpa using hsize

theorem maxItemBytes_toNat : fcMediaMaxItemBytes.toNat = 26214400 := rfl
theorem maxTotalBytes_toNat : fcMediaMaxTotalBytes.toNat = 52428800 := rfl

theorem add_size_toNat {total size : UInt64} (h : ¬ size > uint64Max - total) :
    (total + size).toNat = total.toNat + size.toNat := by
  have hmax : uint64Max.toNat = 2 ^ 64 - 1 := rfl
  have hle : total ≤ uint64Max := by
    rw [UInt64.le_iff_toNat_le, hmax]
    have := total.toNat_lt
    omega
  have hsub : (uint64Max - total).toNat = 2 ^ 64 - 1 - total.toNat := by
    rw [UInt64.toNat_sub_of_le _ _ hle, hmax]
  rw [gt_iff_lt, UInt64.lt_iff_toNat_lt, hsub] at h
  rw [UInt64.toNat_add, Nat.mod_eq_of_lt]
  have := total.toNat_lt
  omega

/-- The total of an admitted list: no less than one octet an item, and within the limit. -/
theorem Admitted.total {allowLoopback : Bool} {items : List FcMediaDescriptor} {total : UInt64}
    (h : Admitted allowLoopback total items) (hle : total ≤ fcMediaMaxTotalBytes) :
    total.toNat + items.length ≤ (totalFrom total items).toNat ∧ totalFrom total items ≤ fcMediaMaxTotalBytes := by
  induction items generalizing total with
  | nil => exact ⟨Nat.le_refl _, hle⟩
  | cons item items ih =>
    obtain ⟨hvalid, hwrap, hmax, hrest⟩ := h
    have hpos : 0 < item.sizeBytes.toNat := by
      have hne := (validated_size hvalid).1
      rw [ne_eq, ← UInt64.toNat_inj] at hne
      exact Nat.pos_of_ne_zero hne
    obtain ⟨hlow, hhigh⟩ := ih hrest (by simpa using hmax)
    refine ⟨?_, hhigh⟩
    rw [add_size_toNat hwrap] at hlow
    rw [List.length_cons]
    exact Nat.le_trans (by omega) hlow

theorem Admitted.item {allowLoopback : Bool} {items : List FcMediaDescriptor} {total : UInt64}
    (h : Admitted allowLoopback total items) : ∀ item ∈ items, item.sizeBytes.toNat < 2 ^ 63 := by
  induction items generalizing total with
  | nil => simp
  | cons item items ih =>
    obtain ⟨hvalid, -, -, hrest⟩ := h
    have hsize := (validated_size hvalid).2
    rw [UInt64.le_iff_toNat_le, maxItemBytes_toNat] at hsize
    exact List.forall_mem_cons.mpr ⟨by omega, ih hrest⟩

/-- The item loop reads an admitted list back out of its array. -/
theorem parseItems_arrText {allowLoopback : Bool} (before items : List FcMediaDescriptor) {total : UInt64}
    (h : Admitted allowLoopback total items) :
    parseItems allowLoopback (arrText ((before ++ items).map itemText)) items.length before.length total =
      .ok (items, totalFrom total items) := by
  induction items generalizing before total with
  | nil => rfl
  | cons item items ih =>
    have hread : ArrText (arrText ((before ++ item :: items).map itemText)) ((before ++ item :: items).map itemText) := by
      refine arrText_reads fun x hx => ?_
      obtain ⟨y, -, rfl⟩ := List.mem_map.mp hx
      exact (itemText_clean y).value
    have hsize := h.item item List.mem_cons_self
    obtain ⟨hvalid, hwrap, hmax, hrest⟩ := h
    have hget : jsonRefArrayGet (arrText ((before ++ item :: items).map itemText)) before.length = some (itemText item) := by
      rw [jsonRefArrayGet_eq hread]
      simp
    have hsplit : before ++ item :: items = (before ++ [item]) ++ items := by simp
    have hnext := ih (before ++ [item]) hrest
    rw [List.length_append, List.length_singleton, ← hsplit] at hnext
    rw [List.length_cons, parseItems, hget, Option.bind_some, parseItem_itemText hsize]
    dsimp only
    rw [hvalid]
    dsimp only
    rw [if_neg hwrap, if_neg hmax, hnext]
    rfl

theorem parseHead_canonicalText {items : List FcMediaDescriptor} {total : UInt64} (hne : items ≠ [])
    (hcount : items.length ≤ fcMediaMaxItems) (hpos : 0 < total.toNat) (hle : total ≤ fcMediaMaxTotalBytes) :
    parseHead (canonicalText items total) = some (items.length, total, arrText (items.map itemText)) := by
  have hms := manifestMembers_written items total
  have htop : jsonRefTopObject (canonicalText items total) = some (objText (manifestMembers items total)) :=
    jsonRefTopObject_line hms
  have hread : ArrText (arrText (items.map itemText)) (items.map itemText) := by
    refine arrText_reads fun x hx => ?_
    obtain ⟨y, -, rfl⟩ := List.mem_map.mp hx
    exact (itemText_clean y).value
  rw [UInt64.le_iff_toNat_le] at hle
  have hlimit := maxTotalBytes_toNat
  have hsmall : items.length < 2 ^ 63 := by
    unfold fcMediaMaxItems at hcount
    omega
  have hversion := objectLong_printed (n := 1) (by decide) (hms.get (lit "version"))
  have hlen := objectLong_printed hsmall (hms.get (lit "count"))
  have htotal := objectLong_printed (n := total.toNat) (by omega) (hms.get (lit "total_bytes"))
  have harr : jsonRefObjectGetArray (objText (manifestMembers items total)) (lit "items") =
      some (arrText (items.map itemText)) := by
    rw [jsonRefObjectGetArray, hms.get]
    rfl
  have hsize : jsonRefArraySize (arrText (items.map itemText)) = items.length := by
    rw [jsonRefArraySize_eq hread, List.length_map]
  have hsome : 0 < items.length := List.length_pos_of_ne_nil hne
  simp [parseHead, htop, hversion, hlen, htotal, harr, hsize, guard, hsome, hcount, hpos, hle]

theorem parseItems_eq_ok {allowLoopback : Bool} {itemsRef : JsonRef} {n i : Nat} {total sum : UInt64}
    {items : List FcMediaDescriptor} (h : parseItems allowLoopback itemsRef n i total = .ok (items, sum)) :
    items.length = n ∧ sum = totalFrom total items := by
  induction n generalizing i total items with
  | zero =>
    cases h
    exact ⟨rfl, rfl⟩
  | succ n ih =>
    rw [parseItems] at h
    split at h
    · cases h
    split at h
    · cases h
    split at h
    · cases h
    split at h
    · cases h
    split at h
    · cases h
    · rename_i hrest
      cases h
      obtain ⟨hlen, hsum⟩ := ih hrest
      exact ⟨by rw [List.length_cons, hlen], hsum⟩

/-- What the reader accepts it has rebuilt from what it returns. -/
theorem parseCanonical_eq_ok {allowLoopback : Bool} {text : Bytes} {ref : FcMediaManifestRef} {aggregates : Bool}
    {m : FcMediaManifest} (h : parseCanonical allowLoopback text ref aggregates = .ok m) :
    m.count = m.items.length ∧ m.totalBytes = totalFrom 0 m.items ∧
      buildCanonical m.items m.totalBytes = .ok text := by
  unfold parseCanonical at h
  split at h
  · cases h
  split at h
  · cases h
  rename_i hitems
  split at h
  · cases h
  split at h
  · cases h
  rename_i hbuild
  split at h
  · rename_i hsame
    cases h
    obtain ⟨hlen, hsum⟩ := parseItems_eq_ok hitems
    exact ⟨hlen.symm, hsum, hsame ▸ hbuild⟩
  · cases h

theorem parseCanonical_canonicalText {allowLoopback : Bool} {items : List FcMediaDescriptor} {total : UInt64}
    (hcount : items.length ≤ fcMediaMaxItems) (hadmitted : Admitted allowLoopback 0 items)
    (htotal : total = totalFrom 0 items) {text : Bytes} (hbuild : buildCanonical items total = .ok text)
    {ref : FcMediaManifestRef} {aggregates : Bool}
    (href : aggregates = true → ref.count = items.length ∧ ref.totalBytes = total) :
    parseCanonical allowLoopback text ref aggregates = .ok { items, count := items.length, totalBytes := total } := by
  obtain ⟨hne, rfl, -⟩ := buildCanonical_eq_ok hbuild
  have hsum := hadmitted.total (by decide)
  rw [← htotal] at hsum
  have hpos : 0 < total.toNat := Nat.lt_of_lt_of_le (Nat.add_pos_right _ (List.length_pos_of_ne_nil hne)) hsum.1
  have hitems := parseItems_arrText [] items hadmitted
  rw [List.nil_append, List.length_nil, ← htotal] at hitems
  have hagree : ¬ (total ≠ total ∨ (aggregates = true ∧ (items.length ≠ ref.count ∨ total ≠ ref.totalBytes))) := by
    rintro (hne | ⟨haggregates, hne | hne⟩)
    · exact hne rfl
    · exact hne (href haggregates).1.symm
    · exact hne (href haggregates).2.symm
  rw [parseCanonical, parseHead_canonicalText hne hcount hpos hsum.2]
  dsimp only
  rw [hitems]
  dsimp only
  rw [if_neg hagree, hbuild]
  exact if_pos rfl

theorem fcMediaManifestWrite_eq_ok {env : MediaEnv} {items : List FcMediaDescriptor} {ref : FcMediaManifestRef}
    (h : fcMediaManifestWrite env items = .ok ref) :
    items.length ≤ fcMediaMaxItems ∧ Admitted env.allowLoopback 0 items ∧ ref.count = items.length ∧
      ref.totalBytes = totalFrom 0 items ∧ ∃ text, buildCanonical items ref.totalBytes = .ok text := by
  unfold fcMediaManifestWrite at h
  split at h
  · cases h
  rename_i hbounds
  rw [not_or] at hbounds
  cases htotal : writeTotal env.allowLoopback 0 0 items with
  | error e =>
    rw [htotal] at h
    cases h
  | ok total =>
    rw [htotal] at h
    obtain ⟨hadmitted, hsum⟩ := writeTotal_eq_ok htotal
    cases hbuild : buildCanonical items total with
    | error e =>
      simp only [bind, Except.bind, hbuild] at h
      cases h
    | ok text =>
      simp only [bind, Except.bind, hbuild] at h
      split at h
      · cases h
      split at h
      · cases h
      cases h
      exact ⟨by omega, hadmitted, rfl, hsum, text, hbuild⟩

/-- The codec is canonical: the writer's text always fits the capacity computed for it, what the writer accepts is read
back as it was, and the reader accepts no text but the canonical one of the descriptors it returns. -/
theorem media_manifest_canonical (env : MediaEnv) :
    (∀ (items : List FcMediaDescriptor) (total : UInt64) (cap : Nat), items ≠ [] → capacity items = some cap →
      cap ≤ mediaFileMax → ∃ text, buildCanonical items total = .ok text ∧ text.length < cap) ∧
    (∀ (items : List FcMediaDescriptor) (ref : FcMediaManifestRef), fcMediaManifestWrite env items = .ok ref →
      ∃ text cap, buildCanonical items ref.totalBytes = .ok text ∧ capacity items = some cap ∧ text.length < cap ∧
        ∀ aggregates, parseCanonical env.allowLoopback text ref aggregates =
          .ok { items, count := ref.count, totalBytes := ref.totalBytes }) ∧
    (∀ (text : Bytes) (ref : FcMediaManifestRef) (aggregates : Bool) (m : FcMediaManifest),
      parseCanonical env.allowLoopback text ref aggregates = .ok m →
        m.count = m.items.length ∧ buildCanonical m.items m.totalBytes = .ok text) ∧
    ∀ (text text' : Bytes) (ref ref' : FcMediaManifestRef) (aggregates aggregates' : Bool) (m m' : FcMediaManifest),
      parseCanonical env.allowLoopback text ref aggregates = .ok m →
        parseCanonical env.allowLoopback text' ref' aggregates' = .ok m' → text ≠ text' → m.items ≠ m'.items := by
  refine ⟨?_, ?_, ?_, ?_⟩
  · intro items total cap hne hcap hmax
    exact ⟨_, buildCanonical_fits hne total hcap hmax⟩
  · intro items ref h
    obtain ⟨hlen, hadmitted, hcount, htotal, text, hbuild⟩ := fcMediaManifestWrite_eq_ok h
    obtain ⟨-, -, cap, hcap, -, hfits⟩ := buildCanonical_eq_ok hbuild
    refine ⟨text, cap, hbuild, hcap, hfits, fun aggregates => ?_⟩
    rw [parseCanonical_canonicalText hlen hadmitted htotal hbuild fun _ => ⟨hcount, rfl⟩, hcount]
  · intro text ref aggregates m h
    obtain ⟨hcount, -, hbuild⟩ := parseCanonical_eq_ok h
    exact ⟨hcount, hbuild⟩
  · intro text text' ref ref' aggregates aggregates' m m' h h' hne hitems
    obtain ⟨-, htotal, hbuild⟩ := parseCanonical_eq_ok h
    obtain ⟨-, htotal', hbuild'⟩ := parseCanonical_eq_ok h'
    rw [htotal', ← hitems, ← htotal, hbuild] at hbuild'
    exact hne (Except.ok.inj hbuild')

example : writeTotal false 0 0 [⟨⟨lit "1", .of_all (by decide)⟩, ⟨lit "a b.png", .of_all (lit_all (by decide))⟩,
      ⟨lit "image/png", .of_all (lit_all (by decide))⟩, 7, ⟨lit "https://h/x", .of_all (lit_all (by decide))⟩⟩] = .ok 7 := by
  decide +kernel

end Floofclaw.Guarantees.MediaCodec
