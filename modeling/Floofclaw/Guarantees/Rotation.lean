import Floofclaw.Lib.Machine
import Floofclaw.Source.LogRotation

/-!
# Rotated generations

While slot names fit their buffers and no rotation starts under a compressor
that has opened its file, each slot holds the generation of its number, plain or
compressed, what was there before has moved up behind them, and no other file is
touched. A rotation under an open compressor loses the generation it makes.
-/

set_option autoImplicit false

namespace Floofclaw.Guarantees.Rotation
open Floofclaw.Lib Floofclaw.Source.LogRotation

variable {path : Bytes} {keep : Int} {deflate : Bytes → Bytes} {d d' d0 : Files}

/-! ## Names -/

def plainOf (path : Bytes) (slot : Nat) : Bytes := path ++ lit "." ++ decNat slot
def gzOf (path : Bytes) (slot : Nat) : Bytes := path ++ lit "." ++ decNat slot ++ lit ".gz"

/-- The names of all slots fit the buffers they are formatted into. -/
def Fits (path : Bytes) (keep : Int) : Prop := ∀ k < keep.toNat + 1, (gzOf path k).length < slotNameMax

instance : Decidable (Fits path keep) := inferInstanceAs (Decidable (∀ k < keep.toNat + 1, _))

theorem slotName_eq {k : Nat} (h : Fits path keep) (hk : k ≤ keep.toNat) : slotName path k = plainOf path k := by
  refine clip_eq_self (lt_of_le_of_lt ?_ (h k (by omega)))
  have hgz : (gzOf path k).length = (plainOf path k).length + (lit ".gz").length := List.length_append
  change (plainOf path k).length ≤ _
  omega

theorem slotGzName_eq {k : Nat} (h : Fits path keep) (hk : k ≤ keep.toNat) : slotGzName path k = gzOf path k :=
  clip_eq_self (h k (by omega))

theorem decNat_injective {j k : Nat} (h : decNat j = decNat k) : j = k := by
  rw [← decValue_decNat j, h, decValue_decNat]

theorem plainOf_ne {j k : Nat} (h : j ≠ k) : plainOf path j ≠ plainOf path k := fun heq =>
  h (decNat_injective (List.append_cancel_left heq))

theorem gzOf_ne {j k : Nat} (h : j ≠ k) : gzOf path j ≠ gzOf path k := fun heq =>
  plainOf_ne h (List.append_cancel_right heq)

/-- A slot's number is all digits, so no plain name ends like a compressed one. -/
theorem plainOf_ne_gzOf (j k : Nat) : plainOf path j ≠ gzOf path k := by
  intro heq
  rw [plainOf, gzOf, List.append_assoc (path ++ lit "."), List.append_cancel_left_eq] at heq
  have hz : ch 'z' ∈ decNat j := by
    rw [heq]
    exact List.mem_append_right _ (by rw [lit_ofList]; decide)
  exact absurd (decNat_digits j _ hz) (by decide)

theorem live_ne_plainOf (k : Nat) : path ≠ plainOf path k := fun heq => by
  have := congrArg List.length heq
  simp [plainOf, lit] at this

theorem live_ne_gzOf (k : Nat) : path ≠ gzOf path k := fun heq => by
  have := congrArg List.length heq
  simp [gzOf, lit] at this

/-! ## Slots -/

/-- What a slot holds in its plain form and in its compressed form. -/
def slot (path : Bytes) (d : Files) (k : Nat) : Option Bytes × Option Bytes := (d (plainOf path k), d (gzOf path k))

/-- A name that is neither the live file nor one of the slots. -/
def Foreign (path : Bytes) (keep : Int) (name : Bytes) : Prop :=
  name ≠ path ∧ ∀ k, 1 ≤ k → k ≤ keep.toNat → name ≠ plainOf path k ∧ name ≠ gzOf path k

/-- Files that differ at most in the slots and the live file. -/
def SameElsewhere (path : Bytes) (keep : Int) (d d' : Files) : Prop := ∀ name, Foreign path keep name → d' name = d name

theorem unlinkSlot_slots (hfits : Fits path keep) {k : Nat} (h1 : 1 ≤ k) (hk : k ≤ keep.toNat) (d : Files) :
    slot path (unlinkSlot path k d) k = (none, none) ∧
      (∀ j, j ≠ k → slot path (unlinkSlot path k d) j = slot path d j) ∧ (unlinkSlot path k d) path = d path ∧
      SameElsewhere path keep d (unlinkSlot path k d) := by
  rw [unlinkSlot, slotName_eq hfits hk, slotGzName_eq hfits hk]
  refine ⟨?_, fun j hj => ?_, ?_, fun name hname => ?_⟩
  · rw [slot, Directory.unlink_same, Directory.unlink_other (plainOf_ne_gzOf k k), Directory.unlink_same]
  · rw [slot, Directory.unlink_other (plainOf_ne_gzOf j k), Directory.unlink_other (plainOf_ne hj),
      Directory.unlink_other (gzOf_ne hj), Directory.unlink_other (plainOf_ne_gzOf k j).symm, slot]
  · rw [Directory.unlink_other (live_ne_gzOf k), Directory.unlink_other (live_ne_plainOf k)]
  · rw [Directory.unlink_other (hname.2 k h1 hk).2, Directory.unlink_other (hname.2 k h1 hk).1]

/-- A shift onto a free slot carries both forms. -/
theorem shiftSlot_slots (hfits : Fits path keep) {k : Nat} (h1 : 1 ≤ k) (hk : k + 1 ≤ keep.toNat) {d : Files}
    (hfree : slot path d (k + 1) = (none, none)) :
    slot path (shiftSlot path k (k + 1) d) (k + 1) = slot path d k ∧
      slot path (shiftSlot path k (k + 1) d) k = (none, none) ∧
      (∀ j, j ≠ k → j ≠ k + 1 → slot path (shiftSlot path k (k + 1) d) j = slot path d j) ∧
      (shiftSlot path k (k + 1) d) path = d path ∧ SameElsewhere path keep d (shiftSlot path k (k + 1) d) := by
  obtain ⟨hplain, hgz⟩ := Prod.mk.inj hfree
  have hne : k ≠ k + 1 := by omega
  rw [shiftSlot, slotName_eq hfits (by omega), slotName_eq hfits hk, slotGzName_eq hfits (by omega),
    slotGzName_eq hfits hk]
  have hfirst : ∀ j, (d.rename (plainOf path k) (plainOf path (k + 1))) (gzOf path j) = d (gzOf path j) := fun j =>
    Directory.rename_other (plainOf_ne hne) (plainOf_ne_gzOf k j).symm (plainOf_ne_gzOf (k + 1) j).symm
  have hsecond : ∀ (e : Files) j, (e.rename (gzOf path k) (gzOf path (k + 1))) (plainOf path j) = e (plainOf path j) :=
    fun e j => Directory.rename_other (gzOf_ne hne) (plainOf_ne_gzOf j k) (plainOf_ne_gzOf j (k + 1))
  refine ⟨?_, ?_, fun j hj hj' => ?_, ?_, fun name hname => ?_⟩
  · rw [slot, hsecond, Directory.rename_dst (plainOf_ne hne) hplain,
      Directory.rename_dst (gzOf_ne hne) ((hfirst _).trans hgz), hfirst, slot]
  · rw [slot, hsecond, Directory.rename_src _ (plainOf_ne hne), Directory.rename_src _ (gzOf_ne hne)]
  · rw [slot, hsecond, Directory.rename_other (plainOf_ne hne) (plainOf_ne hj) (plainOf_ne hj'),
      Directory.rename_other (gzOf_ne hne) (gzOf_ne hj) (gzOf_ne hj'), hfirst, slot]
  · rw [Directory.rename_other (gzOf_ne hne) (live_ne_gzOf _) (live_ne_gzOf _),
      Directory.rename_other (plainOf_ne hne) (live_ne_plainOf _) (live_ne_plainOf _)]
  · rw [Directory.rename_other (gzOf_ne hne) (hname.2 k h1 (by omega)).2 (hname.2 (k + 1) (by omega) hk).2,
      Directory.rename_other (plainOf_ne hne) (hname.2 k h1 (by omega)).1 (hname.2 (k + 1) (by omega) hk).1]

/-- The shifts move every slot up by one onto the free one behind them. -/
theorem shiftSlots_slots (hfits : Fits path keep) {n : Nat} (hn : n + 1 ≤ keep.toNat) {d : Files}
    (hfree : slot path d (n + 1) = (none, none)) :
    (∀ k, 1 ≤ k → k ≤ n → slot path (shiftSlots path n d) (k + 1) = slot path d k) ∧
      slot path (shiftSlots path n d) 1 = (none, none) ∧
      (∀ k, n + 1 < k → slot path (shiftSlots path n d) k = slot path d k) ∧
      (shiftSlots path n d) path = d path ∧ SameElsewhere path keep d (shiftSlots path n d) := by
  induction n generalizing d with
  | zero => exact ⟨fun k h1 h0 => by omega, hfree, fun _ _ => rfl, rfl, fun _ _ => rfl⟩
  | succ n ih =>
    obtain ⟨hto, hfrom, hothers, hlive, helse⟩ := shiftSlot_slots hfits (by omega) (by omega) hfree
    obtain ⟨hshift, hone, hbehind, hlive', helse'⟩ := ih (by omega) hfrom
    rw [shiftSlots]
    refine ⟨fun k h1 hk => ?_, hone, fun k hk => ?_, hlive'.trans hlive, fun name hname => ?_⟩
    · rcases Nat.lt_or_ge n k with hlast | hbefore
      · obtain rfl : k = n + 1 := by omega
        rw [hbehind _ (by omega), hto]
      · rw [hshift k h1 hbefore, hothers k (by omega) (by omega)]
    · rw [hbehind k (by omega), hothers k (by omega) (by omega)]
    · exact (helse' name hname).trans (helse name hname)

/-- What a rotation does: the live file is the first slot, and every slot below `keep` has moved up by one. -/
theorem fcRotateFile_slots (hfits : Fits path keep) (h : fcRotateFile path keep d = (true, d')) :
    ∃ live, d path = some live ∧ slot path d' 1 = (some live, none) ∧
      (∀ k, 1 ≤ k → k < keep.toNat → slot path d' (k + 1) = slot path d k) ∧ SameElsewhere path keep d d' := by
  rw [fcRotateFile] at h
  split_ifs at h with hargs hdots hmissing
  any_goals cases h
  rw [not_or] at hargs
  obtain ⟨live, hlive⟩ := Option.ne_none_iff_exists'.mp hmissing
  have hkeep : 1 ≤ keep.toNat := by omega
  obtain ⟨hfree, hsame, hpath, helse⟩ := unlinkSlot_slots hfits hkeep (Nat.le_refl _) d
  have hpred : keep.toNat - 1 + 1 = keep.toNat := by omega
  obtain ⟨hshift, hone, -, hpath', helse'⟩ :=
    shiftSlots_slots hfits (d := unlinkSlot path keep.toNat d) (n := keep.toNat - 1) (by omega) (hpred ▸ hfree)
  obtain ⟨hplain, hgz⟩ := Prod.mk.inj hone
  rw [slotName_eq hfits hkeep]
  have hplains : ∀ k, k ≠ 1 → plainOf path k ≠ plainOf path 1 := fun k hk => plainOf_ne hk
  refine ⟨live, hlive, ?_, fun k h1 hk => ?_, fun name hname => ?_⟩
  · rw [slot, Directory.rename_dst (live_ne_plainOf 1) hplain, hpath', hpath, hlive,
      Directory.rename_other (live_ne_plainOf 1) (live_ne_gzOf 1).symm (plainOf_ne_gzOf 1 1).symm, hgz]
  · rw [slot, Directory.rename_other (live_ne_plainOf 1) (live_ne_plainOf _).symm (plainOf_ne (by omega)),
      Directory.rename_other (live_ne_plainOf 1) (live_ne_gzOf _).symm (plainOf_ne_gzOf 1 _).symm]
    exact (hshift k h1 (by omega)).trans (hsame k (by omega))
  · rw [Directory.rename_other (live_ne_plainOf 1) hname.1 (hname.2 1 (Nat.le_refl 1) hkeep).1, helse' name hname, helse name hname]

/-- A call that does not rotate leaves the files as they are. -/
theorem fcRotateFile_refused (h : fcRotateFile path keep d = (false, d')) : d' = d := by
  rw [fcRotateFile] at h
  split_ifs at h <;> cases h <;> rfl

/-! ## Generations -/

/-- One of the forms a rotated content is kept in. -/
def InOneForm (deflate : Bytes → Bytes) (forms : Option Bytes × Option Bytes) (content : Bytes) : Prop :=
  forms = (some content, none) ∨ forms = (none, some (deflate content))

/-- Between its write and its removal a compressor holds a content in both forms. -/
def InBothForms (deflate : Bytes → Bytes) (forms : Option Bytes × Option Bytes) (content : Bytes) : Prop :=
  forms = (some content, some (deflate content))

/-- A compressor that has written and not yet removed. -/
def Writing (path : Bytes) (s : State) : Prop := ∃ i : Nat, s.gzips[i]? = some (.wrote (plainOf path 1))

/-- Each slot up to `keep` holds the rotation of its number, the slots behind hold what the first slots held at the start,
and no other file has changed. -/
structure Kept (path : Bytes) (keep : Int) (deflate : Bytes → Bytes) (d0 : Files) (s : State) : Prop where
  held : ∀ k content, k < keep.toNat → s.rotated[k]? = some content →
    InOneForm deflate (slot path s.files (k + 1)) content ∨
      k = 0 ∧ InBothForms deflate (slot path s.files 1) content ∧ Writing path s
  moved : ∀ k, k < keep.toNat → s.rotated.length ≤ k →
    slot path s.files (k + 1) = slot path d0 (k + 1 - s.rotated.length)
  elsewhere : SameElsewhere path keep d0 s.files

/-- What a compressor that has begun knows of the first slot. -/
def GzipOk (path : Bytes) (deflate : Bytes → Bytes) (s : State) : Gzip → Prop
  | .spawned file => file = plainOf path 1 ∧ s.rotated ≠ []
  | .opened file content => file = plainOf path 1 ∧ s.rotated[0]? = some content
  | .wrote file => file = plainOf path 1 ∧ ∃ content, s.rotated[0]? = some content ∧
      s.files (gzOf path 1) = some (deflate content)
  | .done => True

structure Inv (path : Bytes) (keep : Int) (deflate : Bytes → Bytes) (d0 : Files) (s : State) : Prop extends
    Kept path keep deflate d0 s where
  gzips : ∀ g ∈ s.gzips, GzipOk path deflate s g
  kept : s.rotated ≠ [] → 0 < keep.toNat

/-- A compressor that has not opened its file, or that has ended. -/
def Idle : Gzip → Prop
  | .spawned _ | .done => True
  | _ => False

instance : ∀ g, Decidable (Idle g)
  | .spawned _ | .done => .isTrue trivial
  | .opened _ _ | .wrote _ => .isFalse id

/-- A rotation starts while its slot names fit and no compressor of an earlier one is under way. -/
def Calm (path : Bytes) (keep : Int) (s : State) : Event → Prop
  | .rotate _ => Fits path keep ∧ ∀ g ∈ s.gzips, Idle g
  | _ => True

instance (s : State) : ∀ e, Decidable (Calm path keep s e)
  | .rotate _ => inferInstanceAs (Decidable (Fits path keep ∧ ∀ g ∈ s.gzips, Idle g))
  | .write _ | .gzipOpen _ | .gzipWrite _ | .gzipRemove _ => .isTrue trivial

variable {s s' : State}

theorem inv_start (d0 : Files) : Inv path keep deflate d0 { files := d0 } where
  held := fun k content _ h => by simp at h
  moved := fun _ _ _ => rfl
  elsewhere := fun _ _ => rfl
  gzips := fun _ h => by simp at h
  kept := fun h => absurd rfl h

theorem inv_write (h : Inv path keep deflate d0 s) (content : Bytes) :
    Inv path keep deflate d0 { s with files := s.files.write path content } := by
  have hslot : ∀ k, slot path (s.files.write path content) k = slot path s.files k := fun k => by
    rw [slot, Directory.write_other _ (live_ne_plainOf k).symm, Directory.write_other _ (live_ne_gzOf k).symm, slot]
  refine ⟨⟨fun k c hk hc => ?_, fun k hk hlen => ?_, fun name hname => ?_⟩, fun g hg => ?_, h.kept⟩
  · simp only [hslot]
    exact h.held k c hk hc
  · simp only [hslot]
    exact h.moved k hk hlen
  · exact (Directory.write_other _ hname.1).trans (h.elsewhere name hname)
  · have hok := h.gzips g hg
    cases g with
    | wrote file =>
      obtain ⟨hfile, c, hc, hgz⟩ := hok
      exact ⟨hfile, c, hc, (Directory.write_other _ (live_ne_gzOf 1).symm).trans hgz⟩
    | _ => exact hok

theorem inv_rotate (h : Inv path keep deflate d0 s) (hfits : Fits path keep) (hidle : ∀ g ∈ s.gzips, Idle g)
    (compress : Bool) (hrot : fcRotateFile path keep s.files = (true, d')) :
    Inv path keep deflate d0
      { files := d'
        gzips := if compress then s.gzips ++ [Gzip.spawned (slotName path 1)] else s.gzips
        rotated := (s.files path).toList ++ s.rotated } := by
  have hkeep : 0 < keep.toNat := by
    rw [fcRotateFile] at hrot
    split_ifs at hrot with hargs
    · cases hrot
    all_goals omega
  obtain ⟨live, hlive, hfirst, hshift, helse⟩ := fcRotateFile_slots hfits hrot
  rw [hlive, Option.toList_some, List.singleton_append]
  refine ⟨⟨fun k c hk hc => ?_, fun k hk hlen => ?_, fun name hname => ?_⟩, fun g hg => ?_, fun _ => hkeep⟩
  · cases k with
    | zero =>
      cases hc
      exact .inl (.inl hfirst)
    | succ k =>
      refine .inl ?_
      rw [hshift (k + 1) (by omega) (by omega)]
      rcases h.held k c (by omega) hc with hone | ⟨-, -, i, hi⟩
      · exact hone
      · exact absurd (hidle _ (List.mem_of_getElem? hi)) id
  · cases k with
    | zero => simp at hlen
    | succ k =>
      rw [hshift (k + 1) (by omega) (by omega), h.moved k (by omega) (by simpa using hlen)]
      congr 1
      rw [List.length_cons]
      omega
  · exact (helse name hname).trans (h.elsewhere name hname)
  · have hold : ∀ g ∈ s.gzips, GzipOk path deflate { files := d', gzips := s.gzips, rotated := live :: s.rotated } g := by
      intro g hg
      have hok := h.gzips g hg
      have hig := hidle g hg
      cases g with
      | spawned file => exact ⟨hok.1, List.cons_ne_nil _ _⟩
      | opened => exact absurd hig id
      | wrote => exact absurd hig id
      | done => trivial
    cases compress with
    | false => exact hold g hg
    | true =>
      rcases List.mem_append.mp hg with hg | hg
      · exact hold g hg
      · obtain rfl := List.mem_singleton.mp hg
        exact ⟨slotName_eq hfits (by omega), List.cons_ne_nil _ _⟩

/-- A compressor that has written stays where it is when another one moves on. -/
theorem Writing.set {i : Nat} {g : Gzip} (h : Writing path s) (hother : s.gzips[i]? ≠ some (.wrote (plainOf path 1))) :
    Writing path { s with gzips := s.gzips.set i g } := by
  obtain ⟨j, hj⟩ := h
  have hne : i ≠ j := fun heq => hother (heq ▸ hj)
  exact ⟨j, (List.getElem?_set_ne hne).trans hj⟩

/-- The first rotation, as long as there is one, in the first slot. -/
theorem Inv.first (h : Inv path keep deflate d0 s) {content : Bytes} (hc : s.rotated[0]? = some content) :
    InOneForm deflate (slot path s.files 1) content ∨ InBothForms deflate (slot path s.files 1) content := by
  have hne : s.rotated ≠ [] := fun hnil => by simp [hnil] at hc
  exact (h.held 0 content (h.kept hne) hc).imp_right fun hboth => hboth.2.1

/-- A change of the first slot and the compressors, seen from the other slots. -/
theorem inv_first (h : Inv path keep deflate d0 s) {files : Files} {gzips : List Gzip}
    (hsame : ∀ k, k ≠ 1 → slot path files k = slot path s.files k) (helse : SameElsewhere path keep s.files files)
    (hnonempty : s.rotated ≠ [])
    (hfirst : ∀ content, s.rotated[0]? = some content → InOneForm deflate (slot path files 1) content ∨
      InBothForms deflate (slot path files 1) content ∧ Writing path { s with files, gzips })
    (hgzips : ∀ g ∈ gzips, GzipOk path deflate { s with files, gzips } g) :
    Inv path keep deflate d0 { s with files, gzips } := by
  refine ⟨⟨fun k c hk hc => ?_, fun k hk hlen => ?_, fun name hname => ?_⟩, hgzips, h.kept⟩
  · cases k with
    | zero => exact (hfirst c hc).imp_right fun hboth => ⟨rfl, hboth⟩
    | succ k =>
      refine .inl ?_
      rw [hsame (k + 1 + 1) (by omega)]
      exact (h.held (k + 1) c hk hc).resolve_right fun hbad => by omega
  · cases k with
    | zero => exact absurd (List.eq_nil_of_length_eq_zero (Nat.le_zero.mp hlen)) hnonempty
    | succ k =>
      exact (hsame (k + 1 + 1) (by omega)).trans (h.moved (k + 1) hk hlen)
  · exact (helse name hname).trans (h.elsewhere name hname)

theorem inv_gzipOpen (h : Inv path keep deflate d0 s) {i : Nat} {file : Bytes}
    (hi : s.gzips[i]? = some (.spawned file)) :
    Inv path keep deflate d0
      { s with gzips := s.gzips.set i (match s.files file with | none => .done | some c => .opened file c) } := by
  obtain ⟨hfile, hne⟩ : file = plainOf path 1 ∧ s.rotated ≠ [] := h.gzips _ (List.mem_of_getElem? hi)
  have hother : s.gzips[i]? ≠ some (.wrote (plainOf path 1)) := fun heq => by
    rw [hi] at heq
    cases heq
  refine inv_first h (fun _ _ => rfl) (fun _ _ => rfl) hne (fun content hc => ?_) fun g hg => ?_
  · exact (h.held 0 content (h.kept hne) hc).imp_right fun hboth => ⟨hboth.2.1, hboth.2.2.set hother⟩
  · rcases List.mem_or_eq_of_mem_set hg with hold | rfl
    · exact h.gzips g hold
    · cases hopen : s.files file with
      | none => trivial
      | some c =>
        refine ⟨hfile, ?_⟩
        obtain ⟨live, older, hrotated⟩ := List.exists_cons_of_ne_nil hne
        have hlive : s.rotated[0]? = some live := by rw [hrotated]; rfl
        have hplain : (slot path s.files 1).1 = some c := by
          rw [slot, ← hfile]
          exact hopen
        rcases h.first hlive with (hone | hone) | hboth
        · rw [hone] at hplain
          exact hlive.trans hplain
        · rw [hone] at hplain
          cases hplain
        · rw [hboth] at hplain
          exact hlive.trans hplain

theorem inv_gzipWrite (h : Inv path keep deflate d0 s) {i : Nat} {file content : Bytes}
    (hi : s.gzips[i]? = some (.opened file content)) :
    Inv path keep deflate d0
      { s with files := s.files.write (file ++ lit ".gz") (deflate content), gzips := s.gzips.set i (.wrote file) } := by
  obtain ⟨rfl, hcontent⟩ : file = plainOf path 1 ∧ s.rotated[0]? = some content := h.gzips _ (List.mem_of_getElem? hi)
  have hne : s.rotated ≠ [] := fun hnil => by simp [hnil] at hcontent
  have hkeep := h.kept hne
  change Inv path keep deflate d0 { s with files := s.files.write (gzOf path 1) (deflate content), gzips := _ }
  have hlen : i < s.gzips.length := (List.getElem?_eq_some_iff.mp hi).1
  refine inv_first h (fun k hk => ?_) (fun name hname => ?_) hne (fun c hc => ?_) fun g hg => ?_
  · rw [slot, Directory.write_other _ (plainOf_ne_gzOf k 1), Directory.write_other _ (gzOf_ne hk), slot]
  · exact Directory.write_other _ (hname.2 1 (Nat.le_refl 1) (by omega)).2
  · obtain rfl : content = c := Option.some.inj (hcontent.symm.trans hc)
    have hgz : (s.files.write (gzOf path 1) (deflate content)) (gzOf path 1) = some (deflate content) :=
      Directory.write_same ..
    have hplain : (s.files.write (gzOf path 1) (deflate content)) (plainOf path 1) = s.files (plainOf path 1) :=
      Directory.write_other _ (plainOf_ne_gzOf 1 1)
    have hwriting : Writing path { s with
        files := s.files.write (gzOf path 1) (deflate content), gzips := s.gzips.set i (.wrote (plainOf path 1)) } :=
      ⟨i, List.getElem?_set_self hlen⟩
    rw [InOneForm, InBothForms, slot, hgz, hplain]
    rcases h.first hcontent with (hone | hone) | hboth
    · exact .inr ⟨by rw [(Prod.mk.inj hone).1], hwriting⟩
    · exact .inl (.inr (by rw [(Prod.mk.inj hone).1]))
    · exact .inr ⟨by rw [(Prod.mk.inj hboth).1], hwriting⟩
  · rcases List.mem_or_eq_of_mem_set hg with hold | rfl
    · have hok := h.gzips g hold
      cases g with
      | wrote file =>
        obtain ⟨hfile, c, hc, -⟩ := hok
        obtain rfl : content = c := Option.some.inj (hcontent.symm.trans hc)
        exact ⟨hfile, content, hc, Directory.write_same ..⟩
      | _ => exact hok
    · exact ⟨rfl, content, hcontent, Directory.write_same ..⟩

theorem inv_gzipRemove (h : Inv path keep deflate d0 s) {i : Nat} {file : Bytes}
    (hi : s.gzips[i]? = some (.wrote file)) :
    Inv path keep deflate d0 { s with files := s.files.unlink file, gzips := s.gzips.set i .done } := by
  obtain ⟨rfl, content, hcontent, hgz⟩ := h.gzips _ (List.mem_of_getElem? hi)
  have hne : s.rotated ≠ [] := fun hnil => by simp [hnil] at hcontent
  have hkeep := h.kept hne
  have hgzKept : (s.files.unlink (plainOf path 1)) (gzOf path 1) = some (deflate content) :=
    (Directory.unlink_other (plainOf_ne_gzOf 1 1).symm).trans hgz
  refine inv_first h (fun k hk => ?_) (fun name hname => ?_) hne (fun c hc => ?_) fun g hg => ?_
  · rw [slot, Directory.unlink_other (plainOf_ne hk), Directory.unlink_other (plainOf_ne_gzOf 1 k).symm, slot]
  · exact Directory.unlink_other (hname.2 1 (Nat.le_refl 1) (by omega)).1
  · obtain rfl : content = c := Option.some.inj (hcontent.symm.trans hc)
    exact .inl (.inr (by rw [slot, Directory.unlink_same, hgzKept]))
  · rcases List.mem_or_eq_of_mem_set hg with hold | rfl
    · have hok := h.gzips g hold
      cases g with
      | wrote file =>
        obtain ⟨hfile, c, hc, -⟩ := hok
        obtain rfl : content = c := Option.some.inj (hcontent.symm.trans hc)
        exact ⟨hfile, content, hc, hgzKept⟩
      | _ => exact hok
    · trivial

theorem inv_step {e : Event} (h : Inv path keep deflate d0 s) (hcalm : Calm path keep s e)
    (hstep : step path keep deflate s e = some s') : Inv path keep deflate d0 s' := by
  cases e with
  | write content =>
    cases hstep
    exact inv_write h content
  | rotate compress =>
    cases hrot : fcRotateFile path keep s.files with
    | mk rotated files =>
      rw [step, hrot] at hstep
      cases rotated with
      | false =>
        obtain rfl := fcRotateFile_refused hrot
        cases hstep
        exact h
      | true =>
        cases hstep
        exact inv_rotate h hcalm.1 hcalm.2 compress hrot
  | gzipOpen i =>
    rw [step] at hstep
    split at hstep
    · rename_i hi
      cases hstep
      exact inv_gzipOpen h hi
    · cases hstep
  | gzipWrite i =>
    rw [step] at hstep
    split at hstep
    · rename_i hi
      cases hstep
      exact inv_gzipWrite h hi
    · cases hstep
  | gzipRemove i =>
    rw [step] at hstep
    split at hstep
    · rename_i hi
      cases hstep
      exact inv_gzipRemove h hi
    · cases hstep

/-- Every run of writes, rotations and compressors whose rotations start calm keeps the last generations in their slots,
and touches nothing else. -/
theorem rotation_keeps {events : List Event}
    (hrun : Run (step path keep deflate) (Calm path keep) { files := d0 } events s) : Kept path keep deflate d0 s :=
  (hrun.invariant (inv_start d0) fun _ _ _ => inv_step).toKept

/-- Two generations, the first compressed before the second one is made. -/
theorem calm_rotations :
    ∃ s, checkRun (step (lit "bus.jsonl") 2 (31 :: ·)) (Calm (lit "bus.jsonl") 2) { files := fun _ => none }
        [.write (lit "1"), .rotate true, .gzipOpen 0, .gzipWrite 0, .gzipRemove 0, .write (lit "2"), .rotate true] = some s ∧
      s.rotated = [lit "2", lit "1"] ∧ Kept (lit "bus.jsonl") 2 (31 :: ·) (fun _ => none) s := by
  have hrotated : (checkRun (step (lit "bus.jsonl") 2 (31 :: ·)) (Calm (lit "bus.jsonl") 2) { files := fun _ => none }
      [.write (lit "1"), .rotate true, .gzipOpen 0, .gzipWrite 0, .gzipRemove 0, .write (lit "2"), .rotate true]).map
        State.rotated = some [lit "2", lit "1"] := by decide +kernel
  obtain ⟨s, hs, hboth⟩ := Option.map_eq_some_iff.mp hrotated
  exact ⟨s, hs, hboth, rotation_keeps (Run.of_check hs)⟩

/-! ## A generation lost -/

/-- A compressor that opened the first generation before the second rotation removes the second one. -/
theorem second_generation_lost :
    ¬ ∀ path keep deflate d0 events s, 1 ≤ keep → Fits path keep →
      exec (step path keep deflate) { files := d0 } events = some s → Kept path keep deflate d0 s := by
  intro h
  have hrun : (exec (step (lit "bus.jsonl") 2 (31 :: ·)) { files := fun _ => none }
      [.write (lit "1"), .rotate true, .gzipOpen 0, .write (lit "2"), .rotate true, .gzipWrite 0, .gzipRemove 0,
        .gzipOpen 1]).map (fun s => (s.rotated, slot (lit "bus.jsonl") s.files 1)) =
      some ([lit "2", lit "1"], (none, some (31 :: lit "1"))) := by decide +kernel
  obtain ⟨s, hs, hboth⟩ := Option.map_eq_some_iff.mp hrun
  obtain ⟨hrotated, hslot⟩ := Prod.mk.inj hboth
  have hkept := h (lit "bus.jsonl") 2 (31 :: ·) (fun _ => none) _ s (by decide) (by decide +kernel) hs
  have hheld := hkept.held 0 (lit "2") (by decide) (by rw [hrotated]; rfl)
  rw [InOneForm, InBothForms, hslot] at hheld
  rcases hheld with (hone | hone) | hheld
  · cases hone
  · exact absurd hone (by decide)
  · cases hheld.2.1

example : gzOf (lit "log") 2 = lit "log.2.gz" := by decide +kernel

end Floofclaw.Guarantees.Rotation
