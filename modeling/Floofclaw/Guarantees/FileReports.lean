import Floofclaw.Source.FileIntrinsics
import Floofclaw.Guarantees.FirstLine

/-!
# What the file intrinsics report

Every successful result is one JSON object, and so is every message that went
through the escaper. A failure splices the path it was given as it is: its
texts are JSON for every path that needs no escape and fits. The terminal is
appended when the report fits the buffers of `rt_action_emit_terminal`.
-/

set_option autoImplicit false

namespace Floofclaw.Guarantees.FileReports
open Floofclaw.Lib Floofclaw.Source.Json Floofclaw.Source.Inbound Floofclaw.Source.RunState
open Floofclaw.Source.ActionReports Floofclaw.Source.FileIntrinsics Floofclaw.Guarantees.FirstEvent

/-! ## Texts -/

/-- An object is scanned to its brace whatever follows it. -/
theorem valueEnd_object {v : Bytes} {ms : List (Bytes × Bytes)} (h : ObjText v ms) (fuel : Nat) (r : Bytes)
    (hlen : v.length ≤ fuel) : valueEnd fuel (v ++ r) = some r := by
  cases h with
  | @empty w hw =>
    obtain ⟨n, rfl⟩ : ∃ n, fuel = n + 1 := ⟨fuel - 1, by simp at hlen; omega⟩
    have hskip : skipWs (w ++ ch '}' :: r) = ch '}' :: r := skipWs_append hw (NoSpaceHead.cons (by decide))
    rw [List.cons_append, valueEnd, if_neg (by decide), if_pos rfl, List.append_assoc, List.singleton_append, hskip]
    simp
  | @some w body _ hw hb =>
    obtain ⟨n, rfl⟩ : ∃ n, fuel = n + 1 := ⟨fuel - 1, by simp at hlen; omega⟩
    have hskip : skipWs (w ++ (body ++ ch '}' :: r)) = body ++ ch '}' :: r :=
      skipWs_append hw (reads_members_noSpaceHead hb _)
    have hrun := reads_scans hb n (body ++ ch '}' :: r).length r (by simp at hlen; omega) (by simp)
    obtain ⟨u, hcu⟩ := reads_members_head hb
    rw [List.cons_append, valueEnd, if_neg (by decide), if_pos rfl, List.append_assoc, List.append_assoc,
      List.singleton_append, hskip]
    rw [hcu, List.cons_append] at hrun ⊢
    dsimp only
    rw [if_neg (by decide), hrun]

/-- Where an object begins a text, only one does. -/
theorem object_inj {v v' r r' : Bytes} {ms ms' : List (Bytes × Bytes)} (h : ObjText v ms) (h' : ObjText v' ms')
    (heq : v ++ r = v' ++ r') : v = v' ∧ r = r' := by
  have hend := valueEnd_object h (v.length + v'.length) r (by omega)
  rw [heq, valueEnd_object h' _ r' (by omega), Option.some.injEq] at hend
  exact ⟨List.append_cancel_right (hend ▸ heq), hend.symm⟩

/-- An object that is cut is no value. -/
theorem objText_cut {t : Bytes} {ms : List (Bytes × Bytes)} (h : ObjText t ms) {n : Nat} (hn : n < t.length) :
    ¬ IsValue (t.take n) := by
  intro hv
  obtain ⟨u, hu⟩ := h.brace
  have hobj : jsonRefInferType (t.take n) = .object := by
    cases n with
    | zero => exact absurd rfl hv.ne_nil
    | succ n =>
      rw [hu, List.take_succ_cons]
      rfl
  obtain ⟨ms', hms'⟩ := isValue_object hv hobj
  obtain ⟨-, hrest⟩ := object_inj hms' h (show t.take n ++ t.drop n = t ++ [] by simp)
  rw [List.drop_eq_nil_iff] at hrest
  omega

theorem escapeLoop_extends (cap : Nat) (s out : Bytes) :
    ∃ k, (escapeLoop cap s out).1 = out ++ escaped (s.take k) := by
  induction s generalizing out with
  | nil => exact ⟨0, by simp [escapeLoop, escaped]⟩
  | cons c s ih =>
    rw [escapeLoop]
    split
    · exact ⟨0, by simp [escaped]⟩
    · obtain ⟨k, hk⟩ := ih (out ++ escapeByte c)
      exact ⟨k + 1, by rw [hk]; simp [escaped]⟩

theorem escapeCut_strBody (cap : Nat) (s : Bytes) : StrBody (escapeCut cap s) := by
  rw [escapeCut, jsonEscape]
  split
  · exact .of_plain (by simp)
  · obtain ⟨k, hk⟩ := escapeLoop_extends cap (cstr s) []
    rw [hk]
    exact escaped_strBody _

theorem escapeOrEmpty_strBody (cap : Nat) (s : Bytes) : StrBody (escapeOrEmpty cap s) := by
  rw [escapeOrEmpty, mirror]
  split
  · rename_i out hout
    have := escapeCut_strBody cap s
    rwa [escapeCut, hout] at this
  · exact .of_plain (by simp)

theorem mirror_strBody {cap : Nat} {s out : Bytes} (h : mirror cap s = some out) : StrBody out := by
  have := escapeOrEmpty_strBody cap s
  rwa [escapeOrEmpty, h] at this

theorem escapeOrEmpty_length {cap : Nat} (hcap : 0 < cap) (s : Bytes) : (escapeOrEmpty cap s).length < cap := by
  rw [escapeOrEmpty, mirror]
  split
  · rename_i out hout
    obtain ⟨rfl, hlt⟩ := jsonEscape_fits hout
    exact hlt
  · exact hcap

theorem membersText_append {ms ms' : List (Bytes × Bytes)} (h : ms ≠ []) (h' : ms' ≠ []) :
    membersText (ms ++ ms') = membersText ms ++ ch ',' :: membersText ms' := by
  induction ms with
  | nil => exact absurd rfl h
  | cons m ms ih =>
    obtain ⟨k, v⟩ := m
    cases ms with
    | nil =>
      obtain ⟨m', ms', rfl⟩ := List.exists_cons_of_ne_nil h'
      simp [membersText]
    | cons m2 ms =>
      have := ih (by simp)
      rw [List.cons_append] at this
      simp [membersText, this]

theorem elemsText_snoc {xs : List Bytes} (h : xs ≠ []) (x : Bytes) :
    elemsText (xs ++ [x]) = elemsText xs ++ ch ',' :: x := by
  induction xs with
  | nil => exact absurd rfl h
  | cons y xs ih =>
    cases xs with
    | nil => simp [elemsText]
    | cons z xs =>
      have := ih (by simp)
      rw [List.cons_append] at this
      simp [elemsText, this]

/-! ## The shape of an outcome -/

/-- Members as the writers lay them down. -/
def Laid (ms : List (Bytes × Bytes)) : Prop := ms ≠ [] ∧ ∀ m ∈ ms, StrBody m.1 ∧ IsValue m.2

theorem Laid.objText {ms : List (Bytes × Bytes)} (h : Laid ms) : ObjText (objText ms) ms := objText_reads h.2

def Shown.Formed : Shown → Prop
  | .nothing => True
  | .raw path => path.length < pathMax
  | .escaped text => StrBody text ∧ text.length < pathMax * 2

/-- What holds of an outcome whatever the path was. -/
def Formed : Outcome → Prop
  | .done result => ∃ ms, Laid ms ∧ result = objText ms
  | .failed frame _ shown => frame.all isPlain = true ∧ frame.length ≤ 64 ∧ Shown.Formed shown
  | .failedEscaped message => StrBody message ∧ message.length < rtMed

theorem isValue_quoted {s : Bytes} (h : StrBody s) : IsValue (quoted s) := .str h

theorem isValue_plain {s : Bytes} (h : s.all isPlain = true) : IsValue (quoted s) := .str (.of_plain (PlainText.of_all h))

theorem isValue_decInt (z : Int) : IsValue (decInt z) := .num (decInt_numText z)

theorem isValue_bool (b : Bool) : IsValue (boolText b) := by
  cases b
  · exact .false
  · exact .true

theorem strBody_key {k : Bytes} (h : k.all isPlain = true) : StrBody k := .of_plain (PlainText.of_all h)

/-! ### Resolution -/

/-- A failed resolution: constant text, and behind it nothing or the path. -/
def ResolveFormed (path : Bytes) (e : ResolveError) : Prop :=
  e.1.all isPlain = true ∧ e.1.length ≤ 64 ∧ (e.2 = [] ∨ e.2 = path)

theorem resolveFormed_fixed (path : Bytes) {frame : Bytes} (h : (frame.all isPlain && decide (frame.length ≤ 64)) = true) :
    ResolveFormed path (frame, []) := by
  rw [Bool.and_eq_true, decide_eq_true_eq] at h
  exact ⟨h.1, h.2, .inl rfl⟩

theorem resolveFormed_path (path : Bytes) {frame : Bytes} (h : (frame.all isPlain && decide (frame.length ≤ 64)) = true) :
    ResolveFormed path (frame, path) := by
  rw [Bool.and_eq_true, decide_eq_true_eq] at h
  exact ⟨h.1, h.2, .inr rfl⟩

theorem workspaceRoot_error {fs : FileSystem} {runDir path : Bytes} {e : ResolveError}
    (h : workspaceRoot fs runDir = .error e) : ResolveFormed path e := by
  unfold workspaceRoot at h
  repeat' split at h
  all_goals cases h
  all_goals exact resolveFormed_fixed path (by rw [lit_ofList]; decide)

theorem resolveTarget_error {fs : FileSystem} {joined path : Bytes} {e : ResolveError}
    (h : resolveTarget fs joined path = .error e) : ResolveFormed path e := by
  unfold resolveTarget at h
  split at h
  · cases h
  · split at h
    · cases h
      exact resolveFormed_fixed path (by rw [lit_ofList]; decide)
    · split at h
      · cases h
        exact resolveFormed_path path (by rw [lit_ofList]; decide)
      · dsimp only at h
        split at h
        · cases h
          exact resolveFormed_fixed path (by rw [lit_ofList]; decide)
        · cases h

theorem resolve_error {fs : FileSystem} {runDir path : Bytes} {e : ResolveError}
    (h : rtActionResolveWorkspacePath fs runDir path = .error e) : ResolveFormed path e := by
  unfold rtActionResolveWorkspacePath at h
  cases hroot : workspaceRoot fs runDir with
  | error e' =>
    rw [hroot] at h
    cases h
    exact workspaceRoot_error hroot
  | ok wsAbs =>
    rw [hroot] at h
    simp only [bind, Except.bind] at h
    split at h
    · cases h
      exact resolveFormed_fixed path (by rw [lit_ofList]; decide)
    · cases htarget : resolveTarget fs (wsAbs ++ lit "/" ++ path) path with
      | error e' =>
        rw [htarget] at h
        cases h
        exact resolveTarget_error htarget
      | ok abs =>
        rw [htarget] at h
        dsimp only at h
        split at h
        · cases h
        · cases h
          exact resolveFormed_fixed path (by rw [lit_ofList]; decide)

theorem pathField_length (args : Bytes) {old : Bytes} (h : TextField pathMax old) : (pathField args old).length < pathMax := by
  unfold pathField
  split
  · exact h.fits
  · exact (stringField_text h).fits

/-! ### Listing -/

theorem decInt_short (z : SystemLong) : (decInt z.val).length ≤ 20 := by
  have habs : z.val.natAbs < 10 ^ 19 := by
    have := z.property
    simp only [int64Min, int64Max] at this
    omega
  have hnat : ∀ n : Nat, n < 10 ^ 19 → (decNat n).length ≤ 19 := fun n hn => decFuel_length _ n (by decide) hn
  cases hz : z.val with
  | ofNat n =>
    rw [hz] at habs
    have := hnat n (by simpa using habs)
    simp only [decInt]
    omega
  | negSucc n =>
    rw [hz] at habs
    have := hnat (n + 1) (by simpa using habs)
    simp only [decInt, List.length_cons]
    omega

theorem entryText_value (name : Bytes) (isDir : Bool) (size : SystemLong) : IsValue (entryText name isDir size) := by
  refine (objText_reads ?_).isValue
  simp only [List.forall_mem_cons]
  exact ⟨⟨strBody_key (lit_all (by decide)), isValue_quoted (escapeCut_strBody _ _)⟩, ⟨strBody_key (lit_all (by decide)), isValue_bool _⟩,
    ⟨strBody_key (lit_all (by decide)), isValue_decInt _⟩, by simp⟩

theorem entryItem_whole (comma : Bool) (name : Bytes) (isDir : Bool) (size : SystemLong) :
    entryItem comma name isDir size = (if comma then [ch ','] else []) ++ entryText name isDir size := by
  have hname := escapeCut_length (rtMed * 2) (by decide) name
  have hsize := decInt_short size
  have hdir : (boolText isDir).length ≤ 5 := by cases isDir <;> decide
  have hcomma : (if comma then [ch ','] else []).length ≤ 1 := by cases comma <;> simp
  have hkeys : (lit "name").length = 4 ∧ (lit "is_dir").length = 6 ∧ (lit "size").length = 4 := ⟨lit_length _, lit_length _, lit_length _⟩
  apply clip_eq_self
  simp only [entryText, objText, membersText, quoted, List.length_append, List.length_cons, List.length_nil, rtLarge,
    rtMed] at *
  omega

/-- The loop keeps the result an opening followed by entries, each a value. -/
theorem entriesLoop_text (fs : FileSystem) (abs opening : Bytes) (names : List SystemText) (xs : List Bytes)
    (hxs : ∀ x ∈ xs, IsValue x) (listing : Bytes) :
    ∃ ys, (∀ y ∈ ys, IsValue y) ∧
      (entriesLoop fs abs opening.length names (opening ++ elemsText xs) listing).1 = opening ++ elemsText ys := by
  induction names generalizing xs listing with
  | nil => exact ⟨xs, hxs, rfl⟩
  | cons name names ih =>
    rw [entriesLoop]
    split
    · exact ih xs hxs listing
    · dsimp only
      split
      · exact ⟨xs, hxs, rfl⟩
      · rw [entryItem_whole]
        obtain ⟨x, hx⟩ : ∃ x, x = entryText name.val
            ((fs.stat (clip pathMax (abs ++ lit "/" ++ name.val))).getD (false, ⟨0, by decide⟩)).1
            ((fs.stat (clip pathMax (abs ++ lit "/" ++ name.val))).getD (false, ⟨0, by decide⟩)).2 := ⟨_, rfl⟩
        have hvalue : IsValue x := hx ▸ entryText_value _ _ _
        have hsnoc : opening ++ elemsText xs ++ ((if decide ((opening ++ elemsText xs).length > opening.length) = true
            then [ch ','] else []) ++ x) = opening ++ elemsText (xs ++ [x]) := by
          cases xs with
          | nil => simp [elemsText]
          | cons y ys =>
            have hlong : 0 < (elemsText (y :: ys)).length := by
              obtain ⟨c, u, hcu, -⟩ := reads_elems_head (elemsText_reads hxs)
              rw [hcu]
              simp
            rw [elemsText_snoc (by simp), if_pos (by simpa using hlong)]
            simp
        rw [← hx, hsnoc]
        refine ih (xs ++ [x]) ?_ _
        intro y hy
        rcases List.mem_append.mp hy with hy | hy
        · exact hxs y hy
        · exact List.mem_singleton.mp hy ▸ hvalue

theorem listText_laid (fs : FileSystem) (abs path : Bytes) (names : List SystemText) :
    ∃ ms, Laid ms ∧ listText fs abs path names = objText ms := by
  obtain ⟨ys, hys, htext⟩ := entriesLoop_text fs abs (listOpening path) names [] (by simp) []
  have hstart : listOpening path ++ elemsText [] = listOpening path := by simp [elemsText]
  rw [hstart] at htext
  unfold listText
  dsimp only
  obtain ⟨⟨result, listing, truncated⟩, hloop⟩ :
      ∃ x, x = entriesLoop fs abs (listOpening path).length names (listOpening path) [] := ⟨_, rfl⟩
  rw [← hloop] at htext ⊢
  dsimp only at htext ⊢
  refine ⟨[(lit "path", quoted (escapeCut (pathMax * 2) path)), (lit "entries", arrText ys),
    (lit "text", quoted (escapeOrEmpty 3400 listing)), (lit "truncated", boolText truncated)], ⟨by simp, ?_⟩, ?_⟩
  · simp only [List.forall_mem_cons]
    exact ⟨⟨strBody_key (lit_all (by decide)), isValue_quoted (escapeCut_strBody _ _)⟩,
      ⟨strBody_key (lit_all (by decide)), (arrText_reads hys).isValue⟩,
      ⟨strBody_key (lit_all (by decide)), isValue_quoted (escapeOrEmpty_strBody _ _)⟩, ⟨strBody_key (lit_all (by decide)), isValue_bool _⟩,
      by simp⟩
  · rw [htext]
    simp [listOpening, listClosing, objText, membersText, arrText, quoted, lit]

theorem listDirectory_formed (fs : FileSystem) (runDir args : Bytes) : Formed (fcListDirectory fs runDir args) := by
  unfold fcListDirectory
  dsimp only
  split
  · rename_i e he
    obtain ⟨hplain, hshort, -⟩ := resolve_error he
    exact ⟨hplain, hshort, trivial⟩
  · split
    · exact ⟨escapeCut_strBody _ _, escapeCut_length _ (by decide) _⟩
    · exact listText_laid _ _ _ _

/-! ### Reading -/

theorem appendEscapedBytes_text {cap reserve : Nat} {s out text : Bytes}
    (h : appendEscapedBytes cap reserve s out = some text) : text = out ++ escaped s := by
  induction s generalizing out with
  | nil =>
    rw [appendEscapedBytes, Option.some.injEq] at h
    simp [h, escaped]
  | cons c s ih =>
    rw [appendEscapedBytes] at h
    split at h
    · cases h
    · rw [ih h]
      simp [escaped]

/-- The message of a failure with a fixed text, or with the path behind one. -/
theorem failed_formed {frame raw : Bytes} {shown : Shown} (h : (frame.all isPlain && decide (frame.length ≤ 64)) = true)
    (hshown : Shown.Formed shown) : Formed (.failed frame raw shown) := by
  rw [Bool.and_eq_true, decide_eq_true_eq] at h
  exact ⟨h.1, h.2, hshown⟩

theorem readReport_formed {path : Bytes} (tool buf : Bytes) (total offset : Int) :
    Formed (readReport path tool buf total offset) := by
  unfold readReport
  split
  · exact failed_formed (by rw [lit_ofList]; decide) ⟨.of_plain (by simp), by decide⟩
  · rename_i epath hpath
    split
    · exact failed_formed (by rw [lit_ofList]; decide) trivial
    · dsimp only
      split
      · exact failed_formed (by rw [lit_ofList]; decide) trivial
      · rename_i text htext
        split
        · exact failed_formed (by decide) trivial
        · -- the text is the opening and behind it one escaped text
          obtain ⟨t, rfl⟩ : ∃ t, text = readOpening epath ++ escaped t := by
            obtain ⟨text0, h0, htext⟩ := Option.bind_eq_some_iff.mp htext
            have hheader := appendEscapedBytes_text h0
            split at htext
            · rw [Option.some.injEq] at htext
              exact ⟨_, htext ▸ hheader⟩
            · obtain ⟨text1, h1, h2⟩ := Option.bind_eq_some_iff.mp htext
              have hbreak := appendEscapedBytes_text h1
              have hbuf := appendEscapedBytes_text h2
              rw [hbuf, hbreak, hheader]
              refine ⟨readHeader (escapeOrEmpty rtMed (baseName path)) tool total offset buf.length ++ lit "\n\n" ++ buf, ?_⟩
              simp only [escaped, List.flatMap_append, List.append_assoc]
          refine ⟨[(lit "path", quoted epath), (lit "text", quoted (escaped t)),
            (lit "truncated", boolText (offset + buf.length < total)), (lit "bytes", decInt total),
            (lit "content_bytes", decInt buf.length), (lit "offset", decInt offset),
            (lit "next_offset", decInt (offset + buf.length))], ⟨by simp, ?_⟩, ?_⟩
          · simp only [List.forall_mem_cons]
            exact ⟨⟨strBody_key (lit_all (by decide)), isValue_quoted (mirror_strBody hpath)⟩,
              ⟨strBody_key (lit_all (by decide)), isValue_quoted (escaped_strBody t)⟩, ⟨strBody_key (lit_all (by decide)), isValue_bool _⟩,
              ⟨strBody_key (lit_all (by decide)), isValue_decInt _⟩, ⟨strBody_key (lit_all (by decide)), isValue_decInt _⟩,
              ⟨strBody_key (lit_all (by decide)), isValue_decInt _⟩, ⟨strBody_key (lit_all (by decide)), isValue_decInt _⟩, by simp⟩
          · simp [readOpening, readClosing, objText, membersText, quoted, lit]

theorem readFile_formed (fs : FileSystem) (runDir actionId args : Bytes) :
    Formed (fcReadFile fs runDir actionId args) := by
  have hpath : (pathField args []).length < pathMax := pathField_length args (textField_nil (by decide))
  unfold fcReadFile
  dsimp only
  split
  · exact failed_formed (by rw [lit_ofList]; decide) trivial
  · split
    · rename_i e he
      obtain ⟨hplain, hshort, -⟩ := resolve_error he
      exact ⟨hplain, hshort, hpath⟩
    · split
      · exact failed_formed (by rw [lit_ofList]; decide) hpath
      · split
        · exact failed_formed (by rw [lit_ofList]; decide) hpath
        · split
          · exact failed_formed (by rw [lit_ofList]; decide) hpath
          · exact readReport_formed _ _ _ _

/-! ### Writing and rotating -/

theorem writeFile_formed (fs : FileSystem) (runDir args : Bytes) : Formed (fcWriteFile fs runDir args) := by
  have hpath : (pathField args []).length < pathMax := pathField_length args (textField_nil (by decide))
  unfold fcWriteFile
  dsimp only
  split
  · rename_i message hcontent
    unfold contentField at hcontent
    repeat' split at hcontent
    all_goals cases hcontent
    all_goals exact failed_formed (by rw [lit_ofList]; decide) hpath
  · split
    · exact failed_formed (by rw [lit_ofList]; decide) trivial
    · split
      · rename_i e he
        obtain ⟨hplain, hshort, -⟩ := resolve_error he
        exact ⟨hplain, hshort, hpath⟩
      · split
        · exact failed_formed (by rw [lit_ofList]; decide) hpath
        · split
          · exact failed_formed (by rw [lit_ofList]; decide) hpath
          · split
            · exact failed_formed (by rw [lit_ofList]; decide) hpath
            · refine ⟨_, ⟨by simp, ?_⟩, rfl⟩
              simp only [List.forall_mem_cons]
              exact ⟨⟨strBody_key (lit_all (by decide)), isValue_quoted (escapeOrEmpty_strBody _ _)⟩,
                ⟨strBody_key (lit_all (by decide)), isValue_quoted ((strBody_key (lit_all (by decide))).append (escapeOrEmpty_strBody _ _))⟩,
                by simp⟩

theorem rotateFile_formed (fs : FileSystem) (runDir args : Bytes) : Formed (fcRotateFileIntrinsic fs runDir args) := by
  unfold fcRotateFileIntrinsic
  split
  · exact failed_formed (by rw [lit_ofList]; decide) trivial
  · rename_i root hroot
    have hpath : (stringField root (lit "path") pathMax []).length < pathMax :=
      (stringField_text (textField_nil (by decide))).fits
    dsimp only
    split
    · exact failed_formed (by rw [lit_ofList]; decide) trivial
    · split
      · rename_i e he
        obtain ⟨hplain, hshort, -⟩ := resolve_error he
        exact ⟨hplain, hshort, hpath⟩
      · split
        · refine ⟨_, ⟨by simp, ?_⟩, rfl⟩
          simp only [List.forall_mem_cons]
          exact ⟨⟨strBody_key (lit_all (by decide)), isValue_quoted (escapeOrEmpty_strBody _ _)⟩,
            ⟨strBody_key (lit_all (by decide)), isValue_plain (lit_all (by decide))⟩, by simp⟩
        · split
          · exact failed_formed (by rw [lit_ofList]; decide) ⟨escapeOrEmpty_strBody _ _, escapeOrEmpty_length (by decide) _⟩
          · refine ⟨_, ⟨by simp, ?_⟩, rfl⟩
            simp only [List.forall_mem_cons]
            refine ⟨⟨strBody_key (lit_all (by decide)), isValue_quoted (escapeOrEmpty_strBody _ _)⟩,
              ⟨strBody_key (lit_all (by decide)), isValue_decInt _⟩, ⟨strBody_key (lit_all (by decide)), ?_⟩,
              ⟨strBody_key (lit_all (by decide)), isValue_plain (lit_all (by decide))⟩, by simp⟩
            split
            · exact isValue_plain (lit_all (by decide))
            · exact isValue_plain (lit_all (by decide))

theorem run_formed (i : Intrinsic) (fs : FileSystem) (runDir actionId args : Bytes) :
    Formed (i.run fs runDir actionId args) := by
  cases i with
  | listDirectory => exact listDirectory_formed fs runDir args
  | readFile => exact readFile_formed fs runDir actionId args
  | writeFile => exact writeFile_formed fs runDir args
  | rotateFile => exact rotateFile_formed fs runDir args

/-! ## The two texts -/

/-- What a failure splices as it is needs no escape and fits, and a result fits its buffer. -/
def Clean : Outcome → Prop
  | .done result => result.length < rtXl
  | .failed frame raw shown =>
    PlainText raw ∧ frame.length + raw.length + 14 < rtLarge ∧ ∀ path, shown = .raw path → PlainText path
  | .failedEscaped _ => True

/-- A failure that splices a path into one of its texts. -/
def SplicesRaw : Outcome → Prop
  | .failed _ raw shown => raw ≠ [] ∨ ∃ path, shown = .raw path
  | _ => False

theorem messageText_length (message : Bytes) : (messageText message).length = message.length + 14 := by
  have hkey : (lit "message").length = 7 := lit_length _
  simp only [messageText, objText, membersText, quoted, List.length_cons, List.length_append, List.length_nil, hkey]
  omega

theorem messageText_value {message : Bytes} (h : StrBody message) : IsValue (messageText message) := by
  refine (objText_reads ?_).isValue
  simp only [List.forall_mem_cons]
  exact ⟨⟨strBody_key (lit_all (by decide)), isValue_quoted h⟩, by simp⟩

theorem shownText_value {s : Bytes} (h : StrBody s) (hlen : s.length < pathMax * 2) :
    IsValue (clip rtXl (objText [(lit "path", quoted s)])) := by
  have hkey : (lit "path").length = 4 := lit_length _
  have hwhole : clip rtXl (objText [(lit "path", quoted s)]) = objText [(lit "path", quoted s)] := by
    apply clip_eq_self
    simp only [objText, membersText, quoted, List.length_cons, List.length_append, List.length_nil, hkey, pathMax, rtXl] at *
    omega
  rw [hwhole]
  refine (objText_reads ?_).isValue
  simp only [List.forall_mem_cons]
  exact ⟨⟨strBody_key (lit_all (by decide)), isValue_quoted h⟩, by simp⟩

theorem emptyObject_value : IsValue (lit "\x7b\x7d") := .objEmpty Ws.nil

theorem clean_texts {o : Outcome} (hf : Formed o) (hc : Clean o) : IsValue o.result ∧ IsValue o.error := by
  cases o with
  | done result =>
    obtain ⟨ms, hms, rfl⟩ := hf
    refine ⟨?_, .null⟩
    rw [Outcome.result, clip_eq_self hc]
    exact hms.objText.isValue
  | failed frame raw shown =>
    obtain ⟨hframe, -, hshown⟩ := hf
    obtain ⟨hraw, hfit, hpath⟩ := hc
    constructor
    · cases shown with
      | nothing => exact emptyObject_value
      | raw path =>
        refine shownText_value (.of_plain (hpath path rfl)) ?_
        simp only [Shown.Formed, pathMax] at *
        omega
      | escaped text => exact shownText_value hshown.1 hshown.2
    · rw [Outcome.error, clip_eq_self (by rw [messageText_length, List.length_append]; exact hfit)]
      exact messageText_value (.of_plain ((PlainText.of_all hframe).append hraw))
  | failedEscaped message =>
    refine ⟨emptyObject_value, ?_⟩
    rw [Outcome.error, clip_eq_self (by
      rw [messageText_length]
      have := hf.2
      simp only [rtMed, rtLarge] at *
      omega)]
    exact messageText_value hf.1

/-- Where nothing is spliced raw, the texts are JSON only when the result fits. -/
theorem texts_clean {o : Outcome} (hf : Formed o) (hraw : ¬ SplicesRaw o) (h : IsValue o.result) : Clean o := by
  cases o with
  | done result =>
    obtain ⟨ms, hms, rfl⟩ := hf
    by_contra hlong
    refine objText_cut hms.objText ?_ h
    simp only [Clean, rtXl] at hlong ⊢
    omega
  | failed frame raw shown =>
    simp only [SplicesRaw, not_or, not_exists, not_not] at hraw
    obtain ⟨rfl, hshown⟩ := hraw
    obtain ⟨-, hshort, -⟩ := hf
    refine ⟨PlainText.of_all rfl, ?_, fun path hpath => absurd hpath (hshown path)⟩
    simp only [List.length_nil, rtLarge]
    omega
  | failedEscaped message => trivial

/-! ## The terminal -/

theorem Laid.append {ms ms' : List (Bytes × Bytes)} (h : Laid ms) (h' : Laid ms') : Laid (ms ++ ms') := by
  refine ⟨by simp [h.1], ?_⟩
  intro m hm
  rcases List.mem_append.mp hm with hm | hm
  · exact h.2 m hm
  · exact h'.2 m hm

theorem objText_snoc {ms ms' : List (Bytes × Bytes)} (h : ms ≠ []) (h' : ms' ≠ []) :
    (objText ms).dropLast ++ ch ',' :: membersText ms' ++ [ch '}'] = objText (ms ++ ms') := by
  rw [objText, objText, membersText_append h h', ← List.cons_append, List.dropLast_concat]
  simp

/-- Wrapping keeps an object of members an object of members. -/
theorem wrap_laid {ms : List (Bytes × Bytes)} (h : Laid ms) (requestId : Bytes) :
    ∃ ms', Laid ms' ∧ rtActionWrapFinishedResult (objText ms) requestId = objText ms' := by
  have hlong : (objText ms).length > 2 := by
    obtain ⟨m, ms', rfl⟩ := List.exists_cons_of_ne_nil h.1
    obtain ⟨u, hu⟩ := membersText_cons_quote m ms'
    simp [objText, hu]
  unfold rtActionWrapFinishedResult
  split
  · exact ⟨ms, h, rfl⟩
  split
  · exact ⟨ms, h, rfl⟩
  split
  · exact ⟨ms, h, rfl⟩
  split
  · exact ⟨ms, h, rfl⟩
  · rename_i handle hhandle
    dsimp only
    split
    · exact ⟨ms, h, rfl⟩
    · have hhead : Laid [(lit "status", quoted (lit "finished")), (lit "handle", quoted handle)] := by
        refine ⟨by simp, ?_⟩
        simp only [List.forall_mem_cons]
        exact ⟨⟨strBody_key (lit_all (by decide)), isValue_plain (lit_all (by decide))⟩,
          ⟨strBody_key (lit_all (by decide)), isValue_quoted (mirror_strBody hhandle)⟩, by simp⟩
      refine ⟨_, hhead.append h, ?_⟩
      rw [objText, objText, membersText_append hhead.1 h.1]
      simp

theorem reportedResult_value {o : Outcome} (hf : Formed o) (hc : Clean o) (call : Call) :
    IsValue (reportedResult call o.ok o.result) := by
  cases o with
  | done result =>
    obtain ⟨ms, hms, rfl⟩ := hf
    rw [Outcome.result, clip_eq_self hc, reportedResult, Outcome.ok, if_pos rfl]
    split
    · obtain ⟨ms', hms', hwrap⟩ := wrap_laid hms call.requestId
      rw [hwrap]
      exact hms'.objText.isValue
    · exact hms.objText.isValue
  | failed frame raw shown => exact emptyObject_value
  | failedEscaped message => exact emptyObject_value

theorem terminalMembers_laid (call : Call) (ok : Bool) (reason : Bytes) {result error : Bytes} (hr : IsValue result)
    (he : IsValue error) : Laid (terminalMembers call ok reason result error) := by
  refine ⟨by simp [terminalMembers], ?_⟩
  rw [terminalMembers, if_neg hr.ne_nil, if_neg he.ne_nil]
  simp only [List.forall_mem_append, List.forall_mem_cons]
  refine ⟨⟨⟨⟨⟨strBody_key (lit_all (by decide)), isValue_quoted (escapeCut_strBody _ _)⟩,
    ⟨strBody_key (lit_all (by decide)), isValue_quoted (escapeCut_strBody _ _)⟩,
    ⟨strBody_key (lit_all (by decide)), isValue_quoted (.of_plain (runIdOf_plain _))⟩, ⟨strBody_key (lit_all (by decide)), .null⟩, by simp⟩,
    ?_⟩, ?_⟩, ⟨strBody_key (lit_all (by decide)), hr⟩, ⟨strBody_key (lit_all (by decide)), he⟩, by simp⟩
  · split
    · simp
    · simp only [List.forall_mem_cons]
      exact ⟨⟨strBody_key (lit_all (by decide)), isValue_quoted (escapeCut_strBody _ _)⟩, by simp⟩
  · split
    · simp
    · simp only [List.forall_mem_cons]
      exact ⟨⟨strBody_key (lit_all (by decide)), isValue_quoted (escapeCut_strBody _ _)⟩, by simp⟩

/-- Room for a bound call: the members of its step are not cut, the payload holds them, and the wake is prepared
when nothing else continues the step. -/
def BoundFits (prepare : Bytes → Bool) (call : Call) (ok : Bool) (reason result error : Bytes) (b : Binding) : Prop :=
  (∃ bind, bindWhole call b = some bind ∧ bind.length < rtLarge ∧
    (terminalPayload call ok reason result error).length - 1 + bind.length +
      (if continuationOf call ok result = [] then 0 else (continuationOf call ok result).length + 20) + 2 < rtXl) ∧
  (continuationOf call ok result = [] →
    prepareStepWake prepare call b (if ok then lit "succeeded" else lit "failed")
      (if ok then result else if error ≠ lit "null" then error else reason) = true)

/-- Room for the terminal. -/
def TerminalFits (prepare : Bytes → Bool) (call : Call) (ok : Bool) (reason result error : Bytes) : Prop :=
  (terminalPayload call ok reason result error).length < rtXl ∧
    ∀ b, call.binding = some b → BoundFits prepare call ok reason result error b

theorem continuationOf_laid (call : Call) (ok : Bool) (result : Bytes) :
    Laid [(lit "continuation", quoted (continuationOf call ok result))] := by
  refine ⟨by simp, ?_⟩
  simp only [List.forall_mem_cons]
  refine ⟨⟨strBody_key (lit_all (by decide)), ?_⟩, by simp⟩
  unfold continuationOf
  split
  · exact isValue_plain (lit_all (by decide))
  · split
    · exact isValue_plain (lit_all (by decide))
    · exact isValue_plain (by decide)

theorem bindWhole_laid {call : Call} {b : Binding} {bind : Bytes} (h : bindWhole call b = some bind) :
    ∃ ms, Laid ms ∧ bind = ch ',' :: membersText ms := by
  simp only [bindWhole, Option.bind_eq_bind, Option.bind_eq_some_iff] at h
  obtain ⟨source, -, ectx, hctx, etrigger, htrigger, esource, hsource, hbind⟩ := h
  refine ⟨bindMembers b.workRev ectx etrigger esource, ⟨by simp [bindMembers], ?_⟩, (Option.some.inj hbind).symm⟩
  simp only [bindMembers, List.forall_mem_cons]
  exact ⟨⟨strBody_key (lit_all (by decide)), isValue_decInt _⟩, ⟨strBody_key (lit_all (by decide)), isValue_quoted (mirror_strBody hctx)⟩,
    ⟨strBody_key (lit_all (by decide)), isValue_quoted (mirror_strBody htrigger)⟩,
    ⟨strBody_key (lit_all (by decide)), isValue_quoted (mirror_strBody hsource)⟩, by simp⟩

theorem getLast?_objText (ms : List (Bytes × Bytes)) : (objText ms).getLast? = some (ch '}') := by
  rw [objText, ← List.cons_append, List.getLast?_concat]

/-- A terminal that fits is one object, and it is appended. -/
theorem emit_object {prepare : Bytes → Bool} {call : Call} {ok : Bool} {reason result error : Bytes} (hr : IsValue result)
    (he : IsValue error) (hfit : TerminalFits prepare call ok reason result error) :
    ∃ payload, rtActionEmitTerminal prepare call ok reason result error = some payload ∧ ∃ ms, ObjText payload ms := by
  have hlaid := terminalMembers_laid call ok reason hr he
  obtain ⟨hlen, hbound⟩ := hfit
  unfold rtActionEmitTerminal
  dsimp only
  cases hb : call.binding with
  | none =>
    dsimp only
    rw [if_neg (by omega)]
    exact ⟨_, rfl, _, hlaid.objText⟩
  | some b =>
    obtain ⟨⟨bind, hbind, hshort, hroom⟩, hwake⟩ := hbound b hb
    obtain ⟨bms, hbms, rfl⟩ := bindWhole_laid hbind
    have htext : bindText call b = some (ch ',' :: membersText bms) := by
      rw [bindText, hbind, Option.map_some, clip_eq_self hshort]
    have hlast : (terminalPayload call ok reason result error).getLast? = some (ch '}') := getLast?_objText _
    have hpayload : ∃ ms, Laid ms ∧ bindPayload (terminalPayload call ok reason result error) (ch ',' :: membersText bms)
        (continuationOf call ok result) = some (objText ms) := by
      rw [bindPayload, if_neg (by rw [hlast]; simp; omega)]
      by_cases hcont : continuationOf call ok result = []
      · refine ⟨_, hlaid.append hbms, ?_⟩
        rw [if_pos hcont, List.append_nil, terminalPayload, objText_snoc hlaid.1 hbms.1]
      · refine ⟨_, (hlaid.append hbms).append (continuationOf_laid call ok result), ?_⟩
        rw [if_neg hcont, ← objText_snoc (hlaid.append hbms).1 (by simp), ← objText_snoc hlaid.1 hbms.1, terminalPayload,
          List.dropLast_concat]
    obtain ⟨ms, hms, hsome⟩ := hpayload
    dsimp only
    rw [htext]
    dsimp only
    rw [if_neg (by omega), hsome]
    dsimp only
    rw [if_neg (by
      rintro ⟨hcont, hfalse⟩
      rw [hwake hcont] at hfalse
      cases hfalse)]
    exact ⟨_, rfl, _, hms.objText⟩

/-! ## Every call -/

/-- Both texts are JSON, and the terminal that carries one of them is an object and appended. -/
def ReportsJson (prepare : Bytes → Bool) (i : Intrinsic) (fs : FileSystem) (runDir args : Bytes) (call : Call) : Prop :=
  IsValue (i.run fs runDir call.action args).result ∧ IsValue (i.run fs runDir call.action args).error ∧
    ∃ payload, completeIntrinsic prepare i fs runDir args call = some payload ∧ ∃ ms, ObjText payload ms

/-- Nothing that is spliced raw needs an escape, and everything fits. -/
def ReportSafe (prepare : Bytes → Bool) (call : Call) (o : Outcome) : Prop :=
  Clean o ∧ TerminalFits prepare call o.ok (reportedReason o.ok) (reportedResult call o.ok o.result)
    (reportedError o.ok o.error)

/-- A safe call reports JSON; where no path is spliced raw and the call is bound to no work step, only a safe one does. -/
theorem file_intrinsics_report_json (prepare : Bytes → Bool) (i : Intrinsic) (fs : FileSystem) (runDir args : Bytes)
    (call : Call) :
    (ReportSafe prepare call (i.run fs runDir call.action args) → ReportsJson prepare i fs runDir args call) ∧
      (¬ SplicesRaw (i.run fs runDir call.action args) → call.binding = none →
        ReportsJson prepare i fs runDir args call → ReportSafe prepare call (i.run fs runDir call.action args)) := by
  have hf := run_formed i fs runDir call.action args
  constructor
  · rintro ⟨hclean, hfit⟩
    obtain ⟨hresult, herror⟩ := clean_texts hf hclean
    refine ⟨hresult, herror, emit_object (reportedResult_value hf hclean call) ?_ hfit⟩
    cases hok : (i.run fs runDir call.action args).ok with
    | true => exact .null
    | false => exact herror
  · rintro hraw hnone ⟨hresult, -, payload, hsome, -⟩
    refine ⟨texts_clean hf hraw hresult, ?_, fun b hb => by rw [hnone] at hb; cases hb⟩
    rw [completeIntrinsic, reportIntrinsic, rtActionEmitTerminal, hnone] at hsome
    dsimp only at hsome
    by_contra hlong
    rw [if_pos (by omega)] at hsome
    cases hsome

/-! ## A file that cannot be opened -/

/-- A workspace `/w` in which no file can be opened. -/
def closedWorkspace : FileSystem where
  realpath path := if path = lit "/w" then some ⟨lit "/w", (PlainText.of_all (lit_all (by decide))).nulFree⟩ else none
  mkdirRoot _ := false
  realpathMade _ := none
  opendir _ := none
  stat _ := none
  openRead _ := none
  allocates _ := true
  mkdirParents _ := true
  openWrite _ := false
  fwrite _ _ := false
  fileExists _ := false
  gzipAvailable := true
  stillExists _ := false
  rename _ _ := none

/-- A call of `read_file` outside any work step. -/
def readCall : Call where
  requestId := lit "req_run_001_000002"
  action := lit "read_file"
  run := 1
  taskId := []
  managedOperation := true
  workTerminal := false
  binding := none
  sourceEventId := some (lit "evt_run_001_000004")

theorem plain_path_reported :
    ReportSafe (fun _ => true) readCall (Intrinsic.readFile.run closedWorkspace (lit "/w/runs/run_001") readCall.action
        (lit "\x7b\"op\":\"start\",\"path\":\"a.txt\"\x7d")) ∧
      ReportsJson (fun _ => true) .readFile closedWorkspace (lit "/w/runs/run_001")
        (lit "\x7b\"op\":\"start\",\"path\":\"a.txt\"\x7d") readCall := by
  have hrun : Intrinsic.readFile.run closedWorkspace (lit "/w/runs/run_001") readCall.action
      (lit "\x7b\"op\":\"start\",\"path\":\"a.txt\"\x7d") =
      .failed (lit "read failed: ") (lit "a.txt") (.raw (lit "a.txt")) := by decide +kernel
  have hsafe : ReportSafe (fun _ => true) readCall (Intrinsic.readFile.run closedWorkspace (lit "/w/runs/run_001")
      readCall.action (lit "\x7b\"op\":\"start\",\"path\":\"a.txt\"\x7d")) := by
    rw [hrun]
    refine ⟨⟨PlainText.of_all (lit_all (by decide)), by decide +kernel, ?_⟩, by decide +kernel, fun b hb => by cases hb⟩
    rintro path hpath
    cases hpath
    exact PlainText.of_all (by decide)
  exact ⟨hsafe, (file_intrinsics_report_json _ _ _ _ _ _).1 hsafe⟩

/-- A quote in the path of a file that cannot be opened: the error is no JSON text. -/
theorem quoted_path_breaks_report :
    ¬ ReportsJson (fun _ => true) .readFile closedWorkspace (lit "/w/runs/run_001")
      (lit "\x7b\"op\":\"start\",\"path\":\"a\\\"b\"\x7d") readCall := by
  rintro ⟨-, herror, -⟩
  have htext : (Intrinsic.readFile.run closedWorkspace (lit "/w/runs/run_001") readCall.action
      (lit "\x7b\"op\":\"start\",\"path\":\"a\\\"b\"\x7d")).error =
      lit "\x7b\"message\":\"read failed: a\"b\"\x7d" := by decide +kernel
  rw [htext] at herror
  have hread := jsonRefFromText_complete herror (.of_all (by decide +kernel))
  have hnone : jsonRefFromText (lit "\x7b\"message\":\"read failed: a\"b\"\x7d") = none := by decide +kernel
  rw [hnone] at hread
  cases hread

end Floofclaw.Guarantees.FileReports
