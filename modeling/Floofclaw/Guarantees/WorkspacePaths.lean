import Floofclaw.Lib.FileTree
import Floofclaw.Source.FileIntrinsics

/-!
# Workspace paths

What the path of a workspace file action stands for once it is resolved. The
system's `realpath` is POSIX resolution over a tree of directories, files and
symbolic links: the tree as the call works on it, a missing workspace root already
made. A target that exists is taken by its canonical text, and opening that text
leads back to it. A target `realpath` gives up on is rebuilt from its canonical
parent and its last name; the text passes the prefix test whatever the name is. So
the action stays in the workspace unless that last name is a link `realpath` does
not get through, to a missing target for one, and which an open follows outside.
-/

set_option autoImplicit false

namespace Floofclaw.Guarantees.WorkspacePaths
open Floofclaw.Lib Floofclaw.Lib.FileTree Floofclaw.Source.FileIntrinsics Floofclaw.Source.ActionReports

/-- The system of a process on a tree; its other answers stay as they are. -/
def onHost (base : FileSystem) (host : TreeHost) : FileSystem :=
  { base with realpath := host.realpath pathMax, realpathMade := host.realpath pathMax }

/-- The real workspace root of a run. -/
def workspacePlace (host : TreeHost) (runDir : Bytes) : Option Place := (before (lit "/runs/") runDir).bind host.place

/-- Opening what a path was resolved to leads to places at or under the real workspace root only. -/
def Contained (base : FileSystem) (host : TreeHost) (runDir path : Bytes) : Prop :=
  ∀ ws abs, workspacePlace host runDir = some ws → rtActionResolveWorkspacePath (onHost base host) runDir path = .ok abs →
    ∀ create place, host.opened create abs = some place → ws <:+ place

/-- The last name of the path is a link in a workspace directory that leads a write outside, and that `realpath` fails on. -/
structure LinkOut (host : TreeHost) (runDir path root parent leaf target : Bytes) (ws dir outside : Place) : Prop where
  rooted : before (lit "/runs/") runDir = some root
  named : root ≠ []
  short : root.length < pathMax
  workspace : host.place root = some ws
  rootFits : (placeText ws).length < pathMax
  split : placeText ws ++ ch '/' :: path = parent ++ ch '/' :: leaf
  last : ch '/' ∉ leaf
  joinFits : (placeText ws ++ ch '/' :: path).length < pathMax
  unresolved : host.realpath pathMax (placeText ws ++ ch '/' :: path) = none
  above : host.place parent = some dir
  inside : ws <:+ dir
  fits : (placeText dir ++ ch '/' :: leaf).length < pathMax
  link : host.tree.entry (leaf :: dir) = some (.link target)
  opened : host.tree.walk true host.links dir [leaf] = some outside
  outside : ¬ ws <:+ outside

def EscapingLink (host : TreeHost) (runDir path : Bytes) : Prop :=
  ∃ root parent leaf target ws dir outside, LinkOut host runDir path root parent leaf target ws dir outside

/-! ## The pieces of a resolution -/

variable {base : FileSystem} {host : TreeHost} {runDir path : Bytes}

theorem splitLastSlash_last {parent leaf : Bytes} (h : ch '/' ∉ leaf) : splitLastSlash (parent ++ ch '/' :: leaf) = some (parent, leaf) := by
  have htake : ((parent ++ ch '/' :: leaf).reverse.takeWhile (· ≠ ch '/')) = leaf.reverse := by
    have hclean : ∀ c ∈ leaf.reverse, decide (c ≠ ch '/') = true := by
      intro c hc
      exact decide_eq_true fun he => h (he ▸ List.mem_reverse.mp hc)
    rw [List.reverse_append, List.reverse_cons, List.append_assoc, List.takeWhile_append_of_pos hclean, List.singleton_append,
      List.takeWhile_cons_of_neg (by simp), List.append_nil]
  have hlen : (parent ++ ch '/' :: leaf).length - leaf.length - 1 = parent.length := by
    rw [List.length_append, List.length_cons]
    omega
  rw [splitLastSlash, htake]
  simp only [List.reverse_reverse]
  rw [List.length_append, List.length_cons] at hlen ⊢
  rw [if_neg (by omega), hlen, List.take_left]

theorem splitLastSlash_eq {s parent leaf : Bytes} : splitLastSlash s = some (parent, leaf) ↔ s = parent ++ ch '/' :: leaf ∧ ch '/' ∉ leaf := by
  constructor
  · intro h
    by_cases hslash : ch '/' ∈ s
    · obtain ⟨back, front, hs, hback⟩ := List.eq_append_cons_of_mem (List.mem_reverse.mpr hslash)
      have hlast : ch '/' ∉ back.reverse := fun hm => hback (List.mem_reverse.mp hm)
      have hsplit : s = front.reverse ++ ch '/' :: back.reverse := by
        rw [← List.reverse_reverse s, hs, List.reverse_append, List.reverse_cons, List.append_assoc, List.singleton_append]
      rw [hsplit, splitLastSlash_last hlast, Option.some.injEq, Prod.mk.injEq] at h
      exact ⟨by rw [hsplit, h.1, h.2], h.2 ▸ hlast⟩
    · have hall : s.reverse.takeWhile (· ≠ ch '/') = s.reverse :=
        List.takeWhile_eq_self_iff.mpr fun c hc => decide_eq_true fun he => hslash (he ▸ List.mem_reverse.mp hc)
      rw [splitLastSlash, hall, List.reverse_reverse] at h
      simp at h
  · rintro ⟨rfl, hleaf⟩
    exact splitLastSlash_last hleaf

theorem workspaceRoot_ok {wsAbs : Bytes} :
    workspaceRoot (onHost base host) runDir = .ok wsAbs ↔
      ∃ root ws, before (lit "/runs/") runDir = some root ∧ root ≠ [] ∧ root.length < pathMax ∧ host.place root = some ws ∧
        (placeText ws).length < pathMax ∧ wsAbs = placeText ws := by
  rw [workspaceRoot]
  constructor
  · intro h
    split at h
    · cases h
    · cases h
    · rename_i root hempty hroot
      refine ⟨root, ?_⟩
      split at h
      · cases h
      · rename_i hshort
        split at h
        · rename_i s hs
          obtain ⟨ws, hws, htext, hfits⟩ := TreeHost.realpath_eq.mp hs
          exact ⟨ws, hroot, hempty, Nat.lt_of_not_le hshort, hws, hfits, by rw [← Except.ok.inj h, htext]⟩
        · rename_i hnone
          have hmade : (onHost base host).realpathMade root = none := hnone
          rw [hmade] at h
          split at h <;> cases h
  · rintro ⟨root, ws, hroot, hempty, hshort, hws, hfits, rfl⟩
    have hreal : (onHost base host).realpath root = some ⟨placeText ws, placeText_nulFree (TreeHost.place_settled hws).present⟩ :=
      TreeHost.realpath_eq.mpr ⟨ws, hws, rfl, hfits⟩
    cases root with
    | nil => exact absurd rfl hempty
    | cons c root =>
      rw [hroot]
      simp only
      rw [if_neg (Nat.not_le.mpr hshort), hreal]

theorem behind (text leaf : Bytes) : text ++ lit "/" ++ leaf = text ++ ch '/' :: leaf := List.append_assoc ..

/-- A target is canonical, or stands by its last name behind its canonical parent. -/
theorem resolveTarget_ok {joined abs : Bytes} (hdeep : ∀ leaf, joined = ch '/' :: leaf → ch '/' ∈ leaf) :
    resolveTarget (onHost base host) joined path = .ok abs ↔
      (∃ place, host.place joined = some place ∧ (placeText place).length < pathMax ∧ abs = placeText place) ∨
      host.realpath pathMax joined = none ∧ ∃ parent leaf dir, joined = parent ++ ch '/' :: leaf ∧ ch '/' ∉ leaf ∧ host.place parent = some dir ∧
        (placeText dir).length < pathMax ∧ (placeText dir ++ ch '/' :: leaf).length < pathMax ∧ abs = placeText dir ++ ch '/' :: leaf := by
  have hreal : (onHost base host).realpath = host.realpath pathMax := rfl
  rw [resolveTarget, hreal]
  cases hjoined : host.realpath pathMax joined with
  | some s =>
    obtain ⟨place, hplace, htext, hfits⟩ := TreeHost.realpath_eq.mp hjoined
    constructor
    · intro h
      exact .inl ⟨place, hplace, hfits, by rw [← Except.ok.inj h, htext]⟩
    · rintro (⟨other, hother, -, rfl⟩ | ⟨hnone, -⟩)
      · rw [hplace, Option.some.injEq] at hother
        simp only
        rw [htext, hother]
      · cases hnone
  | none =>
    have hsplit : ∀ {parent leaf}, splitLastSlash joined = some (parent, leaf) → (if parent = [] then lit "/" else parent) = parent := by
      intro parent leaf hs
      obtain ⟨rfl, hleaf⟩ := splitLastSlash_eq.mp hs
      exact if_neg fun he => hleaf (hdeep leaf (by rw [he, List.nil_append]))
    simp only
    constructor
    · intro h
      split at h
      · cases h
      · rename_i parent leaf hs
        obtain ⟨heq, hleaf⟩ := splitLastSlash_eq.mp hs
        rw [hsplit hs] at h
        split at h
        · cases h
        · rename_i t ht
          obtain ⟨dir, hdir, htext, hfits⟩ := TreeHost.realpath_eq.mp ht
          rw [htext, behind] at h
          split at h
          · cases h
          · rename_i hlen
            exact .inr ⟨trivial, parent, leaf, dir, heq, hleaf, hdir, hfits, Nat.lt_of_not_le hlen, (Except.ok.inj h).symm⟩
    · rintro (⟨place, hplace, hfits, -⟩ | ⟨-, parent, leaf, dir, heq, hleaf, hdir, hfits, hlen, rfl⟩)
      · exact absurd (TreeHost.realpath_none.mp hjoined place hplace) (Nat.not_le.mpr hfits)
      · have hs := splitLastSlash_eq.mpr ⟨heq, hleaf⟩
        have ht : host.realpath pathMax parent = some ⟨placeText dir, placeText_nulFree (TreeHost.place_settled hdir).present⟩ :=
          TreeHost.realpath_eq.mpr ⟨dir, hdir, rfl, hfits⟩
        rw [hs]
        simp only
        rw [hsplit hs, ht]
        simp only
        rw [behind]
        exact if_neg (Nat.not_le.mpr hlen)

/-- The text passes the prefix test. -/
def Tested (ws : Place) (abs : Bytes) : Prop :=
  (placeText ws).isPrefixOf abs = true ∧ (abs.length = (placeText ws).length ∨ abs[(placeText ws).length]? = some (ch '/'))

theorem joined_deep (ws : Place) (path leaf : Bytes) (h : placeText ws ++ ch '/' :: path = ch '/' :: leaf) : ch '/' ∈ leaf := by
  cases htext : placeText ws with
  | nil =>
    have hhead := placeText_head ws
    rw [htext] at hhead
    cases hhead
  | cons c text =>
    rw [htext, List.cons_append] at h
    rw [← (List.cons.inj h).2]
    exact List.mem_append_right _ List.mem_cons_self

theorem resolves_ok {abs : Bytes} :
    rtActionResolveWorkspacePath (onHost base host) runDir path = .ok abs ↔
      ∃ root ws, before (lit "/runs/") runDir = some root ∧ root ≠ [] ∧ root.length < pathMax ∧ host.place root = some ws ∧
        (placeText ws).length < pathMax ∧ (placeText ws ++ ch '/' :: path).length < pathMax ∧
        resolveTarget (onHost base host) (placeText ws ++ ch '/' :: path) path = .ok abs ∧ Tested ws abs := by
  rw [rtActionResolveWorkspacePath]
  constructor
  · intro h
    cases hroot : workspaceRoot (onHost base host) runDir with
    | error e =>
      rw [hroot] at h
      cases h
    | ok wsAbs =>
      obtain ⟨root, ws, hbefore, hempty, hshort, hws, hfits, rfl⟩ := workspaceRoot_ok.mp hroot
      rw [hroot] at h
      simp only [bind, Except.bind, behind] at h
      split at h
      · cases h
      · rename_i hjoin
        cases htarget : resolveTarget (onHost base host) (placeText ws ++ ch '/' :: path) path with
        | error e =>
          rw [htarget] at h
          cases h
        | ok found =>
          rw [htarget] at h
          simp only at h
          split at h
          · rename_i htest
            obtain rfl := Except.ok.inj h
            exact ⟨root, ws, hbefore, hempty, hshort, hws, hfits, Nat.lt_of_not_le hjoin, htarget, htest⟩
          · cases h
  · rintro ⟨root, ws, hbefore, hempty, hshort, hws, hfits, hjoin, htarget, htest⟩
    rw [workspaceRoot_ok.mpr ⟨root, ws, hbefore, hempty, hshort, hws, hfits, rfl⟩]
    simp only [bind, Except.bind, behind]
    rw [if_neg (Nat.not_le.mpr hjoin), htarget]
    exact if_pos htest

/-! ## The prefix test -/

theorem Tested.rest {ws : Place} {abs : Bytes} (h : Tested ws abs) : ∃ rest, abs = placeText ws ++ rest ∧ (rest = [] ∨ rest.head? = some (ch '/')) := by
  obtain ⟨rest, rfl⟩ := List.isPrefixOf_iff_prefix.mp h.1
  refine ⟨rest, rfl, ?_⟩
  rcases h.2 with hlen | hnext
  · rw [List.length_append] at hlen
    exact .inl (List.length_eq_zero_iff.mp (by omega))
  · rw [List.getElem?_append_right (Nat.le_refl _), Nat.sub_self, ← List.head?_eq_getElem?] at hnext
    exact .inr hnext

/-- A tested text of slashed names lies at or under the root. -/
theorem Tested.under {ws place : Place} (hws : Unslashed ws) (hplace : Unslashed place) (h : Tested ws (slashed place)) : ws <:+ place := by
  by_cases hroot : ws = []
  · exact hroot ▸ List.nil_suffix
  · obtain ⟨rest, htext, hrest⟩ := h.rest
    rw [placeText, if_neg hroot] at htext
    exact suffix_of_text hws hplace htext hrest

/-- Below the root nothing but the root itself is named by a text with an empty first name. -/
theorem Tested.root {ws : Place} {back : Bytes} (hws : ∀ name ∈ ws, ValidName name) (h : Tested ws (ch '/' :: back))
    (hback : (components back).head? = some []) : ws = [] := by
  by_contra hroot
  have hclean : Unslashed ws := fun name hm => (hws name hm).2.2.2.1
  obtain ⟨rest, htext, hrest⟩ := h.rest
  rw [placeText, if_neg hroot] at htext
  have hparts : ∃ more, components back = ws.reverse ++ more := by
    have hsplit := congrArg components htext
    have hfront : components (ch '/' :: back) = [] :: components back := components_append [] back
    rw [hfront] at hsplit
    rcases hrest with rfl | hhead
    · rw [List.append_nil, components_slashed hclean] at hsplit
      exact ⟨[], by rw [(List.cons.inj hsplit).2, List.append_nil]⟩
    · obtain ⟨more, rfl⟩ : ∃ more, rest = ch '/' :: more := by
        cases rest with
        | nil => cases hhead
        | cons c more => exact ⟨more, by rw [Option.some.inj hhead]⟩
      rw [components_append, components_slashed hclean] at hsplit
      exact ⟨components more, (List.cons.inj hsplit).2⟩
  obtain ⟨more, hmore⟩ := hparts
  obtain ⟨name, names, hrev⟩ := List.exists_cons_of_ne_nil (fun he => hroot (List.reverse_eq_nil_iff.mp he) : ws.reverse ≠ [])
  rw [hmore, hrev] at hback
  have hname := hws name (List.mem_reverse.mp (hrev ▸ List.mem_cons_self))
  exact hname.1 (Option.some.inj hback)

theorem Tested.under_placeText {ws place : Place} (hws : ∀ name ∈ ws, ValidName name) (hplace : Unslashed place) (h : Tested ws (placeText place)) :
    ws <:+ place := by
  by_cases hroot : place = []
  · subst hroot
    have hempty : ws = [] := Tested.root hws (show Tested ws (ch '/' :: []) from h) rfl
    exact hempty ▸ List.nil_suffix
  · rw [placeText, if_neg hroot] at h
    exact h.under (fun name hm => (hws name hm).2.2.2.1) hplace

/-- A tested text of a place and one more name lies under the root, or is it. -/
theorem Tested.under_leaf {ws dir : Place} {leaf : Bytes} (hws : ∀ name ∈ ws, ValidName name) (hdir : Unslashed dir) (hleaf : ch '/' ∉ leaf)
    (h : Tested ws (placeText dir ++ ch '/' :: leaf)) : ws <:+ dir ∨ ws = leaf :: dir := by
  by_cases hroot : dir = []
  · subst hroot
    have hlast : components leaf = [leaf] := List.splitOn_eq_singleton hleaf
    have hempty : ws = [] := by
      refine Tested.root hws (show Tested ws (ch '/' :: ([] ++ ch '/' :: leaf)) from h) ?_
      rw [components_append]
      rfl
    exact .inl (hempty ▸ List.nil_suffix)
  · rw [placeText, if_neg hroot] at h
    have hunder : ws <:+ leaf :: dir :=
      Tested.under (fun name hm => (hws name hm).2.2.2.1) (List.forall_mem_cons.mpr ⟨hleaf, hdir⟩) h
    rcases List.suffix_cons_iff.mp hunder with heq | hsuffix
    · exact .inr heq
    · exact .inl hsuffix

theorem tested_under {ws dir : Place} {leaf : Bytes} (hempty : ws ≠ []) (hunder : ws <:+ dir) : Tested ws (placeText dir ++ ch '/' :: leaf) := by
  obtain ⟨below, rfl⟩ := hunder
  have hne : below ++ ws ≠ [] := fun he => hempty (List.append_eq_nil_iff.mp he).2
  have htext : placeText (below ++ ws) ++ ch '/' :: leaf = placeText ws ++ (slashed below ++ ch '/' :: leaf) := by
    rw [placeText, if_neg hne, placeText, if_neg hempty, slashed_append, List.append_assoc]
  have hnext : (slashed below ++ ch '/' :: leaf).head? = some (ch '/') := by
    cases below with
    | nil => rfl
    | cons name below =>
      rw [List.head?_append, slashed_head (List.cons_ne_nil _ _)]
      rfl
  rw [htext]
  refine ⟨List.isPrefixOf_iff_prefix.mpr (List.prefix_append ..), .inr ?_⟩
  rw [List.getElem?_append_right (Nat.le_refl _), Nat.sub_self, ← List.head?_eq_getElem?, hnext]

/-! ## Containment -/

/-- Behind a path that resolves the walk goes on where it leads to, with the links that are left. -/
theorem place_behind {parent leaf : Bytes} {dir : Place} (hleaf : ch '/' ∉ leaf) (hdir : host.place parent = some dir) :
    ∃ left, host.place (parent ++ ch '/' :: leaf) = host.tree.walk false left dir [leaf] := by
  have hlast : components leaf = [leaf] := List.splitOn_eq_singleton hleaf
  cases parent with
  | nil => cases hdir
  | cons c parent =>
    have hwalk : host.tree.walk false host.links (start host.cwd (c :: parent)) (components (c :: parent)) = some dir := hdir
    obtain ⟨left, hleft⟩ := walk_append [leaf] hwalk
    refine ⟨left, ?_⟩
    rw [← hleft false, ← hlast, ← components_append]
    rfl

/-- What a rebuilt target opens: a file that is not there yet, or what a link leads to. -/
theorem rebuilt_opened {parent leaf : Bytes} {dir place : Place} {create : Bool} (hnone : host.realpath pathMax (parent ++ ch '/' :: leaf) = none)
    (hleaf : ch '/' ∉ leaf) (hdir : host.place parent = some dir) (hfits : (placeText dir).length < pathMax)
    (hlen : (placeText dir ++ ch '/' :: leaf).length < pathMax) (hopen : host.opened create (placeText dir ++ ch '/' :: leaf) = some place) :
    place = leaf :: dir ∨ ∃ target, host.tree.entry (leaf :: dir) = some (.link target) ∧ host.tree.walk true host.links dir [leaf] = some place := by
  have hlast : components leaf = [leaf] := List.splitOn_eq_singleton hleaf
  have hwalk : host.tree.walk create host.links dir [leaf] = some place := by
    rw [← hlast, ← resolve_behind (TreeHost.place_settled hdir)]
    exact hopen
  -- a place the whole path leads to, whatever links are left, would have been found
  have hgone : ∀ q, (∀ left, host.tree.walk false left dir [leaf] = some q) → (placeText q).length < pathMax → False := by
    intro q hq hshort
    obtain ⟨left, hplace⟩ := place_behind hleaf hdir
    exact absurd (TreeHost.realpath_none.mp hnone q (hplace.trans (hq left))) (Nat.not_le.mpr hshort)
  cases met host.tree dir leaf with
  | blocked hno =>
    rw [walk_blocked [] hno] at hwalk
    cases hwalk
  | dot hin hname => exact (hgone dir (fun left => by rw [walk_dot [] hin hname, walk_nil]) hfits).elim
  | up hin hname =>
    subst hname
    exact (hgone dir.tail (fun left => by rw [walk_up [] hin, walk_nil]) (Nat.lt_of_le_of_lt (placeText_tail_length dir) hfits)).elim
  | missing hin hname hfree =>
    rw [walk_missing [] hin hname hfree] at hwalk
    split at hwalk
    · exact .inl (Option.some.inj hwalk).symm
    · cases hwalk
  | link target hlink =>
    refine .inr ⟨target, hlink, ?_⟩
    cases create with
    | true => exact hwalk
    | false =>
      obtain ⟨left, hleft⟩ := walk_append [] hwalk
      rw [← List.append_nil [leaf], hleft, walk_nil]
  | into hin =>
    exact (hgone (leaf :: dir) (fun left => by rw [walk_into [] hin, walk_nil]) (Nat.lt_of_le_of_lt (placeText_cons_length leaf dir) hlen)).elim

theorem contained_of_no_link (h : ¬ EscapingLink host runDir path) : Contained base host runDir path := by
  intro ws abs hws hok create place hopen
  obtain ⟨root, ws', hbefore, hempty, hshort, hws', hrootFits, hjoinFits, htarget, htest⟩ := resolves_ok.mp hok
  have hsame : ws' = ws := by
    rw [workspacePlace, hbefore] at hws
    exact Option.some.inj (hws'.symm.trans hws)
  subst hsame
  have hwsValid := names_valid (TreeHost.place_settled hws').present
  rcases (resolveTarget_ok (joined_deep ws' path)).mp htarget with
    ⟨found, hfound, -, rfl⟩ | ⟨hnone, parent, leaf, dir, hsplit, hleaf, hdir, hfits, hlen, rfl⟩
  · have hsettled := TreeHost.place_settled hfound
    have hplace : place = found := Option.some.inj (hopen.symm.trans (resolve_placeText hsettled))
    rw [hplace]
    exact htest.under_placeText hwsValid (unslashed_of_present hsettled.present)
  · have hdirClean := unslashed_of_present (TreeHost.place_settled hdir).present
    have hunder := htest.under_leaf hwsValid hdirClean hleaf
    rw [hsplit] at hnone
    rcases rebuilt_opened hnone hleaf hdir hfits hlen hopen with rfl | ⟨target, hlink, hwalk⟩
    · rcases hunder with hunder | rfl
      · exact hunder.trans (List.suffix_cons leaf dir)
      · exact List.suffix_refl _
    · have hinside : ws' <:+ dir := by
        rcases hunder with hunder | rfl
        · exact hunder
        · rcases TreeHost.place_settled hws' with hdirectory | hfile
          · rw [hlink] at hdirectory
            cases hdirectory
          · rw [hlink] at hfile
            cases hfile
      by_contra houtside
      exact h ⟨root, parent, leaf, target, ws', dir, place, hbefore, hempty, hshort, hws', hrootFits, hsplit, hleaf, hjoinFits, hsplit ▸ hnone, hdir,
        hinside, hlen, hlink, hwalk, houtside⟩

theorem no_link_of_contained (h : Contained base host runDir path) : ¬ EscapingLink host runDir path := by
  rintro ⟨root, parent, leaf, target, ws, dir, outside, hout⟩
  have hempty : ws ≠ [] := fun he => hout.outside (he ▸ List.nil_suffix)
  have hdirFits : (placeText dir).length < pathMax := by
    have hlen := hout.fits
    rw [List.length_append] at hlen
    omega
  have hok : rtActionResolveWorkspacePath (onHost base host) runDir path = .ok (placeText dir ++ ch '/' :: leaf) :=
    resolves_ok.mpr ⟨root, ws, hout.rooted, hout.named, hout.short, hout.workspace, hout.rootFits, hout.joinFits,
      (resolveTarget_ok (joined_deep ws path)).mpr
        (.inr ⟨hout.unresolved, parent, leaf, dir, hout.split, hout.last, hout.above, hdirFits, hout.fits, rfl⟩),
      tested_under hempty hout.inside⟩
  have hws : workspacePlace host runDir = some ws := by
    rw [workspacePlace, hout.rooted]
    exact hout.workspace
  have hlast : components leaf = [leaf] := List.splitOn_eq_singleton hout.last
  have hopen : host.opened true (placeText dir ++ ch '/' :: leaf) = some outside := by
    rw [TreeHost.opened, resolve_behind (TreeHost.place_settled hout.above), hlast, hout.opened]
  exact hout.outside (h ws _ hws hok true outside hopen)

/-- A resolved path is opened inside the workspace exactly when its last name is no link that leads outside past `realpath`. -/
theorem workspace_contained_iff (base : FileSystem) (host : TreeHost) (runDir path : Bytes) :
    Contained base host runDir path ↔ ¬ EscapingLink host runDir path :=
  ⟨no_link_of_contained, contained_of_no_link⟩

/-- A workspace `/w` with one link, `/w/out`, to a file `/x` that is not there. -/
def linkedEntry (place : Place) : Option TreeEntry :=
  if place = [] ∨ place = [lit "w"] then some .dir
  else if place = [lit "out", lit "w"] then some (.link (lit "/x"))
  else none

theorem linkedEntry_cases {name : Bytes} {place : Place} (h : linkedEntry (name :: place) ≠ none) :
    (name = lit "w" ∧ place = []) ∨ (name = lit "out" ∧ place = [lit "w"]) := by
  rw [linkedEntry] at h
  split at h
  · rename_i hdir
    rcases hdir with hroot | hw
    · cases hroot
    · exact .inl (List.cons.inj hw)
  · split at h
    · rename_i hout
      exact .inr (List.cons.inj hout)
    · exact absurd rfl h

def linkedTree : FileTree where
  entry := linkedEntry
  root := by decide
  inside := by
    intro name place h
    rcases linkedEntry_cases h with ⟨-, rfl⟩ | ⟨-, rfl⟩ <;> decide +kernel
  named := by
    intro name place h
    rcases linkedEntry_cases h with ⟨rfl, -⟩ | ⟨rfl, -⟩ <;> decide +kernel

def linkedHost : TreeHost := { tree := linkedTree, cwd := [], links := 40, inDirectory := by decide }

/-- A system in which every write succeeds. -/
def writable : FileSystem where
  realpath _ := none
  mkdirRoot _ := false
  realpathMade _ := none
  opendir _ := none
  stat _ := none
  openRead _ := none
  allocates _ := true
  mkdirParents _ := true
  openWrite _ := true
  fwrite _ _ := true
  fileExists _ := false
  gzipAvailable := false
  stillExists _ := false
  rename _ _ := none

/-- A write to the link's name is let through and makes the file outside. -/
theorem dangling_link_escapes : ¬ ∀ (base : FileSystem) (host : TreeHost) (runDir path : Bytes), Contained base host runDir path := by
  intro hclaim
  have hlink : EscapingLink linkedHost (lit "/w/runs/1") (lit "out") :=
    ⟨lit "/w", lit "/w", lit "out", lit "/x", [lit "w"], [lit "w"], [lit "x"],
      by (repeat rw [lit_ofList]); decide, by decide, by decide, by decide, by decide, by decide, by decide, by decide, by decide, by decide, by decide, by decide, by decide,
      by decide +kernel, by decide⟩
  exact no_link_of_contained (hclaim writable linkedHost (lit "/w/runs/1") (lit "out")) hlink

end Floofclaw.Guarantees.WorkspacePaths
