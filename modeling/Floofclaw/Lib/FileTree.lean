import Floofclaw.Lib.Bytes

/-!
# File trees and path resolution

A tree of directories, files and symbolic links, and POSIX path resolution over it.
A place is the list of names below the root, innermost first, so that `..` is the
tail. Links are followed wherever they stand in a path, the last component
included, and only so many of them; a walk that may create ends one name below a
directory that holds nothing of that name. The text of a place is the absolute path
without links, dots and doubled slashes.
-/

set_option autoImplicit false

namespace Floofclaw.Lib

abbrev Place := List Bytes

inductive TreeEntry
  | dir
  | file
  | link (target : Bytes)
  deriving DecidableEq, Repr

/-- The longest name a directory holds. -/
def nameMax : Nat := 255

def ValidName (name : Bytes) : Prop :=
  name ≠ [] ∧ name ≠ lit "." ∧ name ≠ lit ".." ∧ ch '/' ∉ name ∧ (∀ c ∈ name, c ≠ 0) ∧ name.length ≤ nameMax

instance (name : Bytes) : Decidable (ValidName name) := inferInstanceAs (Decidable (_ ∧ _))

/-- What stands at each place. -/
structure FileTree where
  entry : Place → Option TreeEntry
  root : entry [] = some .dir
  inside : ∀ name place, entry (name :: place) ≠ none → entry place = some .dir
  named : ∀ name place, entry (name :: place) ≠ none → ValidName name

namespace FileTree

/-- The names of a path; a leading, trailing or doubled slash leaves an empty one. -/
def components (text : Bytes) : List Bytes := text.splitOn (ch '/')

/-- Where a walk begins: at the root for an absolute path. -/
def start (place : Place) (text : Bytes) : Place := if text.head? = some (ch '/') then [] else place

variable (tree : FileTree)

/-- One path's names from a place on; `follow` goes on behind a link. -/
def along (create : Bool) (follow : Place → List Bytes → Option Place) : Place → List Bytes → Option Place
  | place, [] => some place
  | place, name :: names =>
    if tree.entry place ≠ some .dir then none
    else if name = [] ∨ name = lit "." then along create follow place names
    else if name = lit ".." then along create follow place.tail names
    else
      match tree.entry (name :: place) with
      | none => if create ∧ names = [] ∧ ValidName name then some (name :: place) else none
      | some (.link target) => follow (start place target) (components target ++ names)
      | some _ => along create follow (name :: place) names

/-- Path resolution through at most so many links. -/
def walk (create : Bool) : Nat → Place → List Bytes → Option Place
  | 0 => tree.along create fun _ _ => none
  | links + 1 => tree.along create (walk create links)

/-- The place a path names, seen from a working directory. -/
def resolve (create : Bool) (links : Nat) (cwd : Place) (text : Bytes) : Option Place :=
  if text = [] then none else tree.walk create links (start cwd text) (components text)

/-- The slashed names of a place. -/
def slashed : Place → Bytes
  | [] => []
  | name :: place => slashed place ++ ch '/' :: name

def placeText (place : Place) : Bytes := if place = [] then lit "/" else slashed place

/-! ## Texts of places -/

/-- No name of the place holds a slash. -/
def Unslashed (place : Place) : Prop := ∀ name ∈ place, ch '/' ∉ name

theorem components_append (front back : Bytes) : components (front ++ ch '/' :: back) = components front ++ components back :=
  List.splitOn_append_cons_self front back

theorem components_slashed {place : Place} (h : Unslashed place) : components (slashed place) = [] :: place.reverse := by
  induction place with
  | nil => rfl
  | cons name place ih =>
    have hname : components name = [name] := List.splitOn_eq_singleton (h name List.mem_cons_self)
    rw [slashed, components_append, ih fun n hn => h n (List.mem_cons_of_mem _ hn), hname, List.reverse_cons, List.cons_append]

theorem slashed_append (below above : Place) : slashed (below ++ above) = slashed above ++ slashed below := by
  induction below with
  | nil => exact (List.append_nil _).symm
  | cons name below ih => rw [List.cons_append, slashed, slashed, ih, List.append_assoc]

theorem slashed_head {place : Place} (h : place ≠ []) : (slashed place).head? = some (ch '/') := by
  induction place with
  | nil => exact absurd rfl h
  | cons name place ih =>
    cases place with
    | nil => rfl
    | cons above place =>
      rw [slashed, List.head?_append, ih (List.cons_ne_nil _ _)]
      rfl

theorem placeText_head (place : Place) : (placeText place).head? = some (ch '/') := by
  by_cases h : place = []
  · rw [placeText, if_pos h]
    rfl
  · rw [placeText, if_neg h, slashed_head h]

/-- A text that goes on behind a place's own text with a slash, or not at all, names something at or under the place. -/
theorem suffix_of_text {above place : Place} {rest : Bytes} (habove : Unslashed above) (hplace : Unslashed place)
    (htext : slashed place = slashed above ++ rest) (hrest : rest = [] ∨ rest.head? = some (ch '/')) : above <:+ place := by
  have hparts := congrArg components htext
  rcases hrest with rfl | hhead
  · rw [List.append_nil, components_slashed habove, components_slashed hplace] at hparts
    exact List.reverse_inj.mp (List.cons.inj hparts).2 ▸ List.suffix_refl above
  · obtain ⟨back, rfl⟩ : ∃ back, rest = ch '/' :: back := by
      cases rest with
      | nil => cases hhead
      | cons c back => exact ⟨back, by rw [Option.some.inj hhead]⟩
    rw [components_append, components_slashed habove, components_slashed hplace] at hparts
    have hnames : place.reverse = above.reverse ++ components back := (List.cons.inj hparts).2
    exact List.reverse_prefix.mp ⟨_, hnames.symm⟩

/-! ## Walks -/

variable {tree} {create : Bool} {links : Nat} {place : Place}

/-- Something other than a link stands there. -/
def Settled (tree : FileTree) (place : Place) : Prop := tree.entry place = some .dir ∨ tree.entry place = some .file

theorem Settled.present (h : tree.Settled place) : tree.entry place ≠ none := by
  rcases h with h | h <;> rw [h] <;> exact Option.some_ne_none _

theorem Settled.above {name : Bytes} (h : tree.Settled (name :: place)) : tree.entry place = some .dir := tree.inside name place h.present

/-- Every name on the way to a taken place is one a directory can hold. -/
theorem names_valid (h : tree.entry place ≠ none) : ∀ name ∈ place, ValidName name := by
  induction place with
  | nil => exact fun _ hm => absurd hm List.not_mem_nil
  | cons name place ih =>
    have habove : tree.entry place ≠ none := by
      rw [tree.inside name place h]
      exact Option.some_ne_none _
    exact List.forall_mem_cons.mpr ⟨tree.named name place h, ih habove⟩

theorem unslashed_of_present (h : tree.entry place ≠ none) : Unslashed place := fun name hm => (names_valid h name hm).2.2.2.1

theorem placeText_nulFree (h : tree.entry place ≠ none) : NulFree (placeText place) := by
  have hslashed : ∀ {place : Place}, (∀ name ∈ place, ValidName name) → NulFree (slashed place) := by
    intro place hvalid
    induction place with
    | nil => exact fun _ hc => absurd hc List.not_mem_nil
    | cons name place ih =>
      have hname := (hvalid name List.mem_cons_self).2.2.2.2.1
      intro c hc
      rcases List.mem_append.mp hc with hc | hc
      · exact ih (fun n hn => hvalid n (List.mem_cons_of_mem _ hn)) c hc
      · rcases List.mem_cons.mp hc with rfl | hc
        · decide
        · exact hname c hc
  rw [placeText]
  split
  · exact NulFree.of_all (by decide)
  · exact hslashed (names_valid h)

/-- A directory's parent is one. -/
theorem parent_dir (h : tree.entry place = some .dir) : tree.entry place.tail = some .dir := by
  cases place with
  | nil => exact h
  | cons name place =>
    refine tree.inside name place ?_
    rw [h]
    exact Option.some_ne_none _

/-- Where a link is followed from: one of the links that are left is used up. -/
def followed (tree : FileTree) (create : Bool) : Nat → Place → List Bytes → Option Place
  | 0 => fun _ _ => none
  | links + 1 => tree.walk create links

theorem walk_eq : tree.walk create links = tree.along create (tree.followed create links) := by
  cases links <;> rfl

theorem walk_nil : tree.walk create links place [] = some place := by
  rw [walk_eq]
  rfl

theorem walk_blocked {name : Bytes} (names : List Bytes) (h : tree.entry place ≠ some .dir) :
    tree.walk create links place (name :: names) = none := by
  rw [walk_eq, along, if_pos h]

theorem walk_dot {name : Bytes} (names : List Bytes) (hdir : tree.entry place = some .dir) (hname : name = [] ∨ name = lit ".") :
    tree.walk create links place (name :: names) = tree.walk create links place names := by
  rw [walk_eq, along, if_neg (not_not_intro hdir), if_pos hname]

theorem walk_up (names : List Bytes) (hdir : tree.entry place = some .dir) :
    tree.walk create links place (lit ".." :: names) = tree.walk create links place.tail names := by
  rw [walk_eq, along, if_neg (not_not_intro hdir), if_neg (by decide), if_pos rfl]

/-- A name that is neither empty nor dots, below a directory: what stands there decides. -/
theorem walk_name {name : Bytes} (names : List Bytes) (hdir : tree.entry place = some .dir) (hname : name ≠ [] ∧ name ≠ lit "." ∧ name ≠ lit "..") :
    tree.walk create links place (name :: names) =
      match tree.entry (name :: place) with
      | none => if create ∧ names = [] ∧ ValidName name then some (name :: place) else none
      | some (.link target) => tree.followed create links (start place target) (components target ++ names)
      | some _ => tree.walk create links (name :: place) names := by
  rw [walk_eq, along, if_neg (not_not_intro hdir), if_neg (not_or.mpr ⟨hname.1, hname.2.1⟩), if_neg hname.2.2]

theorem walk_into {name : Bytes} (names : List Bytes) (h : tree.Settled (name :: place)) :
    tree.walk create links place (name :: names) = tree.walk create links (name :: place) names := by
  have hvalid := tree.named name place h.present
  rw [walk_name names h.above ⟨hvalid.1, hvalid.2.1, hvalid.2.2.1⟩]
  rcases h with h | h <;> rw [h]

theorem walk_link {name target : Bytes} (names : List Bytes) (h : tree.entry (name :: place) = some (.link target)) :
    tree.walk create links place (name :: names) = tree.followed create links (start place target) (components target ++ names) := by
  have hthere : tree.entry (name :: place) ≠ none := by
    rw [h]
    exact Option.some_ne_none _
  have hvalid := tree.named name place hthere
  rw [walk_name names (tree.inside name place hthere) ⟨hvalid.1, hvalid.2.1, hvalid.2.2.1⟩, h]

theorem walk_missing {name : Bytes} (names : List Bytes) (hdir : tree.entry place = some .dir) (hname : name ≠ [] ∧ name ≠ lit "." ∧ name ≠ lit "..")
    (h : tree.entry (name :: place) = none) :
    tree.walk create links place (name :: names) = if create ∧ names = [] ∧ ValidName name then some (name :: place) else none := by
  rw [walk_name names hdir hname, h]

/-- What one name of a walk can meet. -/
inductive Met (tree : FileTree) (place : Place) (name : Bytes) : Prop
  | blocked (h : tree.entry place ≠ some .dir)
  | dot (hdir : tree.entry place = some .dir) (h : name = [] ∨ name = lit ".")
  | up (hdir : tree.entry place = some .dir) (h : name = lit "..")
  | missing (hdir : tree.entry place = some .dir) (hname : name ≠ [] ∧ name ≠ lit "." ∧ name ≠ lit "..") (h : tree.entry (name :: place) = none)
  | link (target : Bytes) (h : tree.entry (name :: place) = some (.link target))
  | into (h : tree.Settled (name :: place))

theorem met (tree : FileTree) (place : Place) (name : Bytes) : Met tree place name := by
  by_cases hdir : tree.entry place = some .dir
  · by_cases hdot : name = [] ∨ name = lit "."
    · exact .dot hdir hdot
    · by_cases hup : name = lit ".."
      · exact .up hdir hup
      · cases h : tree.entry (name :: place) with
        | none => exact .missing hdir ⟨fun e => hdot (.inl e), fun e => hdot (.inr e), hup⟩ h
        | some entry =>
          cases entry with
          | dir => exact .into (.inl h)
          | file => exact .into (.inr h)
          | link target => exact .link target h
  · exact .blocked hdir

/-- The front part of a path, when what is behind a link is already known to go on likewise. -/
theorem walk_append_of (links : Nat) {back : List Bytes}
    (hfollow : ∀ {place front mid}, tree.followed false links place front = some mid →
      ∃ left, ∀ create, tree.followed create links place (front ++ back) = tree.walk create left mid back)
    {front : List Bytes} {mid : Place} (h : tree.walk false links place front = some mid) :
    ∃ left, ∀ create, tree.walk create links place (front ++ back) = tree.walk create left mid back := by
  induction front generalizing place with
  | nil =>
    rw [walk_nil, Option.some.injEq] at h
    exact ⟨links, fun _ => by rw [h, List.nil_append]⟩
  | cons name front ih =>
    cases met tree place name with
    | blocked hno =>
      rw [walk_blocked front hno] at h
      cases h
    | dot hdir hname =>
      rw [walk_dot front hdir hname] at h
      obtain ⟨left, hleft⟩ := ih h
      exact ⟨left, fun create => by rw [List.cons_append, walk_dot _ hdir hname, hleft]⟩
    | up hdir hname =>
      subst hname
      rw [walk_up front hdir] at h
      obtain ⟨left, hleft⟩ := ih h
      exact ⟨left, fun create => by rw [List.cons_append, walk_up _ hdir, hleft]⟩
    | missing hdir hname hnone =>
      rw [walk_missing front hdir hname hnone, if_neg (by simp)] at h
      cases h
    | link target hlink =>
      rw [walk_link front hlink] at h
      obtain ⟨left, hleft⟩ := hfollow h
      exact ⟨left, fun create => by rw [List.cons_append, walk_link _ hlink, ← List.append_assoc, hleft]⟩
    | into hin =>
      rw [walk_into front hin] at h
      obtain ⟨left, hleft⟩ := ih h
      exact ⟨left, fun create => by rw [List.cons_append, walk_into _ hin, hleft]⟩

/-- A walk over what exists goes on from where it got to, with the links that are left. -/
theorem walk_append {front : List Bytes} {mid : Place} (back : List Bytes) (h : tree.walk false links place front = some mid) :
    ∃ left, ∀ create, tree.walk create links place (front ++ back) = tree.walk create left mid back := by
  induction links generalizing place front mid with
  | zero => exact walk_append_of 0 (fun hnone => by cases hnone) h
  | succ links ih => exact walk_append_of (links + 1) (fun hrest => ih hrest) h

/-- A walk that creates nothing ends at something that is no link. -/
theorem walk_settled_of (links : Nat) (hfollow : ∀ {origin names mid}, tree.Settled origin → tree.followed false links origin names = some mid → tree.Settled mid)
    {names : List Bytes} {mid : Place} (hplace : tree.Settled place) (h : tree.walk false links place names = some mid) : tree.Settled mid := by
  induction names generalizing place with
  | nil =>
    rw [walk_nil, Option.some.injEq] at h
    rwa [← h]
  | cons name names ih =>
    cases met tree place name with
    | blocked hno =>
      rw [walk_blocked names hno] at h
      cases h
    | dot hdir hname => exact ih hplace (by rwa [walk_dot names hdir hname] at h)
    | up hdir hname =>
      subst hname
      exact ih (.inl (parent_dir hdir)) (by rwa [walk_up names hdir] at h)
    | missing hdir hname hnone =>
      rw [walk_missing names hdir hname hnone, if_neg (by simp)] at h
      cases h
    | link target hlink =>
      rw [walk_link names hlink] at h
      refine hfollow ?_ h
      rw [start]
      split
      · exact .inl tree.root
      · refine .inl (tree.inside name place ?_)
        rw [hlink]
        exact Option.some_ne_none _
    | into hin => exact ih hin (by rwa [walk_into names hin] at h)

theorem walk_settled {names : List Bytes} {mid : Place} (hplace : tree.Settled place) (h : tree.walk false links place names = some mid) :
    tree.Settled mid := by
  induction links generalizing place names mid with
  | zero => exact walk_settled_of 0 (fun _ hnone => by cases hnone) hplace h
  | succ links ih => exact walk_settled_of (links + 1) (fun horigin hrest => ih horigin hrest) hplace h

/-- The names of a place that is no link lead to it from the root, past directories only. -/
theorem walk_down (names : List Bytes) (h : tree.Settled place) :
    tree.walk create links [] (place.reverse ++ names) = tree.walk create links place names := by
  induction place generalizing names with
  | nil => rfl
  | cons name place ih => rw [List.reverse_cons, List.append_assoc, List.singleton_append, ih (name :: names) (.inl h.above), walk_into names h]

/-! ## Resolved texts -/

variable {cwd : Place} {text : Bytes}

/-- Behind the text of a place the walk goes on there. -/
theorem resolve_behind (h : tree.Settled place) (back : Bytes) :
    tree.resolve create links cwd (placeText place ++ ch '/' :: back) = tree.walk create links place (components back) := by
  have hhead : (placeText place ++ ch '/' :: back).head? = some (ch '/') := by
    rw [List.head?_append, placeText_head]
    rfl
  rw [resolve, if_neg (by simp), start, if_pos hhead, components_append, placeText]
  split
  · rename_i hroot
    subst hroot
    have hslash : components (lit "/") = [[], []] := rfl
    rw [hslash, List.cons_append, List.singleton_append, walk_dot _ tree.root (.inl rfl), walk_dot _ tree.root (.inl rfl)]
  · rw [components_slashed (unslashed_of_present h.present), List.cons_append, walk_dot _ tree.root (.inl rfl), walk_down _ h]

/-- The text of a place that is no link resolves to it. -/
theorem resolve_placeText (h : tree.Settled place) : tree.resolve create links cwd (placeText place) = some place := by
  have hne : placeText place ≠ [] := by
    intro he
    have := placeText_head place
    rw [he] at this
    cases this
  rw [resolve, if_neg hne, start, if_pos (placeText_head place), placeText]
  split
  · rename_i hroot
    subst hroot
    have hslash : components (lit "/") = [[], []] := rfl
    rw [hslash, walk_dot _ tree.root (.inl rfl), walk_dot _ tree.root (.inl rfl), walk_nil]
  · have hdown : tree.walk create links [] (place.reverse ++ []) = tree.walk create links place [] := walk_down [] h
    rw [List.append_nil] at hdown
    rw [components_slashed (unslashed_of_present h.present), walk_dot _ tree.root (.inl rfl), hdown, walk_nil]

theorem resolve_settled (hcwd : tree.Settled cwd) (h : tree.resolve false links cwd text = some place) : tree.Settled place := by
  rw [resolve] at h
  split at h
  · cases h
  · refine walk_settled ?_ h
    rw [start]
    split
    · exact .inl tree.root
    · exact hcwd

theorem placeText_tail_length (place : Place) : (placeText place.tail).length ≤ (placeText place).length := by
  cases place with
  | nil => exact Nat.le_refl _
  | cons name place =>
    rw [List.tail_cons, placeText, placeText, if_neg (List.cons_ne_nil _ _), slashed, List.length_append, List.length_cons]
    split
    · have hslash : (lit "/").length = 1 := rfl
      omega
    · omega

theorem placeText_cons_length (name : Bytes) (place : Place) : (placeText (name :: place)).length ≤ (placeText place ++ ch '/' :: name).length := by
  rw [placeText, if_neg (List.cons_ne_nil _ _), slashed, List.length_append, List.length_append, placeText]
  split
  · rename_i h
    rw [h]
    exact Nat.add_le_add_right (Nat.zero_le 1) _
  · exact Nat.le_refl _

end FileTree

/-! ## A process on a tree -/

/-- A process: the tree it sees, its working directory and how many links a resolution may follow. -/
structure TreeHost where
  tree : FileTree
  cwd : Place
  links : Nat
  inDirectory : tree.entry cwd = some .dir

namespace TreeHost
open FileTree

/-- The place an open of the path is about, for writing with the file made where there is none. -/
def opened (host : TreeHost) (create : Bool) (text : Bytes) : Option Place := host.tree.resolve create host.links host.cwd text

/-- The place a path names, of what exists. -/
def place (host : TreeHost) (text : Bytes) : Option Place := host.opened false text

theorem place_settled {host : TreeHost} {text : Bytes} {p : Place} (h : host.place text = some p) : host.tree.Settled p :=
  resolve_settled (.inl host.inDirectory) h

/-- `realpath` into a buffer of so many octets. -/
def realpath (host : TreeHost) (cap : Nat) (text : Bytes) : Option { s : Bytes // NulFree s } :=
  (host.place text).pmap (fun p hp => ⟨placeText p, placeText_nulFree hp⟩) (fun _ h => (place_settled h).present) |>.filter fun s => s.val.length < cap

theorem realpath_eq {host : TreeHost} {cap : Nat} {text : Bytes} {s : { s : Bytes // NulFree s }} :
    host.realpath cap text = some s ↔ ∃ p, host.place text = some p ∧ s.val = placeText p ∧ (placeText p).length < cap := by
  rw [realpath, Option.filter_eq_some_iff, Option.pmap_eq_some_iff]
  constructor
  · rintro ⟨⟨p, _, hp, rfl⟩, hlen⟩
    exact ⟨p, hp, rfl, of_decide_eq_true hlen⟩
  · rintro ⟨p, hp, hs, hlen⟩
    exact ⟨⟨p, (place_settled hp).present, hp, Subtype.ext hs⟩, decide_eq_true (by rwa [hs])⟩

theorem realpath_none {host : TreeHost} {cap : Nat} {text : Bytes} :
    host.realpath cap text = none ↔ ∀ p, host.place text = some p → cap ≤ (placeText p).length := by
  rw [Option.eq_none_iff_forall_ne_some]
  constructor
  · intro h p hp
    by_contra hlen
    exact h ⟨placeText p, placeText_nulFree (place_settled hp).present⟩ (realpath_eq.mpr ⟨p, hp, rfl, Nat.lt_of_not_le hlen⟩)
  · intro h s hs
    obtain ⟨p, hp, -, hlen⟩ := realpath_eq.mp hs
    exact absurd hlen (Nat.not_lt.mpr (h p hp))

end TreeHost
end Floofclaw.Lib
