import Floofclaw.Lib.Machine
import Floofclaw.Source.DeliveryTail
import Floofclaw.Source.Outbox

/-!
# Tailing the deliveries

A tailer relays every line once, whole and in order, as long as it only ever
meets whole lines behind its cursor, nothing is appended between its measure and
its read unless it counts what it read, and a rotation finds it at the end of
the file and shows by a smaller size. The invariant is that what was appended
since the start is what was read followed by what is still unread.
-/

set_option autoImplicit false

namespace Floofclaw.Guarantees.DeliveryTails
open Floofclaw.Lib Floofclaw.Source.Json Floofclaw.Source.DeliveryTail
open Floofclaw.Source.Outbox (linesFrom)

/-! ## Lines -/

theorem linesFrom_line {line l : Bytes} (h : ch '\n' ∉ l) (text : Bytes) :
    linesFrom line (l ++ ch '\n' :: text) = (line ++ l) :: linesFrom [] text := by
  induction l generalizing line with
  | nil => simp [linesFrom]
  | cons c l ih =>
    have hc : ¬ c = ch '\n' := fun hc => h (hc ▸ List.mem_cons_self)
    rw [List.cons_append, linesFrom, if_neg hc, ih fun hm => h (List.mem_cons_of_mem _ hm)]
    simp

theorem linesFrom_unlines {ls : List Bytes} (h : ∀ l ∈ ls, ch '\n' ∉ l) (text : Bytes) :
    linesFrom [] (unlines ls ++ text) = ls ++ linesFrom [] text := by
  induction ls with
  | nil => rfl
  | cons l ls ih =>
    have hrest := ih fun m hm => h m (List.mem_cons_of_mem _ hm)
    rw [unlines_cons, List.append_assoc, List.cons_append, linesFrom_line (h l List.mem_cons_self), hrest]
    simp

/-! ## Pieces -/

section Pieces
variable (hand : Bytes → Option Delivery)

theorem takeRoom_prefix (room : Nat) (pieces : List Bytes) : takeRoom hand room pieces <+: pieces := by
  induction pieces generalizing room with
  | nil => exact List.prefix_refl _
  | cons piece pieces ih =>
    unfold takeRoom
    split
    · split
      · exact List.nil_prefix
      · exact List.cons_prefix_cons.mpr ⟨rfl, ih _⟩
    · exact List.cons_prefix_cons.mpr ⟨rfl, ih _⟩

theorem takeRoom_hands (room : Nat) (pieces : List Bytes) :
    (takeRoom hand room pieces).filterMap hand = (pieces.filterMap hand).take room := by
  induction pieces generalizing room with
  | nil => simp [takeRoom]
  | cons piece pieces ih =>
    unfold takeRoom
    cases hpiece : hand piece with
    | none => simp [hpiece, ih]
    | some d =>
      cases room with
      | zero => simp
      | succ room => simp [hpiece, ih]

theorem takeFirst_prefix (pieces : List Bytes) : takeFirst hand pieces <+: pieces := by
  induction pieces with
  | nil => exact List.prefix_refl _
  | cons piece pieces ih =>
    rw [takeFirst]
    split
    · exact List.cons_prefix_cons.mpr ⟨rfl, List.nil_prefix⟩
    · exact List.cons_prefix_cons.mpr ⟨rfl, ih⟩

theorem takeFirst_hands (pieces : List Bytes) : (takeFirst hand pieces).filterMap hand = (pieces.filterMap hand).take 1 := by
  induction pieces with
  | nil => rfl
  | cons piece pieces ih =>
    rw [takeFirst]
    cases hpiece : hand piece with
    | none => simp [hpiece, ih]
    | some d => simp [hpiece]

end Pieces

/-- How many of `pending` messages one read relays. -/
def quota (t : Tailer) (room pending : Nat) : Nat :=
  match t with
  | .discord => room
  | .cli => 1
  | _ => pending

theorem taken_prefix (t : Tailer) (a : Address) (room : Nat) (pieces : List Bytes) : taken t a room pieces <+: pieces := by
  cases t
  case discord => exact takeRoom_prefix _ room pieces
  case cli => exact takeFirst_prefix _ pieces
  all_goals exact List.prefix_refl _

theorem taken_hands (t : Tailer) (a : Address) (room : Nat) (pieces : List Bytes) :
    (taken t a room pieces).filterMap (handed t a) =
      (pieces.filterMap (handed t a)).take (quota t room (pieces.filterMap (handed t a)).length) := by
  cases t
  case discord => exact takeRoom_hands _ room pieces
  case cli => exact takeFirst_hands _ pieces
  all_goals exact (List.take_length).symm

/-! ## What was appended -/

/-- The tailer with what it ought to relay: everything appended since it started, and whether the file it knew has been
rotated away since it last looked. -/
structure Watch where
  s : State
  stream : Bytes
  rotated : Bool
  deriving DecidableEq

def start (log : Option Bytes) : Watch := ⟨⟨log, none, none, []⟩, [], false⟩

def watchStep (t : Tailer) (a : Address) (w : Watch) (i : Step) : Option Watch :=
  (step t a w.s i).map fun s =>
    { s, stream := match i with
        | .append text => if w.s.cursor.isSome then w.stream ++ text else w.stream
        | _ => w.stream
      rotated := match i with
        | .rotate => w.s.cursor.isSome
        | .measure => w.rotated && w.s.log.isNone
        | _ => w.rotated }

/-- The messages for this tailer in the complete lines appended since its start. -/
def expected (t : Tailer) (a : Address) (w : Watch) : List Delivery :=
  (linesFrom [] w.stream).filterMap fun l => handed t a (l ++ [ch '\n'])

/-- What the tailer has yet to read. -/
def unread (w : Watch) : Bytes :=
  if w.rotated then w.s.log.getD [] else (w.s.log.getD []).drop (w.s.cursor.getD 0)

/-- Whole lines, each of which fits the buffer of a read. -/
def WholeLines (text : Bytes) : Prop := ∃ ls, text = unlines ls ∧ ∀ l ∈ ls, FitsLine rtXl l

/-- A step at which the tailer keeps its place. -/
def Steady (t : Tailer) (w : Watch) : Step → Prop
  | .append _ => True
  | .rotate => w.s.cursor = none ∨ (t ≠ .cli ∧ w.s.measured = none ∧ unread w = [])
  | .measure =>
    match w.s.cursor with
    | none => ∀ text, w.s.log = some text → text = [] ∨ text.getLast? = some (ch '\n')
    | some cursor => w.rotated = true → ∀ text, w.s.log = some text → text.length < cursor
  | .read _ _ => WholeLines (unread w) ∧
      (t = .discord ∨ t = .cli ∨ w.s.measured = some (w.s.log.getD []).length)

/-- What the runs keep: the lines read so far were relayed, and with what is unread they make up the stream. -/
structure Inv (t : Tailer) (a : Address) (w : Watch) : Prop where
  fresh : w.s.cursor = none → w.stream = [] ∧ w.s.relayed = [] ∧ w.s.measured = none ∧ w.rotated = false
  place : ∀ cursor, w.s.cursor = some cursor → ∃ ls, w.stream = unlines ls ++ unread w ∧ (∀ l ∈ ls, ch '\n' ∉ l) ∧
    w.s.relayed = ls.filterMap fun l => handed t a (l ++ [ch '\n'])
  behind : ∀ cursor, w.s.cursor = some cursor → w.rotated = false → cursor ≤ (w.s.log.getD []).length
  busy : w.s.measured.isSome = true → w.rotated = false
  waiting : t = .cli → w.rotated = false

theorem start_inv (t : Tailer) (a : Address) (log : Option Bytes) : Inv t a (start log) :=
  { fresh := fun _ => ⟨rfl, rfl, rfl, rfl⟩, place := nofun, behind := nofun, busy := nofun, waiting := fun _ => rfl }

section Step
variable {t : Tailer} {a : Address} {w w' : Watch}

theorem append_inv {text : Bytes} (h : Inv t a w) (hstep : watchStep t a w (.append text) = some w') : Inv t a w' := by
  simp only [watchStep, step, Option.map_some, Option.some.injEq] at hstep
  subst hstep
  refine ⟨?_, ?_, ?_, h.busy, h.waiting⟩
  · intro hnone
    obtain ⟨h1, h2, h3, h4⟩ := h.fresh hnone
    exact ⟨by simp [show w.s.cursor = none from hnone, h1], h2, h3, h4⟩
  · intro cursor hc
    have hcursor : w.s.cursor = some cursor := hc
    obtain ⟨ls, hstream, hls, hrelayed⟩ := h.place cursor hcursor
    refine ⟨ls, ?_, hls, hrelayed⟩
    have hbehind := h.behind cursor hcursor
    simp only [hcursor, Option.isSome_some, if_true, hstream, unread, Option.getD_some, List.append_assoc]
    congr 1
    split
    · rfl
    · rename_i hrot
      rw [List.drop_append_of_le_length (hbehind (by simpa using hrot))]
  · intro cursor hc hrot
    have hbehind := h.behind cursor hc hrot
    simp only [Option.getD_some, List.length_append]
    omega

theorem rotate_inv (h : Inv t a w) (hok : Steady t w .rotate) (hstep : watchStep t a w .rotate = some w') : Inv t a w' := by
  simp only [watchStep, step, Option.map_map, Option.map_eq_some_iff] at hstep
  obtain ⟨text, htext, rfl⟩ := hstep
  simp only [Function.comp_apply]
  rcases hok with hnone | ⟨hcli, hidle, hread⟩
  · obtain ⟨h1, h2, h3, h4⟩ := h.fresh hnone
    refine ⟨fun _ => ⟨h1, h2, h3, by simp [hnone]⟩, ?_, ?_, ?_, ?_⟩
    · intro cursor hc
      exact absurd (hnone.symm.trans hc) (by simp)
    · intro cursor hc
      exact absurd (hnone.symm.trans hc) (by simp)
    · intro _
      simp [hnone]
    · intro _
      simp [hnone]
  · refine ⟨?_, ?_, ?_, ?_, fun h => absurd h hcli⟩
    · intro hnone
      obtain ⟨h1, h2, h3, -⟩ := h.fresh hnone
      exact ⟨h1, h2, h3, by simp [show w.s.cursor = none from hnone]⟩
    · intro cursor hc
      have hcursor : w.s.cursor = some cursor := hc
      obtain ⟨ls, hstream, hls, hrelayed⟩ := h.place cursor hcursor
      refine ⟨ls, ?_, hls, hrelayed⟩
      rw [hread] at hstream
      simp [hstream, unread, hcursor]
    · intro cursor hc hrot
      simp [show w.s.cursor = some cursor from hc] at hrot
    · intro hbusy
      simp [hidle] at hbusy

/-- Where a measure of a tailer that has started leaves it: at its place in the file that is there. -/
theorem measure_place (h : Inv t a w) (hok : Steady t w .measure) {cursor : Nat} {text : Bytes}
    (hcursor : w.s.cursor = some cursor) (hlog : w.s.log = some text) :
    (if text.length < cursor then 0 else cursor) ≤ text.length ∧
      text.drop (if text.length < cursor then 0 else cursor) = unread w := by
  simp only [Steady, hcursor] at hok
  cases hrot : w.rotated with
  | true =>
    have hsmaller := hok hrot text hlog
    simp [hsmaller, unread, hrot, hlog]
  | false =>
    have hbehind := h.behind cursor hcursor hrot
    rw [hlog, Option.getD_some] at hbehind
    rw [if_neg (by omega)]
    exact ⟨hbehind, by simp [unread, hrot, hlog, hcursor]⟩

theorem measure_inv (h : Inv t a w) (hok : Steady t w .measure) (hstep : watchStep t a w .measure = some w') : Inv t a w' := by
  obtain ⟨s, hmeasure, rfl⟩ := Option.map_eq_some_iff.mp hstep
  simp only [step, tickMeasure] at hmeasure
  dsimp only
  cases hcursor : w.s.cursor with
  | none =>
    obtain ⟨h1, h2, h3, h4⟩ := h.fresh hcursor
    simp only [hcursor, Option.some.injEq] at hmeasure
    subst hmeasure
    refine ⟨nofun, ?_, ?_, ?_, ?_⟩
    · intro cursor hc
      refine ⟨[], ?_, nofun, h2⟩
      cases hlog : w.s.log <;> simp [unread, h1, h4]
    · rintro cursor ⟨⟩ -
      cases hlog : w.s.log <;> simp
    · intro _
      simp [h4]
    · intro _
      simp [h4]
  | some cursor =>
    simp only [hcursor] at hmeasure
    split at hmeasure
    · cases hmeasure
    rename_i hfree
    rw [not_or] at hfree
    cases hlog : w.s.log with
    | none =>
      simp only [hlog, Option.some.injEq] at hmeasure
      subst hmeasure
      simpa using h
    | some text =>
      obtain ⟨hle, hdrop⟩ := measure_place h hok hcursor hlog
      simp only [hlog, Option.some.injEq] at hmeasure
      obtain ⟨ls, hstream, hls, hrelayed⟩ := h.place cursor hcursor
      generalize (if text.length < cursor then 0 else cursor) = place at hle hdrop hmeasure
      subst hmeasure
      refine ⟨nofun, ?_, ?_, ?_, ?_⟩
      · rintro _ ⟨⟩
        exact ⟨ls, by simp [hstream, unread, hlog, hdrop], hls, hrelayed⟩
      · rintro _ ⟨⟩ -
        simpa [hlog] using hle
      · intro _
        simp
      · intro _
        simp

/-- What a read of the open file takes and leaves. -/
theorem read_takes {room : Nat} (h : Inv t a w) (hok : Steady t w (.read true room)) {text : Bytes} (hlog : w.s.log = some text)
    (hstep : watchStep t a w (.read true room) = some w') :
    ∃ ls read left, w.stream = unlines (ls ++ read ++ left) ∧ (∀ l ∈ ls ++ read ++ left, ch '\n' ∉ l) ∧
      w.s.relayed = ls.filterMap (fun l => handed t a (l ++ [ch '\n'])) ∧
      w'.s.relayed = (ls ++ read).filterMap (fun l => handed t a (l ++ [ch '\n'])) ∧
      read.filterMap (fun l => handed t a (l ++ [ch '\n'])) =
        ((read ++ left).filterMap fun l => handed t a (l ++ [ch '\n'])).take
          (quota t room ((read ++ left).filterMap fun l => handed t a (l ++ [ch '\n'])).length) ∧
      w'.stream = w.stream ∧ w'.rotated = false ∧ w'.s.log = some text ∧ w'.s.measured = none ∧
      ∃ cursor, w'.s.cursor = some cursor ∧ cursor ≤ text.length ∧ text.drop cursor = unlines left := by
  obtain ⟨s, hread, rfl⟩ := Option.map_eq_some_iff.mp hstep
  simp only [step, tickRead] at hread
  cases hcursor : w.s.cursor with
  | none => simp [hcursor] at hread
  | some cursor =>
    simp only [hcursor, if_true, hlog] at hread
    split at hread
    · cases hread
    rename_i htick
    rw [not_and_or, not_not] at htick
    obtain ⟨⟨lines, hlines, hfits⟩, hplace⟩ := hok
    obtain ⟨ls, hstream, hls, hrelayed⟩ := h.place cursor hcursor
    have hrot : w.rotated = false := by
      rcases htick with hcli | hbusy
      · exact h.waiting hcli
      · exact h.busy (Option.isSome_iff_ne_none.mpr hbusy)
    have hbehind := h.behind cursor hcursor hrot
    rw [hlog, Option.getD_some] at hbehind hplace
    have hdrop : text.drop cursor = unlines lines := by
      rw [← hlines]
      simp [unread, hrot, hlog, hcursor]
    rw [hdrop, fgetsLines_unlines hfits] at hread
    have hhands := taken_hands t a room (lines.map (· ++ [ch '\n']))
    obtain ⟨rest, hrest⟩ := taken_prefix t a room (lines.map (· ++ [ch '\n']))
    obtain ⟨read, left, hsplit, hpieces, -⟩ := List.map_eq_append_iff.mp hrest.symm
    subst hsplit
    rw [← hpieces] at hhands hread
    simp only [List.filterMap_map] at hhands hread
    rw [Option.some.injEq] at hread
    subst hread
    refine ⟨ls, read, left, ?_, ?_, hrelayed, ?_, hhands, rfl, hrot, rfl, rfl, ?_⟩
    · rw [hstream, hlines, List.append_assoc, unlines_append ls]
    · intro l hl
      rw [List.append_assoc] at hl
      rcases List.mem_append.mp hl with hl | hl
      · exact hls l hl
      · exact (hfits l hl).1
    · rw [List.filterMap_append, hrelayed]
      rfl
    · have hlen : cursor + (unlines (read ++ left)).length = text.length := by
        rw [← hdrop, List.length_drop]
        omega
      have hafter : cursor + (unlines read).length ≤ text.length ∧
          text.drop (cursor + (unlines read).length) = unlines left := by
        rw [← List.drop_drop, hdrop, unlines_append, List.drop_left]
        rw [unlines_append, List.length_append] at hlen
        exact ⟨by omega, rfl⟩
      -- the plain tailers read to the end, and go on from the size they measured
      have hplain : t ≠ .discord → t ≠ .cli →
          w.s.measured.getD cursor ≤ text.length ∧ text.drop (w.s.measured.getD cursor) = unlines left := by
        intro hd hc
        have hall : taken t a room ((read ++ left).map (· ++ [ch '\n'])) = (read ++ left).map (· ++ [ch '\n']) := by
          cases t
          case discord => exact absurd rfl hd
          case cli => exact absurd rfl hc
          all_goals rfl
        have hnone : left = [] := by
          have hlens := congrArg List.length (hpieces.trans hall)
          simp only [List.length_map, List.length_append] at hlens
          exact List.eq_nil_of_length_eq_zero (by omega)
        have hsize : w.s.measured = some text.length := (hplace.resolve_left hd).resolve_left hc
        simp [hsize, hnone]
      cases t
      case discord => exact ⟨_, rfl, hafter⟩
      case cli => exact ⟨_, rfl, hafter⟩
      all_goals exact ⟨_, rfl, hplain nofun nofun⟩

theorem read_inv {opens : Bool} {room : Nat} (h : Inv t a w) (hok : Steady t w (.read opens room))
    (hstep : watchStep t a w (.read opens room) = some w') : Inv t a w' := by
  have hopen : (opens = true ∧ ∃ text, w.s.log = some text) ∨ (if opens then w.s.log else none) = none := by
    cases opens with
    | false => exact .inr rfl
    | true =>
      cases hlog : w.s.log with
      | none => exact .inr rfl
      | some text => exact .inl ⟨rfl, text, rfl⟩
  rcases hopen with ⟨rfl, text, hlog⟩ | hclosed
  · obtain ⟨ls, read, left, hstream, hls, -, hrelayed, -, hstream', hrot, hlog', hmeasured, cursor, hcursor, hle, hdrop⟩ :=
      read_takes h hok hlog hstep
    refine ⟨fun hnone => absurd (hnone.symm.trans hcursor) (by simp), ?_, ?_, ?_, fun _ => hrot⟩
    · intro c hc
      rw [hcursor, Option.some.injEq] at hc
      subst hc
      refine ⟨ls ++ read, ?_, fun l hl => hls l (List.mem_append_left _ hl), hrelayed⟩
      rw [hstream', hstream, unlines_append]
      simp [unread, hrot, hlog', hcursor, hdrop]
    · intro c hc _
      rw [hcursor, Option.some.injEq] at hc
      subst hc
      rw [hlog', Option.getD_some]
      exact hle
    · intro hbusy
      simp [hmeasured] at hbusy
  · obtain ⟨s, hread, rfl⟩ := Option.map_eq_some_iff.mp hstep
    simp only [step, tickRead, hclosed] at hread
    split at hread
    · cases hread
    split at hread
    · cases hread
    cases hread
    refine ⟨fun hnone => ?_, h.place, h.behind, nofun, h.waiting⟩
    obtain ⟨h1, h2, -, h4⟩ := h.fresh hnone
    exact ⟨h1, h2, rfl, h4⟩

theorem step_inv (w : Watch) (i : Step) (w' : Watch) (h : Inv t a w) (hok : Steady t w i) (hstep : watchStep t a w i = some w') :
    Inv t a w' := by
  cases i with
  | append text => exact append_inv h hstep
  | rotate => exact rotate_inv h hok hstep
  | measure => exact measure_inv h hok hstep
  | read opens room => exact read_inv h hok hstep

/-- The stream of a tailer that has started, in the messages it stands for. -/
theorem Inv.expected_eq (h : Inv t a w) {cursor : Nat} (hcursor : w.s.cursor = some cursor) :
    expected t a w = w.s.relayed ++ (linesFrom [] (unread w)).filterMap fun l => handed t a (l ++ [ch '\n']) := by
  obtain ⟨ls, hstream, hls, hrelayed⟩ := h.place cursor hcursor
  rw [expected, hstream, linesFrom_unlines hls, List.filterMap_append, hrelayed]

theorem Inv.relayed_prefix (h : Inv t a w) : w.s.relayed <+: expected t a w := by
  cases hcursor : w.s.cursor with
  | none =>
    rw [(h.fresh hcursor).2.1]
    exact List.nil_prefix
  | some cursor =>
    rw [h.expected_eq hcursor]
    exact List.prefix_append _ _

/-- A read of the open file relays the next messages, as many as the tailer takes at once. -/
theorem read_relays {room : Nat} (h : Inv t a w) (hok : Steady t w (.read true room)) (hlog : w.s.log ≠ none)
    (hstep : watchStep t a w (.read true room) = some w') :
    w'.s.relayed = (expected t a w').take (w.s.relayed.length + quota t room (expected t a w').length) := by
  obtain ⟨text, hlog⟩ := Option.ne_none_iff_exists'.mp hlog
  obtain ⟨ls, read, left, hstream, hls, hbefore, hafter, hread, hstream', -⟩ := read_takes h hok hlog hstep
  have hexpected : expected t a w' = w.s.relayed ++ (read ++ left).filterMap fun l => handed t a (l ++ [ch '\n']) := by
    have hsplit := linesFrom_unlines hls []
    rw [List.append_nil] at hsplit
    rw [expected, hstream', hstream, hsplit, hbefore]
    simp [linesFrom]
  rw [hexpected, List.take_length_add_append, hafter, List.filterMap_append, ← hbefore, hread]
  congr 1
  cases t
  case discord => rfl
  case cli => rfl
  all_goals
    simp only [quota, List.length_append]
    rw [List.take_length, List.take_of_length_le (by omega)]

/-- A tick that ends with its measure has nothing left to relay. -/
theorem measure_relays (h : Inv t a w) (hok : Steady t w .measure) (hstarted : w.s.cursor ≠ none)
    (hstep : watchStep t a w .measure = some w') (hends : w'.s.measured = none) : w'.s.relayed = expected t a w' := by
  have hinv := measure_inv h hok hstep
  obtain ⟨cursor, hcursor⟩ := Option.ne_none_iff_exists'.mp hstarted
  obtain ⟨s, hmeasure, rfl⟩ := Option.map_eq_some_iff.mp hstep
  simp only [step, tickMeasure, hcursor] at hmeasure
  split at hmeasure
  · cases hmeasure
  obtain hlog | ⟨text, hlog⟩ := Option.eq_none_or_eq_some w.s.log
  · simp only [hlog, Option.some.injEq] at hmeasure
    subst hmeasure
    rw [hinv.expected_eq hcursor]
    simp [unread, hlog, linesFrom]
  · obtain ⟨hle, hdrop⟩ := measure_place h hok hcursor hlog
    simp only [hlog, Option.some.injEq] at hmeasure
    generalize (if text.length < cursor then 0 else cursor) = place at hle hdrop hmeasure
    subst hmeasure
    have hall : text.length ≤ place := by
      by_contra hmore
      simp [hmore] at hends
    rw [hinv.expected_eq rfl]
    simp [unread, hlog, List.drop_of_length_le hall, linesFrom]

end Step

/-- In every run of steady steps the messages relayed are the first of those expected, each once and in their order; a
read relays the next ones, and a tick that finds nothing to read has relayed all. -/
theorem tails_exactly_once {t : Tailer} {a : Address} {log : Option Bytes} {is : List Step} {w : Watch}
    (hrun : Run (watchStep t a) (Steady t) (start log) is w) :
    w.s.relayed <+: expected t a w ∧
      (∀ room w', Steady t w (.read true room) → w.s.log ≠ none → watchStep t a w (.read true room) = some w' →
        w'.s.relayed = (expected t a w').take (w.s.relayed.length + quota t room (expected t a w').length)) ∧
      ∀ w', Steady t w .measure → w.s.cursor ≠ none → watchStep t a w .measure = some w' → w'.s.measured = none →
        w'.s.relayed = expected t a w' := by
  have hinv : Inv t a w := hrun.invariant (start_inv t a log) step_inv
  exact ⟨hinv.relayed_prefix, fun _ _ hok hlog hstep => read_relays hinv hok hlog hstep,
    fun _ hok hstarted hstep hends => measure_relays hinv hok hstarted hstep hends⟩

/-- A bot and two messages for it. -/
def bot : Address := ⟨lit "tg", none, [], []⟩

def message (text : String) : Bytes :=
  lit "\x7b\"delivery\":\x7b\"channel\":\"telegram\",\"adapter_id\":\"tg\",\"text\":\"" ++ lit text ++
    lit "\",\"ref\":\x7b\"chat_id\":\"7\"\x7d\x7d\x7d"

def waiting (log : Bytes) : Watch := ⟨⟨some log, some 0, none, []⟩, log, false⟩

theorem telegram_relays : ∃ w, Run (watchStep .telegram bot) (Steady .telegram) (start none)
    [.measure, .append (unlines [message "hi"]), .measure, .read true 0] w ∧
      w.s.relayed = [⟨lit "7", lit "hi"⟩] ∧ w.s.relayed <+: expected .telegram bot w := by
  have hfits : FitsLine rtXl (message "hi") := by
    unfold message
    repeat rw [lit_ofList]
    exact ⟨by decide +kernel, by decide +kernel⟩
  have hrun : Run (watchStep .telegram bot) (Steady .telegram) (start none)
      [.measure, .append (unlines [message "hi"]), .measure, .read true 0]
      ⟨⟨some (unlines [message "hi"]), some (unlines [message "hi"]).length, none, [⟨lit "7", lit "hi"⟩]⟩,
        unlines [message "hi"], false⟩ := by
    refine .cons nofun (by decide +kernel : watchStep .telegram bot (start none) .measure = some ⟨⟨none, some 0, none, []⟩, [], false⟩) ?_
    refine .cons trivial (by decide +kernel : watchStep .telegram bot ⟨⟨none, some 0, none, []⟩, [], false⟩
      (.append (unlines [message "hi"])) = some (waiting (unlines [message "hi"]))) ?_
    refine .cons nofun (by decide +kernel : watchStep .telegram bot (waiting (unlines [message "hi"])) .measure =
      some ⟨⟨some (unlines [message "hi"]), some 0, some (unlines [message "hi"]).length, []⟩, unlines [message "hi"], false⟩) ?_
    refine .cons ⟨⟨[message "hi"], rfl, ?_⟩, .inr (.inr rfl)⟩ (by decide +kernel) .nil
    intro l hl
    exact List.mem_singleton.mp hl ▸ hfits
  exact ⟨_, hrun, rfl, (tails_exactly_once hrun).1⟩

/-- The second message arrives between the measure and the read of a tick: it is read in this tick, and from the measured
size on in the next. -/
theorem telegram_repeats : ∃ w, exec (watchStep .telegram bot) (start none)
    [.measure, .append (unlines [message "a"]), .measure, .append (unlines [message "b"]), .read true 0, .measure,
      .read true 0] = some w ∧ ¬ w.s.relayed <+: expected .telegram bot w := by
  have hrun : (exec (watchStep .telegram bot) (start none) [.measure, .append (unlines [message "a"]), .measure,
      .append (unlines [message "b"]), .read true 0, .measure, .read true 0]).map
        (fun w => (w.s.relayed, expected .telegram bot w)) =
      some ([⟨lit "7", lit "a"⟩, ⟨lit "7", lit "b"⟩, ⟨lit "7", lit "b"⟩], [⟨lit "7", lit "a"⟩, ⟨lit "7", lit "b"⟩]) := by
    unfold message
    repeat rw [lit_ofList]
    decide +kernel
  obtain ⟨w, hw, hlists⟩ := Option.map_eq_some_iff.mp hrun
  obtain ⟨hrelayed, hexpected⟩ := Prod.mk.inj hlists
  refine ⟨w, hw, ?_⟩
  rw [hrelayed, hexpected]
  decide

end Floofclaw.Guarantees.DeliveryTails
