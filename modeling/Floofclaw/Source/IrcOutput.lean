import Floofclaw.Lib.Bytes

/-!
# IRC output

Model of the output half of `irc_adapter.c`: a message is sanitized, cut at word
boundaries and appended to the transmit buffer line by line.
-/

set_option autoImplicit false

namespace Floofclaw.Source.IrcOutput
open Floofclaw.Lib

def ircLineMax : Nat := 2048
def ircPrivmsgMaxChars : Nat := 380
def ircTxBuf : Nat := 32768

/-- The octets of the transmit buffer that are in use. -/
structure IrcTx where
  txbuf : Bytes
  bound : txbuf.length ≤ ircTxBuf

/-- `append_tx`; a buffer without room is left as it is. -/
def appendTx (a : IrcTx) (bytes : Bytes) : Bool × IrcTx :=
  if h : (a.txbuf ++ bytes).length ≤ ircTxBuf then (true, ⟨a.txbuf ++ bytes, h⟩) else (false, a)

/-- `send_line`: the line, and then its end. -/
def sendLine (a : IrcTx) (line : Bytes) : Bool × IrcTx :=
  match appendTx a line with
  | (false, a) => (false, a)
  | (true, a) => appendTx a (lit "\r\n")

/-- The line that is formatted for a chunk, before it is clipped. -/
def privmsg (target chunk : Bytes) : Bytes := lit "PRIVMSG " ++ (target ++ (lit " :" ++ chunk))

/-- `send_linef` with the format of a message. -/
def sendPrivmsg (a : IrcTx) (target chunk : Bytes) : Bool × IrcTx := sendLine a (clip ircLineMax (privmsg target chunk))

/-- The octets `sanitize_for_irc` keeps. -/
def isPrintable (c : Byte) : Bool := 32 ≤ c && c ≠ 127

def sanitizeLoop (dstLen : Nat) : Bytes → Bytes → Bytes
  | [], dst => dst
  | c :: s, dst => if dst.length + 1 < dstLen then sanitizeLoop dstLen s (if isPrintable c then dst ++ [c] else dst) else dst

def sanitizeForIrc (dstLen : Nat) (src : Bytes) : Bytes := sanitizeLoop dstLen (cstr src) []

/-- Backwards to a space, down to the first octet. -/
def backToSpace (s : Bytes) : Nat → Nat
  | 0 => 0
  | 1 => 1
  | n + 2 => if s[n + 2]? = some (ch ' ') then n + 2 else backToSpace s (n + 1)

/-- How much of what is left the next line takes. -/
def ircTake (s : Bytes) : Nat :=
  if ircPrivmsgMaxChars < s.length then
    if backToSpace s ircPrivmsgMaxChars = 1 then ircPrivmsgMaxChars else backToSpace s ircPrivmsgMaxChars
  else s.length

def ircSkip (s : Bytes) : Bytes := s.dropWhile (· = ch ' ')

theorem backToSpace_pos (s : Bytes) {n : Nat} (h : 0 < n) : 0 < backToSpace s n ∧ backToSpace s n ≤ n := by
  induction n with
  | zero => exact absurd h (Nat.lt_irrefl 0)
  | succ n ih =>
    cases n with
    | zero => exact ⟨Nat.one_pos, Nat.le_refl 1⟩
    | succ n =>
      rw [backToSpace]
      split
      · exact ⟨Nat.succ_pos _, Nat.le_refl _⟩
      · obtain ⟨hpos, hle⟩ := ih (Nat.succ_pos n)
        exact ⟨hpos, Nat.le_succ_of_le hle⟩

theorem ircTake_bounds {s : Bytes} (h : s ≠ []) : 0 < ircTake s ∧ ircTake s ≤ s.length ∧ ircTake s ≤ ircPrivmsgMaxChars := by
  have hpos := List.length_pos_iff.mpr h
  have hmax : 0 < ircPrivmsgMaxChars := by decide
  have hback := backToSpace_pos s hmax
  unfold ircTake
  split
  · split
    · omega
    · omega
  · omega

/-- The loop of `queue_privmsg`. -/
def privmsgLoop (target : Bytes) (s : Bytes) (a : IrcTx) : Bool × IrcTx :=
  if s = [] then (true, a)
  else
    match sendPrivmsg a target (s.take (min (ircTake s) (ircLineMax - 1))) with
    | (false, a) => (false, a)
    | (true, a) => privmsgLoop target (ircSkip (s.drop (min (ircTake s) (ircLineMax - 1)))) a
termination_by s.length
decreasing_by
  have hbounds := ircTake_bounds ‹¬ s = []›
  have hline : 0 < ircLineMax - 1 := by decide
  have hskip : (ircSkip (s.drop (min (ircTake s) (ircLineMax - 1)))).length ≤ (s.drop (min (ircTake s) (ircLineMax - 1))).length :=
    (List.dropWhile_suffix _).length_le
  rw [List.length_drop] at hskip
  omega

def queuePrivmsg (a : IrcTx) (target text : Bytes) : Bool × IrcTx :=
  if target = [] then (false, a) else privmsgLoop target (sanitizeForIrc (ircLineMax * 4) text) a

end Floofclaw.Source.IrcOutput
