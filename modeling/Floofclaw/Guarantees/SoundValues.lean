import Floofclaw.Guarantees.FirstLine
import Floofclaw.Lib.JsonGrammar

/-!
# Values both readers take

A text that derives from the RFC's grammar and that the reader of the repository
takes whole, by the way it was put together, and the places in it.
-/

set_option autoImplicit false

namespace Floofclaw.Guarantees.SoundValues
open Floofclaw.Lib Floofclaw.Source.Json
open Floofclaw.Guarantees.FirstEvent (PlainText)

/-! ## Sound values -/

/-- A value that both the RFC and the reader of the repository take. -/
structure Sound (v : Bytes) : Prop where
  clean : CleanValue v
  json : Dialect.rfc8259.Derives .value v

def SoundMembers (ms : List (Bytes × Bytes)) : Prop := ∀ m ∈ ms, plainKey m.1 = true ∧ Sound m.2

theorem SoundMembers.nil : SoundMembers [] := by simp [SoundMembers]

theorem SoundMembers.cons {k v : Bytes} {ms : List (Bytes × Bytes)} (hk : plainKey k = true) (hv : Sound v) (h : SoundMembers ms) :
    SoundMembers ((k, v) :: ms) := List.forall_mem_cons.mpr ⟨⟨hk, hv⟩, h⟩

theorem SoundMembers.written {ms : List (Bytes × Bytes)} (h : SoundMembers ms) : WrittenMembers ms :=
  fun m hm => ⟨(h m hm).1, (h m hm).2.clean⟩

theorem Sound.text (s : Bytes) : Sound (quoted (escaped s)) := ⟨.text s, .string (escaped_strBody s)⟩

theorem decInt_derives (z : Int) : Dialect.rfc8259.Derives .value (decInt z) := by
  cases z with
  | ofNat n => exact .decNat n
  | negSucc n =>
    have h : Dialect.rfc8259.Number ([ch '-'] ++ (decNat (n + 1) ++ ([] ++ []))) :=
      .mk (.inr rfl) (Dialect.intPart_decFuel (Nat.lt_succ_self (n + 1))).1 .none .none
    rw [List.append_nil, List.append_nil] at h
    exact .number h

theorem Sound.int (z : Int) : Sound (decInt z) := ⟨.long z, decInt_derives z⟩

theorem Sound.obj {ms : List (Bytes × Bytes)} (h : SoundMembers ms) : Sound (objText ms) :=
  ⟨.objText h.written, .objText fun m hm => ⟨plainKey_strBody (h m hm).1, (h m hm).2.json⟩⟩

theorem Sound.arr {xs : List Bytes} (h : ∀ x ∈ xs, Sound x) : Sound (arrText xs) :=
  ⟨.arrText fun x hx => (h x hx).clean, .arrText fun x hx => (h x hx).json⟩

end Floofclaw.Guarantees.SoundValues
