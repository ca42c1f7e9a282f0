import Mathlib.Data.List.Induction
import Floofclaw.Lib.Bytes

/-!
# Masked frames

A WebSocket client's frame is whole in itself: a head octet with the final bit
and the opcode, the payload's length in one of three forms, four octets of mask
and the masked payload.
-/

set_option autoImplicit false

namespace Floofclaw.Lib

/-- The number some octets write, the most significant one first. -/
def readBE (s : Bytes) : Nat := s.foldl (fun n b => n * 256 + b.toNat) 0

/-- A number's last octets, the most significant one first. -/
def beOctets : Nat → Nat → Bytes
  | 0, _ => []
  | w + 1, n => beOctets w (n / 256) ++ [UInt8.ofNat (n % 256)]

theorem readBE_snoc (s : Bytes) (b : Byte) : readBE (s ++ [b]) = readBE s * 256 + b.toNat := by
  rw [readBE, List.foldl_append]
  rfl

@[simp] theorem beOctets_length (w n : Nat) : (beOctets w n).length = w := by
  induction w generalizing n with
  | zero => rfl
  | succ w ih => rw [beOctets, List.length_append, ih, List.length_singleton]

theorem readBE_lt (s : Bytes) : readBE s < 256 ^ s.length := by
  induction s using List.reverseRecOn with
  | nil => exact Nat.one_pos
  | append_singleton s b ih =>
    have hb := b.toNat_lt
    rw [readBE_snoc, List.length_append, List.length_singleton, Nat.pow_succ]
    omega

theorem readBE_beOctets {w n : Nat} (h : n < 256 ^ w) : readBE (beOctets w n) = n := by
  induction w generalizing n with
  | zero =>
    rw [Nat.pow_zero, Nat.lt_one_iff] at h
    rw [h]
    rfl
  | succ w ih =>
    have hdiv : n / 256 < 256 ^ w := by
      rw [Nat.div_lt_iff_lt_mul (by omega), ← Nat.pow_succ]
      exact h
    have hlast : (UInt8.ofNat (n % 256)).toNat = n % 256 := UInt8.toNat_ofNat_of_lt' (Nat.mod_lt n (by decide))
    rw [beOctets, readBE_snoc, ih hdiv, hlast]
    omega

theorem beOctets_readBE (s : Bytes) : beOctets s.length (readBE s) = s := by
  induction s using List.reverseRecOn with
  | nil => rfl
  | append_singleton s b ih =>
    have hb := b.toNat_lt
    have hdiv : (readBE s * 256 + b.toNat) / 256 = readBE s := by omega
    have hmod : (readBE s * 256 + b.toNat) % 256 = b.toNat := by omega
    rw [readBE_snoc, List.length_append, List.length_singleton, beOctets, hdiv, hmod, ih, UInt8.ofNat_toNat]

/-- A payload under a mask that is repeated along it. -/
def xorMask (mask payload : Bytes) : Bytes := payload.mapIdx fun i b => b ^^^ mask.getD (i % 4) 0

@[simp] theorem xorMask_length (mask payload : Bytes) : (xorMask mask payload).length = payload.length := List.length_mapIdx

theorem xorMask_snoc (mask payload : Bytes) (b : Byte) :
    xorMask mask (payload ++ [b]) = xorMask mask payload ++ [b ^^^ mask.getD (payload.length % 4) 0] := List.mapIdx_concat

/-- Masking twice gives the payload back. -/
theorem xorMask_twice (mask payload : Bytes) : xorMask mask (xorMask mask payload) = payload := by
  induction payload using List.reverseRecOn with
  | nil => rfl
  | append_singleton payload b ih =>
    rw [xorMask_snoc, xorMask_snoc, xorMask_length, ih, UInt8.xor_assoc, UInt8.xor_self, UInt8.xor_zero]

/-- The three ways to write a payload's length. -/
inductive LengthForm
  | short | medium | long
deriving DecidableEq

/-- How many octets the form adds behind the second one. -/
def LengthForm.width : LengthForm → Nat
  | .short => 0
  | .medium => 2
  | .long => 8

/-- What the second octet holds below the mask bit. -/
def LengthForm.mark (n : Nat) : LengthForm → Nat
  | .short => n
  | .medium => 126
  | .long => 127

/-- The form can write the length. -/
def LengthForm.Holds (n : Nat) : LengthForm → Prop
  | .short => n < 126
  | .medium => n < 65536
  | .long => n < 2 ^ 64

theorem LengthForm.Holds.mark_lt {n : Nat} {form : LengthForm} (h : form.Holds n) : form.mark n < 128 := by
  cases form with
  | short => exact Nat.lt_trans h (by decide)
  | medium => exact (by decide : 126 < 128)
  | long => exact (by decide : 127 < 128)

theorem LengthForm.Holds.readBE {n : Nat} {form : LengthForm} (h : form.Holds n) (hlong : form ≠ .short) :
    readBE (beOctets form.width n) = n := by
  cases form with
  | short => exact absurd rfl hlong
  | medium => exact readBE_beOctets h
  | long => exact readBE_beOctets h

/-- A frame as a client means it. -/
structure MaskedFrame where
  opcode : Nat
  mask : Bytes
  payload : Bytes
  form : LengthForm
  opcode_lt : opcode < 16
  mask_length : mask.length = 4
  holds : form.Holds payload.length

/-- The octets a client sends for a frame. -/
def MaskedFrame.encode (f : MaskedFrame) : Bytes :=
  UInt8.ofNat (128 + f.opcode) :: UInt8.ofNat (128 + f.form.mark f.payload.length) ::
    (beOctets f.form.width f.payload.length ++ (f.mask ++ xorMask f.mask f.payload))

theorem MaskedFrame.encode_length (f : MaskedFrame) : f.encode.length = 6 + f.form.width + f.payload.length := by
  have hmask := f.mask_length
  simp only [MaskedFrame.encode, List.length_cons, List.length_append, beOctets_length, xorMask_length]
  omega

end Floofclaw.Lib
