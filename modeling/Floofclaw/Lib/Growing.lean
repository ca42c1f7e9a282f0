import Mathlib

/-!
# Reading a growing text

A reader looks at a text before it has arrived in full. It grows with the text:
what it reads from a front of the text is a front of what it reads later, unless
the text turns out broken, and a broken text stays broken. A relay hands on, at
each arrival, what is new in the reading.
-/

set_option autoImplicit false

namespace Floofclaw.Lib

variable {α β : Type}

/-- Readers of a text that arrives in parts; `none` is a broken text. -/
structure Growing (read : List α → Option (List β)) : Prop where
  start : read [] = some []
  grows : ∀ p x u v, read p = some u → read (p ++ x) = some v → u <+: v
  broken : ∀ p x, read p = none → read (p ++ x) = none

/-- What has arrived, and what has been handed on. -/
structure Relay (α β : Type) where
  arrived : List α
  handed : List β

def Relay.take (read : List α → Option (List β)) (r : Relay α β) (chunk : List α) : Relay α β :=
  ⟨r.arrived ++ chunk, r.handed ++ ((read (r.arrived ++ chunk)).getD []).drop r.handed.length⟩

def relay (read : List α → Option (List β)) (chunks : List (List α)) : Relay α β := chunks.foldl (Relay.take read) ⟨[], []⟩

variable {read : List α → Option (List β)}

/-- What was handed on is the reading of some front, and the reading of all that arrived unless that is broken. -/
structure Relay.Sound (read : List α → Option (List β)) (r : Relay α β) : Prop where
  front : ∃ p, p <+: r.arrived ∧ read p = some r.handed
  whole : ∀ v, read r.arrived = some v → r.handed = v

theorem Relay.Sound.init (h : Growing read) : Relay.Sound read ⟨[], []⟩ :=
  ⟨⟨[], List.nil_prefix, h.start⟩, fun _ hv => Option.some.inj (h.start.symm.trans hv)⟩

/-- The reading of more text goes on from what was handed on. -/
theorem Relay.Sound.extends {r : Relay α β} (h : Growing read) (hr : r.Sound read) {x : List α} {v : List β}
    (hv : read (r.arrived ++ x) = some v) : r.handed <+: v := by
  obtain ⟨⟨p, ⟨y, hy⟩, hp⟩, -⟩ := hr
  rw [← hy, List.append_assoc] at hv
  exact h.grows p (y ++ x) _ v hp hv

theorem Relay.take_none (r : Relay α β) {chunk : List α} (h : read (r.arrived ++ chunk) = none) :
    (r.take read chunk).handed = r.handed := by
  rw [Relay.take, h, Option.getD_none, List.drop_nil, List.append_nil]

theorem Relay.Sound.take_some {r : Relay α β} (h : Growing read) (hr : r.Sound read) {chunk : List α} {v : List β}
    (hv : read (r.arrived ++ chunk) = some v) : (r.take read chunk).handed = v := by
  obtain ⟨w, rfl⟩ := hr.extends h hv
  rw [Relay.take, hv, Option.getD_some, List.drop_left]

/-- Nothing new arrives, and nothing is handed on. -/
theorem Relay.Sound.take_nil {r : Relay α β} (h : Growing read) (hr : r.Sound read) : r.take read [] = r := by
  have harrived : (r.take read []).arrived = r.arrived := List.append_nil _
  have hhanded : (r.take read []).handed = r.handed := by
    cases hv : read (r.arrived ++ []) with
    | none => exact r.take_none hv
    | some v =>
      rw [hr.take_some h hv]
      rw [List.append_nil] at hv
      exact (hr.whole v hv).symm
  cases r
  cases hr' : Relay.take read _ []
  rw [hr'] at harrived hhanded
  cases harrived
  cases hhanded
  rfl

theorem Relay.Sound.take {r : Relay α β} (h : Growing read) (hr : r.Sound read) (chunk : List α) : (r.take read chunk).Sound read := by
  cases hv : read (r.arrived ++ chunk) with
  | none =>
    obtain ⟨p, hp, hread⟩ := hr.front
    refine ⟨⟨p, hp.trans (List.prefix_append _ _), ?_⟩, fun v hsome => ?_⟩
    · rw [r.take_none hv]
      exact hread
    · rw [Relay.take, hv] at hsome
      cases hsome
  | some v =>
    have hhanded := hr.take_some h hv
    refine ⟨⟨r.arrived ++ chunk, List.prefix_refl _, hhanded ▸ hv⟩, fun v hsome => ?_⟩
    rw [hhanded]
    exact Option.some.inj (hv.symm.trans hsome)

theorem foldl_arrived (chunks : List (List α)) (r : Relay α β) :
    (chunks.foldl (Relay.take read) r).arrived = r.arrived ++ chunks.flatten := by
  induction chunks generalizing r with
  | nil => simp
  | cons chunk chunks ih =>
    rw [List.foldl_cons, ih, List.flatten_cons, ← List.append_assoc]
    rfl

theorem relay_arrived (chunks : List (List α)) : (relay read chunks).arrived = chunks.flatten := by
  rw [relay, foldl_arrived, List.nil_append]

theorem relay_sound (h : Growing read) (chunks : List (List α)) : (relay read chunks).Sound read := by
  have hfold (r : Relay α β) (hr : r.Sound read) : (chunks.foldl (Relay.take read) r).Sound read := by
    induction chunks generalizing r with
    | nil => exact hr
    | cons chunk chunks ih => exact ih _ (hr.take h chunk)
  exact hfold _ (.init h)

theorem relay_single (t : List α) : (relay read [t]).handed = (read t).getD [] := by
  rw [relay, List.foldl_cons, List.foldl_nil, Relay.take]
  simp

/-- What is handed on does not depend on how the text comes in, just where the text is not broken, or nothing is read
before it breaks. -/
theorem relay_independent_iff (h : Growing read) (t : List α) :
    (∀ chunks : List (List α), chunks.flatten = t → (relay read chunks).handed = (relay read [t]).handed) ↔
      (read t).isSome = true ∨ ∀ p, p <+: t → (read p).getD [] = [] := by
  constructor
  · intro hall
    cases ht : read t with
    | some v => exact .inl rfl
    | none =>
      refine .inr fun p hp => ?_
      obtain ⟨x, rfl⟩ := hp
      have htwo := hall [p, x] (by simp)
      rw [relay_single, ht, Option.getD_none, relay, List.foldl_cons, List.foldl_cons, List.foldl_nil] at htwo
      simpa [Relay.take, ht] using htwo
  · rintro (hsome | hsilent) chunks rfl
    · obtain ⟨v, hv⟩ := Option.isSome_iff_exists.mp hsome
      have hwhole := (relay_sound h chunks).whole v (by rw [relay_arrived]; exact hv)
      rw [hwhole, relay_single, hv, Option.getD_some]
    · obtain ⟨p, hp, hread⟩ := (relay_sound h chunks).front
      rw [relay_arrived] at hp
      have hnothing := hsilent p hp
      rw [hread, Option.getD_some] at hnothing
      rw [hnothing, relay_single, hsilent _ (List.prefix_refl _)]

end Floofclaw.Lib
