import Floofclaw.Lib.Bytes

/-!
# Frames on a stream

A sender writes one frame behind the other, a receiver appends what arrives to
a buffer and takes frames off its front until it has to wait. A decoder that
hands out a whole frame and waits on the front of one makes the same of a stream
however it is cut.
-/

set_option autoImplicit false

namespace Floofclaw.Lib

variable {ι β κ : Type}

/-- What a decoder answers over its buffer. -/
inductive Pull (ι β : Type)
  | more | refused
  | item (x : ι) (rest : β)

structure Receiver (ι β : Type) where
  bytes : β → Bytes
  append : β → Bytes → Option β
  pull : β → Pull ι β

/-- How a receiver stands: a read found no room, a frame was refused, or items were handed out and a buffer is left. -/
inductive Received (ι β : Type)
  | overflow | refused
  | ok (items : List ι) (c : β)

def Receiver.drain (r : Receiver ι β) : Nat → List ι → β → Received ι β
  | 0, items, c => .ok items c
  | fuel + 1, items, c =>
    match r.pull c with
    | .more => .ok items c
    | .refused => .refused
    | .item x rest => r.drain fuel (items ++ [x]) rest

/-- One arrival: every frame takes octets, so as many turns as octets are enough. -/
def Receiver.receive (r : Receiver ι β) (s : Received ι β) (chunk : Bytes) : Received ι β :=
  match s with
  | .overflow => .overflow
  | .refused => .refused
  | .ok items c =>
    match r.append c chunk with
    | none => .overflow
    | some c => r.drain ((r.bytes c).length + 1) items c

/-- The receiver reads off the frames of the messages that fit what is to be seen of them. -/
structure Receiver.Decodes (r : Receiver ι β) (enc : κ → Bytes) (view : κ → ι) (Fits : κ → Prop) : Prop where
  appends : ∀ c chunk c', r.append c chunk = some c' → r.bytes c' = r.bytes c ++ chunk
  idle : ∀ c, r.bytes c = [] → r.pull c = .more
  whole : ∀ c x rest, Fits x → r.bytes c = enc x ++ rest → ∃ c', r.pull c = .item (view x) c' ∧ r.bytes c' = rest
  front : ∀ c x more, Fits x → r.bytes c ++ more = enc x → more ≠ [] → r.pull c = .more
  some_octet : ∀ x, enc x ≠ []

variable {r : Receiver ι β} {enc : κ → Bytes} {view : κ → ι} {Fits : κ → Prop}

/-- Draining hands out the frames that are complete, and ends where more is to come. -/
theorem Receiver.Decodes.drain (h : r.Decodes enc view Fits) {xs : List κ} (hfits : ∀ x ∈ xs, Fits x) {c : β} {rest : Bytes}
    (hstream : r.bytes c ++ rest = xs.flatMap enc) {fuel : Nat} (hfuel : (r.bytes c).length < fuel) (items : List ι) :
    ∃ done todo c', xs = done ++ todo ∧ r.drain fuel items c = .ok (items ++ done.map view) c' ∧ r.pull c' = .more ∧
      r.bytes c' ++ rest = todo.flatMap enc ∧ (rest = [] → todo = []) := by
  induction xs generalizing c fuel items with
  | nil =>
    obtain ⟨fuel, rfl⟩ : ∃ n, fuel = n + 1 := ⟨fuel - 1, by omega⟩
    have hnil : r.bytes c = [] := (List.append_eq_nil_iff.mp hstream).1
    refine ⟨[], [], c, rfl, ?_, h.idle c hnil, hstream, fun _ => rfl⟩
    rw [Receiver.drain, h.idle c hnil, List.map_nil, List.append_nil]
  | cons x xs ih =>
    obtain ⟨fuel, rfl⟩ : ∃ n, fuel = n + 1 := ⟨fuel - 1, by omega⟩
    obtain ⟨hx, hxs⟩ := List.forall_mem_cons.mp hfits
    rw [List.flatMap_cons] at hstream
    by_cases hlen : (enc x).length ≤ (r.bytes c).length
    · obtain ⟨u, hu⟩ : ∃ u, r.bytes c = enc x ++ u :=
        ⟨(r.bytes c).drop (enc x).length, by
          have htake := congrArg (List.take (enc x).length) hstream
          rw [List.take_append_of_le_length hlen, List.take_left] at htake
          conv => rhs; lhs; rw [← htake]
          exact (List.take_append_drop _ _).symm⟩
      have hnext : u ++ rest = xs.flatMap enc := by
        rw [hu, List.append_assoc] at hstream
        exact List.append_cancel_left hstream
      obtain ⟨c', hpull, hbytes⟩ := h.whole c x u hx hu
      have hpos := List.length_pos_iff.mpr (h.some_octet x)
      have hfuel' : (r.bytes c').length < fuel := by
        rw [hu, List.length_append] at hfuel
        rw [hbytes]
        omega
      obtain ⟨done, todo, c'', rfl, hdrain, hmore, hleft, hend⟩ := ih hxs (by rw [hbytes]; exact hnext) hfuel' (items ++ [view x])
      refine ⟨x :: done, todo, c'', rfl, ?_, hmore, hleft, hend⟩
      rw [Receiver.drain, hpull]
      rw [List.append_assoc, List.singleton_append] at hdrain
      exact hdrain
    · have hpart : r.bytes c ++ (enc x).drop (r.bytes c).length = enc x := by
        have htake := congrArg (List.take (r.bytes c).length) hstream
        rw [List.take_left, List.take_append_of_le_length (Nat.le_of_not_le hlen)] at htake
        conv => lhs; lhs; rw [htake]
        exact List.take_append_drop _ _
      have hsome : (enc x).drop (r.bytes c).length ≠ [] := by
        intro hnil
        rw [List.drop_eq_nil_iff] at hnil
        exact hlen hnil
      have hmore := h.front c x _ hx hpart hsome
      refine ⟨[], x :: xs, c, rfl, ?_, hmore, by rw [List.flatMap_cons]; exact hstream, ?_⟩
      · rw [Receiver.drain, hmore, List.map_nil, List.append_nil]
      · rintro rfl
        have hle := congrArg List.length hstream
        rw [List.append_nil, List.length_append] at hle
        omega

/-- What a receiver makes of some octets of a stream: frames that are complete, and it waits. -/
def Receiver.Follows (r : Receiver ι β) (enc : κ → Bytes) (view : κ → ι) (xs : List κ) (left : Bytes) : Received ι β → Prop
  | .overflow => True
  | .refused => False
  | .ok items c => ∃ done todo, xs = done ++ todo ∧ items = done.map view ∧ r.pull c = .more ∧
      r.bytes c ++ left = todo.flatMap enc ∧ (left = [] → todo = [])

theorem Receiver.Decodes.follows_step (h : r.Decodes enc view Fits) {xs : List κ} (hfits : ∀ x ∈ xs, Fits x) {chunk left : Bytes}
    {s : Received ι β} (hs : r.Follows enc view xs (chunk ++ left) s) : r.Follows enc view xs left (r.receive s chunk) := by
  cases s with
  | overflow => trivial
  | refused => exact hs
  | ok items c =>
    obtain ⟨done, todo, rfl, rfl, -, hbytes, -⟩ := hs
    rw [Receiver.receive]
    cases happ : r.append c chunk with
    | none => trivial
    | some c' =>
      have hnow : r.bytes c' ++ left = todo.flatMap enc := by
        rw [h.appends c chunk c' happ, ← hbytes, List.append_assoc]
      obtain ⟨done', todo', c'', rfl, hdrain, hmore, hrest, hend⟩ :=
        h.drain (fun x hx => hfits x (List.mem_append_right _ hx)) hnow (Nat.lt_succ_self _) (done.map view)
      dsimp only
      rw [hdrain]
      exact ⟨done ++ done', todo', by rw [List.append_assoc], by rw [List.map_append], hmore, hrest, hend⟩

theorem Receiver.Decodes.follows_run (h : r.Decodes enc view Fits) {xs : List κ} (hfits : ∀ x ∈ xs, Fits x) (chunks : List Bytes)
    {left : Bytes} {s : Received ι β} (hs : r.Follows enc view xs (chunks.flatten ++ left) s) :
    r.Follows enc view xs left (chunks.foldl r.receive s) := by
  induction chunks generalizing s with
  | nil => exact hs
  | cons chunk chunks ih =>
    rw [List.flatten_cons, List.append_assoc] at hs
    exact ih (h.follows_step hfits hs)

/-- Before anything has arrived. -/
theorem Receiver.Decodes.follows_init (h : r.Decodes enc view Fits) {xs : List κ} {c : β} (hempty : r.bytes c = []) {stream : Bytes}
    (hstream : stream = xs.flatMap enc) : r.Follows enc view xs stream (.ok [] c) := by
  refine ⟨[], xs, rfl, rfl, h.idle c hempty, by rw [hempty]; exact hstream, fun hnil => ?_⟩
  rw [hnil] at hstream
  cases xs with
  | nil => rfl
  | cons x xs => exact absurd (List.append_eq_nil_iff.mp hstream.symm).1 (h.some_octet x)

/-- However a stream is cut, the receiver hands out its items, unless a read found no room. -/
theorem Receiver.Decodes.follows (h : r.Decodes enc view Fits) {xs : List κ} (hfits : ∀ x ∈ xs, Fits x) {c : β} (hempty : r.bytes c = [])
    (chunks : List Bytes) {left : Bytes} (hstream : chunks.flatten ++ left = xs.flatMap enc) :
    r.Follows enc view xs left (chunks.foldl r.receive (.ok [] c)) := h.follows_run hfits chunks (h.follows_init hempty hstream)

/-- What is waited with is shorter than a frame, so a read that would fit behind any frame is taken. -/
theorem Receiver.Decodes.roomy (h : r.Decodes enc view Fits) {xs : List κ} (hfits : ∀ x ∈ xs, Fits x) {cap : Nat} (hcap : 0 < cap)
    (happ : ∀ c chunk, (r.bytes c).length + chunk.length < cap → (r.append c chunk).isSome) {chunk left : Bytes}
    (hsize : ∀ x ∈ xs, (enc x).length + chunk.length ≤ cap) {s : Received ι β} (hok : s ≠ .overflow)
    (hs : r.Follows enc view xs (chunk ++ left) s) : r.receive s chunk ≠ .overflow := by
  cases s with
  | overflow => exact absurd rfl hok
  | refused => exact nofun
  | ok items c =>
    have hstep := h.follows_step hfits hs
    obtain ⟨done, todo, rfl, rfl, hmore, hbytes, -⟩ := hs
    have hlen : (r.bytes c).length + chunk.length < cap := by
      cases todo with
      | nil =>
        have hnil := congrArg List.length hbytes
        simp only [List.length_append, List.flatMap_nil, List.length_nil] at hnil
        omega
      | cons x todo =>
        have hx := hsize x (by simp)
        by_contra hfull
        have hle : (enc x).length ≤ (r.bytes c).length := by omega
        have hsplit : r.bytes c = enc x ++ (r.bytes c).drop (enc x).length := by
          have htake := congrArg (List.take (enc x).length) hbytes
          rw [List.take_append_of_le_length hle, List.flatMap_cons, List.take_left] at htake
          conv => rhs; lhs; rw [← htake]
          exact (List.take_append_drop _ _).symm
        obtain ⟨c', hpull, -⟩ := h.whole c x _ (hfits x (by simp)) hsplit
        rw [hmore] at hpull
        cases hpull
    rw [Receiver.receive] at hstep ⊢
    obtain ⟨c', hc'⟩ := Option.isSome_iff_exists.mp (happ c chunk hlen)
    rw [hc'] at hstep ⊢
    dsimp only at hstep ⊢
    have hbytes' : r.bytes c' ++ left = todo.flatMap enc := by
      rw [h.appends c chunk c' hc', ← hbytes, List.append_assoc]
    obtain ⟨done', todo', c'', -, hdrain, -⟩ :=
      h.drain (fun x hx => hfits x (List.mem_append_right _ hx)) hbytes' (Nat.lt_succ_self _) (done.map view)
    rw [hdrain]
    exact nofun

theorem Receiver.Decodes.roomy_run (h : r.Decodes enc view Fits) {xs : List κ} (hfits : ∀ x ∈ xs, Fits x) {cap : Nat} (hcap : 0 < cap)
    (happ : ∀ c chunk, (r.bytes c).length + chunk.length < cap → (r.append c chunk).isSome) {chunks : List Bytes} {left : Bytes}
    (hsize : ∀ x ∈ xs, ∀ chunk ∈ chunks, (enc x).length + chunk.length ≤ cap) {s : Received ι β} (hok : s ≠ .overflow)
    (hs : r.Follows enc view xs (chunks.flatten ++ left) s) : chunks.foldl r.receive s ≠ .overflow := by
  induction chunks generalizing s with
  | nil => exact hok
  | cons chunk chunks ih =>
    rw [List.flatten_cons, List.append_assoc] at hs
    refine ih (fun x hx b hb => hsize x hx b (List.mem_cons_of_mem _ hb)) ?_ (h.follows_step hfits hs)
    exact h.roomy hfits hcap happ (fun x hx => hsize x hx chunk List.mem_cons_self) hok hs

/-! ## Senders -/

/-- A sender's output buffer, and what has left it. -/
structure Sender where
  wire : Bytes
  tx : Bytes

/-- A message is queued, or so many octets leave the buffer. -/
inductive SendOp (κ : Type)
  | queue (x : κ)
  | flush (n : Nat)

def Sender.step (queue : Bytes → κ → Option Bytes) (s : Sender) : SendOp κ → Option Sender
  | .queue x => (queue s.tx x).map fun tx => { s with tx := tx }
  | .flush n => some ⟨s.wire ++ s.tx.take n, s.tx.drop n⟩

/-- A run of a sender in which every message finds room. -/
def sends (queue : Bytes → κ → Option Bytes) (ops : List (SendOp κ)) : Option Sender := ops.foldlM (Sender.step queue) ⟨[], []⟩

/-- The messages a run queues. -/
def queuedOf (ops : List (SendOp κ)) : List κ :=
  ops.filterMap fun
    | .queue x => some x
    | .flush _ => none

/-- What has left and what waits are the frames of the messages, one behind the other. -/
theorem sends_frames {queue : Bytes → κ → Option Bytes} (hqueue : ∀ tx x tx', queue tx x = some tx' → tx' = tx ++ enc x)
    {ops : List (SendOp κ)} {out : Sender} (h : sends queue ops = some out) : out.wire ++ out.tx = (queuedOf ops).flatMap enc := by
  have hrun : ∀ (ops : List (SendOp κ)) (s : Sender), ops.foldlM (Sender.step queue) s = some out →
      out.wire ++ out.tx = s.wire ++ s.tx ++ (queuedOf ops).flatMap enc := by
    intro ops
    induction ops with
    | nil =>
      intro s hs
      obtain rfl := Option.some.inj hs
      simp [queuedOf]
    | cons op ops ih =>
      intro s hs
      rw [List.foldlM_cons] at hs
      obtain ⟨s', hstep, hrest⟩ := Option.bind_eq_some_iff.mp hs
      rw [ih s' hrest]
      cases op with
      | queue x =>
        obtain ⟨tx, htx, rfl⟩ := Option.map_eq_some_iff.mp hstep
        rw [hqueue s.tx x tx htx]
        simp [queuedOf]
      | flush n =>
        obtain rfl := Option.some.inj hstep
        have hsame : queuedOf (.flush n :: ops) = queuedOf ops := rfl
        rw [hsame]
        rw [List.append_assoc s.wire, List.take_append_drop]
  exact hrun ops ⟨[], []⟩ h

end Floofclaw.Lib
