import Mathlib.Data.List.Basic

/-!
# Frames in a stream

A receiver gets a stream in chunks of any size and has to find the frames in it. It
never asks for more than the frame it is in still has, so that no chunk crosses the
end of a frame. A state of the receiver, the frames on their way and the stream that
is left fit together if the stream is the frames without what has been consumed.
-/

namespace TeeReplication

variable {ω ι : Type}

/-- How a receiver cuts a stream into frames. It asks for a number of symbols at a time, and its
state says what it has got of the current frame. -/
structure Framing (ω ι : Type) where
  /-- The state between two calls. -/
  State : Type
  /-- Before the first symbol of a frame. -/
  start : State
  /-- How many symbols the next call asks for. -/
  need : State → ℕ
  /-- The call gives some symbols: the receive goes on or is over. -/
  push : State → List ω → State ⊕ ι
  /-- The call gives none: the receive goes on or is over. -/
  zero : State → State ⊕ ι
  /-- What a receive gives for a whole frame. -/
  received : List ω → ι
  /-- What it gives when it fails. -/
  failed : ι
  /-- The frames that can be received. -/
  Framed : List ω → Prop
  /-- In this state the receive has got these symbols of the current frame. -/
  Consumed : State → List ω → Prop
  /-- How many calls without a symbol the receive still stands. -/
  patience : State → ℕ
  /-- A bound on it. -/
  maxPatience : ℕ
  /-- There is no empty frame. -/
  ne_nil_of_framed : ∀ b, Framed b → b ≠ []
  /-- A receive starts with no symbols. -/
  consumed_start : Consumed start []
  /-- An unfinished receive asks for a symbol. -/
  need_pos : ∀ st p rest, Consumed st p → Framed (p ++ rest) → rest ≠ [] → 0 < need st
  /-- It asks for no more than the frame has. -/
  need_le : ∀ st p rest, Consumed st p → Framed (p ++ rest) → need st ≤ rest.length
  /-- With the last symbols of a frame the receive is over. -/
  push_last : ∀ st p chunk, Consumed st p → Framed (p ++ chunk) → chunk ≠ [] →
    chunk.length ≤ need st → push st chunk = .inr (received (p ++ chunk))
  /-- With others it goes on. -/
  push_more : ∀ st p chunk rest, Consumed st p → Framed (p ++ (chunk ++ rest)) → chunk ≠ [] →
    rest ≠ [] → chunk.length ≤ need st →
    ∃ st', push st chunk = .inl st' ∧ Consumed st' (p ++ chunk)
  /-- Without a symbol it goes on where it is, with less patience. -/
  zero_more : ∀ st st' p, Consumed st p → zero st = .inl st' →
    Consumed st' p ∧ patience st' < patience st
  /-- Or it fails. -/
  zero_over : ∀ st i, zero st = .inr i → i = failed
  /-- The bound on the patience. -/
  patience_le : ∀ st, patience st ≤ maxPatience

namespace Framing

variable (F : Framing ω ι)

/-- The stream that is left and the symbols that the receiver has got make up the frames on their
way, and the receiver has not got the first of them whole. -/
def Streams (st : F.State) (stream : List ω) (frames : List (List ω)) : Prop :=
  ∃ p, F.Consumed st p ∧ frames.flatten = p ++ stream ∧ ∀ b ∈ frames.head?, p.length < b.length

variable {F} {st : F.State} {stream chunk : List ω} {frames more : List (List ω)}

/-- Before the first frame. -/
theorem streams_start : F.Streams F.start [] [] := ⟨[], F.consumed_start, rfl, by simp⟩

/-- More frames are sent. -/
theorem Streams.append (h : F.Streams st stream frames) (hmore : ∀ b ∈ more, F.Framed b) :
    F.Streams st (stream ++ more.flatten) (frames ++ more) := by
  obtain ⟨p, hp, hflatten, hhead⟩ := h
  refine ⟨p, hp, by rw [List.flatten_append, hflatten, List.append_assoc], ?_⟩
  cases frames with
  | cons b frames => exact hhead
  | nil =>
    obtain ⟨rfl, -⟩ := List.append_eq_nil_iff.mp hflatten.symm
    intro b hb
    rw [List.nil_append] at hb
    exact List.length_pos_iff.mpr (F.ne_nil_of_framed b (hmore b (List.mem_of_mem_head? hb)))

/-- Nothing is left of the stream exactly if no frame is on its way. -/
theorem Streams.eq_nil_iff (h : F.Streams st stream frames) : stream = [] ↔ frames = [] := by
  obtain ⟨p, -, hflatten, hhead⟩ := h
  cases frames with
  | nil =>
    obtain ⟨-, rfl⟩ := List.append_eq_nil_iff.mp hflatten.symm
    exact ⟨fun _ => rfl, fun _ => rfl⟩
  | cons b frames =>
    refine ⟨fun hnil => ?_, fun hnil => by cases hnil⟩
    have hlt : p.length < b.length := hhead b rfl
    have hlength := congrArg List.length hflatten
    rw [hnil, List.flatten_cons, List.length_append, List.append_nil] at hlength
    omega

/-- The first frame on its way is what has been consumed of it and a beginning of the stream. -/
theorem Streams.exists_rest {b : List ω} (h : F.Streams st stream (b :: frames)) :
    ∃ p rest, F.Consumed st p ∧ b = p ++ rest ∧ rest ≠ [] ∧ stream = rest ++ frames.flatten := by
  obtain ⟨p, hp, hflatten, hhead⟩ := h
  have hlt : p.length < b.length := hhead b rfl
  obtain ⟨rest, rfl⟩ : p <+: b :=
    List.prefix_of_prefix_length_le ⟨stream, hflatten.symm⟩ ⟨frames.flatten, rfl⟩
      (Nat.le_of_lt hlt)
  refine ⟨p, rest, hp, rfl, ?_, ?_⟩
  · rintro rfl
    simp at hlt
  · rw [List.flatten_cons, List.append_assoc] at hflatten
    exact (List.append_cancel_left hflatten).symm

/-- While frames are on their way the receiver asks for a symbol. -/
theorem Streams.need_pos (h : F.Streams st stream frames) (hframed : ∀ b ∈ frames, F.Framed b)
    (hstream : stream ≠ []) : 0 < F.need st := by
  cases frames with
  | nil => exact absurd (h.eq_nil_iff.mpr rfl) hstream
  | cons b frames =>
    obtain ⟨p, rest, hp, rfl, hrest, -⟩ := h.exists_rest
    exact F.need_pos st p rest hp (hframed _ List.mem_cons_self) hrest

/-- A chunk that was asked for either continues a frame or completes it. -/
theorem Streams.push (h : F.Streams st (chunk ++ stream) frames)
    (hframed : ∀ b ∈ frames, F.Framed b) (hchunk : chunk ≠ []) (hneed : chunk.length ≤ F.need st) :
    (∃ st', F.push st chunk = .inl st' ∧ F.Streams st' stream frames) ∨
      ∃ b rest, frames = b :: rest ∧ F.push st chunk = .inr (F.received b) ∧
        F.Streams F.start stream rest := by
  cases frames with
  | nil =>
    have hnil := h.eq_nil_iff.mpr rfl
    exact absurd (List.append_eq_nil_iff.mp hnil).1 hchunk
  | cons b frames =>
    obtain ⟨p, rest, hp, rfl, hrest, hstream⟩ := h.exists_rest
    have hb := hframed _ List.mem_cons_self
    obtain ⟨last, rfl⟩ : chunk <+: rest :=
      List.prefix_of_prefix_length_le ⟨stream, hstream⟩ ⟨frames.flatten, rfl⟩
        (Nat.le_trans hneed (F.need_le st p rest hp hb))
    rw [List.append_assoc] at hstream
    have hstream' := List.append_cancel_left hstream
    by_cases hlast : last = []
    · subst hlast
      rw [List.append_nil] at hb ⊢
      right
      refine ⟨p ++ chunk, frames, rfl, F.push_last st p chunk hp hb hchunk hneed, [],
        F.consumed_start, hstream'.symm, ?_⟩
      intro b' hb'
      exact List.length_pos_iff.mpr
        (F.ne_nil_of_framed b' (hframed b' (List.mem_cons_of_mem _ (List.mem_of_mem_head? hb'))))
    · left
      obtain ⟨st', hpush, hp'⟩ := F.push_more st p chunk last hp hb hchunk hlast hneed
      refine ⟨st', hpush, p ++ chunk, hp', ?_, ?_⟩
      · rw [List.flatten_cons, hstream', List.append_assoc, List.append_assoc, List.append_assoc]
      · intro b' hb'
        obtain rfl : p ++ (chunk ++ last) = b' := by simpa using hb'
        have hpos := List.length_pos_iff.mpr hlast
        simp only [List.length_append]
        omega

/-- Without a symbol nothing changes but the patience. -/
theorem Streams.zero {st' : F.State} (h : F.Streams st stream frames)
    (hzero : F.zero st = .inl st') :
    F.Streams st' stream frames ∧ F.patience st' < F.patience st := by
  obtain ⟨p, hp, hflatten, hhead⟩ := h
  obtain ⟨hp', hlt⟩ := F.zero_more st st' p hp hzero
  exact ⟨⟨p, hp', hflatten, hhead⟩, hlt⟩

end Framing

end TeeReplication
