import Mathlib.Data.List.Basic

/-!
# Broadcast channels

A channel that keeps the last `capacity` of the messages `sent` to it. A receiver has
taken those before `next`; one that is further behind than the channel keeps gets one
`lagged` in place of what it missed, and goes on with the oldest message left.
`Reads` is what a receiver got since it was there, each message or lag in its place.
-/

namespace McpgSql.Library

inductive Received (α : Type) where
  | value (message : α)
  | lagged (missed : Nat)
deriving DecidableEq

variable {α : Type}

/-- What a receiver gets next, and where it then is; nothing where it has it all. -/
def recv (capacity : Nat) (sent : List α) (next : Nat) : Option (Received α × Nat) :=
  if next + capacity < sent.length then
    some (.lagged (sent.length - capacity - next), sent.length - capacity)
  else sent[next]?.map fun message => (.value message, next + 1)

variable {capacity : Nat} {sent : List α} {next next' : Nat}

/-- A receiver that has not everything gets something. -/
theorem recv_isSome (h : next < sent.length) : (recv capacity sent next).isSome = true := by
  unfold recv
  split
  · rfl
  · rw [Option.isSome_map, List.getElem?_eq_getElem h]
    rfl

/-- What a receiver gets: the next message, or a lag past it. -/
theorem recv_cases {r : Received α} (h : recv capacity sent next = some (r, next')) :
    (∃ message, r = .value message ∧ sent[next]? = some message ∧ next' = next + 1) ∨
    (∃ missed, r = .lagged missed ∧ next < next' ∧ next' ≤ sent.length) := by
  unfold recv at h
  split at h
  · rename_i hlag
    cases h
    exact .inr ⟨_, rfl, by omega, by omega⟩
  · obtain ⟨message, hmessage, heq⟩ := Option.map_eq_some_iff.mp h
    cases heq
    exact .inl ⟨message, rfl, hmessage, rfl⟩

/-- What a receiver that started at `start` got up to `next`, of what is sent by now: a
message is the one of its place, and a lag stands for messages that the channel did not keep. -/
inductive Reads (capacity : Nat) (sent : List α) (start : Nat) : List (Received α) → Nat → Prop
  | nil : Reads capacity sent start [] start
  | value {got : List (Received α)} {next : Nat} {message : α} :
    Reads capacity sent start got next → sent[next]? = some message →
    Reads capacity sent start (got ++ [.value message]) (next + 1)
  | lagged {got : List (Received α)} {next missed : Nat} :
    Reads capacity sent start got next → 0 < missed → next + missed + capacity ≤ sent.length →
    Reads capacity sent start (got ++ [.lagged missed]) (next + missed)

namespace Reads

variable {start : Nat} {got : List (Received α)}

/-- The receiver gets its next. -/
theorem recv {r : Received α} (h : Reads capacity sent start got next)
    (hrecv : recv capacity sent next = some (r, next')) :
    Reads capacity sent start (got ++ [r]) next' := by
  unfold Library.recv at hrecv
  split at hrecv
  · rename_i hlag
    cases hrecv
    have hnext : next + (sent.length - capacity - next) = sent.length - capacity := by omega
    have hlagged : Reads capacity sent start (got ++ [.lagged (sent.length - capacity - next)])
        (next + (sent.length - capacity - next)) := h.lagged (by omega) (by omega)
    rwa [hnext] at hlagged
  · obtain ⟨message, hmessage, heq⟩ := Option.map_eq_some_iff.mp hrecv
    cases heq
    exact h.value hmessage

/-- What is sent later is after all that was got. -/
theorem mono {sent' : List α} (h : Reads capacity sent start got next) (hsent : sent <+: sent') :
    Reads capacity sent' start got next := by
  induction h with
  | nil => exact .nil
  | value _ hmessage ih =>
    obtain ⟨more, rfl⟩ := hsent
    refine ih.value ?_
    rw [List.getElem?_append_left (List.getElem?_eq_some_iff.mp hmessage).1, hmessage]
  | lagged _ hmissed hle ih => exact ih.lagged hmissed (Nat.le_trans hle hsent.length_le)

theorem le (h : Reads capacity sent start got next) : start ≤ next := by
  induction h with
  | nil => exact Nat.le_refl _
  | value _ _ ih => omega
  | lagged _ _ _ ih => omega

/-- Where the channel keeps all that was sent since the start, the receiver got every
message up to where it is. -/
theorem eq_values (h : Reads capacity sent start got next)
    (hkept : sent.length ≤ start + capacity) :
    got = ((sent.drop start).take (next - start)).map .value := by
  induction h with
  | nil => rw [Nat.sub_self, List.take_zero, List.map_nil]
  | @value got next message h hmessage ih =>
    have hle := h.le
    have hat : (sent.drop start)[next - start]? = some message := by
      rw [List.getElem?_drop, show start + (next - start) = next by omega, hmessage]
    rw [ih, show next + 1 - start = next - start + 1 by omega, List.take_add_one, hat,
      List.map_append, Option.toList_some, List.map_singleton]
  | lagged h _ _ _ =>
    have := h.le
    omega

end Reads

end McpgSql.Library
