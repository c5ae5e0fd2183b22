import McpgSql.Breaker.Threads

/-!
# One probe at a time

A thread owns a half-open breaker from its store of half-open until it stores
the next state. While every store of half-open finds the breaker still open and
no exchange finds `probe_in_flight` clear, there is one owner at most
(`Owner`), so at most one probe is out (`one_probe`). The transition to
half-open is two stores after a load, so two threads may both pass
(`two_probes`).
-/

namespace McpgSql.Breaker

open Library

/-- The thread owns the half-open breaker. -/
def Pc.owns : Pc → Bool
  | .claim _ | .holding true | .reset true | .releaseSuccess | .close | .releaseFailure
  | .reopen => true
  | _ => false

/-- The thread has its probe in flight. -/
def Pc.inFlight : Pc → Bool
  | .holding true | .reset true | .releaseSuccess | .releaseFailure => true
  | _ => false

/-- A store of half-open finds the breaker still open, and an exchange finds a probe
in flight. -/
def Exclusive (w : Threads) : ThreadAction → Prop
  | .access i _ => match w.pc i with
    | .halfOpen _ => w.breaker.state = .opened
    | .exchange _ => w.breaker.probeInFlight = true
    | _ => True
  | .record .. => True

instance (w : Threads) (a : ThreadAction) : Decidable (Exclusive w a) :=
  match a with
  | .access i _ =>
    match h : w.pc i with
    | .halfOpen _ => decidable_of_iff (w.breaker.state = .opened) (by simp [Exclusive, h])
    | .exchange _ => decidable_of_iff (w.breaker.probeInFlight = true) (by simp [Exclusive, h])
    | .idle | .check _ | .elapsed .. | .claim _ | .holding _ | .reset _ | .releaseSuccess | .close
    | .forget | .releaseFailure | .reopen | .stamp | .stampAt _ | .count | .trip | .stampTrip
    | .stampTripAt _ | .countTrip => isTrue (by simp [Exclusive, h])
  | .record .. => isTrue trivial

/-- The thread that owns the half-open breaker, `none` while it is closed or
open. -/
structure Owner (w : Threads) (owner : Option Nat) : Prop where
  owns : ∀ i, (w.pc i).owns = true ↔ owner = some i
  state : w.breaker.state = .halfOpen ↔ owner ≠ none
  flight : w.breaker.probeInFlight = true ↔ ∃ i, owner = some i ∧ (w.pc i).inFlight = true

section

variable {w w' : Threads} {owner : Option Nat} {i now : Nat} {pc : Pc} {b : CircuitBreaker}

/-- A step by which no thread gets or loses the breaker. -/
theorem Owner.keep (h : Owner w owner) (hpc : w'.pc = Function.update w.pc i pc)
    (howns : pc.owns = (w.pc i).owns) (hflight : pc.inFlight = (w.pc i).inFlight)
    (hs : w'.breaker.state = .halfOpen ↔ w.breaker.state = .halfOpen)
    (hf : w'.breaker.probeInFlight = w.breaker.probeInFlight) : Owner w' owner := by
  have hsame : ∀ j, (w'.pc j).owns = (w.pc j).owns ∧ (w'.pc j).inFlight = (w.pc j).inFlight := by
    intro j
    rw [hpc]
    by_cases hj : j = i
    · subst hj
      simp [howns, hflight]
    · simp [hj]
  refine ⟨fun j => ?_, hs.trans h.state, ?_⟩
  · rw [(hsame j).1]
    exact h.owns j
  · rw [hf, h.flight]
    exact exists_congr fun j => by rw [(hsame j).2]

/-- The owner of the breaker goes on in its possession. -/
theorem Owner.own (h : Owner w owner) (hi : (w.pc i).owns = true)
    (hpc : w'.pc = Function.update w.pc i pc) (howns : pc.owns = true)
    (hs : w'.breaker.state = w.breaker.state)
    (hf : w'.breaker.probeInFlight = pc.inFlight) : Owner w' owner := by
  have howner := (h.owns i).mp hi
  refine ⟨fun j => ?_, by rw [hs]; exact h.state, ?_⟩
  · rw [hpc]
    by_cases hj : j = i
    · subst hj
      simp [howns, howner]
    · simpa [hj] using h.owns j
  · rw [hf, howner]
    simp [hpc]

/-- The owner gives the breaker up. -/
theorem Owner.leave (h : Owner w owner) (hi : (w.pc i).owns = true)
    (hin : (w.pc i).inFlight = false) (hpc : w'.pc = Function.update w.pc i pc)
    (howns : pc.owns = false) (hs : w'.breaker.state ≠ .halfOpen)
    (hf : w'.breaker.probeInFlight = w.breaker.probeInFlight) : Owner w' none := by
  have howner := (h.owns i).mp hi
  refine ⟨fun j => ?_, by simp [hs], ?_⟩
  · rw [hpc]
    by_cases hj : j = i
    · subst hj
      simp [howns]
    · have := h.owns j
      rw [howner, Option.some.injEq] at this
      simp [hj, this, Ne.symm hj]
  · have hflight := h.flight
    rw [howner] at hflight
    simp only [Option.some.injEq, exists_eq_left', hin, Bool.false_eq_true, iff_false] at hflight
    simp [hf, hflight]

/-- A thread takes an open breaker. -/
theorem Owner.take (h : Owner w owner) (hs : w.breaker.state ≠ .halfOpen)
    (hpc : w'.pc = Function.update w.pc i pc) (howns : pc.owns = true) (hin : pc.inFlight = false)
    (hs' : w'.breaker.state = .halfOpen)
    (hf : w'.breaker.probeInFlight = w.breaker.probeInFlight) : Owner w' (some i) := by
  have hnone : owner = none := by
    by_contra hne
    exact hs (h.state.mpr hne)
  subst hnone
  refine ⟨fun j => ?_, by simp [hs'], ?_⟩
  · rw [hpc]
    by_cases hj : j = i
    · subst hj
      simp [howns]
    · have := h.owns j
      simp only [reduceCtorEq, iff_false] at this
      simp [hj, this, Ne.symm hj]
  · have hflight := h.flight
    simp only [reduceCtorEq, false_and, exists_false, iff_false] at hflight
    simp [hf, hflight, hpc, hin]

/-- An access of a thread. -/
theorem Owner.access (h : Owner w owner) (hok : Exclusive w (.access i now))
    (hst : w.access i now (w.pc i) = some w') : ∃ owner', Owner w' owner' := by
  simp only [Exclusive] at hok
  cases hp : w.pc i with
  | idle =>
    simp only [hp, Threads.access] at hst
    split at hst
    · cases hst
      exact ⟨owner, h.keep rfl (by simp [hp, Pc.owns]) (by simp [hp, Pc.inFlight]) .rfl
        (Bool.or_false _)⟩
    · cases hst
      exact ⟨owner, h.keep rfl (by simp [hp, Pc.owns]) (by simp [hp, Pc.inFlight]) .rfl rfl⟩
    · cases hst
      exact ⟨owner, h.keep rfl (by simp [hp, Pc.owns]) (by simp [hp, Pc.inFlight]) .rfl rfl⟩
  | elapsed load reading =>
    simp only [hp, Threads.access, Option.some.injEq] at hst
    subst hst
    refine ⟨owner, h.keep rfl ?_ ?_ .rfl rfl⟩ <;>
      split <;> simp [hp, Pc.owns, Pc.inFlight]
  | halfOpen load =>
    simp only [hp, Threads.access, Option.some.injEq] at hst hok
    subst hst
    exact ⟨some i, h.take (by simp [hok]) rfl rfl rfl rfl rfl⟩
  | claim load =>
    simp only [hp, Threads.access, Option.some.injEq] at hst
    subst hst
    exact ⟨owner, h.own (by simp [hp, Pc.owns]) rfl rfl rfl (Bool.or_true _)⟩
  | exchange load =>
    simp only [hp, Threads.access] at hst hok
    rw [if_pos hok] at hst
    cases hst
    exact ⟨owner, h.keep rfl (by simp [hp, Pc.owns]) (by simp [hp, Pc.inFlight]) .rfl rfl⟩
  | holding probe => simp [hp, Threads.access] at hst
  | reset probe =>
    simp only [hp, Threads.access, Option.some.injEq] at hst
    subst hst
    refine ⟨owner, h.keep rfl ?_ ?_ .rfl rfl⟩ <;>
      cases probe <;> simp [hp, Pc.owns, Pc.inFlight]
  | releaseSuccess =>
    simp only [hp, Threads.access, Option.some.injEq] at hst
    subst hst
    exact ⟨owner, h.own (by simp [hp, Pc.owns]) rfl rfl rfl rfl⟩
  | close =>
    simp only [hp, Threads.access, Option.some.injEq] at hst
    subst hst
    exact ⟨none, h.leave (by simp [hp, Pc.owns]) (by simp [hp, Pc.inFlight]) rfl rfl (by intro hs; cases hs) rfl⟩
  | releaseFailure =>
    simp only [hp, Threads.access, Option.some.injEq] at hst
    subst hst
    exact ⟨owner, h.own (by simp [hp, Pc.owns]) rfl rfl rfl rfl⟩
  | reopen =>
    simp only [hp, Threads.access, Option.some.injEq] at hst
    subst hst
    exact ⟨none, h.leave (by simp [hp, Pc.owns]) (by simp [hp, Pc.inFlight]) rfl rfl (by intro hs; cases hs) rfl⟩
  | count =>
    simp only [hp, Threads.access, Option.some.injEq] at hst
    subst hst
    refine ⟨owner, h.keep rfl ?_ ?_ .rfl rfl⟩ <;>
      split <;> simp [hp, Pc.owns, Pc.inFlight]
  | trip =>
    simp only [hp, Threads.access] at hst
    split at hst
    · rename_i hs
      cases hst
      exact ⟨owner, h.keep rfl (by simp [hp, Pc.owns]) (by simp [hp, Pc.inFlight])
        (by simp [Threads.store, hs]) rfl⟩
    · cases hst
      exact ⟨owner, h.keep rfl (by simp [hp, Pc.owns]) (by simp [hp, Pc.inFlight]) .rfl rfl⟩
  | check | forget | stamp | stampAt | stampTrip | stampTripAt | countTrip =>
    simp only [hp, Threads.access, Option.some.injEq] at hst
    subst hst
    exact ⟨owner, h.keep rfl (by simp [hp, Pc.owns]) (by simp [hp, Pc.inFlight]) .rfl rfl⟩

/-- Every step keeps the owner, gives it up or takes one. -/
theorem Owner.next {a : ThreadAction} (h : Owner w owner) (hok : Exclusive w a)
    (hst : w.next a = some w') : ∃ owner', Owner w' owner' := by
  cases a with
  | access i now =>
    simp only [Threads.next] at hst
    split at hst
    · cases hst
    · exact h.access hok hst
  | record i success now =>
    simp only [Threads.next] at hst
    split at hst
    · cases hst
    · split at hst
      · rename_i probe hp
        cases hst
        refine ⟨owner, h.keep rfl ?_ ?_ .rfl rfl⟩ <;>
          cases success <;> cases probe <;>
          simp [hp, Threads.recordAt, Pc.owns, Pc.inFlight]
      · cases hst

end

theorem reach_owner {config : CircuitBreakerConfig} {w : Threads}
    (h : (threadMachine config).Reach Exclusive w) : ∃ owner, Owner w owner := by
  induction h with
  | init h₀ =>
    obtain ⟨hb, hpc, -, -⟩ := h₀
    exact ⟨none, fun i => by simp [hpc, Pc.owns], by simp [hb], by simp [hb]⟩
  | step _ hok hst ih =>
    obtain ⟨owner, ho⟩ := ih
    exact ho.next hok hst

/-- While every store of half-open finds the breaker still open and every exchange
finds a probe in flight, at most one thread owns the breaker, so at most one probe
is out. -/
theorem one_probe {config : CircuitBreakerConfig} {w : Threads}
    (h : (threadMachine config).Reach Exclusive w) :
    (∀ i j, (w.pc i).owns = true → (w.pc j).owns = true → i = j) ∧
    ∀ i j, w.pc i = .holding true → w.pc j = .holding true → i = j := by
  obtain ⟨owner, ho⟩ := reach_owner h
  have hone : ∀ i j, (w.pc i).owns = true → (w.pc j).owns = true → i = j := by
    intro i j hi hj
    exact Option.some.inj (((ho.owns i).mp hi).symm.trans ((ho.owns j).mp hj))
  refine ⟨hone, fun i j hi hj => hone i j ?_ ?_⟩
  · rw [hi]
    rfl
  · rw [hj]
    rfl

/-- Thread 0 trips the breaker and is its probe; thread 1 finds the probe out. -/
def probeRun : List ThreadAction :=
  tripRun ++ [.access 0 1000000, .access 0 1000000, .access 0 1000000, .access 0 1000000,
    .access 1 1000000, .access 0 1000000, .access 1 1000000]

theorem one_probe_of_probeRun :
    ∃ w, (threadMachine ⟨1, 1⟩).Reach Exclusive w ∧ w.pc 0 = .holding true ∧
      ∀ j, w.pc j = .holding true → j = 0 := by
  have hrun : (Machine.run Threads.next start probeRun).any
      (fun w => w.pc 0 = .holding true) = true := by
    decide
  obtain ⟨w, hw, h0⟩ := Option.any_eq_true _ _ |>.mp hrun
  have h0 : w.pc 0 = .holding true := of_decide_eq_true h0
  have hok : Machine.Along Threads.next Exclusive start probeRun := by decide
  have hreach : (threadMachine ⟨1, 1⟩).Reach Exclusive w :=
    (Machine.Reach.init start_init).along (fun _ h => h) hok hw
  exact ⟨w, hreach, h0, fun j hj => (one_probe hreach).2 j 0 hj h0⟩

/-- Threads 1 and 2 both find the breaker open and cooled down before either stores
half-open. -/
def twoProbesRun : List ThreadAction :=
  tripRun ++ [.access 1 1000000, .access 2 1000000, .access 1 1000000, .access 2 1000000,
    .access 1 1000000, .access 2 1000000, .access 1 1000000, .access 1 1000000,
    .access 2 1000000, .access 2 1000000]

/-- Two probes are out. -/
theorem two_probes :
    ¬ ∀ w, (threadMachine ⟨1, 1⟩).Reach (fun _ _ => True) w →
      ∀ i j, w.pc i = .holding true → w.pc j = .holding true → i = j := by
  have hrun : (Machine.run Threads.next start twoProbesRun).any
      (fun w => w.pc 1 = .holding true ∧ w.pc 2 = .holding true) = true := by
    decide
  obtain ⟨w, hw, hpc⟩ := Option.any_eq_true _ _ |>.mp hrun
  obtain ⟨h1, h2⟩ := of_decide_eq_true hpc
  have hreach : (threadMachine ⟨1, 1⟩).Reach (fun _ _ => True) w :=
    (Machine.Reach.init start_init).run (fun _ h => h) (fun _ _ _ => trivial) hw
  intro hone
  exact absurd (hone w hreach 1 2 h1 h2) (by decide)

end McpgSql.Breaker
