import McpgSql.Cdc.Output
import McpgSql.Cdc.Safety
import McpgSql.Library.Except

/-!
# Gaps are reported once

A resumed watch whose slot is gone creates it again, and does not know what
happened in between: the next `receive` starts with a gap. A `connect` may also
create the slot and fail, where the answer of the database is lost; the next
one finds the slot (`GapWorld`). `owed` is read off the history, so it does not
depend on how the watch remembers the gap.

* `gaps_reported`: in every run a gap is delivered only while one is owed, and
  in a run where no `receive` fails and no `connect` that has created the slot,
  the first delivery after a gap is that gap.
-/

namespace McpgSql.Cdc

open Library

/-! ## What is owed -/

/-- Whether a gap is owed after one more happening: a resumed watch owes one from
the creation of its slot to the next delivery. -/
def Happening.owes (resumed owed : Bool) : Happening → Bool
  | .created => owed || resumed
  | .delivered _ => false
  | .connected | .acked _ | .released _ => owed

/-- A gap is owed at the end of the history. -/
def owed (resumed : Bool) (history : List Happening) : Bool :=
  history.foldl (Happening.owes resumed) false

@[simp] theorem owed_append (resumed : Bool) (history : List Happening) (h : Happening) :
    owed resumed (history ++ [h]) = h.owes resumed (owed resumed history) := by
  rw [owed, List.foldl_append]
  rfl

/-- A watch that starts without a cursor owes nothing. -/
theorem owed_fresh (history : List Happening) : owed false history = false := by
  induction history using List.reverseRecOn with
  | nil => rfl
  | append_singleton history h ih =>
    rw [owed_append, ih]
    cases h <;> rfl

/-- The deliveries of a history against what is owed: a gap only while one is
owed, and with `exact` whenever one is. -/
def Reported (exact : Prop) (resumed : Bool) (history : List Happening) : Prop :=
  ∀ before d after, history = before ++ .delivered d :: after →
    (d.event.gap = true → d = gapDelivery ∧ owed resumed before = true) ∧
    (exact → owed resumed before = true → d = gapDelivery)

section

variable {exact : Prop} {resumed : Bool} {history : List Happening}

theorem Reported.nil : Reported exact resumed [] := by
  intro before d after h
  cases before <;> cases h

/-- A happening that is no delivery keeps the history as reported. -/
theorem Reported.snoc (hr : Reported exact resumed history) {h : Happening}
    (hh : ∀ d, h ≠ .delivered d) : Reported exact resumed (history ++ [h]) := by
  intro before d after heq
  cases after using List.reverseRecOn with
  | nil =>
    obtain ⟨-, hlast⟩ := List.append_inj' heq rfl
    exact absurd (List.cons.inj hlast).1 (hh d)
  | append_singleton after last =>
    rw [← List.cons_append, ← List.append_assoc] at heq
    exact hr before d after (List.append_inj' heq rfl).1

theorem Reported.deliver (hr : Reported exact resumed history) {d : Delivery}
    (hgap : d.event.gap = true → d = gapDelivery ∧ owed resumed history = true)
    (howed : exact → owed resumed history = true → d = gapDelivery) :
    Reported exact resumed (history ++ [.delivered d]) := by
  intro before d' after heq
  cases after using List.reverseRecOn with
  | nil =>
    obtain ⟨rfl, hlast⟩ := List.append_inj' heq rfl
    cases hlast
    exact ⟨hgap, howed⟩
  | append_singleton after last =>
    rw [← List.cons_append, ← List.append_assoc] at heq
    exact hr before d' after (List.append_inj' heq rfl).1

/-- The changes of a read, delivered when nothing is owed. -/
theorem Reported.changes {ds : List Delivery} (hr : Reported exact resumed history)
    (hds : ∀ d ∈ ds, d.event.gap = false) (howed : exact → owed resumed history = false) :
    Reported exact resumed (history ++ ds.map .delivered) ∧
      (exact → owed resumed (history ++ ds.map .delivered) = false) := by
  induction ds generalizing history with
  | nil => simpa using ⟨hr, howed⟩
  | cons d ds ih =>
    have hd : d.event.gap = false := hds d List.mem_cons_self
    have hr' : Reported exact resumed (history ++ [.delivered d]) := by
      apply hr.deliver
      · intro h
        rw [hd] at h
        cases h
      · intro he h
        rw [howed he] at h
        cases h
    have hstep := ih hr' (fun d hmem => hds d (List.mem_cons_of_mem _ hmem))
      (fun _ => owed_append ..)
    simpa using hstep

end

/-! ## No change is a gap -/

theorem changeEvents_gap {lib : Codec} {slot : String} {lsn : Lsn} {begin : Option (Nat × Int)}
    {relations : Relations} {change : Message} {events : List WatchEvent}
    (h : changeEvents lib slot lsn begin relations change = .ok events) :
    ∀ event ∈ events, event.gap = false := by
  cases change with
  | insert | update | delete =>
    obtain ⟨relation, -, hevents⟩ := bind_eq_ok.mp h
    cases hevents
    intro event hmem
    rw [List.mem_singleton.mp hmem]
    rfl
  | truncate oids cascade restartIdentity =>
    intro event hmem
    obtain ⟨oid, -, hevent⟩ := exists_of_mem_mapM h hmem
    obtain ⟨relation, -, hevent⟩ := bind_eq_ok.mp hevent
    cases hevent
    rfl
  | begin | commit | relation | other =>
    cases h
    simp

theorem peekLoop_gap {lib : Codec} {slot : String} {max : Nat} {p : Progress} {messages : Rows}
    {st : Peeking} {err : Option String}
    (h : peekLoop lib slot max { progress := p } messages = (st, err)) :
    ∀ d ∈ st.deliveries, d.event.gap = false := by
  intro d hd
  have hst : (peekLoop lib slot max { progress := p } messages).1 = st := by rw [h]
  rw [← hst] at hd
  obtain ⟨row, -, -, ⟨begin, relations, events, hev, hmem⟩, -⟩ := peekLoop_deliveries hd
  exact changeEvents_gap hev _ hmem

/-! ## Runs -/

/-- A watch, and the history of its slot and its deliveries: the watch's own, and the
creations that it did not learn of. -/
structure GapWorld where
  world : World
  history : List Happening := []

inductive GapAction where
  | step (a : Action)
  /-- `connect` creates the slot and fails, where the answer is lost. -/
  | createUnseen (slot : Slot)

/-- What a step has added to the history of a watch. -/
def World.since (w w' : World) : List Happening := w'.history.drop w.history.length

def GapWorld.next (lib : Codec) (g : GapWorld) : GapAction → Option GapWorld
  | .step a => (g.world.next lib a).map fun w => ⟨w, g.history ++ g.world.since w⟩
  | .createUnseen s => match g.world.phase, g.world.slot with
    | .idle, none =>
      if s.fresh then some ⟨{ g.world with slot := some s }, g.history ++ [.created]⟩ else none
    | _, _ => none

/-- The runs of a watch on slots whose transactions are `good`, with every way that
`connect` fails. -/
def gapMachine (lib : Codec) (good : List Txn → Prop) : Machine GapWorld GapAction where
  init g := g.world.Initial good ∧ g.history = []
  step g a g' := g.next lib a = some g' ∧
    ∀ s, a = .step (.create s) ∨ a = .createUnseen s → good s.txns

/-- The step is a `receive` that fails: at a read of the slot, or in the message
loop. -/
def World.receiveFails (lib : Codec) (w : World) : Action → Bool
  | .readFailed => true
  | .process => (w.next lib .process).any fun w' => w'.phase = .idle
  | _ => false

/-- The step is a `receive` that fails, or a `connect` that fails after the slot is
created. -/
def GapWorld.fails (lib : Codec) (g : GapWorld) : GapAction → Bool
  | .step a => g.world.receiveFails lib a
  | .createUnseen _ => true

theorem Step.appends {lib : Codec} {w w' : World} {a : Action} (h : Step lib w a w') :
    ∃ added, w'.history = w.history ++ added := by
  cases h with
  | connect | create | process | ack | release => exact ⟨_, rfl⟩
  | drop | commit | start | readFailed | readOn | read | processFailed | settle =>
    exact ⟨[], (List.append_nil _).symm⟩

/-- The deliveries of a `receive` under way, none between two. -/
def Phase.taken : Phase → Option (List Delivery)
  | .peeking _ _ out => some out
  | .read _ _ out => some out
  | .idle | .settling _ => none

/-- What the watch remembers of a gap: its flag, and during a `receive` the gap it
starts with. -/
structure GapWorld.Remembers (exact : Prop) (g : GapWorld) : Prop where
  reported : Reported exact g.world.cdc.resumed g.history
  flag : g.world.cdc.gap = true → owed g.world.cdc.resumed g.history = true
  taken : ∀ out, g.world.phase.taken = some out → g.world.cdc.gap = false ∧
    (out = [] ∨ out = [gapDelivery] ∧ owed g.world.cdc.resumed g.history = true)
  owed : exact → owed g.world.cdc.resumed g.history = true →
    g.world.cdc.gap = true ∨ g.world.phase.taken = some [gapDelivery]

section

variable {lib : Codec} {exact : Prop} {g : GapWorld} {w' : World}

/-- A step that adds nothing to the history. -/
theorem GapWorld.Remembers.of_eq (hg : g.Remembers exact)
    (hresumed : w'.cdc.resumed = g.world.cdc.resumed) (hgap : w'.cdc.gap = g.world.cdc.gap)
    (htaken : w'.phase.taken = g.world.phase.taken) :
    GapWorld.Remembers exact ⟨w', g.history⟩ := by
  refine ⟨?_, ?_, ?_, ?_⟩
  · rw [hresumed]
    exact hg.reported
  · rw [hgap, hresumed]
    exact hg.flag
  · rw [hgap, hresumed, htaken]
    exact hg.taken
  · rw [hgap, hresumed, htaken]
    exact hg.owed

/-- A step that adds what is no delivery and creates no slot. -/
theorem GapWorld.Remembers.happen (hg : g.Remembers exact)
    (hresumed : w'.cdc.resumed = g.world.cdc.resumed) (hgap : w'.cdc.gap = g.world.cdc.gap)
    (htaken : w'.phase.taken = g.world.phase.taken) {h : Happening}
    (hd : ∀ d, h ≠ .delivered d) (hc : h ≠ .created) :
    GapWorld.Remembers exact ⟨w', g.history ++ [h]⟩ := by
  have howed : Cdc.owed w'.cdc.resumed (g.history ++ [h]) =
      Cdc.owed w'.cdc.resumed g.history := by
    rw [owed_append]
    cases h with
    | created => exact absurd rfl hc
    | delivered d => exact absurd rfl (hd d)
    | connected | acked | released => rfl
  have hw := hg.of_eq hresumed hgap htaken
  refine ⟨hw.reported.snoc hd, ?_, ?_, ?_⟩
  · rw [howed]
    exact hw.flag
  · rw [howed]
    exact hw.taken
  · rw [howed]
    exact hw.owed

@[simp] theorem PostgresCdc.settle_resumed (cdc : PostgresCdc) (advanced : Except String Unit) :
    (cdc.settle advanced).1.resumed = cdc.resumed := by
  unfold PostgresCdc.settle
  split
  · rfl
  · split <;> rfl

@[simp] theorem PostgresCdc.settle_gap (cdc : PostgresCdc) (advanced : Except String Unit) :
    (cdc.settle advanced).1.gap = cdc.gap := by
  unfold PostgresCdc.settle
  split
  · rfl
  · split <;> rfl

/-- A `receive` that delivers: the gap it starts with, then changes. -/
theorem GapWorld.Remembers.processed (hg : g.Remembers exact) {out new : List Delivery}
    (hout : g.world.phase.taken = some out) (hnew : ∀ d ∈ new, d.event.gap = false) :
    Reported exact g.world.cdc.resumed (g.history ++ (out ++ new).map .delivered) ∧
      (exact → Cdc.owed g.world.cdc.resumed (g.history ++ (out ++ new).map .delivered) = false) := by
  obtain ⟨hgap, rfl | ⟨rfl, howed⟩⟩ := hg.taken out hout
  · -- nothing taken: in an exact run nothing is owed either
    refine hg.reported.changes hnew fun he => ?_
    rw [Bool.eq_false_iff]
    intro howed
    rcases hg.owed he howed with h | h
    · rw [hgap] at h
      cases h
    · rw [hout] at h
      cases h
  · rw [List.map_append, ← List.append_assoc]
    refine Reported.changes (hg.reported.deliver ?_ ?_) hnew fun _ => owed_append ..
    · exact fun _ => ⟨rfl, howed⟩
    · exact fun _ _ => rfl

/-- A creation, which the watch learns of or, in a run that is not exact, does not. -/
theorem GapWorld.Remembers.create (hg : g.Remembers exact) (hphase : g.world.phase = .idle)
    (hresumed : w'.cdc.resumed = g.world.cdc.resumed) (hphase' : w'.phase = .idle)
    (hgap : w'.cdc.gap = true → g.world.cdc.gap = true ∨ g.world.cdc.resumed = true)
    (hseen : exact → w'.cdc.gap = (g.world.cdc.gap || g.world.cdc.resumed)) :
    GapWorld.Remembers exact ⟨w', g.history ++ [.created]⟩ := by
  have hnone : g.world.phase.taken = none := by rw [hphase]; rfl
  have howed : Cdc.owed w'.cdc.resumed (g.history ++ [.created]) =
      (Cdc.owed g.world.cdc.resumed g.history || g.world.cdc.resumed) := by
    rw [owed_append, hresumed]
    rfl
  refine ⟨?_, ?_, ?_, ?_⟩
  · rw [hresumed]
    exact hg.reported.snoc fun d hd => by cases hd
  · intro h
    rw [howed, Bool.or_eq_true]
    exact (hgap h).imp_left hg.flag
  · intro out hout
    rw [hphase'] at hout
    cases hout
  · intro he h
    left
    rw [howed, Bool.or_eq_true] at h
    show w'.cdc.gap = true
    rw [hseen he, Bool.or_eq_true]
    refine h.imp_left fun h => (hg.owed he h).resolve_right fun htaken => ?_
    rw [hnone] at htaken
    cases htaken

theorem Step.remembers {a : Action} {added : List Happening} (h : Step lib g.world a w')
    (hadded : w'.history = g.world.history ++ added) (hg : g.Remembers exact)
    (hok : exact → g.world.receiveFails lib a = false) (hnext : g.world.next lib a = some w') :
    GapWorld.Remembers exact ⟨w', g.history ++ added⟩ := by
  -- what a step adds is what it appends to the history of the watch
  have hnew {new : List Happening} (hw : w'.history = g.world.history ++ new) : added = new :=
    List.append_cancel_left (hadded.symm.trans hw)
  have hnone (hw : w'.history = g.world.history) : added = [] :=
    hnew (hw.trans (List.append_nil _).symm)
  cases h with
  | connect hp hs =>
    obtain rfl := hnew rfl
    refine hg.happen ?_ ?_ ?_ ?_ ?_
    · rfl
    · simp [PostgresCdc.connected]
    · rfl
    · intro d hd; cases hd
    · intro hc; cases hc
  | create hp hs hf =>
    obtain rfl := hnew rfl
    refine hg.create hp rfl hp ?_ ?_
    · simp [PostgresCdc.connected]
    · simp [PostgresCdc.connected]
  | drop | commit =>
    obtain rfl := hnone rfl
    rw [List.append_nil]
    exact hg.of_eq rfl rfl rfl
  | start hp hpool =>
    obtain rfl := hnone rfl
    rw [List.append_nil]
    have htaken : g.world.phase.taken = none := by rw [hp]; rfl
    refine ⟨hg.reported, ?_, ?_, ?_⟩
    · intro h; cases h
    · intro out hout
      cases hout
      refine ⟨rfl, ?_⟩
      cases hgap : g.world.cdc.gap with
      | false => exact .inl rfl
      | true => exact .inr ⟨rfl, hg.flag hgap⟩
    · intro he howed
      right
      rcases hg.owed he howed with h | h
      · show some _ = some _
        rw [if_pos h]
      · rw [htaken] at h; cases h
  | readFailed hp =>
    obtain rfl := hnone rfl
    rw [List.append_nil]
    refine ⟨hg.reported, hg.flag, ?_, ?_⟩
    · intro out hout; cases hout
    · intro he
      cases hok he
  | readOn hp hs ho =>
    obtain rfl := hnone rfl
    rw [List.append_nil]
    refine hg.of_eq rfl rfl ?_
    rw [hp]
    rfl
  | read hp hs ho =>
    obtain rfl := hnone rfl
    rw [List.append_nil]
    refine hg.of_eq rfl rfl ?_
    rw [hp]
    rfl
  | @process max messages out st hp hl =>
    obtain rfl := hnew rfl
    have hout : g.world.phase.taken = some out := by rw [hp]; rfl
    obtain ⟨hreported, howed⟩ := hg.processed hout (peekLoop_gap hl)
    have hgap := (hg.taken out hout).1
    refine ⟨hreported, ?_, ?_, ?_⟩
    · intro h
      rw [show g.world.cdc.gap = true from h] at hgap
      cases hgap
    · intro out hout; cases hout
    · intro he h
      rw [howed he] at h
      cases h
  | processFailed hp hl =>
    obtain rfl := hnone rfl
    rw [List.append_nil]
    refine ⟨hg.reported, hg.flag, ?_, ?_⟩
    · intro out hout; cases hout
    · intro he
      have hfails := hok he
      rw [World.receiveFails, hnext] at hfails
      cases hfails
  | settle hp =>
    obtain rfl := hnone rfl
    rw [List.append_nil]
    refine hg.of_eq (PostgresCdc.settle_resumed ..) (PostgresCdc.settle_gap ..) ?_
    rw [hp]
    rfl
  | @ack receipt =>
    obtain rfl := hnew rfl
    have hcdc : (g.world.cdc.ack receipt).resumed = g.world.cdc.resumed ∧
        (g.world.cdc.ack receipt).gap = g.world.cdc.gap := by
      unfold PostgresCdc.ack
      split <;> exact ⟨rfl, rfl⟩
    refine hg.happen ?_ ?_ ?_ ?_ ?_
    · exact hcdc.1
    · exact hcdc.2
    · rfl
    · intro d hd; cases hd
    · intro hc; cases hc
  | @release receipt =>
    obtain rfl := hnew rfl
    have hcdc : (g.world.cdc.release receipt).resumed = g.world.cdc.resumed ∧
        (g.world.cdc.release receipt).gap = g.world.cdc.gap := by
      unfold PostgresCdc.release
      split <;> exact ⟨rfl, rfl⟩
    refine hg.happen ?_ ?_ ?_ ?_ ?_
    · exact hcdc.1
    · exact hcdc.2
    · rfl
    · intro d hd; cases hd
    · intro hc; cases hc

theorem GapWorld.next_remembers {a : GapAction} {g' : GapWorld} (hnext : g.next lib a = some g')
    (hg : g.Remembers exact) (hok : exact → g.fails lib a = false) : g'.Remembers exact := by
  cases a with
  | step a =>
    obtain ⟨w', hw', rfl⟩ := Option.map_eq_some_iff.mp hnext
    have hstep := Step.of_next hw'
    obtain ⟨added, hadded⟩ := hstep.appends
    have hsince : g.world.since w' = added := by rw [World.since, hadded, List.drop_left]
    rw [hsince]
    exact hstep.remembers hadded hg hok hw'
  | createUnseen s =>
    simp only [GapWorld.next] at hnext
    split at hnext
    · rename_i hp hs
      split at hnext
      · cases hnext
        refine hg.create hp rfl hp .inl fun he => ?_
        cases hok he
      · cases hnext
    · cases hnext

end

theorem reach_remembers {lib : Codec} {good : List Txn → Prop} {ok : GapWorld → GapAction → Prop}
    {g : GapWorld} (h : (gapMachine lib good).Reach ok g) :
    g.Remembers (∀ g a, ok g a → g.fails lib a = false) := by
  refine h.invariant (fun {g} h₀ => ?_) fun {g a g'} ha hst hg =>
    GapWorld.next_remembers hst.1 hg fun hexact => hexact g a ha
  obtain ⟨hinitial, hhistory⟩ := h₀
  have howed : owed g.world.cdc.resumed g.history = false := by rw [hhistory]; rfl
  refine ⟨?_, ?_, ?_, ?_⟩
  · rw [hhistory]
    exact .nil
  · rw [hinitial.gap]
    intro h; cases h
  · rw [hinitial.phase]
    intro out hout; cases hout
  · rw [howed]
    intro _ h; cases h

/-- In every run each gap that is delivered was owed, and in a run where no
`receive` fails and no `connect` that has created the slot, each delivery made
while a gap is owed is that gap. A watch that started without a cursor reports no
gap, also for a slot lost since. -/
theorem gaps_reported (lib : Codec) (good : List Txn → Prop) (ok : GapWorld → GapAction → Prop)
    (g : GapWorld) (h : (gapMachine lib good).Reach ok g) :
    Reported (∀ g a, ok g a → g.fails lib a = false) g.world.cdc.resumed g.history ∧
      (g.world.cdc.resumed = false → ∀ d ∈ deliveries g.history, d.event.gap = false) := by
  have hreported := (reach_remembers h).reported
  refine ⟨hreported, fun hfresh d hd => ?_⟩
  obtain ⟨before, after, hsplit⟩ := List.append_of_mem (mem_deliveries.mp hd)
  rw [Bool.eq_false_iff]
  intro hgap
  have howed := ((hreported before d after hsplit).1 hgap).2
  rw [hfresh, owed_fresh] at howed
  cases howed

/-- A watch that resumes after its slot was lost. -/
def resumedWorld : World where
  cdc := { sampleCdc with pool := false, resumed := true, gap := false }
  slot := none

theorem resumedWorld_initial : resumedWorld.Initial fun _ => True where
  pool := rfl
  progress := rfl
  gap := rfl
  unadvanced := rfl
  phase := rfl
  history := rfl
  slot := by intro s hs; cases hs

/-- The first change of the slot is read. -/
def firstRead : List GapAction :=
  [.step .commit, .step (.start 10), .step (.read (sampleOutput 100 [90])), .step .process]

def GapWorld.run (actions : List GapAction) : Option GapWorld :=
  Machine.run (GapWorld.next sampleCodec) ⟨resumedWorld, []⟩ actions

/-- The slot is created again: the gap comes before the insert at 90. -/
theorem resumed_gap_reported : ∃ g : GapWorld,
    (deliveries g.history).map (fun d => d.event.gap) = [true, false] ∧
    Reported True g.world.cdc.resumed g.history := by
  obtain ⟨g, hrun, hgaps⟩ : ∃ g ∈ GapWorld.run (.step (.create sampleSlot) :: firstRead),
      (deliveries g.history).map (fun d => d.event.gap) = [true, false] := by
    decide
  have hinit : (gapMachine sampleCodec fun _ => True).Reach
      (fun g a => g.fails sampleCodec a = false) ⟨resumedWorld, []⟩ :=
    .init ⟨resumedWorld_initial, rfl⟩
  have h := hinit.along (fun _ h => ⟨h, fun _ _ => trivial⟩) (by decide) hrun
  have hreported := (gaps_reported sampleCodec (fun _ => True) _ g h).1
  exact ⟨g, hgaps, by simpa using hreported⟩

/-- Where the answer to the creation is lost, the next `connect` finds the slot and the gap
that is owed is not reported. -/
example : ∃ g ∈ GapWorld.run (.createUnseen sampleSlot :: .step .connect :: firstRead),
    (deliveries g.history).map (fun d => d.event.gap) = [false] ∧
    owed g.world.cdc.resumed (g.history.take 2) = true := by
  decide

end McpgSql.Cdc
