import Mathlib.Data.List.Forall2
import Mathlib.Data.List.Find
import Mathlib.Data.List.Infix
import McpgSql.Cdc.Failure

/-!
# What a peek delivers of the slot's output

A peek reads the output up to the Commit at or past its row limit (`peekRows`), with a
limit four times as large until the read holds `max` new changes or the output ends.
The limit counts rows of every kind and the budget counts changes, so a peek may end
its reads at any limit. Where every change is one event it delivers the first `max`
new changes of the largest read all the same (`peek_fills_window`):

* `peekRows_mono`: a longer read continues a shorter one;
* `peekReads_last`: the read that is taken is enough;
* `enough_take`: the first `max` new changes of an enough read are those of the
  largest one;
* `peekLoop_fills`: the message loop delivers the first `max` new changes of a read.
-/

namespace McpgSql.Cdc

open Library

/-! ## The reads -/

/-- The rows end at a Commit. -/
def endsAtCommit (rows : Rows) : Bool :=
  match rows.getLast? with
  | some (_, .commit _) => true
  | _ => false

/-- What the slot answers to a peek of `limit` rows: the shortest part of its output
that ends at a Commit and has `limit` rows, or all of it. -/
def peekRows (output : Rows) (limit : Nat) : Rows :=
  (output.inits.find? fun rows => decide (limit ≤ rows.length) && endsAtCommit rows).getD output

@[simp] theorem peekRows_nil (limit : Nat) : peekRows [] limit = [] := by
  simp [peekRows, endsAtCommit]

/-- One row: it ends the read, or the read goes on with one row less to find. -/
theorem peekRows_cons (row : Lsn × Message) (output : Rows) (limit : Nat) :
    peekRows (row :: output) limit =
      if limit ≤ 1 ∧ endsAtCommit [row] = true then [row]
      else row :: peekRows output (limit - 1) := by
  obtain ⟨rest, hinits, hrest⟩ : ∃ rest, output.inits = [] :: rest ∧ ∀ rows ∈ rest, rows ≠ [] := by
    cases output with
    | nil => exact ⟨[], rfl, by simp⟩
    | cons first output => exact ⟨_, List.inits_cons first output, by simp⟩
  have hmore : ∀ rows ∈ rest,
      (decide (limit ≤ (row :: rows).length) && endsAtCommit (row :: rows)) =
        (decide (limit - 1 ≤ rows.length) && endsAtCommit rows) := by
    intro rows hrows
    obtain ⟨first, rows, rfl⟩ := List.exists_cons_of_ne_nil (hrest rows hrows)
    rw [endsAtCommit, List.getLast?_cons_cons, List.length_cons]
    congr 1
    rw [decide_eq_decide]
    omega
  have hnil : endsAtCommit [] = false := rfl
  unfold peekRows
  rw [List.inits_cons, hinits, List.map_cons, List.find?_cons_of_neg (by simp [hnil]),
    List.find?_cons, List.find?_cons_of_neg (by simp [hnil]), List.find?_map,
    Function.comp_def, List.find?_congr hmore]
  split
  · rename_i hends
    rw [if_pos (by simpa using hends)]
    rfl
  · rename_i hgoes
    rw [if_neg (by simpa using hgoes)]
    cases rest.find? fun rows => decide (limit - 1 ≤ rows.length) && endsAtCommit rows <;> rfl

theorem peekRows_prefix_output (output : Rows) (limit : Nat) : peekRows output limit <+: output := by
  induction output generalizing limit with
  | nil => rw [peekRows_nil]
  | cons row output ih =>
    rw [peekRows_cons]
    split
    · exact List.prefix_append [row] output
    · exact List.prefix_cons_inj row |>.mpr (ih _)

/-- A longer read continues a shorter one. -/
theorem peekRows_mono (output : Rows) {limit limit' : Nat} (h : limit ≤ limit') :
    peekRows output limit <+: peekRows output limit' := by
  induction output generalizing limit limit' with
  | nil => rw [peekRows_nil, peekRows_nil]
  | cons row output ih =>
    rw [peekRows_cons, peekRows_cons]
    split
    · split
      · exact List.prefix_refl _
      · exact List.prefix_append [row] _
    · rename_i hlong
      rw [if_neg fun hshort => hlong ⟨h.trans hshort.1, hshort.2⟩]
      exact List.prefix_cons_inj row |>.mpr (ih (by omega))

/-- A read of fewer rows than its limit is the whole output. -/
theorem peekRows_short {output : Rows} {limit : Nat} (h : (peekRows output limit).length < limit) :
    peekRows output limit = output := by
  induction output generalizing limit with
  | nil => exact peekRows_nil limit
  | cons row output ih =>
    rw [peekRows_cons] at h ⊢
    split at h
    · rename_i hcommit
      rw [List.length_singleton] at h
      omega
    · rename_i hlong
      rw [List.length_cons] at h
      rw [if_neg hlong, ih (by omega)]

/-- The reads end with one that is enough. -/
theorem peekReads_last (p : Progress) (output : Rows) (max : Nat) (limit : PeekLimit) :
    ∃ last : PeekLimit, p.peekEnough max last (peekRows output last.1) = true ∧
      peekReads p (fun limit => .ok (peekRows output limit.1)) max limit =
        .ok (peekRows output last.1) := by
  fun_induction peekReads p (fun limit => .ok (peekRows output limit.1)) max limit with
  | case1 limit e he => cases he
  | case2 limit messages hread henough =>
    cases hread
    exact ⟨limit, henough, rfl⟩
  | case3 limit messages hread hmore ih => exact ih

/-! ## The changes of a read -/

/-- A change, with its events as the messages before it make them. -/
structure Change where
  lsn : Lsn
  events : Except String (List WatchEvent)

/-- The change is neither consumed nor in flight. -/
def Progress.isFresh (p : Progress) (change : Change) : Bool :=
  p.consumed ≤ change.lsn && change.lsn ∉ p.delivered

/-- The delivery is of the change's one event and settles it. -/
def Delivers (change : Change) (delivery : Delivery) : Prop :=
  change.events = .ok [delivery.event] ∧ delivery.receipt = receiptOf change.lsn

section

variable (lib : Codec) (slot : String)

/-- The changes of `rows` after a Begin and some relations. -/
def changesFrom : Option (Nat × Int) → Relations → Rows → List Change
  | _, _, [] => []
  | _, relations, (_, .begin _ commitTimeMicros xid) :: rows =>
    changesFrom (some (xid, commitTimeMicros)) relations rows
  | begin, relations, (_, .commit _) :: rows => changesFrom begin relations rows
  | begin, relations, (_, .relation oid relation) :: rows =>
    changesFrom begin (relations.insert oid relation) rows
  | begin, relations, (_, .other) :: rows => changesFrom begin relations rows
  | begin, relations, (lsn, change) :: rows =>
    ⟨lsn, changeEvents lib slot lsn begin relations change⟩ :: changesFrom begin relations rows

/-- The changes of a decoding session's rows. -/
def changesOf (rows : Rows) : List Change := changesFrom lib slot none .empty rows

variable {lib slot}

theorem changesFrom_change {message : Message} (h : message.isChange = true)
    (begin : Option (Nat × Int)) (relations : Relations) (lsn : Lsn) (rows : Rows) :
    changesFrom lib slot begin relations ((lsn, message) :: rows) =
      ⟨lsn, changeEvents lib slot lsn begin relations message⟩ ::
        changesFrom lib slot begin relations rows := by
  cases message with
  | insert | update | delete | truncate => rfl
  | begin | commit | relation | other => cases h

theorem changesFrom_mono {front rows : Rows} (h : front <+: rows) (begin : Option (Nat × Int))
    (relations : Relations) :
    changesFrom lib slot begin relations front <+: changesFrom lib slot begin relations rows := by
  obtain ⟨back, rfl⟩ := h
  induction front generalizing begin relations with
  | nil => exact List.nil_prefix
  | cons row front ih =>
    obtain ⟨lsn, message⟩ := row
    cases message with
    | begin l t x => exact ih ..
    | commit e => exact ih ..
    | relation oid r => exact ih ..
    | other => exact ih ..
    | insert | update | delete | truncate => exact (List.prefix_cons_inj _).mpr (ih ..)

/-- `new_changes` counts the changes that are fresh. -/
theorem newChanges_eq (p : Progress) (begin : Option (Nat × Int)) (relations : Relations)
    (rows : Rows) :
    p.newChanges rows = ((changesFrom lib slot begin relations rows).filter p.isFresh).length := by
  induction rows generalizing begin relations with
  | nil => rfl
  | cons row rows ih =>
    obtain ⟨lsn, message⟩ := row
    unfold Progress.newChanges at ih ⊢
    by_cases hc : message.isChange = true
    · have hnew : p.isNew (lsn, message) =
          p.isFresh ⟨lsn, changeEvents lib slot lsn begin relations message⟩ := by
        simp only [Progress.isNew, Progress.isFresh, hc, Bool.true_and]
      rw [changesFrom_change hc, List.countP_cons, List.filter_cons, hnew, ih begin relations]
      split <;> rfl
    · rw [List.countP_cons_of_neg (by simp [Progress.isNew, hc])]
      cases message with
      | begin l t x => exact ih ..
      | commit e => exact ih ..
      | relation oid r => exact ih ..
      | other => exact ih ..
      | insert | update | delete | truncate => exact absurd rfl hc

/-- The first `max` new changes of a read that is enough are those of the largest one. -/
theorem enough_take {p : Progress} {output : Rows} {max : Nat} {limit : PeekLimit}
    (h : p.peekEnough max limit (peekRows output limit.1) = true) :
    ((changesOf lib slot (peekRows output limit.1)).filter p.isFresh).take max =
      ((changesOf lib slot (peekRows output maxPeekRows)).filter p.isFresh).take max := by
  have hmono := peekRows_mono output limit.2.2
  simp only [Progress.peekEnough, Bool.or_eq_true, decide_eq_true_eq] at h
  obtain (hshort | hlast) | hmax := h
  · -- the whole output was read
    have hall := peekRows_short hshort
    rw [hall] at hmono ⊢
    rw [(peekRows_prefix_output output maxPeekRows).eq_of_length_le hmono.length_le]
  · rw [hlast]
  · have hpre : changesOf lib slot (peekRows output limit.1) <+:
        changesOf lib slot (peekRows output maxPeekRows) := changesFrom_mono hmono none .empty
    obtain ⟨more, hmore⟩ := hpre.filter p.isFresh
    rw [← hmore, List.take_append_of_le_length]
    rwa [changesOf, ← newChanges_eq]

/-! ## The loop -/

theorem isFresh_congr {p p' : Progress} (hd : p'.delivered = p.delivered)
    (hc : p'.consumed = p.consumed) : p'.isFresh = p.isFresh := by
  funext change
  rw [Progress.isFresh, Progress.isFresh, hd, hc]

/-- A delivery leaves every other change as it was. -/
theorem filter_isFresh_deliver {p : Progress} {lsn : Lsn} {changes : List Change}
    (h : lsn ∉ changes.map Change.lsn) :
    changes.filter (p.deliver lsn).isFresh = changes.filter p.isFresh := by
  refine List.filter_congr fun change hmem => ?_
  have hne : change.lsn ≠ lsn := fun heq => h (List.mem_map.mpr ⟨change, hmem, heq⟩)
  rw [Bool.eq_iff_iff]
  simp only [Progress.isFresh, Bool.and_eq_true, decide_eq_true_eq]
  simp [Progress.deliver, hne]

/-- A change is passed over when it is not fresh or the budget is spent. -/
theorem skips_eq_false_iff (st : Peeking) (max : Nat) (change : Change) :
    st.skips max change.lsn = false ↔
      st.progress.isFresh change = true ∧ st.deliveries.length < max := by
  simp only [Peeking.skips, Progress.isFresh, Bool.or_eq_false_iff, Bool.and_eq_true,
    decide_eq_true_eq, decide_eq_false_iff_not, not_lt, not_le]

/-- Over changes of one event each the loop delivers the first fresh ones, as many as
the budget has left. -/
theorem peekLoop_fills (max : Nat) (messages : Rows) (st : Peeking)
    (hone : ∀ change ∈ changesFrom lib slot st.begin st.relations messages,
      ∃ event, change.events = .ok [event])
    (hdistinct : ((changesFrom lib slot st.begin st.relations messages).map Change.lsn).Nodup) :
    ∃ st' new, peekLoop lib slot max st messages = (st', none) ∧
      st'.deliveries = st.deliveries ++ new ∧
      List.Forall₂ Delivers (((changesFrom lib slot st.begin st.relations messages).filter
        st.progress.isFresh).take (max - st.deliveries.length)) new := by
  induction messages generalizing st with
  | nil => exact ⟨st, [], rfl, by simp, by simp [changesFrom]⟩
  | cons row messages ih =>
    obtain ⟨lsn, message⟩ := row
    rw [peekLoop_cons]
    by_cases hc : message.isChange = true
    · rw [changesFrom_change hc] at hone hdistinct
      obtain ⟨hlsn, hdistinct⟩ := List.nodup_cons.mp hdistinct
      obtain ⟨⟨event, hevent⟩, hone⟩ := List.forall_mem_cons.mp hone
      replace hevent : changeEvents lib slot lsn st.begin st.relations message = .ok [event] := hevent
      have hskips := skips_eq_false_iff st max ⟨lsn, .ok [event]⟩
      rw [changesFrom_change hc, peekMessage_change hc, peekChange, hevent]
      cases hs : st.skips max lsn with
      | true =>
        obtain ⟨st', new, hloop, hnew, hall⟩ :=
          ih { st with transaction := st.transaction ++ [lsn] } hone hdistinct
        refine ⟨st', new, hloop, hnew, ?_⟩
        simp only [hs, Bool.true_eq_false, false_iff, not_and, not_lt] at hskips
        rw [List.filter_cons]
        split
        · rename_i hfresh
          rw [Nat.sub_eq_zero_of_le (hskips hfresh)] at hall ⊢
          exact hall
        · exact hall
      | false =>
        obtain ⟨hfresh, hbudget⟩ := hskips.mp hs
        obtain ⟨st', new, hloop, hnew, hall⟩ := ih { st with
          transaction := st.transaction ++ [lsn]
          progress := st.progress.deliver lsn
          deliveries := st.deliveries ++ deliveriesOf lsn [event] } hone hdistinct
        refine ⟨st', deliveriesOf lsn [event] ++ new, hloop, ?_, ?_⟩
        · rw [hnew, List.append_assoc]
        · have hleft : max - st.deliveries.length = max - (st.deliveries.length + 1) + 1 := by omega
          rw [filter_isFresh_deliver hlsn] at hall
          rw [List.filter_cons_of_pos hfresh, hleft, List.take_succ_cons]
          exact .cons ⟨rfl, rfl⟩ (by simpa [deliveriesOf] using hall)
    · cases message with
      | begin l t x => exact ih _ hone hdistinct
      | commit e =>
        have hfresh : (st.progress.register e st.transaction).isFresh = st.progress.isFresh :=
          isFresh_congr (Progress.register_delivered ..) (Progress.register_consumed ..)
        obtain ⟨st', new, hloop, hnew, hall⟩ := ih { st with
          progress := st.progress.register e st.transaction, transaction := [] } hone hdistinct
        rw [hfresh] at hall
        exact ⟨st', new, hloop, hnew, hall⟩
      | relation oid r => exact ih _ hone hdistinct
      | other => exact ih _ hone hdistinct
      | insert | update | delete | truncate => exact absurd rfl hc

end

/-- For every output, progress and budget the reads end; and where every change is one
event, the peek delivers the first `max` of the changes in the largest read that are
neither consumed nor in flight, in their order. It delivers nothing only where there
are none. -/
theorem peek_fills_window (lib : Codec) (cdc : PostgresCdc) (output : Rows) (max : Nat)
    (hmax : 1 ≤ max) (hdistinct : ((changesOf lib cdc.slot output).map Change.lsn).Nodup) :
    ∃ messages,
      peekReads cdc.progress (fun limit => .ok (peekRows output limit.1)) max
        (cdc.progress.peekLimit max) = .ok messages ∧
      ((∀ change ∈ changesOf lib cdc.slot output, ∃ event, change.events = .ok [event]) →
        let new := (changesOf lib cdc.slot (peekRows output maxPeekRows)).filter
          cdc.progress.isFresh
        ∃ deliveries, (cdc.process lib max messages).2 = .ok deliveries ∧
          List.Forall₂ Delivers (new.take max) deliveries ∧ (deliveries = [] → new = [])) := by
  obtain ⟨last, henough, hreads⟩ :=
    peekReads_last cdc.progress output max (cdc.progress.peekLimit max)
  refine ⟨_, hreads, fun hone => ?_⟩
  have hpre : changesOf lib cdc.slot (peekRows output last.1) <+: changesOf lib cdc.slot output :=
    changesFrom_mono (peekRows_prefix_output output last.1) none .empty
  obtain ⟨st, new, hloop, hnew, hall⟩ := peekLoop_fills max (peekRows output last.1)
    { progress := cdc.progress } (fun change hmem => hone change (hpre.subset hmem))
    (hdistinct.sublist (hpre.sublist.map Change.lsn))
  have hprocess : (cdc.process lib max (peekRows output last.1)).2 = .ok new := by
    rw [PostgresCdc.process, hloop]
    exact congrArg Except.ok hnew
  replace hall : List.Forall₂ Delivers (((changesOf lib cdc.slot (peekRows output maxPeekRows)).filter
      cdc.progress.isFresh).take max) new := enough_take henough ▸ hall
  refine ⟨new, hprocess, hall, fun hnil => ?_⟩
  rw [hnil, List.forall₂_nil_right_iff, List.take_eq_nil_iff] at hall
  exact hall.resolve_left (by omega)

/-- Two transactions of one insert each. -/
def sampleTwoInserts : Rows :=
  [(10, .begin 20 0 742), (10, .relation 16384 sampleRelation), (10, .insert 16384 [.text "a"]),
    (20, .commit 20), (30, .begin 40 0 743), (30, .insert 16384 [.text "b"]), (40, .commit 40)]

/-- The first insert is in flight, so the first read ends before the second one: a longer
one finds it. -/
theorem second_insert_delivered :
    ∃ messages delivery,
      peekReads { delivered := {10} } (fun limit => .ok (peekRows sampleTwoInserts limit.1)) 1
        (Progress.peekLimit { delivered := {10} } 1) = .ok messages ∧
      (({ sampleCdc with progress := { delivered := {10} } } : PostgresCdc).process sampleCodec 1
        messages).2 = .ok [delivery] ∧ delivery.receipt = receiptOf 30 := by
  obtain ⟨messages, hreads, hdelivers⟩ := peek_fills_window sampleCodec
    { sampleCdc with progress := { delivered := {10} } } sampleTwoInserts 1 le_rfl (by decide)
  obtain ⟨deliveries, hprocess, hall, -⟩ := hdelivers fun change hmem => by
    rcases List.mem_cons.mp hmem with rfl | hmem
    · exact ⟨_, rfl⟩
    · obtain rfl := List.mem_singleton.mp hmem
      exact ⟨_, rfl⟩
  have hwhole : peekRows sampleTwoInserts maxPeekRows = sampleTwoInserts :=
    peekRows_short ((peekRows_prefix_output ..).length_le.trans_lt (by decide))
  rw [hwhole] at hall
  obtain ⟨delivery, rest, ⟨-, hreceipt⟩, hrest, rfl⟩ := List.forall₂_cons_left_iff.mp hall
  cases hrest
  exact ⟨messages, delivery, hreads, hprocess, hreceipt⟩

end McpgSql.Cdc
