import McpgSql.Driver.MysqlVars
import McpgSql.Execute.Charges

/-!
# The result sets of a procedure

A procedure yields its result sets one after the other, each closed by a boundary, and a
last boundary for the call. `execute_multi_result` cuts the stream at its boundaries and
leaves out sets without rows, whether they are last or not; the response cuts rows off
beyond `max_rows` and keeps every set it was given in its place.

`keepsShape_iff`: the response has the procedure's sets in their places exactly where none
of them is empty.
-/

namespace McpgSql.Driver

open Library McpgSql.Execute

/-! ## The stream -/

/-- What `fetch_many` yields of a call with these result sets. -/
def callStream (sets : List (List Value)) : List StreamItem :=
  sets.flatMap (fun set => set.map .row ++ [.boundary]) ++ [.boundary]

theorem resultSets_rows (set : List Value) (items : List StreamItem) (current : List Value) :
    resultSets (set.map .row ++ items) current = resultSets items (current ++ set) := by
  induction set generalizing current with
  | nil => rw [List.map_nil, List.nil_append, List.append_nil]
  | cons row set ih =>
    rw [List.map_cons, List.cons_append, resultSets, ih, List.append_assoc, List.singleton_append]

/-- The driver gives the sets that have rows. -/
theorem resultSets_callStream (sets : List (List Value)) :
    resultSets (callStream sets) [] = sets.filter fun set => !set.isEmpty := by
  induction sets with
  | nil => rfl
  | cons set sets ih =>
    have hsplit : callStream (set :: sets) = set.map .row ++ .boundary :: callStream sets := by
      simp only [callStream, List.flatMap_cons, List.append_assoc, List.cons_append, List.nil_append]
    rw [hsplit, resultSets_rows, List.nil_append, resultSets, ih]
    cases set with
    | nil => rfl
    | cons row set => rfl

/-! ## The response -/

/-- The cut sets are the first rows of all sets. -/
theorem cutSets_flatten (remaining : Nat) (sets : List (List Value)) :
    (cutSets remaining sets).flatten = sets.flatten.take remaining := by
  induction sets generalizing remaining with
  | nil => simp [cutSets]
  | cons set sets ih =>
    rw [cutSets, List.flatten_cons, List.take_append]
    split
    · rename_i h
      rw [List.flatten_cons, ih, List.take_of_length_le h]
    · rename_i h
      rw [List.flatten_cons, ih, show remaining - set.length = 0 by omega]

/-- Every set is in its place, cut or not. -/
theorem cutSets_prefix (remaining : Nat) (sets : List (List Value)) :
    List.Forall₂ (fun set given => given <+: set) sets (cutSets remaining sets) := by
  induction sets generalizing remaining with
  | nil => exact .nil
  | cons set sets ih =>
    rw [cutSets]
    split
    · exact .cons (List.prefix_refl set) (ih _)
    · exact .cons (List.take_prefix remaining set) (ih 0)

section

variable (rt : Runtime)

/-- The sets of the response. -/
def givenSets (sets : List (List Value)) : List (List Value) :=
  if (sets.map List.length).sum > rt.maxRows then cutSets rt.maxRows sets else sets

theorem setsPayload_eq (sets : List (List Value)) : setsPayload rt sets =
    (.object [("result_sets", .arr ((givenSets rt sets).map .arr)),
      ("truncated", .bool ((sets.map List.length).sum > rt.maxRows))],
      decide ((sets.map List.length).sum > rt.maxRows)) := by
  simp only [setsPayload, givenSets, decide_eq_true_eq]

/-- The response has an array for each set in its place, which are the first rows of all
sets together, and says whether rows were cut off. -/
def KeepsShape (sets : List (List Value)) (response : Value) : Prop :=
  ∃ given, response.get "result_sets" = some (.arr (given.map .arr)) ∧
    List.Forall₂ (fun set part => part <+: set) sets given ∧
    given.flatten = sets.flatten.take (min (sets.map List.length).sum rt.maxRows) ∧
    response.get "truncated" = some (.bool ((sets.map List.length).sum > rt.maxRows))

/-- The response to a call that yields these sets. -/
def callResponse (sets : List (List Value)) : Value :=
  (setsPayload rt (resultSets (callStream sets) [])).1

theorem callResponse_get (sets : List (List Value)) :
    (callResponse rt sets).get "result_sets" =
        some (.arr ((givenSets rt (sets.filter fun set => !set.isEmpty)).map .arr)) ∧
      (callResponse rt sets).get "truncated" =
        some (.bool (((sets.filter fun set => !set.isEmpty).map List.length).sum > rt.maxRows)) := by
  rw [callResponse, resultSets_callStream, setsPayload_eq]
  simp [Value.object, Value.get, Assoc.ofList, Assoc.get?_insert]

theorem givenSets_prefix (sets : List (List Value)) :
    List.Forall₂ (fun set part => part <+: set) sets (givenSets rt sets) := by
  unfold givenSets
  split
  · exact cutSets_prefix _ _
  · exact List.forall₂_same.mpr fun set _ => List.prefix_refl set

theorem givenSets_flatten (sets : List (List Value)) : (givenSets rt sets).flatten =
    sets.flatten.take (min (sets.map List.length).sum rt.maxRows) := by
  unfold givenSets
  split
  · rename_i h
    rw [cutSets_flatten, min_eq_right h.le]
  · rename_i h
    rw [min_eq_left (not_lt.mp h), List.take_of_length_le (List.length_flatten ▸ Nat.le_refl _)]

end

/-- The response keeps the shape of the procedure's result sets iff each of them has a
row. -/
theorem keepsShape_iff (rt : Runtime) (sets : List (List Value)) :
    KeepsShape rt sets (callResponse rt sets) ↔ ∀ set ∈ sets, set ≠ [] := by
  obtain ⟨hsets, htruncated⟩ := callResponse_get rt sets
  have hall : (∀ set ∈ sets, set ≠ []) ↔ (sets.filter fun set => !set.isEmpty) = sets := by
    rw [List.filter_eq_self]
    simp
  constructor
  · rintro ⟨given, hgiven, hparts, -, -⟩
    rw [hsets] at hgiven
    have hmap := Value.arr.inj (Option.some.inj hgiven)
    have hlength := congrArg List.length hmap
    rw [List.length_map, List.length_map, ← hparts.length_eq,
      ← ( givenSets_prefix rt _).length_eq] at hlength
    exact hall.mpr (List.filter_sublist.eq_of_length hlength)
  · intro hne
    rw [hall.mp hne] at hsets htruncated
    exact ⟨_, hsets, givenSets_prefix rt sets, givenSets_flatten rt sets, htruncated⟩

/-- A procedure with an empty result set between two others: the last one takes its
place. -/
theorem emptySet_dropped : ¬KeepsShape twoOrders [orderRows 1, [], orderRows 1]
      (callResponse twoOrders [orderRows 1, [], orderRows 1]) ∧
    (callResponse twoOrders [orderRows 1, [], orderRows 1]).get "result_sets" =
      some (.arr [.arr (orderRows 1), .arr (orderRows 1)]) := by
  have hsets : (callResponse twoOrders [orderRows 1, [], orderRows 1]).get "result_sets" =
      some (.arr [.arr (orderRows 1), .arr (orderRows 1)]) := rfl
  refine ⟨?_, hsets⟩
  rintro ⟨given, hgiven, hparts, -, -⟩
  rw [hsets] at hgiven
  have hlength := congrArg List.length (Value.arr.inj (Option.some.inj hgiven))
  rw [List.length_map, ← hparts.length_eq] at hlength
  cases hlength

end McpgSql.Driver
