import Mathlib.Algebra.GroupWithZero.Nat
import McpgSql.Protocol

/-!
# Responses

`shape_response`: the rows of a batch, cut at `max_rows`, in the shape of the row
mode.
-/

namespace McpgSql

open Library

/-- The answer of a driver: rows as objects by column, or the number of rows a
statement changed. -/
structure RowBatch where
  columns : List String := []
  rows : List Value := []
  rowsAffected : Option Nat := none
deriving DecidableEq, Repr

/-- A row of `resource_contents`: its `uri`, and one of `text` and `blob`. -/
def resourceEntry (idx : Nat) (row : Value) : Except BackendError Value :=
  let at_ := "resource_contents[" ++ Nat.repr idx ++ "]"
  match row with
  | .obj obj => match (Assoc.get? obj "uri").bind Value.asStr with
    | none => .error (.transport (at_ ++ " missing required 'uri' column"))
    | some uri =>
      let text := (Assoc.get? obj "text").filter (!·.isNull)
      let blob := (Assoc.get? obj "blob").filter (!·.isNull)
      let mimeType := ((Assoc.get? obj "mime_type").bind Value.asStr).toList.map
        fun mt => ("mimeType", Value.str mt)
      match text, blob with
      | some _, some _ => .error (.transport
          (at_ ++ " cannot SELECT both 'text' and 'blob' — pick one per row"))
      | none, none => .error (.transport (at_ ++ " must SELECT either 'text' or 'blob'"))
      | some text, none => .ok (.object ([("uri", .str uri)] ++ mimeType ++ [("text", text)]))
      | none, some blob => .ok (.object ([("uri", .str uri)] ++ mimeType ++ [("blob", blob)]))
  | other => .error (.transport (at_ ++ " is not an object: " ++ other.jsonType))

/-- The first column of a row, by name. -/
def scalarOf : Value → Value
  | .obj members => (members.head?.map Prod.snd).getD .null
  | other => other

/-- The batch in the shape of the row mode, and whether rows were cut off. -/
def shapeResponse (batch : RowBatch) (mode : RowMode) (maxRows : Nat) :
    Except BackendError (Value × Bool) :=
  let truncated : Bool := maxRows < batch.rows.length
  let rows := batch.rows.take maxRows
  match mode with
  | .single => .ok (rows.head?.getD .null, truncated)
  | .many => .ok (.arr rows, truncated)
  | .scalar => .ok (scalarOf (rows.head?.getD .null), truncated)
  | .affectedRows =>
    .ok (.object [("rows_affected", .ofNat (batch.rowsAffected.getD 0))], false)
  | .resourceContents => do
    let contents ← (rows.zipIdx.mapM fun (row, idx) => resourceEntry idx row)
    .ok (.object [("contents", .arr contents)], truncated)
  | .stream => .ok (.object [("rows", .arr rows), ("truncated", .bool truncated)], truncated)
  | .resultSets => .error (.invalidSpec
      ("row_mode: result_sets dispatched through single-batch shape_response — this is a " ++
        "routing bug; result_sets must go through execute_multi_result"))

end McpgSql
