import McpgSql.Library.Except
import McpgSql.Params

/-!
# The cursors of a stream

A stream pages through its rows: each page ends with a token that names the last
row, signed with the key of the binding. `apply_stream_cursor` takes the token of
a continuation apart and binds the position to the `:_after_<col>` placeholders.

* `decode_encode`: a token is read back as it was made;
* `decodeCursor_eq_some`: what a token that decodes is made of;
* `cursor_authentic`: only tokens that were made here are accepted, for their own
  binding, and their values are bound.
-/

namespace McpgSql.Stream

open Library

structure StreamConfig where
  cursorColumns : List String
  initial : OrdMap String Value := .empty
  signingKey : Option String := none

def isSafeColumnName (s : String) : Bool :=
  !s.toList.isEmpty && s.toList.all fun c => c.isAlphanum || c = '_'

/-- The columns as `{:?}` prints a list of names with no character to escape. -/
def debugNames (names : List String) : String :=
  "[" ++ ", ".intercalate (names.map fun name => "\"" ++ name ++ "\"") ++ "]"

namespace StreamConfig

def validate (cfg : StreamConfig) : Except SqlError Unit :=
  if cfg.cursorColumns.isEmpty then
    .error (.invalidSpec "stream.cursor_columns must not be empty when row_mode is stream")
  else
    match cfg.cursorColumns.find? fun col => !isSafeColumnName col with
    | some col => .error (.invalidSpec ("stream.cursor_columns: '" ++ col ++
        "' is not a safe column name (allowed: ASCII letters, digits, `_`)"))
    | none =>
      match cfg.initial.entries.find? fun e => e.1 ∉ cfg.cursorColumns with
      | some (k, _) => .error (.invalidSpec ("stream.initial['" ++ k ++
          "'] is not a declared cursor column (cursor_columns: " ++ debugNames cfg.cursorColumns ++
          ")"))
      | none => .ok ()

/-- The placeholder of a cursor column. -/
def placeholder (col : String) : String := "_after_" ++ col

def placeholderNames (cfg : StreamConfig) : List String := cfg.cursorColumns.map placeholder

end StreamConfig

/-- The key that signs the cursors of a binding: 32 bytes. -/
structure CursorSigningKey where
  bytes : List UInt8
deriving DecidableEq, Repr

/-- What is needed to resume a stream: the values of the last row, in the order of
the cursor columns. -/
structure StreamCursorPayload where
  version : UInt32
  binding : String
  profile : String
  keyset : List Value
deriving DecidableEq, Repr

/-- What cursors take from the libraries: HMAC-SHA-256 of a message under a key,
base64url without padding, and the JSON of a payload. -/
structure CursorLib where
  mac : List UInt8 → List UInt8 → List UInt8
  encode : List UInt8 → String
  decode : String → Option (List UInt8)
  toVec : StreamCursorPayload → List UInt8
  fromSlice : List UInt8 → Option StreamCursorPayload

/-! ## Tokens -/

/-- The payload as it stands in a token. -/
def payloadB64 (lib : CursorLib) (payload : StreamCursorPayload) : String :=
  lib.encode (lib.toVec payload)

/-- A token of a payload's text and its code. -/
def tokenOf (payload mac : String) : String := "s." ++ payload ++ "." ++ mac

def encodeCursor (lib : CursorLib) (payload : StreamCursorPayload) (key : CursorSigningKey) :
    String :=
  tokenOf (payloadB64 lib payload)
    (lib.encode (lib.mac (utf8 (payloadB64 lib payload)) key.bytes))

/-- The text before and after the first `c`. -/
def splitOnce (c : Char) : List Char → Option (List Char × List Char)
  | [] => none
  | x :: text =>
    if x = c then some ([], text) else (splitOnce c text).map fun (a, b) => (x :: a, b)

/-- Every pair of bytes is compared, also after one that differs. -/
def constantTimeEq (a b : List UInt8) : Bool :=
  if a.length ≠ b.length then false
  else (a.zip b).foldl (fun diff e => diff ||| (e.1 ^^^ e.2)) 0 = 0

def decodeCursor (lib : CursorLib) (token : String) (key : CursorSigningKey) :
    Option StreamCursorPayload :=
  match token.toList with
  | 's' :: '.' :: body => do
    let (payload, mac) ← splitOnce '.' body
    let expected := lib.mac (utf8 (String.ofList payload)) key.bytes
    let actual ← lib.decode (String.ofList mac)
    if constantTimeEq expected actual then
      let json ← lib.decode (String.ofList payload)
      let payload ← lib.fromSlice json
      if payload.version ≠ 1 then none else some payload
    else none
  | _ => none

/-! ## Positions -/

/-- What a stream binding runs with. -/
structure StreamRuntime where
  cfg : StreamConfig
  key : CursorSigningKey

/-- The position a call starts from: that of its token, or the initial one. -/
def keysetValues (lib : CursorLib) (rt : StreamRuntime) (backendName : String) :
    Option Value → Except SqlError (List Value)
  | some (.str token) =>
    if token.isEmpty then
      .error (.invalidSpec ("stream cursor: `_cursor` must be a string token (or null/absent), " ++
        "got " ++ Value.jsonType (.str token)))
    else match decodeCursor lib token rt.key with
      | none => .error (.invalidSpec ("stream cursor: token failed verification (malformed, " ++
          "tampered, signed by a different gateway instance without shared signing_key, or for a " ++
          "different binding)"))
      | some decoded =>
        if decoded.binding ≠ backendName then
          .error (.invalidSpec ("stream cursor: token was minted for binding `" ++
            decoded.binding ++ "` but submitted to `" ++ backendName ++ "` — bindings MUST match"))
        else if decoded.keyset.length ≠ rt.cfg.cursorColumns.length then
          .error (.invalidSpec ("stream cursor: token carries " ++ Nat.repr decoded.keyset.length ++
            " keyset values but binding declares " ++ Nat.repr rt.cfg.cursorColumns.length ++
            " cursor_columns — config drift between mint and consume"))
        else .ok decoded.keyset
  | some .null | none =>
    .ok (rt.cfg.cursorColumns.map fun col => (rt.cfg.initial.get? col).getD .null)
  | some other => .error (.invalidSpec
      ("stream cursor: `_cursor` must be a string token (or null/absent), got " ++
        Value.jsonType other))

/-- `apply_stream_cursor` on the members of the arguments: the token is taken out,
and what the caller has under the placeholders is overwritten. -/
def bindPosition (lib : CursorLib) (rt : StreamRuntime) (backendName : String)
    (obj : List (String × Value)) : Except SqlError Value := do
  let keyset ← keysetValues lib rt backendName (Assoc.get? obj "_cursor")
  .ok (.obj (Assoc.insertAll (Assoc.eraseP obj (decide <| · = "_cursor"))
    ((rt.cfg.cursorColumns.zip keyset).map fun e => (StreamConfig.placeholder e.1, e.2))))

/-- `apply_stream_cursor`, with the arguments it leaves. -/
def applyStreamCursor (lib : CursorLib) (args : Value) (rt : StreamRuntime)
    (backendName : String) : Except SqlError Value :=
  match args with
  | .obj obj => bindPosition lib rt backendName obj
  | .null => bindPosition lib rt backendName []
  | _ => .error (.invalidSpec "stream-mode args must be a JSON object (or null)")

/-- The token of the page's last row; null where there is none or it lacks a cursor
column. -/
def mintNextCursor (lib : CursorLib) (payload : Value) (rt : StreamRuntime)
    (backendName : String) : Value :=
  match payload.get "rows" with
  | some (.arr rows) => match rows.getLast? with
    | some (.obj last) => match rt.cfg.cursorColumns.mapM (Assoc.get? last) with
      | some keyset => .str (encodeCursor lib ⟨1, backendName, "", keyset⟩ rt.key)
      | none => .null
    | _ => .null
  | _ => .null

/-! ## What a token says -/

theorem splitOnce_append {c : Char} {a b : List Char} (h : c ∉ a) :
    splitOnce c (a ++ c :: b) = some (a, b) := by
  induction a with
  | nil => simp [splitOnce]
  | cons x a ih =>
    simp only [List.mem_cons, not_or] at h
    rw [List.cons_append, splitOnce, if_neg (Ne.symm h.1), ih h.2]
    rfl

theorem eq_append_of_splitOnce {c : Char} {text a b : List Char}
    (h : splitOnce c text = some (a, b)) : text = a ++ c :: b := by
  induction text generalizing a b with
  | nil => cases h
  | cons x text ih =>
    rw [splitOnce] at h
    split at h
    · rename_i hx
      cases h
      rw [hx]
      rfl
    · obtain ⟨⟨a', b'⟩, hs, he⟩ := Option.map_eq_some_iff.mp h
      cases he
      rw [ih hs]
      rfl

/-- The bytes differ nowhere. -/
theorem foldl_diff_eq_zero (pairs : List (UInt8 × UInt8)) (diff : UInt8) :
    pairs.foldl (fun diff e => diff ||| (e.1 ^^^ e.2)) diff = 0 ↔
      diff = 0 ∧ ∀ e ∈ pairs, e.1 = e.2 := by
  induction pairs generalizing diff with
  | nil => simp
  | cons e pairs ih =>
    rw [List.foldl_cons, ih, UInt8.or_eq_zero_iff, UInt8.xor_eq_zero_iff, List.forall_mem_cons,
      and_assoc]

theorem constantTimeEq_iff {a b : List UInt8} : constantTimeEq a b = true ↔ a = b := by
  rw [constantTimeEq]
  split
  · rename_i hlen
    simp only [Bool.false_eq_true, false_iff]
    rintro rfl
    exact hlen rfl
  · rename_i hlen
    have hlen : a.length = b.length := not_not.mp hlen
    rw [decide_eq_true_eq, foldl_diff_eq_zero]
    constructor
    · rintro ⟨-, h⟩
      refine List.ext_getElem hlen fun i hi hi' => ?_
      exact h _ (List.mem_iff_getElem.mpr ⟨i, by simp [hi, hi'], List.getElem_zip⟩)
    · rintro rfl
      refine ⟨rfl, fun e he => ?_⟩
      obtain ⟨i, hi, rfl⟩ := List.mem_iff_getElem.mp he
      rw [List.getElem_zip]

/-- Base64 and JSON lose nothing of the token of `p`: what is encoded is decoded, and
the letters of base64 are not the separator. -/
structure CursorLib.Faithful (lib : CursorLib) (key : CursorSigningKey) (p : StreamCursorPayload) :
    Prop where
  payload : lib.decode (payloadB64 lib p) = some (lib.toVec p)
  letters : '.' ∉ (payloadB64 lib p).toList
  mac : lib.decode (lib.encode (lib.mac (utf8 (payloadB64 lib p)) key.bytes)) =
    some (lib.mac (utf8 (payloadB64 lib p)) key.bytes)
  json : lib.fromSlice (lib.toVec p) = some p

section

variable {lib : CursorLib} {key : CursorSigningKey} {p : StreamCursorPayload} {token : String}

/-- A token is read back as it was made. -/
theorem decode_encode (h : lib.Faithful key p) (hv : p.version = 1) :
    decodeCursor lib (encodeCursor lib p key) key = some p := by
  have hsplit : splitOnce '.' ((payloadB64 lib p).toList ++
      '.' :: (lib.encode (lib.mac (utf8 (payloadB64 lib p)) key.bytes)).toList) =
      some ((payloadB64 lib p).toList,
        (lib.encode (lib.mac (utf8 (payloadB64 lib p)) key.bytes)).toList) :=
    splitOnce_append h.letters
  have htoken : (encodeCursor lib p key).toList = 's' :: '.' :: ((payloadB64 lib p).toList ++
      '.' :: (lib.encode (lib.mac (utf8 (payloadB64 lib p)) key.bytes)).toList) := by
    simp [encodeCursor, tokenOf]
  rw [decodeCursor, htoken]
  simp only [hsplit, Option.bind_eq_bind, Option.bind_some, String.ofList_toList, h.mac,
    constantTimeEq_iff.mpr rfl, if_true, h.payload, h.json, hv]
  rfl

/-- A token that decodes has a code that verifies. -/
theorem decodeCursor_eq_some (h : decodeCursor lib token key = some p) :
    ∃ payload mac json, token = tokenOf payload mac ∧
      lib.decode mac = some (lib.mac (utf8 payload) key.bytes) ∧
      lib.decode payload = some json ∧ lib.fromSlice json = some p ∧ p.version = 1 := by
  rw [decodeCursor] at h
  split at h
  · rename_i body htoken
    simp only [Option.bind_eq_bind, Option.bind_eq_some_iff] at h
    obtain ⟨⟨payload, mac⟩, hsplit, actual, hmac, h⟩ := h
    split at h
    · rename_i heq
      simp only [Option.bind_eq_some_iff] at h
      obtain ⟨json, hjson, q, hq, h⟩ := h
      split at h
      · cases h
      · rename_i hversion
        cases h
        refine ⟨String.ofList payload, String.ofList mac, json, ?_, ?_, hjson, hq,
          not_not.mp hversion⟩
        · rw [← String.toList_inj, htoken, eq_append_of_splitOnce hsplit]
          simp [tokenOf]
        · rw [hmac, constantTimeEq_iff.mp heq]
    · cases h
  · cases h

/-- HMAC under `key` is not forged: where the code of `token` verifies, its text was
given a code here, for a payload that was minted. -/
def Unforged (lib : CursorLib) (key : CursorSigningKey) (minted : StreamCursorPayload → Prop)
    (token : String) : Prop :=
  ∀ payload mac, token = tokenOf payload mac →
    lib.decode mac = some (lib.mac (utf8 payload) key.bytes) →
    ∃ p, minted p ∧ payload = payloadB64 lib p

/-- A token that decodes is one of a minted payload, and that payload is read. -/
theorem minted_of_decode {minted : StreamCursorPayload → Prop}
    (hlib : ∀ p, minted p → lib.Faithful key p) (hunforged : Unforged lib key minted token)
    (h : decodeCursor lib token key = some p) : minted p ∧ p.version = 1 := by
  obtain ⟨payload, mac, json, htoken, hmac, hjson, hp, hv⟩ := decodeCursor_eq_some h
  obtain ⟨q, hq, rfl⟩ := hunforged payload mac htoken hmac
  obtain rfl : lib.toVec q = json := Option.some.inj ((hlib q hq).payload.symm.trans hjson)
  obtain rfl : q = p := Option.some.inj ((hlib q hq).json.symm.trans hp)
  exact ⟨hq, hv⟩

/-! ## What a continuation binds -/

variable {rt : StreamRuntime} {name : String} {args args' : Value} {keyset : List Value}

theorem placeholder_inj {a b : String}
    (h : StreamConfig.placeholder a = StreamConfig.placeholder b) : a = b :=
  (String.append_right_inj _).mp h

/-- The position of an accepted token is that of its payload. -/
theorem keysetValues_token (h : keysetValues lib rt name (some (.str token)) = .ok keyset) :
    ∃ p, decodeCursor lib token rt.key = some p ∧ p.binding = name ∧
      p.keyset.length = rt.cfg.cursorColumns.length ∧ p.keyset = keyset := by
  rw [keysetValues] at h
  split at h
  · cases h
  · split at h
    · cases h
    · rename_i decoded hdecode
      split at h
      · cases h
      · rename_i hbinding
        split at h
        · cases h
        · rename_i hlen
          cases h
          exact ⟨decoded, hdecode, not_not.mp hbinding, not_not.mp hlen, rfl⟩

/-- A position has a value for every cursor column. -/
theorem keysetValues_length {cursor : Option Value}
    (h : keysetValues lib rt name cursor = .ok keyset) :
    keyset.length = rt.cfg.cursorColumns.length := by
  have hstart : ∀ ks, Except.ok (ε := SqlError) (rt.cfg.cursorColumns.map fun col =>
      (rt.cfg.initial.get? col).getD .null) = .ok ks → ks.length = rt.cfg.cursorColumns.length := by
    intro ks hks
    cases hks
    exact List.length_map _
  cases cursor with
  | none => exact hstart keyset h
  | some v =>
    cases v with
    | str token =>
      obtain ⟨p, -, -, hlen, rfl⟩ := keysetValues_token h
      exact hlen
    | null => exact hstart keyset h
    | bool | num | arr | obj => cases h

/-- What is accepted with a `_cursor` is an object, and its position is bound. -/
theorem applyStreamCursor_ok (h : applyStreamCursor lib args rt name = .ok args') :
    ∃ keyset, keysetValues lib rt name (args.get "_cursor") = .ok keyset ∧ ∀ k,
      args'.get k = (Assoc.get? ((rt.cfg.cursorColumns.zip keyset).map
        fun e => (StreamConfig.placeholder e.1, e.2)).reverse k).or
          (if k = "_cursor" then none else args.get k) := by
  have hbind : ∀ obj, bindPosition lib rt name obj = .ok args' →
      ∃ keyset, keysetValues lib rt name (Assoc.get? obj "_cursor") = .ok keyset ∧ ∀ k,
        args'.get k = (Assoc.get? ((rt.cfg.cursorColumns.zip keyset).map
          fun e => (StreamConfig.placeholder e.1, e.2)).reverse k).or
            (if k = "_cursor" then none else Assoc.get? obj k) := by
    intro obj h
    rw [bindPosition, bind_eq_ok] at h
    obtain ⟨keyset, hkeyset, h⟩ := h
    cases h
    refine ⟨keyset, hkeyset, fun k => ?_⟩
    rw [Value.get, Assoc.get?_insertAll, Assoc.get?_eraseP]
    simp only [decide_eq_true_eq]
  unfold applyStreamCursor at h
  split at h
  · exact hbind _ h
  · obtain ⟨keyset, hkeyset, hget⟩ := hbind _ h
    exact ⟨keyset, hkeyset, fun k => by rw [hget k]; rfl⟩
  · cases h

theorem cursor_ne_placeholder (col : String) : StreamConfig.placeholder col ≠ "_cursor" := by
  intro h
  have := congrArg String.toList h
  simp [StreamConfig.placeholder] at this

/-- The token is taken out of the arguments. -/
theorem get_cursor_of_apply (h : applyStreamCursor lib args rt name = .ok args') :
    args'.get "_cursor" = none := by
  obtain ⟨keyset, -, hget⟩ := applyStreamCursor_ok h
  rw [hget, if_pos rfl, Option.or_none]
  refine Assoc.get?_eq_none fun e he => ?_
  obtain ⟨c, -, rfl⟩ := List.mem_map.mp (List.mem_reverse.mp he)
  exact cursor_ne_placeholder c.1

/-- Calls with the same token bind the same position. -/
theorem position_of_cursor {args₁ args₂ args₁' args₂' : Value} {k : String}
    (h₁ : applyStreamCursor lib args₁ rt name = .ok args₁')
    (h₂ : applyStreamCursor lib args₂ rt name = .ok args₂')
    (hcursor : args₁.get "_cursor" = args₂.get "_cursor") (hk : k ∈ rt.cfg.placeholderNames) :
    args₁'.get k = args₂'.get k := by
  obtain ⟨keyset, hkeyset, hget₁⟩ := applyStreamCursor_ok h₁
  obtain ⟨keyset', hkeyset', hget₂⟩ := applyStreamCursor_ok h₂
  rw [hcursor] at hkeyset
  obtain rfl : keyset = keyset' := Except.ok.inj (hkeyset.symm.trans hkeyset')
  have hlen := keysetValues_length hkeyset
  have hsome : Assoc.get? ((rt.cfg.cursorColumns.zip keyset).map
      fun e => (StreamConfig.placeholder e.1, e.2)).reverse k ≠ none := by
    refine Assoc.get?_ne_none ?_
    rw [List.map_reverse, List.mem_reverse, List.map_map]
    have hnames : ((rt.cfg.cursorColumns.zip keyset).map
        (Prod.fst ∘ fun e => (StreamConfig.placeholder e.1, e.2))) = rt.cfg.placeholderNames := by
      have hfst := List.map_fst_zip (Nat.le_of_eq hlen.symm)
      conv => rhs; rw [StreamConfig.placeholderNames, ← hfst, List.map_map]
      exact List.map_congr_left fun e _ => rfl
    rwa [hnames]
  obtain ⟨v, hv⟩ := Option.ne_none_iff_exists'.mp hsome
  rw [hget₁, hget₂, hv]
  rfl

theorem zip_map_eq {α β γ : Type} (l : List α) (g : α → β) (f : α × β → γ) :
    (l.zip (l.map g)).map f = l.map fun a => f (a, g a) := by
  induction l with
  | nil => rfl
  | cons a l ih => rw [List.map_cons, List.zip_cons_cons, List.map_cons, ih, List.map_cons]

/-- The position is bound to the placeholders, and nothing else but the token is
changed. -/
theorem applyStreamCursor_obj {obj : List (String × Value)} {g : String → Value}
    (h : keysetValues lib rt name (Assoc.get? obj "_cursor") =
      .ok (rt.cfg.cursorColumns.map g)) :
    ∃ obj', applyStreamCursor lib (.obj obj) rt name = .ok (.obj obj') ∧
      (∀ col ∈ rt.cfg.cursorColumns, Assoc.get? obj' (StreamConfig.placeholder col) = some (g col)) ∧
      ∀ k, k ∉ rt.cfg.placeholderNames → k ≠ "_cursor" → Assoc.get? obj' k = Assoc.get? obj k := by
  refine ⟨_, by simp only [applyStreamCursor, bindPosition, h]; rfl, ?_, ?_⟩
  · intro col hcol
    rw [Assoc.get?_insertAll, zip_map_eq, Assoc.get?_of_forall (v := g col)]
    · rfl
    · intro e he hk
      obtain ⟨c, -, rfl⟩ := List.mem_map.mp (List.mem_reverse.mp he)
      exact congrArg g (placeholder_inj hk)
    · simpa using ⟨col, hcol, rfl⟩
  · intro k hk hcursor
    rw [Assoc.get?_insertAll, zip_map_eq, Assoc.get?_eraseP, Assoc.get?_eq_none]
    · simp [hcursor]
    · intro e he hek
      obtain ⟨c, hc, rfl⟩ := List.mem_map.mp (List.mem_reverse.mp he)
      exact hk (List.mem_map.mpr ⟨c, hc, hek⟩)

/-- A column is bound to the value at its last position. -/
theorem bound_of_last (hlen : keyset.length = rt.cfg.cursorColumns.length) {i : Nat} {col : String}
    (hi : rt.cfg.cursorColumns[i]? = some col)
    (hlast : ∀ j, i < j → rt.cfg.cursorColumns[j]? ≠ some col) :
    Assoc.get? ((rt.cfg.cursorColumns.zip keyset).map
      fun e => (StreamConfig.placeholder e.1, e.2)).reverse (StreamConfig.placeholder col) =
      keyset[i]? := by
  obtain ⟨hlt, -⟩ := List.getElem?_eq_some_iff.mp hi
  obtain ⟨v, hv⟩ : ∃ v, keyset[i]? = some v := ⟨_, List.getElem?_eq_getElem (by omega)⟩
  rw [hv]
  refine Assoc.get?_reverse_of_last (i := i) ?_ ?_
  · rw [List.getElem?_map, show (rt.cfg.cursorColumns.zip keyset)[i]? = some (col, v) from
      List.getElem?_zip_eq_some.mpr ⟨hi, hv⟩]
    rfl
  · intro j e hj he heq
    rw [List.getElem?_map] at he
    obtain ⟨⟨c, w⟩, hz, rfl⟩ := Option.map_eq_some_iff.mp he
    have hc := (List.getElem?_zip_eq_some.mp hz).1
    exact hlast j hj (by rw [hc, placeholder_inj heq])

end

/-- A token that `apply_stream_cursor` accepts carries a payload that was minted under
the key, of version 1, for this binding and with a value for each cursor column,
and every `_after_<col>` is bound to its value for `col`, the last one where a
column is declared twice. A token of version 1 is read back as it was made. -/
theorem cursor_authentic (lib : CursorLib) (rt : StreamRuntime) (name : String) :
    (∀ (minted : StreamCursorPayload → Prop) (token : String) (args args' : Value),
      (∀ p, minted p → lib.Faithful rt.key p) → Unforged lib rt.key minted token →
      args.get "_cursor" = some (.str token) → applyStreamCursor lib args rt name = .ok args' →
      ∃ p, decodeCursor lib token rt.key = some p ∧ minted p ∧ p.binding = name ∧
        p.version = 1 ∧ p.keyset.length = rt.cfg.cursorColumns.length ∧
        ∀ (i : Nat) (col : String), rt.cfg.cursorColumns[i]? = some col →
          (∀ j, i < j → rt.cfg.cursorColumns[j]? ≠ some col) →
          args'.get ("_after_" ++ col) = p.keyset[i]?) ∧
    ∀ p, lib.Faithful rt.key p → p.version = 1 →
      decodeCursor lib (encodeCursor lib p rt.key) rt.key = some p := by
  refine ⟨?_, fun p hp hv => decode_encode hp hv⟩
  intro minted token args args' hlib hunforged hcursor happly
  obtain ⟨keyset, hkeyset, hget⟩ := applyStreamCursor_ok happly
  rw [hcursor] at hkeyset
  obtain ⟨p, hdecode, hbinding, hlen, rfl⟩ := keysetValues_token hkeyset
  obtain ⟨hminted, hv⟩ := minted_of_decode hlib hunforged hdecode
  refine ⟨p, hdecode, hminted, hbinding, hv, hlen, fun i col hi hlast => ?_⟩
  obtain ⟨v, hv⟩ : ∃ v, p.keyset[i]? = some v :=
    ⟨_, List.getElem?_eq_getElem (by have := (List.getElem?_eq_some_iff.mp hi).1; omega)⟩
  have hbound := bound_of_last hlen hi hlast
  rw [hget, show "_after_" ++ col = StreamConfig.placeholder col from rfl, hbound, hv]
  rfl

/-! ## Sample tokens -/

/-- A payload with its JSON, its code and the base64 of both. -/
structure SampleToken where
  payload : StreamCursorPayload
  json : String
  payloadB64 : String
  mac : List UInt8
  macB64 : String

def sampleKey : CursorSigningKey := ⟨(List.range 32).map UInt8.ofNat⟩

/-- The libraries as they are on these tokens, under the sample key. -/
def sampleLib (tokens : List SampleToken) : CursorLib where
  mac message key :=
    if key = sampleKey.bytes then
      ((tokens.find? fun t => utf8 t.payloadB64 = message).map (·.mac)).getD []
    else []
  encode bytes :=
    ((tokens.find? fun t => utf8 t.json = bytes).map (·.payloadB64)).getD
      (((tokens.find? fun t => t.mac = bytes).map (·.macB64)).getD "")
  decode text :=
    ((tokens.find? fun t => t.payloadB64 = text).map fun t => utf8 t.json).or
      ((tokens.find? fun t => t.macB64 = text).map (·.mac))
  toVec payload := ((tokens.find? fun t => t.payload = payload).map fun t => utf8 t.json).getD []
  fromSlice json := (tokens.find? fun t => utf8 t.json = json).map (·.payload)

/-- The cursor of `orders` after the row with `id` 7. -/
def orderSeven : SampleToken where
  payload := ⟨1, "orders", "", [.num (.pos 7)]⟩
  json := "\x7b\"v\":1,\"b\":\"orders\",\"p\":\"\",\"k\":[7]\x7d"
  payloadB64 := "eyJ2IjoxLCJiIjoib3JkZXJzIiwicCI6IiIsImsiOls3XX0"
  mac := [15, 239, 103, 138, 50, 176, 108, 132, 53, 14, 143, 213, 234, 195, 67, 60, 120, 18, 133,
    122, 133, 80, 6, 236, 185, 92, 93, 79, 73, 87, 45, 132]
  macB64 := "D-9nijKwbIQ1Do_V6sNDPHgShXqFUAbsuVxdT0lXLYQ"

/-- Orders by their `id`. -/
def ordersStream : StreamRuntime := ⟨{ cursorColumns := ["id"] }, sampleKey⟩

/-- Under the sample key only the texts of these tokens have a code. -/
theorem sample_unforged {tokens : List SampleToken}
    (hne : ∀ t ∈ tokens, t.mac ≠ [] ∧ utf8 t.json ≠ [])
    (hb64 : ∀ t ∈ tokens, payloadB64 (sampleLib tokens) t.payload = t.payloadB64) (token : String) :
    Unforged (sampleLib tokens) sampleKey (fun p => ∃ t ∈ tokens, p = t.payload) token := by
  intro payload mac _ hdecode
  simp only [sampleLib, if_true] at hdecode
  cases hfind : tokens.find? fun t => utf8 t.payloadB64 = utf8 payload with
  | some t =>
    have hmem := List.mem_of_find?_eq_some hfind
    have hpayload : utf8 t.payloadB64 = utf8 payload := by
      simpa using List.find?_some hfind
    have hpayload := utf8_inj.mp hpayload
    exact ⟨t.payload, ⟨t, hmem, rfl⟩, by rw [hb64 t hmem, hpayload]⟩
  | none =>
    rw [hfind, Option.map_none, Option.getD_none] at hdecode
    rcases Option.or_eq_some_iff.mp hdecode with h | ⟨-, h⟩
    · obtain ⟨t, ht, he⟩ := Option.map_eq_some_iff.mp h
      exact absurd he (hne t (List.mem_of_find?_eq_some ht)).2
    · obtain ⟨t, ht, he⟩ := Option.map_eq_some_iff.mp h
      exact absurd he (hne t (List.mem_of_find?_eq_some ht)).1

/-- The arguments of a continuation after order 7. -/
def afterSeven : Value :=
  .obj [("_cursor", .str (encodeCursor (sampleLib [orderSeven]) orderSeven.payload sampleKey))]

/-- The token of order 7 is accepted for `orders` and binds its `id`. -/
theorem orderSeven_authentic :
    ∃ args', applyStreamCursor (sampleLib [orderSeven]) afterSeven ordersStream "orders" =
      .ok args' ∧ args'.get "_after_id" = some (.num (.pos 7)) := by
  obtain ⟨args', hargs⟩ : ∃ args', applyStreamCursor (sampleLib [orderSeven]) afterSeven
      ordersStream "orders" = .ok args' := ⟨_, rfl⟩
  have hlib : ∀ p, (∃ t ∈ [orderSeven], p = t.payload) →
      (sampleLib [orderSeven]).Faithful sampleKey p := by
    simp only [List.mem_singleton, exists_eq_left, forall_eq]
    exact ⟨by decide, by decide, by decide, by decide⟩
  have hunforged : ∀ token, Unforged (sampleLib [orderSeven]) sampleKey
      (fun p => ∃ t ∈ [orderSeven], p = t.payload) token :=
    sample_unforged (by simp only [List.mem_singleton, forall_eq]; decide)
      (by simp only [List.mem_singleton, forall_eq]; decide)
  obtain ⟨p, -, ⟨t, ht, rfl⟩, -, -, -, hbound⟩ :=
    (cursor_authentic (sampleLib [orderSeven]) ordersStream "orders").1 _ _ _ _ hlib (hunforged _) rfl
      hargs
  obtain rfl := List.mem_singleton.mp ht
  refine ⟨args', hargs, hbound 0 "id" rfl fun j hj => ?_⟩
  rw [List.getElem?_eq_none (show ordersStream.cfg.cursorColumns.length ≤ j from hj)]
  nofun

end McpgSql.Stream
