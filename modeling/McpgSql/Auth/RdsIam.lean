import McpgSql.Auth.Config
import McpgSql.Library.FormData
import McpgSql.Params
import Mathlib.Data.List.TakeWhile

/-!
# Tokens of RDS

`RdsIamAuthProvider`: a token is the address of the database and a signed query that
names the user. The endpoint is bound once, when the pool is opened; every token after
that is for it.

`tokens_read_back`: over any calls of a provider, a token is for the endpoint that was
bound first, and its query is read back as the action, the user and what the signer
added, whatever characters they have.
-/

namespace McpgSql.Auth

open Library

/-! ## The provider -/

structure RdsEndpoint where
  host : String
  port : Nat
deriving DecidableEq, Repr

structure RdsIamAuthProvider where
  region : String
  username : String
  profile : Option String
  /-- The cell of the endpoint. -/
  endpoint : Option RdsEndpoint := none
deriving DecidableEq, Repr

/-- What AWS answers to one token: the credential chain, its credentials, the parameters of
the signer, the request to sign, and what the signature adds to the query. -/
structure PresignAnswers where
  loadedConfig : Except AuthError Unit := .ok ()
  credentials : Except String Unit := .ok ()
  signingParams : Except String Unit := .ok ()
  signable : String → Except String Unit := fun _ => .ok ()
  sign : String → Except String (List (String × String))

/-- `urlencoding::encode`. -/
def encodeUser (s : String) : String := String.ofList (Form.encode Form.isUnreserved (utf8 s))

namespace RdsIamAuthProvider

def new (region username : String) (profile : Option String) :
    Except AuthError RdsIamAuthProvider :=
  if AuthConfig.isBlank region then .error (.invalidConfig "rds_iam.region empty")
  else if AuthConfig.isBlank username then .error (.invalidConfig "rds_iam.username empty")
  else .ok { region, username, profile }

/-- `set_endpoint`: the cell is set once. -/
def setEndpoint (p : RdsIamAuthProvider) (host : String) (port : Nat) :
    RdsIamAuthProvider × Except AuthError Unit :=
  match p.endpoint with
  | none => ({ p with endpoint := some ⟨host, port⟩ }, .ok ())
  | some cur =>
    if cur.host = host ∧ cur.port = port then (p, .ok ())
    else (p, .error (.invalidConfig ("rds_iam: endpoint changed from " ++ cur.host ++ ":" ++
      toString cur.port ++ " to " ++ host ++ ":" ++ toString port ++
      "; re-register the binding to pick up the new URL")))

/-- The URL that is signed. -/
def connectUrl (username : String) (endpoint : RdsEndpoint) : String :=
  "https://" ++ endpoint.host ++ ":" ++ toString endpoint.port ++ "/?" ++
    ("Action=connect&DBUser=" ++ encodeUser username)

/-- The query with the pairs of the signature, by `query_pairs_mut`. -/
def appendPairs (query : Option String) (params : List (String × String)) : Option String :=
  params.foldl (fun query pair => some (String.ofList
    (Form.appendPair (query.getD "").toList (utf8 pair.1) (utf8 pair.2)))) query

def presign (parse : ParseUrl) (p : RdsIamAuthProvider) (answers : PresignAnswers) :
    Except AuthError String := do
  let endpoint ← match p.endpoint with
    | some endpoint => .ok endpoint
    | none => .error (.invalidConfig ("rds_iam: pool builder did not register a target endpoint " ++
        "with the auth provider; this is an internal wiring bug — file an issue"))
  answers.loadedConfig
  answers.credentials.mapError (.fetch "AWS credential chain refused to issue credentials")
  answers.signingParams.mapError (.fetch "sigv4 signing params: build failed")
  let url := connectUrl p.username endpoint
  (answers.signable url).mapError (.fetch "sigv4 signable request: build failed")
  let params ← (answers.sign url).mapError (.fetch "sigv4 sign: failed")
  let parsed ← (parse url).mapError (.fetch "parsing presigned URL: failed")
  match parsed.host with
  | none => .error (.invalidConfig "rds_iam: presigned URL has no host")
  | some host => match appendPairs parsed.query params with
    | some query => .ok (host ++ ":" ++ toString endpoint.port ++ "/?" ++ query)
    | none => .ok (host ++ ":" ++ toString endpoint.port ++ "/")

end RdsIamAuthProvider

/-! ## Calls -/

inductive RdsCall where
  | bindEndpoint (host : String) (port : Nat)
  | fetchToken (answers : PresignAnswers)

/-- The provider after a call. -/
def RdsIamAuthProvider.called (p : RdsIamAuthProvider) : RdsCall → RdsIamAuthProvider
  | .bindEndpoint host port => (p.setEndpoint host port).1
  | .fetchToken _ => p

/-- The endpoint that a call binds. -/
def RdsCall.endpoint : RdsCall → Option RdsEndpoint
  | .bindEndpoint host port => some ⟨host, port⟩
  | .fetchToken _ => none

/-- The endpoint that the calls bound first. -/
def firstBound (calls : List RdsCall) : Option RdsEndpoint := calls.findSome? RdsCall.endpoint

theorem called_endpoint (p : RdsIamAuthProvider) (call : RdsCall) :
    (p.called call).endpoint = p.endpoint.or call.endpoint ∧ (p.called call).username = p.username := by
  cases call with
  | fetchToken answers => simp [RdsIamAuthProvider.called, RdsCall.endpoint]
  | bindEndpoint host port =>
    simp only [RdsIamAuthProvider.called, RdsIamAuthProvider.setEndpoint, RdsCall.endpoint]
    cases hp : p.endpoint with
    | none => simp
    | some cur =>
      simp only [Option.some_or]
      split <;> exact ⟨hp, rfl⟩

/-- The cell has the endpoint that was bound first. -/
theorem called_all (p : RdsIamAuthProvider) (calls : List RdsCall) :
    (calls.foldl RdsIamAuthProvider.called p).endpoint = p.endpoint.or (firstBound calls) ∧
      (calls.foldl RdsIamAuthProvider.called p).username = p.username := by
  induction calls generalizing p with
  | nil => simp [firstBound]
  | cons call calls ih =>
    obtain ⟨hend, huser⟩ := called_endpoint p call
    rw [List.foldl_cons]
    refine ⟨?_, (ih _).2.trans huser⟩
    rw [(ih _).1, hend, Option.or_assoc]
    congr 1
    rw [firstBound, firstBound, List.findSome?_cons]
    cases call.endpoint <;> rfl

theorem new_eq_ok {region username : String} {profile : Option String} {p : RdsIamAuthProvider}
    (h : RdsIamAuthProvider.new region username profile = .ok p) :
    p.endpoint = none ∧ p.username = username := by
  unfold RdsIamAuthProvider.new at h
  split at h
  · cases h
  · split at h
    · cases h
    · cases h
      exact ⟨rfl, rfl⟩

/-! ## Reading a token -/

/-- The address of a token, and the pairs of its query. -/
def readToken (token : String) : String × List (String × String) :=
  let query := (token.toList.dropWhile (· ≠ '/')).drop 2
  (String.ofList (token.toList.takeWhile (· ≠ '/')),
    (Form.readPairs query).map fun pair => (fromUtf8Lossy pair.1, fromUtf8Lossy pair.2))

/-- A host as the `url` crate gives it has none of the characters that end one. -/
def IsHost (host : String) : Prop := ∀ c ∈ host.toList, c ∉ ['/', '?', '#']

/-- A character that a URL's query keeps: a letter, a digit, or one of `-_.~%=&`. -/
def isQueryChar (c : Char) : Bool :=
  c.isAlphanum || c ∈ ['-', '_', '.', '~', '%', '=', '&']

/-- What the URL standard says of the URLs that are signed: the query is kept as it stands,
and the host has no slash. -/
def KeepsQuery (parse : ParseUrl) : Prop :=
  ∀ host port query url, IsHost host → (∀ c ∈ query.toList, isQueryChar c = true) →
    parse ("https://" ++ host ++ ":" ++ toString (port : Nat) ++ "/?" ++ query) = .ok url →
      url.query = some query ∧ ∀ h, url.host = some h → '/' ∉ h.toList

theorem fromUtf8Lossy_utf8 (s : String) : fromUtf8Lossy (utf8 s) = s := by
  rw [utf8_eq_flatMap, fromUtf8Lossy_encode]

/-- The query before it is signed. -/
theorem userQuery_chars (username : String) :
    ∀ c ∈ ("Action=connect&DBUser=" ++ encodeUser username).toList, isQueryChar c = true := by
  have hfixed : "Action=connect&DBUser=".toList.all isQueryChar = true := by decide
  have hcode : (List.range 256).all (fun n =>
      (Form.encodeByte Form.isUnreserved (.ofNat n)).all isQueryChar) = true := by
    decide +kernel
  intro c hc
  rw [String.toList_append] at hc
  rcases List.mem_append.mp hc with hc | hc
  · exact List.all_eq_true.mp hfixed c hc
  · rw [encodeUser, String.toList_ofList, Form.encode] at hc
    obtain ⟨b, -, hb⟩ := List.mem_flatMap.mp hc
    rw [← UInt8.ofNat_toNat (x := b)] at hb
    have hall := List.all_eq_true.mp hcode b.toNat (List.mem_range.mpr b.toNat_lt)
    exact List.all_eq_true.mp hall c hb

theorem readPairs_userQuery (username : String) :
    Form.readPairs ("Action=connect&DBUser=" ++ encodeUser username).toList =
      [(utf8 "Action", utf8 "connect"), (utf8 "DBUser", utf8 username)] := by
  have hsplit : ("Action=connect&DBUser=" ++ encodeUser username).toList =
      "Action=connect".toList ++
        '&' :: ("DBUser".toList ++ '=' :: Form.encode Form.isUnreserved (utf8 username)) := by
    simp [encodeUser]
  have huser : Form.readPairs
      ("DBUser".toList ++ '=' :: Form.encode Form.isUnreserved (utf8 username)) =
        [(Form.decode "DBUser".toList,
          Form.decode (Form.encode Form.isUnreserved (utf8 username)))] :=
    Form.readPairs_single (by simp) fun h => (Form.mem_encode Form.isUnreserved_plain h).1 rfl
  have haction : Form.readPairs "Action=connect".toList = [(utf8 "Action", utf8 "connect")] := by
    decide
  have hname : Form.decode "DBUser".toList = utf8 "DBUser" := by decide
  rw [hsplit, Form.readPairs_append, huser, haction, hname,
    Form.decode_encode Form.isUnreserved_plain]
  rfl

theorem readPairs_appendPairs (query : String) (params : List (String × String)) :
    ∃ signed, RdsIamAuthProvider.appendPairs (some query) params = some signed ∧
      Form.readPairs signed.toList = Form.readPairs query.toList ++
        params.map fun pair => (utf8 pair.1, utf8 pair.2) := by
  induction params generalizing query with
  | nil => exact ⟨query, rfl, by simp⟩
  | cons pair params ih =>
    obtain ⟨signed, hsigned, hread⟩ :=
      ih (String.ofList (Form.appendPair query.toList (utf8 pair.1) (utf8 pair.2)))
    refine ⟨signed, hsigned, ?_⟩
    rw [hread, String.toList_ofList, Form.readPairs_appendPair]
    simp

/-- An address and a query are read apart. -/
theorem readToken_eq {address query : String} (h : '/' ∉ address.toList) :
    readToken (address ++ "/?" ++ query) = (address,
      (Form.readPairs query.toList).map fun pair => (fromUtf8Lossy pair.1, fromUtf8Lossy pair.2)) := by
  have hne : ∀ c ∈ address.toList, decide (c ≠ '/') = true := by
    intro c hc
    rw [decide_eq_true_eq]
    rintro rfl
    exact h hc
  have htext : (address ++ "/?" ++ query).toList = address.toList ++ '/' :: '?' :: query.toList := by
    simp
  rw [readToken, htext, List.takeWhile_append_of_pos hne, List.dropWhile_append_of_pos hne]
  simp

theorem slash_notMem_toDigits (n : Nat) : '/' ∉ Nat.toDigits 10 n := by
  intro h
  exact notMem_toDigits (b := 10) (by decide) (by decide) (c := '/') rfl n
    (List.mem_map_of_mem (f := Char.toUpper) h)

/-! ## Tokens -/

/-- Over any calls of a new provider, a token is for the endpoint that was bound first, and
is read back as the action, the user and the pairs of its signature; an endpoint is bound
exactly where none or the same one was. -/
theorem tokens_read_back (parse : ParseUrl) (hparse : KeepsQuery parse)
    {region username : String} {profile : Option String} {p : RdsIamAuthProvider}
    (hnew : RdsIamAuthProvider.new region username profile = .ok p) (calls : List RdsCall)
    (hhosts : ∀ call ∈ calls, ∀ e, call.endpoint = some e → IsHost e.host) :
    (∀ answers token, (calls.foldl .called p).presign parse answers = .ok token →
      ∃ e host params, firstBound calls = some e ∧
        answers.sign (RdsIamAuthProvider.connectUrl username e) = .ok params ∧
        (parse (RdsIamAuthProvider.connectUrl username e)).map Url.host = .ok (some host) ∧
        readToken token = (host ++ ":" ++ toString e.port,
          ("Action", "connect") :: ("DBUser", username) :: params)) ∧
    ∀ host port, ((calls.foldl .called p).setEndpoint host port).2 = .ok () ↔
      ∀ e, firstBound calls = some e → e = ⟨host, port⟩ := by
  obtain ⟨hcell, huser⟩ := called_all p calls
  obtain ⟨hend, hname⟩ := new_eq_ok hnew
  rw [hend, Option.none_or] at hcell
  rw [hname] at huser
  constructor
  · intro answers token htoken
    cases hfirst : firstBound calls with
    | none =>
      rw [hfirst] at hcell
      rw [RdsIamAuthProvider.presign, hcell] at htoken
      cases htoken
    | some e =>
      rw [hfirst] at hcell
      have hhost : IsHost e.host := by
        obtain ⟨call, hmem, he⟩ := List.exists_of_findSome?_eq_some hfirst
        exact hhosts call hmem e he
      simp only [RdsIamAuthProvider.presign, hcell, huser, bind_eq_ok, mapError_eq_ok,
        Except.ok.injEq] at htoken
      obtain ⟨_, rfl, _, -, _, -, _, -, _, -, params, hsign, parsed, hparsed, htoken⟩ := htoken
      obtain ⟨hquery, hslash⟩ := hparse e.host e.port _ parsed hhost (userQuery_chars username) hparsed
      obtain ⟨signed, hsigned, hread⟩ :=
        readPairs_appendPairs ("Action=connect&DBUser=" ++ encodeUser username) params
      cases hparsedHost : parsed.host with
      | none =>
        rw [hparsedHost] at htoken
        cases htoken
      | some host =>
        rw [hparsedHost, hquery, hsigned] at htoken
        cases htoken
        refine ⟨e, host, params, rfl, hsign, ?_, ?_⟩
        · rw [hparsed, Except.map, hparsedHost]
        · have haddress : '/' ∉ (host ++ ":" ++ toString e.port).toList := by
            simp [hslash host hparsedHost, slash_notMem_toDigits]
          rw [readToken_eq haddress, hread, readPairs_userQuery]
          simp [fromUtf8Lossy_utf8, Function.comp_def]
  · intro host port
    rw [RdsIamAuthProvider.setEndpoint, hcell]
    cases firstBound calls with
    | none => simp
    | some e =>
      simp only [Option.some.injEq, forall_eq']
      split
      · rename_i heq
        refine iff_of_true rfl ?_
        rw [RdsEndpoint.mk.injEq]
        exact heq
      · rename_i hne
        refine iff_of_false (by intro h; cases h) ?_
        rintro rfl
        exact hne ⟨rfl, rfl⟩

/-! ### A token -/

/-- The URL of an address without a user, whose host ends at the first slash or colon. -/
def cutUrl : ParseUrl := fun url =>
  let rest := url.toList.drop 8
  .ok { scheme := "https"
        host := some (String.ofList (rest.takeWhile fun c => c ≠ '/' ∧ c ≠ ':'))
        query := some (String.ofList ((rest.dropWhile (· ≠ '/')).drop 2)) }

theorem cutUrl_keepsQuery : KeepsQuery cutUrl := by
  intro host port query url hhost _ hurl
  have hslash : '/' ∉ host.toList := fun h => hhost '/' h (by decide)
  have haddress : ∀ c ∈ host.toList ++ ':' :: Nat.toDigits 10 port, decide (c ≠ '/') = true := by
    intro c hc
    rw [decide_eq_true_eq]
    rintro rfl
    rcases List.mem_append.mp hc with h | h
    · exact hslash h
    · rcases List.mem_cons.mp h with h | h
      · cases h
      · exact slash_notMem_toDigits port h
  have htext : ("https://" ++ host ++ ":" ++ toString port ++ "/?" ++ query).toList.drop 8 =
      (host.toList ++ ':' :: Nat.toDigits 10 port) ++ '/' :: '?' :: query.toList := by
    simp
  cases hurl
  constructor
  · simp only [htext, List.dropWhile_append_of_pos haddress]
    simp
  · intro h hh hmem
    cases hh
    rw [String.toList_ofList] at hmem
    have hcut := List.mem_takeWhile_imp hmem
    exact absurd hcut (by decide)

/-- A user whose name has separators, of a database whose pool is opened again elsewhere. -/
def ordersProvider : RdsIamAuthProvider :=
  { region := "eu-west-1", username := "app&DBUser=root +%2", profile := none }

def ordersCalls : List RdsCall :=
  [.bindEndpoint "orders.example" 5432, .bindEndpoint "other.example" 5432]

def ordersAnswers : PresignAnswers := { sign := fun _ => .ok [("X-Amz-Signature", "a/b=")] }

theorem ordersToken_read :
    ∃ token, (ordersCalls.foldl .called ordersProvider).presign cutUrl ordersAnswers = .ok token ∧
      readToken token = ("orders.example:5432",
        [("Action", "connect"), ("DBUser", "app&DBUser=root +%2"), ("X-Amz-Signature", "a/b=")]) := by
  obtain ⟨token, htoken⟩ : ∃ token,
      (ordersCalls.foldl .called ordersProvider).presign cutUrl ordersAnswers = .ok token :=
    ⟨_, rfl⟩
  have hhosts : ∀ call ∈ ordersCalls, ∀ e, call.endpoint = some e → IsHost e.host := by
    intro call hcall e he
    simp only [ordersCalls, List.mem_cons, List.not_mem_nil, or_false] at hcall
    rcases hcall with rfl | rfl <;> cases he <;> simp [IsHost]
  have hnew : RdsIamAuthProvider.new "eu-west-1" "app&DBUser=root +%2" none = .ok ordersProvider := by
    rfl
  obtain ⟨e, host, params, hfirst, hsign, hhost, hread⟩ :=
    (tokens_read_back cutUrl cutUrl_keepsQuery hnew ordersCalls hhosts).1 ordersAnswers token htoken
  refine ⟨token, htoken, ?_⟩
  cases hfirst
  cases hsign
  have hcut : (cutUrl (RdsIamAuthProvider.connectUrl ordersProvider.username ⟨"orders.example", 5432⟩)).map Url.host =
      .ok (some "orders.example") := by
    decide
  have hname : host = "orders.example" := by
    have heq := hhost.symm.trans hcut
    cases heq
    rfl
  rw [hread, hname]
  rfl

end McpgSql.Auth
