import McpgSql.Changes.Plan

/-!
# Cloud authentication

The `auth` block of a binding and its errors. Every scheme but RDS IAM is a scaffold:
its provider has no token to give.
-/

namespace McpgSql.Auth

open McpgSql.Changes (ensure)

/-- A URL as the `url` crate has it. -/
structure Url where
  scheme : String
  password : Option String := none
  host : Option String
  query : Option String := none

/-- `Url::parse`. -/
abbrev ParseUrl := String → Except String Url

/-! ## Errors -/

inductive AuthError where
  | notImplemented (scheme : String)
  | invalidConfig (message : String)
  /-- With the text of the error that it came from. -/
  | fetch (message source : String)
deriving DecidableEq, Repr

def AuthError.text : AuthError → String
  | .notImplemented scheme => "auth scheme '" ++ scheme ++ "' is scaffolded but not yet supported"
  | .invalidConfig message => "auth config: " ++ message
  | .fetch message _ => "auth fetch: " ++ message

/-- What a connection or a registration fails with. -/
def AuthError.toSql (e : AuthError) : SqlError :=
  match e with
  | .invalidConfig _ | .notImplemented _ => .invalidSpec e.text
  | .fetch .. => .connect ("error with configuration: " ++ e.text)

/-! ## Configuration -/

inductive AuthConfig where
  | rdsIam (region username : String) (profile : Option String := none)
  | azureAd (scope : String := "https://ossrdbms-aad.database.windows.net/.default")
      (tenantId : Option String := none)
  | gcpIam (username : String)
  | auroraFailover (endpoints : List String)
deriving DecidableEq, Repr

namespace AuthConfig

def scheme : AuthConfig → String
  | .rdsIam .. => "rds_iam"
  | .azureAd .. => "azure_ad"
  | .gcpIam _ => "gcp_iam"
  | .auroraFailover _ => "aurora_failover"

/-- A field with nothing but white space. -/
def isBlank (s : String) : Bool := s.toList.all isWhiteSpace

def require (ok : Bool) (message : String) : Except AuthError Unit :=
  if ok then .ok () else .error (.invalidConfig message)

def validate : AuthConfig → Except AuthError Unit
  | .rdsIam region username _ => do
    require (!isBlank region) "rds_iam.region is required (e.g. 'us-east-1')"
    require (!isBlank username) "rds_iam.username is required"
  | .azureAd scope _ => require (!isBlank scope) "azure_ad.scope must be non-empty"
  | .gcpIam username => require (!isBlank username) "gcp_iam.username is required"
  | .auroraFailover endpoints =>
    require (!endpoints.isEmpty) "aurora_failover.endpoints must list at least one host"

end AuthConfig

end McpgSql.Auth
