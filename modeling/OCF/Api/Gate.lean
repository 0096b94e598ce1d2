import OCF.Api.Access
import OCF.Foundations.Json
import OCF.Foundations.Text

/-!
# The gate before the API

Every route of the API stands behind one middleware. It maps a request to the permission it requires,
if any, reads credentials out of the `Authorization` header, and asks for access; only then is the
handler called. Reading a header value as text is the part of the HTTP library the middleware relies
on, a parameter here.

`handler_runs_only_if_cleared` is the result: for a request that is gated (`Gated`), whatever the
header holds and in whichever order the authenticators are asked, either the request is cleared
(`Cleared`) and the answer is the handler's, or the answer is 401 or 403 and the handler has not been
called.
-/

namespace OCF

/-- A machine-readable code for an error. -/
def Error.code : Error → String
  | .notFound _ => "not_found"
  | .alreadyExists _ => "already_exists"
  | .invalidArgument _ => "invalid_argument"
  | .notSupported _ => "not_supported"
  | .unauthenticated _ => "unauthenticated"
  | .forbidden _ => "forbidden"
  | .conflict _ => "conflict"
  | .provider _ _ => "provider_error"
  | .io _ => "io_error"
  | .serde _ => "serde_error"
  | .internal _ => "internal"

namespace Api

open Auth Authz

/-! ## Requests and responses -/

/-- An HTTP method. -/
inductive Method
  | options
  | get
  | post
  | put
  | delete
  | head
  | trace
  | connect
  | patch
  | extension (token : String)
  deriving DecidableEq

/-- An HTTP request. The names of its headers are in lower case, as the library keeps them. -/
structure Request where
  method : Method
  path : String
  headers : List (String × List UInt8)
  body : List UInt8

/-- The first value of a header. -/
def Request.header (r : Request) (name : String) : Option (List UInt8) :=
  (r.headers.find? fun h => h.1 = name).map Prod.snd

/-- An HTTP response. -/
structure Response where
  status : ℕ
  body : List UInt8
  deriving DecidableEq

/-- The response for an error: its status, and a body with its code and its text. -/
def ApiError.intoResponse (e : Error) : Response where
  status :=
    match e with
    | .notFound _ => 404
    | .alreadyExists _ | .conflict _ => 409
    | .invalidArgument _ => 400
    | .notSupported _ => 501
    | .unauthenticated _ => 401
    | .forbidden _ => 403
    | .provider _ _ | .io _ | .serde _ | .internal _ => 500
  body := Json.object [("code", Json.string e.code), ("message", Json.string e.display)]

/-! ## The required permission -/

/-- A method that changes something. -/
def Method.writes (method : Method) : Bool :=
  method = .post || method = .put || method = .patch || method = .delete

/-- `str::starts_with`. -/
def startsWith (path start : String) : Bool := start.toList.isPrefixOf path.toList

/-- The permission a request requires, or nothing when the route is open. -/
def requiredPermission (method : Method) (path : String) : Option String :=
  if path = "/api/v1/health" then none
  else if startsWith path "/api/v1/access" then
    some (if method.writes then "sys.modify" else "sys.read")
  else if startsWith path "/api/v1/admin" then some "sys.modify"
  else if !method.writes then none
  else if startsWith path "/api/v1/workloads" then some "workload.manage"
  else if startsWith path "/api/v1/networks" then some "vpc.manage"
  else if startsWith path "/api/v1/loadbalancers" then some "lb.manage"
  else some "sys.modify"

/-- The requests that need a permission: every change but on the path of the health check, and
everything under the paths of access and administration. -/
def Gated (method : Method) (path : String) : Prop :=
  method.writes ∧ path ≠ "/api/v1/health" ∨ startsWith path "/api/v1/access" ∨
    startsWith path "/api/v1/admin"

theorem requiredPermission_isSome_iff {method : Method} {path : String} :
    (requiredPermission method path).isSome ↔ Gated method path := by
  unfold requiredPermission Gated
  split_ifs with hhealth haccess hadmin hwrites
  · subst hhealth
    have haccess : startsWith "/api/v1/health" "/api/v1/access" = false := by decide
    have hadmin : startsWith "/api/v1/health" "/api/v1/admin" = false := by decide
    simp [haccess, hadmin]
  all_goals simp_all

/-! ## Credentials -/

/-- The six bits of a character of the alphabet. -/
def base64Val (c : UInt8) : Option UInt32 :=
  if 'A'.toUInt8 ≤ c ∧ c ≤ 'Z'.toUInt8 then some (c - 'A'.toUInt8).toUInt32
  else if 'a'.toUInt8 ≤ c ∧ c ≤ 'z'.toUInt8 then some (c - 'a'.toUInt8 + 26).toUInt32
  else if '0'.toUInt8 ≤ c ∧ c ≤ '9'.toUInt8 then some (c - '0'.toUInt8 + 52).toUInt32
  else if c = '+'.toUInt8 then some 62
  else if c = '/'.toUInt8 then some 63
  else none

/-- The bytes of a text, from the bits that are left over. The buffer is a machine word: what is
shifted out of it is lost, and was put out before. -/
def base64Loop (buf bits : UInt32) : List UInt8 → Option (List UInt8)
  | [] => some []
  | c :: cs =>
    (base64Val c).bind fun v =>
      let buf := (buf <<< 6) ||| v
      let bits := bits + 6
      if 8 ≤ bits then
        (base64Loop buf (bits - 8) cs).map fun out => (buf >>> (bits - 8)).toUInt8 :: out
      else base64Loop buf bits cs

/-- Decode standard base64; the padding is dropped. -/
def base64Decode (s : List Char) : Option (List UInt8) :=
  base64Loop 0 0 (utf8 (String.ofList ((Text.trim s).rdropWhile fun c => c = '=')))

/-- The credentials of an `Authorization` header: a user name and a password, or a token. -/
def parseAuthorization (header : String) : Option Credentials :=
  (Text.splitOnce ' ' header.toList).bind fun (scheme, rest) =>
    match Text.toAsciiLowercase (String.ofList scheme) with
    | "basic" =>
      (base64Decode (Text.trim rest)).bind fun decoded =>
        (String.fromUTF8? ⟨decoded.toArray⟩).bind fun text =>
          (Text.splitOnce ':' text.toList).map fun (user, pass) =>
            .password (String.ofList user) (String.ofList pass)
    | "bearer" => some (.token (String.ofList (Text.trim rest)))
    | _ => none

/-! ## The middleware -/

variable (debug : Scope → String) (toStr : List UInt8 → Option String)
  (authenticators : List Authenticator) (rbac : RbacEngine)

/-- The credentials a request carries: those of its `Authorization` header, when the value is text
and reads as credentials. -/
def Request.credentials (request : Request) : Option Credentials :=
  ((request.header "authorization").bind toStr).bind parseAuthorization

/-- Gate a request on the permission it requires. The handler works on a state. -/
def authzMiddleware {σ : Type} (request : Request) (next : Request → StateM σ Response) :
    StateM σ Response :=
  match requiredPermission request.method request.path with
  | none => next request
  | some perm =>
    match checkAccess debug authenticators rbac (request.credentials toStr) perm with
    | .error e => pure (ApiError.intoResponse e)
    | .ok () => next request

/-- A request is cleared: its header reads as credentials, a registered authenticator accepts them, and
the engine grants the user they name the required permission at fleet scope. -/
def Cleared (request : Request) : Prop :=
  ∃ value text creds perm, request.header "authorization" = some value ∧ toStr value = some text ∧
    parseAuthorization text = some creds ∧
    requiredPermission request.method request.path = some perm ∧
    ∃ authenticator ∈ authenticators, ∃ identity, authenticator creds = .ok identity ∧
      rbac.isAllowed ⟨identity.username, ⟨perm⟩, .fleet⟩

variable {request : Request}

theorem exists_of_authenticate {authenticators : List Authenticator} {creds : Credentials}
    {identity : Identity} (h : authenticate authenticators creds = some identity) :
    ∃ authenticator ∈ authenticators, authenticator creds = .ok identity := by
  obtain ⟨authenticator, hmem, hok⟩ := List.exists_of_findSome?_eq_some h
  refine ⟨authenticator, hmem, ?_⟩
  cases hres : authenticator creds with
  | error e => simp [hres, Except.toOption] at hok
  | ok i =>
    rw [hres] at hok
    exact congrArg Except.ok (Option.some.inj hok)

/-- What a check of access comes to: it fails with an error of authentication or of authorization, or
the credentials are accepted and the user they name is allowed. -/
theorem checkAccess_cases (creds : Option Credentials) (perm : String) :
    (∃ e, checkAccess debug authenticators rbac creds perm = .error e ∧
      ((ApiError.intoResponse e).status = 401 ∨ (ApiError.intoResponse e).status = 403)) ∨
    checkAccess debug authenticators rbac creds perm = .ok () ∧
      ∃ c, creds = some c ∧ ∃ authenticator ∈ authenticators, ∃ identity,
        authenticator c = .ok identity ∧ rbac.isAllowed ⟨identity.username, ⟨perm⟩, .fleet⟩ := by
  unfold checkAccess
  cases creds with
  | none => exact .inl ⟨_, rfl, .inl rfl⟩
  | some c =>
    dsimp only
    cases hauth : authenticate authenticators c with
    | none => exact .inl ⟨_, rfl, .inl rfl⟩
    | some identity =>
      obtain ⟨authenticator, hmem, hok⟩ := exists_of_authenticate hauth
      dsimp only [RbacEngine.authorize]
      split_ifs with hallowed
      · exact .inr ⟨rfl, c, rfl, authenticator, hmem, identity, hok, hallowed⟩
      · exact .inl ⟨_, rfl, .inr rfl⟩

theorem credentials_eq_some {toStr : List UInt8 → Option String} {creds : Credentials}
    (h : request.credentials toStr = some creds) :
    ∃ value text, request.header "authorization" = some value ∧ toStr value = some text ∧
      parseAuthorization text = some creds := by
  obtain ⟨text, htext, hcreds⟩ := Option.bind_eq_some_iff.1 h
  obtain ⟨value, hvalue, htext⟩ := Option.bind_eq_some_iff.1 htext
  exact ⟨value, text, hvalue, htext, hcreds⟩

/-- **Request gating.** For every gated request, header, registry and engine, and for every handler over
every state: the request is cleared and the answer is the handler's, or the answer is an error response
and the handler has not run, so the state is as it was. -/
theorem handler_runs_only_if_cleared (request : Request) (h : Gated request.method request.path)
    {σ : Type} (next : Request → StateM σ Response) (s : σ) :
    (Cleared toStr authenticators rbac request ∧
      (authzMiddleware debug toStr authenticators rbac request next).run s = (next request).run s) ∨
    ∃ e, (authzMiddleware debug toStr authenticators rbac request next).run s =
        (ApiError.intoResponse e, s) ∧
      ((ApiError.intoResponse e).status = 401 ∨ (ApiError.intoResponse e).status = 403) := by
  obtain ⟨perm, hperm⟩ := Option.isSome_iff_exists.1 (requiredPermission_isSome_iff.2 h)
  simp only [authzMiddleware, hperm]
  obtain ⟨e, he, hstatus⟩ | ⟨hok, creds, hcreds, hcleared⟩ :=
    checkAccess_cases debug authenticators rbac (request.credentials toStr) perm
  · refine .inr ⟨e, ?_, hstatus⟩
    simp only [he]
    rfl
  · obtain ⟨value, text, hvalue, htext, hparse⟩ := credentials_eq_some hcreds
    refine .inl ⟨⟨value, text, creds, perm, hvalue, htext, hparse, hperm, hcleared⟩, ?_⟩
    simp only [hok]

/-- The text of a header value that holds visible ASCII characters and tabs only. -/
def visibleAscii (value : List UInt8) : Option String :=
  if value.all fun b => (32 ≤ b && b < 127) || b = 9 then
    some (String.ofList (value.map fun b => Char.ofNat b.toNat))
  else none

/-- An authenticator with one account. -/
def oneAccount (username password : String) : Authenticator := fun creds =>
  if creds = .password username password then .ok ⟨username, []⟩
  else .error (.unauthenticated "invalid username or password")

/-- A request to migrate a workload, with the given authorization. -/
def migrateRequest (authorization : String) : Request :=
  ⟨.post, "/api/v1/workloads/w1/migrate", [("authorization", utf8 authorization)], []⟩

/-- A handler that counts its calls. -/
def countingHandler : Request → StateM ℕ Response := fun _ n => (⟨200, []⟩, n + 1)

theorem handler_runs_only_if_cleared_migrateRequest :
    ((authzMiddleware (fun _ => "") visibleAscii [oneAccount "admin" "s3cret"] RbacEngine.oneAdmin
        (migrateRequest "Basic YWRtaW46czNjcmV0") countingHandler).run 0).2 = 1 ∧
      ∃ e, (authzMiddleware (fun _ => "") visibleAscii [oneAccount "admin" "s3cret"]
        RbacEngine.oneAdmin (migrateRequest "Basic YWRtaW46czNjcmU=") countingHandler).run 0 =
          (ApiError.intoResponse e, 0) := by
  have hgated : Gated .post "/api/v1/workloads/w1/migrate" := .inl ⟨by decide, by decide⟩
  refine ⟨by decide +kernel, ?_⟩
  obtain ⟨-, h⟩ | ⟨e, h, -⟩ := handler_runs_only_if_cleared (fun _ => "") visibleAscii
    [oneAccount "admin" "s3cret"] RbacEngine.oneAdmin
    (migrateRequest "Basic YWRtaW46czNjcmU=") hgated countingHandler 0
  · -- the password is another one, so the handler is not called
    exact absurd (congrArg Prod.snd h) (by decide +kernel)
  · exact ⟨e, h⟩

end Api

end OCF
