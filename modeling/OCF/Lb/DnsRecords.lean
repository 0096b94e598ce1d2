import OCF.Core.Resource
import OCF.Foundations.JsonText
import OCF.Runtime.Command

/-!
# Publishing DNS records

The provider drives the Cloudflare API through `curl`. A lookup asks for a zone or a record, and
what it takes from the answer it finds by searching the text: a member `success` that is true, and
the first string that is called `id`. What `curl` answers is a parameter, a function of the requests
made so far.

`handled_iff` says which answers are read as they are meant. In the others the searched words stand
elsewhere, in a message or within the record, and an update can go to another record than the one
that was looked up.
-/

namespace OCF.Lb

open OCF.JsonText OCF.Text

/-! ## The provider -/

/-- The address of the API. -/
def cloudflareApi : String := "https://api.cloudflare.com/client/v4"

/-- The types of records. -/
inductive RecordType
  | a
  | aaaa
  | cname
  | txt
  deriving DecidableEq

/-- The name of a type. -/
def RecordType.asLabel : RecordType → String
  | .a => "A"
  | .aaaa => "AAAA"
  | .cname => "CNAME"
  | .txt => "TXT"

/-- The provider: its token, and the values it has published. -/
structure CloudflareDns where
  apiToken : String
  records : HashMap (String × String × RecordType) String

/-- The body contains a member `success` that is true. -/
def containsSuccessTrue (body : List Char) : Bool :=
  (matchRests (quoted "success".toList) body).any fun rest =>
    (afterColon rest).elim false fun value => "true".toList.isPrefixOf value

/-- An answer that does not report success is an error. -/
def checkSuccess (body : String) : Result Unit :=
  if containsSuccessTrue body.toList then .ok ()
  else .error (.provider "cloudflare" (Text.trimmed body))

/-- A string value up to its first quote. -/
def readString (value : List Char) : Option (List Char) :=
  (stripChar '"' value).bind fun rest => (splitOnce '"' rest).map Prod.fst

/-- The value of the first member `id` in the body. -/
def firstId (body : String) : Option String :=
  (matchRests (quoted "id".toList) body.toList).head?.bind fun rest =>
    (afterColon rest).bind fun value => (readString value).map String.ofList

/-- A character in a JSON string. -/
def jsonEscapeChar (c : Char) : List Char :=
  if c = '"' then ['\\', '"']
  else if c = '\\' then ['\\', '\\']
  else if c = '\n' then ['\\', 'n']
  else if c = '\r' then ['\\', 'r']
  else if c = '\t' then ['\\', 't']
  else if c.toNat < 0x20 then
    ['\\', 'u', '0', '0', Nat.digitChar (c.toNat / 16), Nat.digitChar (c.toNat % 16)]
  else [c]

/-- A text in a JSON string. -/
def jsonEscape (s : String) : String := String.ofList (s.toList.flatMap jsonEscapeChar)

/-- The body of a request that creates or updates a record. -/
def recordJson (name : String) (recordType : RecordType) (value : String) : String :=
  "\x7b\"type\":\"" ++ recordType.asLabel ++ "\",\"name\":\"" ++ jsonEscape name ++
    "\",\"content\":\"" ++
    jsonEscape value ++ "\",\"ttl\":1,\"proxied\":false\x7d"

/-- The requests made so far: the arguments of each call of `curl`. -/
abbrev Requests := List (List String)

/-- How `curl` answers the last of the requests. -/
abbrev Curl := Requests → CommandOutput

/-- The arguments of a call of `curl`. -/
def call (args : List String) : List String := ["--silent", "--show-error"] ++ args

namespace CloudflareDns

variable (d : CloudflareDns) (curl : Curl)

/-- The header that authorizes a request. -/
def authHeader : String := "Authorization: Bearer " ++ d.apiToken

/-- Make a request. -/
def request (args : List String) (sent : Requests) : Result String × Requests :=
  let sent := sent ++ [call args]
  match curl sent with
  | .notSpawned e => (.error (.provider "cloudflare" ("failed to spawn curl: " ++ e)), sent)
  | .exited true stdout _ => (.ok stdout, sent)
  | .exited false stdout stderr =>
    (.error (.provider "cloudflare" ("curl failed: " ++
      if Text.trimmed stderr = "" then Text.trimmed stdout else Text.trimmed stderr)), sent)

/-- The arguments of the request for a zone. -/
def zoneArgs (zone : String) : List String :=
  ["-X", "GET", cloudflareApi ++ "/zones?name=" ++ zone, "-H", d.authHeader]

/-- The id of a zone. -/
def zoneId (zone : String) (sent : Requests) : Result String × Requests :=
  match request curl (d.zoneArgs zone) sent with
  | (.error e, sent) => (.error e, sent)
  | (.ok body, sent) =>
    match checkSuccess body with
    | .error e => (.error e, sent)
    | .ok () =>
      match firstId body with
      | none => (.error (.provider "cloudflare" ("zone `" ++ zone ++ "` not found")), sent)
      | some id => (.ok id, sent)

/-- The arguments of the request for a record. -/
def recordArgs (zoneId name : String) (recordType : RecordType) : List String :=
  ["-X", "GET", cloudflareApi ++ "/zones/" ++ zoneId ++ "/dns_records?type=" ++ recordType.asLabel ++
    "&name=" ++ name, "-H", d.authHeader]

/-- The id of a record, if there is one already. -/
def existingRecordId (zoneId name : String) (recordType : RecordType) (sent : Requests) :
    Result (Option String) × Requests :=
  match request curl (d.recordArgs zoneId name recordType) sent with
  | (.error e, sent) => (.error e, sent)
  | (.ok body, sent) =>
    match checkSuccess body with
    | .error e => (.error e, sent)
    | .ok () => (.ok (firstId body), sent)

/-- Create a record, or update the one with an id. -/
def writeArgs (zoneId : String) (recordId : Option String) (payload : String) : List String :=
  (match recordId with
    | none => ["-X", "POST", cloudflareApi ++ "/zones/" ++ zoneId ++ "/dns_records"]
    | some id => ["-X", "PUT", cloudflareApi ++ "/zones/" ++ zoneId ++ "/dns_records/" ++ id]) ++
  ["-H", d.authHeader, "-H", "Content-Type: application/json", "-d", payload]

/-- Publish a record: create it when it is new, update it in place when it already exists. -/
def upsertRecord (zone name : String) (recordType : RecordType) (value : String) (sent : Requests) :
    Result Unit × CloudflareDns × Requests :=
  if zone = "" ∨ name = "" then
    (.error (.invalidArgument "dns record requires a zone and name"), d, sent)
  else
    match d.zoneId curl zone sent with
    | (.error e, sent) => (.error e, d, sent)
    | (.ok zoneId, sent) =>
      match d.existingRecordId curl zoneId name recordType sent with
      | (.error e, sent) => (.error e, d, sent)
      | (.ok recordId, sent) =>
        match request curl (d.writeArgs zoneId recordId (recordJson name recordType value)) sent with
        | (.error e, sent) => (.error e, d, sent)
        | (.ok body, sent) =>
          match checkSuccess body with
          | .error e => (.error e, d, sent)
          | .ok () =>
            (.ok (), { d with records := d.records.insert (zone, name, recordType) value }, sent)

end CloudflareDns

/-! ## Answers and what they mean -/

/-- The values of the members with a name. -/
def valuesOf (name : String) : Members → List Value
  | .nil => []
  | .cons key v members =>
    if decode key = name.toList then v :: valuesOf name members else valuesOf name members

/-- The first object among items. -/
def firstObject : Items → Option Members
  | .nil => none
  | .cons (.obj members) _ => some members
  | .cons _ items => firstObject items

/-- An answer of the API: an object with these four members, each once, in any order. -/
structure Response where
  members : Members
  success : Value
  errors : Value
  messages : Value
  result : Value
  success_eq : valuesOf "success" members = [success]
  errors_eq : valuesOf "errors" members = [errors]
  messages_eq : valuesOf "messages" members = [messages]
  result_eq : valuesOf "result" members = [result]

namespace Response

variable (r : Response)

/-- The answer as it is sent, with any white space between the tokens. -/
def text (ws : ℕ → Ws) : String := String.ofList (render (Value.obj r.members).tokens ws)

/-- The strings of a response. -/
def strings : List (Raw × Option Value) := r.members.strings

/-- The first object in the result. -/
def resultObject : Option Members :=
  match r.result with
  | .obj members => some members
  | .arr items => firstObject items
  | _ => none

/-- The id of the first object in the result. -/
def resultId : Option String :=
  r.resultObject.bind fun members =>
    match valuesOf "id" members with
    | .str s :: _ => some (String.ofList (decode s))
    | _ => none

/-- The body is read as the answer is meant: by the two searches, by the lookup of a zone, and when
a record is published, where the record is updated that the answer is about. -/
structure Handled (body : String) : Prop where
  success : checkSuccess body = .ok () ↔ r.success = .bool true
  id : firstId body = r.resultId
  zone : ∀ (d : CloudflareDns) (curl : Curl) (zone : String) (sent : Requests) (stderr : String),
    r.success = .bool true → curl (sent ++ [call (d.zoneArgs zone)]) = .exited true body stderr →
    d.zoneId curl zone sent =
      (match r.resultId with
        | none => .error (.provider "cloudflare" ("zone `" ++ zone ++ "` not found"))
        | some id => .ok id, sent ++ [call (d.zoneArgs zone)])
  upsert : ∀ (d : CloudflareDns) (curl : Curl) (zone name : String) (recordType : RecordType)
    (value : String) (sent sent' : Requests) (zoneId stderr : String), zone ≠ "" → name ≠ "" →
    r.success = .bool true → d.zoneId curl zone sent = (.ok zoneId, sent') →
    curl (sent' ++ [call (d.recordArgs zoneId name recordType)]) = .exited true body stderr →
    (d.upsertRecord curl zone name recordType value sent).2.2 = sent' ++
      [call (d.recordArgs zoneId name recordType),
        call (d.writeArgs zoneId r.resultId (recordJson name recordType value))]

/-- Some member that is written `"success"`, at any depth, is true. -/
def ShowsSuccess : Prop :=
  ∃ name, shows "success".toList name ∧ (name, some (.bool true)) ∈ r.strings

/-- The first string that is written `"id"` names a string, which is this id up to its first quote.
-/
def ShowsId (id : String) : Prop :=
  ∃ name s, r.strings.find? (fun p => shows "id".toList p.1) = some (name, some (.str s)) ∧
    (rawText s).takeWhile (fun c => c ≠ '"') = id.toList

/-- The words that are searched for stand where they are meant. -/
def Plain : Prop :=
  (r.ShowsSuccess ↔ r.success = .bool true) ∧ ∀ id, r.ShowsId id ↔ r.resultId = some id

end Response

/-! ## What the searches find -/

/-- The token is `true`. -/
def isTrue : Tok → Bool
  | .bool b => b
  | _ => false

theorem isQuotable_success : IsQuotable "success".toList := by
  refine ⟨by decide, List.all_eq_true.1 (by decide), fun c hc => ?_⟩
  obtain rfl : 's' = c := by simpa using hc
  decide

theorem isQuotable_id : IsQuotable "id".toList := by
  refine ⟨by decide, List.all_eq_true.1 (by decide), fun c hc => ?_⟩
  obtain rfl : 'i' = c := by simpa using hc
  decide

/-- No other token begins with the letters of `true`. -/
theorem isPrefixOf_true (t : Tok) (rest : List Char) :
    "true".toList.isPrefixOf (t.text ++ rest) = isTrue t := by
  cases t with
  | punct p => cases p <;> rfl
  | str s => rfl
  | number n =>
    obtain ⟨c, s, hs, hc⟩ := n.exists_chars
    have hne : 't' ≠ c := by
      rintro rfl
      exact absurd hc (by decide)
    simp [Tok.text, hs, isTrue, List.isPrefixOf, hne]
  | bool b => cases b <;> rfl
  | null => rfl

theorem first_eq_true {v : Value} : isTrue v.first = true ↔ v = .bool true := by
  cases v <;> simp [Value.first, isTrue]

namespace Response

variable (r : Response)

theorem containsSuccessTrue_text (ws : ℕ → Ws) :
    containsSuccessTrue (render (Value.obj r.members).tokens ws) ↔ r.ShowsSuccess := by
  have hread := matchRests_value isQuotable_success (f := fun rest => (afterColon rest).elim false _)
    (g := fun t => t.elim false isTrue) (elim_afterColon_render rfl isPrefixOf_true)
      (.obj r.members) ws
  have hany := congrArg (fun l => l.any id) hread
  simp only [List.any_map, Function.id_comp] at hany
  rw [containsSuccessTrue, hany, ShowsSuccess, foundNames, List.any_map, List.any_filter,
    List.any_eq_true]
  constructor
  · rintro ⟨⟨name, v⟩, hmem, h⟩
    obtain ⟨hshows, htrue⟩ := Bool.and_eq_true_iff.1 h
    cases v with
    | none => cases htrue
    | some v => exact ⟨name, hshows, first_eq_true.1 htrue ▸ hmem⟩
  · rintro ⟨name, hshows, hmem⟩
    exact ⟨_, hmem, Bool.and_eq_true_iff.2 ⟨hshows, rfl⟩⟩

/-- What is read of a token as the value of a member `id`. -/
def readTok : Tok → Option (List Char)
  | .str s => some ((rawText s).takeWhile fun c => c ≠ '"')
  | _ => none

theorem splitOnce_takeWhile (s rest : List Char) :
    (splitOnce '"' (s ++ '"' :: rest)).map Prod.fst = some (s.takeWhile fun c => c ≠ '"') := by
  induction s with
  | nil => rfl
  | cons c s ih =>
    by_cases hc : c = '"'
    · simp [splitOnce, hc]
    · rw [List.cons_append, splitOnce, if_neg hc, Option.map_map,
        List.takeWhile_cons_of_pos (by simp [hc])]
      have := congrArg (Option.map (c :: ·)) ih
      rwa [Option.map_map] at this

theorem readString_text (t : Tok) (rest : List Char) : readString (t.text ++ rest) = readTok t := by
  cases t with
  | punct p => cases p <;> rfl
  | str s =>
    rw [Tok.text, List.cons_append, List.cons_append, List.append_assoc, readString, stripChar,
      if_pos rfl]
    exact splitOnce_takeWhile _ _
  | number n =>
    obtain ⟨c, s, hs, hc⟩ := n.exists_chars
    have hne : c ≠ '"' := by
      rintro rfl
      exact absurd hc (by decide)
    simp [Tok.text, hs, readString, stripChar, hne, readTok]
  | bool b => cases b <;> rfl
  | null => rfl

theorem firstId_eq (body : String) :
    firstId body = (((matchRests (quoted "id".toList) body.toList).map fun rest =>
      (afterColon rest).elim none readString).head?.bind id).map String.ofList := by
  rw [firstId, List.head?_map]
  cases (matchRests (quoted "id".toList) body.toList).head? with
  | none => rfl
  | some rest =>
    simp only [Option.bind_some, Option.map_some, id_eq]
    cases afterColon rest <;> rfl

theorem toList_text (ws : ℕ → Ws) : (r.text ws).toList = render (Value.obj r.members).tokens ws :=
  String.toList_ofList

theorem firstId_text (ws : ℕ → Ws) (id : String) : firstId (r.text ws) = some id ↔ r.ShowsId id := by
  have hread := matchRests_value isQuotable_id
    (f := fun rest => (afterColon rest).elim none readString)
    (g := fun t => t.elim none readTok) (elim_afterColon_render rfl readString_text)
      (.obj r.members) ws
  rw [firstId_eq, toList_text, hread, foundNames, List.head?_map, List.head?_map,
    List.head?_filter, ShowsId, strings, Value.strings]
  cases hfind : r.members.strings.find? fun p => shows "id".toList p.1 with
  | none => simp
  | some p =>
    obtain ⟨name, v⟩ := p
    have hid : ∀ s : List Char, String.ofList s = id ↔ s = id.toList :=
      fun s => ⟨fun h => by simp [← h], fun h => by simp [h]⟩
    cases v with
    | none => simp
    | some v => cases v <;> simp [Value.first, readTok, hid]

theorem checkSuccess_text (ws : ℕ → Ws) : checkSuccess (r.text ws) = .ok () ↔ r.ShowsSuccess := by
  rw [← r.containsSuccessTrue_text ws, checkSuccess, toList_text]
  split <;> simp [*]

end Response

namespace CloudflareDns

variable {curl : Curl}

theorem request_of_exited {args : List String} {sent : Requests} {body stderr : String}
    (h : curl (sent ++ [call args]) = .exited true body stderr) :
    request curl args sent = (.ok body, sent ++ [call args]) := by
  rw [request, h]

/-- The last request of a call is the one that creates or updates the record. -/
theorem requests_upsertRecord (d : CloudflareDns) {zone name : String} {recordType : RecordType}
    {sent sent' sent'' : Requests} {zoneId : String} {recordId : Option String} (hzone : zone ≠ "")
    (hname : name ≠ "") (hz : d.zoneId curl zone sent = (.ok zoneId, sent'))
    (hr : d.existingRecordId curl zoneId name recordType sent' = (.ok recordId, sent''))
    (value : String) :
    (d.upsertRecord curl zone name recordType value sent).2.2 =
      sent'' ++ [call (d.writeArgs zoneId recordId (recordJson name recordType value))] := by
  have hsent : ∀ args sent, (request curl args sent).2 = sent ++ [call args] := by
    intro args sent
    rw [request]
    split <;> rfl
  rw [upsertRecord, if_neg (by simp [hzone, hname]), hz]
  simp only [hr]
  rw [← hsent]
  generalize request curl _ sent'' = answer
  obtain ⟨answer, sent⟩ := answer
  cases answer with
  | error e => rfl
  | ok body =>
    dsimp only
    split <;> rfl

end CloudflareDns

namespace Response

variable (r : Response)

/-- What is found by the searches decides the lookups. -/
theorem Handled.of_searches {r : Response} {body : String}
    (hsuccess : checkSuccess body = .ok () ↔ r.success = .bool true)
    (hid : firstId body = r.resultId) :
    r.Handled body where
  success := hsuccess
  id := hid
  zone d curl zone sent stderr htrue hanswer := by
    rw [CloudflareDns.zoneId, CloudflareDns.request_of_exited hanswer]
    simp only [hsuccess.2 htrue, hid]
    cases r.resultId <;> rfl
  upsert d curl zone name recordType value sent sent' zoneId stderr hzone hname htrue hz hanswer :=
    by
    have hr : d.existingRecordId curl zoneId name recordType sent' =
        (.ok r.resultId, sent' ++ [call (d.recordArgs zoneId name recordType)]) := by
      rw [CloudflareDns.existingRecordId, CloudflareDns.request_of_exited hanswer]
      simp only [hsuccess.2 htrue, hid]
    rw [d.requests_upsertRecord hzone hname hz hr, List.append_assoc]
    rfl

/-- Which answers are read as they are meant, whatever their order, nesting and white space. -/
theorem handled_iff (ws : ℕ → Ws) : r.Handled (r.text ws) ↔ r.Plain := by
  have hsearch : (checkSuccess (r.text ws) = .ok () ↔ r.success = .bool true) ∧
      firstId (r.text ws) = r.resultId ↔ r.Plain := by
    rw [Plain, checkSuccess_text, Option.ext_iff]
    simp only [firstId_text]
  rw [← hsearch]
  exact ⟨fun h => ⟨h.success, h.id⟩, fun h => .of_searches h.1 h.2⟩

end Response

/-! ## An id elsewhere -/

/-- A string of plain characters, as it is. -/
def rawOf (s : String) : Raw :=
  s.toList.filterMap fun c => if h : isPlain c then some (.plain c h) else none

/-- An object with only an id. -/
def objectWithId (id : String) : Value := .obj (.cons (rawOf "id") (.str (rawOf id)) .nil)

/-- A message has an id, and it comes first. -/
def strayId : Response where
  members := .cons (rawOf "success") (.bool true) (.cons (rawOf "errors") (.arr .nil)
    (.cons (rawOf "messages") (.arr (.cons (objectWithId "m1") .nil))
      (.cons (rawOf "result") (.arr (.cons (objectWithId "r1") .nil)) .nil)))
  success := .bool true
  errors := .arr .nil
  messages := .arr (.cons (objectWithId "m1") .nil)
  result := .arr (.cons (objectWithId "r1") .nil)
  success_eq := rfl
  errors_eq := rfl
  messages_eq := rfl
  result_eq := rfl

theorem strayId_not_handled :
    strayId.text (fun _ => .none) =
      "\x7b\"success\":true,\"errors\":[],\"messages\":[\x7b\"id\":\"m1\"\x7d]," ++
        "\"result\":[\x7b\"id\":\"r1\"\x7d]\x7d" ∧
      firstId (strayId.text fun _ => .none) = some "m1" ∧ strayId.resultId = some "r1" ∧
      ¬ strayId.Handled (strayId.text fun _ => .none) := by
  have hfirst : firstId (strayId.text fun _ => .none) = some "m1" := by decide +kernel
  have hresult : strayId.resultId = some "r1" := by decide +kernel
  refine ⟨by decide +kernel, hfirst, hresult, fun h => ?_⟩
  have hid := h.id
  rw [hfirst, hresult] at hid
  exact absurd hid (by decide)

end OCF.Lb
