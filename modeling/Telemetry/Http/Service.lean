import Telemetry.Exposition.Document
import Telemetry.Http.Negotiation
import Telemetry.Http.Query
import Telemetry.Json.Document

/-!
# The metrics service

Requests to responses. `GET` and `HEAD` ask for values in the negotiated format, `OPTIONS` for
metadata, which there is in JSON only. The checks are made in a fixed order, and the first that
fails decides the status: method, format, query, scope and name. Connections are not modelled.
-/

namespace Telemetry.Http

open Export (Selection Settings)

/-- The statuses of responses. -/
inductive Status where
  /-- A document is sent. -/
  | ok
  /-- The scope has no instruments. -/
  | noContent
  /-- The query is malformed. -/
  | badRequest
  /-- There is no such scope or metric. -/
  | notFound
  /-- The method is not served, or not in this format. -/
  | methodNotAllowed
  /-- No format that is asked for is known. -/
  | notAcceptable
  deriving DecidableEq, Repr

/-- The number of a status. -/
def Status.code : Status → Nat
  | .ok => 200
  | .noContent => 204
  | .badRequest => 400
  | .notFound => 404
  | .methodNotAllowed => 405
  | .notAcceptable => 406

/-- A response. -/
structure Response where
  status : Status
  /-- The media type of the body. -/
  contentType : Option String
  /-- The methods that are served. -/
  allow : Option String
  body : String
  deriving DecidableEq, Repr

namespace Response

/-- A response without a body. -/
def empty (status : Status) : Response := ⟨status, none, none, ""⟩

/-- The refusal of a method. -/
def methodNotAllowed : Response := ⟨.methodNotAllowed, none, some "GET, HEAD, OPTIONS", ""⟩

end Response

/-- What a method asks for. -/
inductive Purpose where
  | values
  /-- The headers of a response with values. -/
  | valueHeaders
  | metadata
  deriving DecidableEq, Repr

/-- The purpose of a method; methods are told apart by letter case. -/
def Purpose.ofMethod? (method : String) : Option Purpose :=
  if method = "GET" then some .values
  else if method = "HEAD" then some .valueHeaders
  else if method = "OPTIONS" then some .metadata
  else none

/-- The media type of a format. -/
def Format.contentType : Format → String
  | .prometheus => Exposition.Dialect.prometheus.contentType
  | .openMetrics => Exposition.Dialect.openMetrics.contentType
  | .json => Json.contentType

/-- The document of values in a format. -/
def Format.values? (format : Format) (settings : Settings) (selection : Selection) (w : World) :
    Option String × World :=
  match format with
  | .prometheus => Exposition.document? .prometheus settings selection w
  | .openMetrics => Exposition.document? .openMetrics settings selection w
  | .json => Json.values? settings selection w

/-- Whether a registry knows a name. -/
def knows (w : World) (name : String) (k : RegistryKey) : Bool :=
  ((w.registry k).metadataFor? name).isSome

/-- The selection of a query, or the status that tells why there is none. -/
def select (w : World) (q : Query) : Except Status Selection :=
  match q.scope with
  | some scope =>
    match w.scope? scope with
    | none => .error .notFound
    | some k =>
      match q.name with
      | some name => if knows w name k then .ok (.metric scope name) else .error .notFound
      | none => if (w.registry k).isEmpty then .error .noContent else .ok (.scope scope)
  | none =>
    match q.name with
    | some name =>
      if w.liveScopes.any fun e => knows w name e.2 then .ok (.metricEverywhere name)
      else .error .notFound
    | none => .ok .all

/-- Answer a request whose purpose, format and selection are settled. -/
def deliver (settings : Settings) (purpose : Purpose) (format : Format) (selection : Selection)
    (w : World) : Response × World :=
  let (document, w) := match purpose with
    | .metadata => Json.metadata? selection w
    | .values | .valueHeaders => format.values? settings selection w
  match document with
  | none => (.empty .notFound, w)
  | some text =>
    let body := if purpose = .valueHeaders then "" else text
    (⟨.ok, some format.contentType, none, body⟩, w)

/-- Answer a request. -/
def respond (settings : Settings) (method target : String) (accept : Option String) (w : World) :
    Response × World :=
  match Purpose.ofMethod? method with
  | none => (.methodNotAllowed, w)
  | some purpose =>
    match Format.negotiate accept with
    | none => (.empty .notAcceptable, w)
    | some format =>
      if purpose = .metadata ∧ format ≠ .json then (.methodNotAllowed, w)
      else
        match Query.parse? (queryOf target) with
        | none => (.empty .badRequest, w)
        | some query =>
          match select w query with
          | .error status => (.empty status, w)
          | .ok selection => deliver settings purpose format selection w

end Telemetry.Http
