/-!
# The application's error hierarchy

`app/core/exceptions.py`: every deliberately raised error derives from
`AppError` and carries an HTTP status and a machine-readable code. Only
the classes the modelled functions raise are listed, with the ancestors
their status or code comes from.
-/

namespace ThreatIntel

inductive ErrorClass where
  | appError
  | authentication
  | invalidToken
  | invalidApiKey
  | permissionDenied
  | accountLocked
  | notFound
  | conflict
  | validation
  | rateLimit
  | ssrf
  | collector
  | collectorUnavailable
  | unknownIndicator
  | circuitOpen
  deriving DecidableEq, Repr

namespace ErrorClass

/-- The class named in the `class` statement's parentheses. -/
def parent? : ErrorClass → Option ErrorClass
  | appError => none
  | invalidToken | invalidApiKey => some authentication
  | unknownIndicator => some validation
  | collectorUnavailable => some collector
  | circuitOpen => some collectorUnavailable
  | authentication | permissionDenied | accountLocked | notFound | conflict
  | validation | rateLimit | ssrf | collector => some appError

def statusCode : ErrorClass → Nat
  | appError => 500
  | authentication | invalidToken | invalidApiKey => 401
  | permissionDenied => 403
  | accountLocked | rateLimit => 429
  | ssrf => 400
  | notFound => 404
  | conflict => 409
  | validation | unknownIndicator => 422
  | collector => 502
  | collectorUnavailable | circuitOpen => 503

def code : ErrorClass → String
  | appError => "internal_error"
  | authentication => "authentication_error"
  | invalidToken => "invalid_token"
  | invalidApiKey => "invalid_api_key"
  | permissionDenied => "permission_denied"
  | accountLocked => "account_locked"
  | notFound => "not_found"
  | conflict => "conflict"
  | validation => "validation_error"
  | rateLimit => "rate_limited"
  | ssrf => "ssrf_blocked"
  | collector => "collector_error"
  | collectorUnavailable => "collector_unavailable"
  | unknownIndicator => "unknown_indicator"
  | circuitOpen => "circuit_open"

def message : ErrorClass → String
  | appError => "An unexpected error occurred."
  | authentication => "Authentication failed."
  | invalidToken => "The provided token is invalid or expired."
  | invalidApiKey => "The provided API key is invalid or revoked."
  | permissionDenied => "You do not have permission to perform this action."
  | accountLocked => "Too many failed attempts. This account is temporarily locked."
  | notFound => "The requested resource was not found."
  | conflict => "The request conflicts with the current state."
  | validation => "The request payload failed validation."
  | rateLimit => "Too many requests. Please slow down."
  | ssrf => "The requested destination is not allowed."
  | collector => "A threat-intelligence source returned an error."
  | collectorUnavailable => "The threat-intelligence source is currently unavailable."
  | unknownIndicator => "The supplied value is not a recognised indicator."
  | circuitOpen => "The circuit breaker is open for this source; try again shortly."

end ErrorClass

/-- A value in the `details` dictionary of an error. -/
inductive Detail where
  | int (n : Int)
  | str (s : String)
  deriving DecidableEq, Repr

structure AppError where
  cls : ErrorClass
  message : String
  details : List (String × Detail) := []
  deriving DecidableEq, Repr

namespace AppError

/-- `AppError.__init__`: the class's own message stands in for a missing
(or empty) one. -/
def raise (cls : ErrorClass) (message : String := "")
    (details : List (String × Detail) := []) : AppError :=
  { cls, message := if message = "" then cls.message else message, details }

/-- `isinstance(exc, ValidationError)`. -/
def isValidationError (e : AppError) : Bool :=
  e.cls = .validation || e.cls.parent? = some .validation

end AppError

/-- An exception of the standard library that the modelled code can meet. -/
inductive PyError where
  | valueError
  | typeError
  | recursionError
  | csvError
  | overflowError
  deriving DecidableEq, Repr

/-- What a call may raise: an error of the application, a constraint of
the database, an exception of the standard library, or a command of the
Redis client that failed. -/
inductive Exn where
  | app (error : AppError)
  | integrity
  | python (error : PyError)
  | redis
  deriving DecidableEq, Repr

end ThreatIntel
