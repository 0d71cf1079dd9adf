import AgentFlow.Text.Basic

/-!
# Failures of remote services

Why a call of a language model or of the execution service failed, and what is said about it. Spans of time are
counted in milliseconds.
-/

namespace AgentFlow

/-- The text of a span of `ms` milliseconds: seconds with as many decimals as they need, from one second on. -/
def spanText (ms : Nat) : String :=
  if ms = 0 then "0ns"
  else if ms < 1000 then toString ms ++ "ms"
  else
    let digits := ((1000 + ms % 1000).repr.toList.drop 1).reverse.dropWhile (· = '0')
    let fraction := if digits.isEmpty then "" else "." ++ String.ofList digits.reverse
    toString (ms / 1000) ++ fraction ++ "s"

/-- A failed call. -/
inductive ServiceError where
  /-- Too many calls; the service may say how long to wait. -/
  | rateLimited (retryAfter : Option Nat)
  | unavailable (status : Nat) (message : String)
  | invalidInput (status : Nat) (message : String)
  | unauthorized (message : String)
  | network (message : String)
  | timeout (after : Nat)
  /-- The limiter let no call through. -/
  | circuitOpen
  | cancelled
  | malformed (message : String)
  deriving DecidableEq, Repr

namespace ServiceError

def message : ServiceError → String
  | .rateLimited retryAfter =>
    "Rate limited by service (retry after "
      ++ (match retryAfter with
          | none => "None"
          | some ms => "Some(" ++ spanText ms ++ ")")
      ++ ")"
  | .unavailable status m => "Service unavailable (" ++ toString status ++ "): " ++ m
  | .invalidInput status m => "Invalid input (" ++ toString status ++ "): " ++ m
  | .unauthorized m => "Unauthorized: " ++ m
  | .network m => "Network error: " ++ m
  | .timeout ms => "Request timed out after " ++ spanText ms
  | .circuitOpen => "Circuit breaker is open or concurrency limit reached - rejecting call"
  | .cancelled => "Request cancelled"
  | .malformed m => "Malformed response: " ++ m

/-- Another call after a while may do better. -/
def isRetryable : ServiceError → Bool
  | .rateLimited _ => true
  | .network _ => true
  | .timeout _ => true
  | _ => false

/-- How long the service asks to wait. -/
def hint : ServiceError → Option Nat
  | .rateLimited retryAfter => retryAfter
  | _ => none

/-- The failure says something about the health of the service. -/
def countsAsFailure : ServiceError → Bool
  | .invalidInput _ _ => false
  | .cancelled => false
  | _ => true

/-- What the user is told. -/
def userMessage : ServiceError → String
  | .rateLimited _ => "The service is rate limiting requests. Please wait a moment and try again."
  | .invalidInput _ m => "The service rejected the submitted code as invalid input: " ++ m
  | .unauthorized _ => "The service rejected the credentials. Check the configured API key."
  | .cancelled => "The request was cancelled."
  | _ => "The service is currently unavailable. Please try again later."

/-- As much of a body as goes into a message. -/
def excerpt (body : String) : String := String.ofList (body.toList.take 500)

/-- The failure that a status of a language model's answer means. -/
def ofModelStatus (status : Nat) (body : String) (retryAfter : Option Nat) : ServiceError :=
  if status = 401 ∨ status = 403 then .unauthorized (excerpt body)
  else if status = 429 then .rateLimited retryAfter
  else if status = 400 ∨ status = 404 ∨ status = 413 ∨ status = 422 then .invalidInput status (excerpt body)
  else .unavailable status (excerpt body)

/-- The failure that a status of the execution service's answer means; a body that speaks of rate limits counts as
one, whatever the status. -/
def ofExecutionStatus (status : Nat) (body : String) (retryAfter : Option Nat) : ServiceError :=
  let low := Text.lowered body.toList
  if status = 429 ∨ Text.contains "rate limit" low ∨ Text.contains "rate-limit" low then .rateLimited retryAfter
  else if status = 401 ∨ status = 403 then .unauthorized (excerpt body)
  else if 400 ≤ status ∧ status ≤ 499 then .invalidInput status (excerpt body)
  else .unavailable status (excerpt body)

end ServiceError

end AgentFlow
