import AgentFlow.Json.Value
import AgentFlow.Service.Error

/-!
# Exchanges with a service

A call posts a JSON body to an address. What comes back is an answer, a closed connection, or nothing. The words that
the transport and the reader of JSON have for a failure come along with it.
-/

namespace AgentFlow

/-- A call of a service. -/
structure HttpRequest where
  url : String
  authorization : Option String := none
  body : Json

/-- What comes back from a call. -/
inductive Exchange where
  /-- An answer; `complaint` is what the reader of JSON says of a body that it cannot read. -/
  | answer (status : Nat) (body : String) (retryAfter : Option String) (complaint : String := "")
  /-- The connection is closed without an answer, for which the transport gives a reason. -/
  | dropped (reason : String := "")
  /-- No answer comes. -/
  | hung
  deriving DecidableEq, Repr

namespace Http

/-- The status says that the call succeeded. -/
def isSuccess (status : Nat) : Bool := 200 ≤ status && status ≤ 299

/-- The number that a text of digits, with a plus sign before it or not, spells in 64 bits. -/
def count? (cs : List Char) : Option Nat :=
  let ds :=
    match cs with
    | '+' :: r => r
    | r => r
  if ds.isEmpty || !ds.all Char.isDigit then none
  else
    let n := Json.Number.digitsValue ds
    if n < Nat.pow 2 64 then some n else none

/-- A character that a header may hold. -/
def isHeaderChar (c : Char) : Bool := c = '\t' || (0x20 ≤ c.toNat && c.toNat < 0x7f)

/-- The wait, in milliseconds, that a header asks for in seconds. -/
def retryAfter? (header : Option String) : Option Nat :=
  header.bind fun h =>
    if h.toList.all isHeaderChar then (count? (Text.trim h.toList)).map (1000 * ·) else none

/-- The text of a body: a byte order mark at its start does not belong to it. -/
def bodyText (body : String) : String :=
  match body.toList with
  | c :: cs => if c.toNat = 0xfeff then String.ofList cs else body
  | [] => body

end Http

end AgentFlow
