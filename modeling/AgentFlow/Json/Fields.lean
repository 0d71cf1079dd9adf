import AgentFlow.Json.Parser

/-!
# Reading records from JSON

A record is an object, or an array of its fields in order. A field given twice is refused, whether by one name
or by two, and names that the record does not know are skipped. What happens to a field that is not given is
the field's own rule, `Absent`.
-/

namespace AgentFlow.Json

/-- The fields of a record as they stand in the text. -/
inductive Fields where
  | named (members : List (String × Json))
  | listed (items : List Json)

/-- What an absent field means. -/
inductive Absent (α : Type) where
  /-- The record is refused. -/
  | refused
  /-- The field is `a` in an object; in an array it must be there. -/
  | byName (a : α)
  /-- The field is `a`. -/
  | default (a : α)

namespace Absent

/-- Stands in for a member that an object does not have. -/
def named? : Absent α → Option α
  | .refused => none
  | .byName a => some a
  | .default a => some a

/-- Stands in for an element that an array is too short to have. -/
def listed? : Absent α → Option α
  | .default a => some a
  | _ => none

end Absent

/-- The fields of a record of `count` fields: an array has no more elements. -/
def fields? (count : Nat) : Json → Option Fields
  | .obj members => some (.named members)
  | .arr items => if items.length ≤ count then some (.listed items) else none
  | _ => none

namespace Fields

/-- The field at `position`, called by any of `names`. -/
def get (fs : Fields) (position : Nat) (names : List String) (absent : Absent α)
    (read : Json → Option α) : Option α :=
  match fs with
  | .named members =>
    match members.filter fun m => names.contains m.1 with
    | [] => absent.named?
    | [m] => read m.2
    | _ => none
  | .listed items =>
    match items[position]? with
    | none => absent.listed?
    | some v => read v

end Fields

/-! ### Readers of plain values -/

def bool? : Json → Option Bool
  | .bool b => some b
  | _ => none

/-- A natural number below `bound`. -/
def natBelow? (bound : Nat) : Json → Option Nat
  | .num n => n.natBelow? bound
  | _ => none

/-- An unsigned integer of `bits` bits. -/
def unsigned? (bits : Nat) (v : Json) : Option Nat := natBelow? (Nat.pow 2 bits) v

/-- A count of 32 bits stands for a number. -/
instance : Coe UInt32 Nat := ⟨UInt32.toNat⟩

/-- A count of 32 bits. -/
def count? (v : Json) : Option UInt32 := (unsigned? 32 v).map UInt32.ofNat

def signed? (bits : Nat) : Json → Option Int
  | .num n => n.signed? bits
  | _ => none

def float? : Json → Option Float
  | .num n => n.float?
  | _ => none

/-- A value that may be null. -/
def optional? (read : Json → Option α) : Json → Option (Option α)
  | .null => some none
  | v => (read v).map some

/-- An array whose elements all can be read. -/
def list? (read : Json → Option α) : Json → Option (List α)
  | .arr items => items.mapM read
  | _ => none

/-- One of several words, as a string or as the only member, with value null, of an object. -/
def word? (read : String → Option α) : Json → Option α
  | .str s => read s
  | .obj [(s, .null)] => read s
  | _ => none

end AgentFlow.Json
