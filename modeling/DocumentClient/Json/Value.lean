import DocumentClient.Text.Utf8

/-!
# JSON values

A JSON document as data. Integers that fit in 64 bits stay integers, all other numbers are
floating-point numbers, kept by their bits.
-/

set_option autoImplicit false

namespace DocumentClient.Json

inductive Value where
  | null
  | bool (value : Bool)
  | integer (value : Int)
  | real (bits : UInt64)
  | text (value : String)
  | list (items : List Value)
  | object (members : List (String × Value))
deriving Repr

/-- Puts a member into a list sorted by name; a member of that name is replaced. -/
def insertMember (name : String) (value : Value) :
    List (String × Value) → List (String × Value)
  | [] => [(name, value)]
  | (other, old) :: rest =>
    if name = other then (name, value) :: rest
    else if name < other then (name, value) :: (other, old) :: rest
    else (other, old) :: insertMember name value rest

/-- An object from members in reading order: sorted by name, the last of equal names kept. -/
def Value.ofMembers (members : List (String × Value)) : Value :=
  .object (members.foldl (fun done member => insertMember member.1 member.2 done) [])

mutual

def Value.depth : Value → Nat
  | .list items => itemsDepth items + 1
  | .object members => membersDepth members + 1
  | _ => 0

def itemsDepth : List Value → Nat
  | [] => 0
  | item :: rest => max item.depth (itemsDepth rest)

def membersDepth : List (String × Value) → Nat
  | [] => 0
  | (_, value) :: rest => max value.depth (membersDepth rest)

end

end DocumentClient.Json
