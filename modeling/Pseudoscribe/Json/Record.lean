import Pseudoscribe.Json.Basic

/-!
# Reading records

A record is an object with known members, or an array with the members in their order.  Unknown members of
an object are passed over, a known one must not occur twice.  A member may be required, optional
(absent is the same as null, in an object) or have a default.
-/

namespace Pseudoscribe.Json

/-- Whether a member may be left out. -/
inductive Presence where
  | required
  /-- absent from an object it counts as null -/
  | optional
  /-- absent it has a default of its own -/
  | defaulted
deriving DecidableEq, Repr

/-- A record as it was read: the members that are there. -/
structure Record where
  members : List (String × Json)

namespace Record

/-- The value of a member, if it is there. -/
def find? (r : Record) (name : String) : Option Json :=
  (r.members.find? (·.1 == name)).map (·.2)

/-- A member that must be there, or null if it is optional and was left out. -/
def read? {α : Type} (r : Record) (name : String) (read : Json → Option α) : Option α :=
  read ((r.find? name).getD null)

/-- A member that has a default. -/
def readOr? {α : Type} (r : Record) (name : String) (otherwise : α) (read : Json → Option α) :
    Option α :=
  match r.find? name with
  | some j => read j
  | none => some otherwise

end Record

/-- The members of a record that is written as an array. -/
def recordOfItems? : List (String × Presence) → List Json → Option (List (String × Json))
  | [], [] => some []
  | [], _ :: _ => none
  | (_, p) :: fields, [] => if p = .defaulted then recordOfItems? fields [] else none
  | (name, _) :: fields, j :: js => (recordOfItems? fields js).map ((name, j) :: ·)

/-- The members of a record that is written as an object: the known ones, each at most once. -/
def recordOfMembers? (fields : List (String × Presence)) (ms : List (String × Json)) :
    Option (List (String × Json)) :=
  let known := ms.filter fun m => fields.any (·.1 == m.1)
  let names := known.map (·.1)
  if names.eraseDups.length = names.length ∧
      fields.all fun f => f.2 != .required || names.contains f.1 then
    some known
  else none

/-- Read a record with these members. -/
def record? (fields : List (String × Presence)) : Json → Option Record
  | obj ms => (recordOfMembers? fields ms).map (⟨·⟩)
  | arr js => (recordOfItems? fields js).map (⟨·⟩)
  | _ => none

/-- The tag of a record that has one, and the rest of it: a member of this name, once, or the first
item. -/
def tagged? (tag : String) : Json → Option (String × Json)
  | obj ms =>
    match ms.filter (·.1 == tag) with
    | [(_, str name)] => some (name, obj (ms.filter (·.1 != tag)))
    | _ => none
  | arr (str name :: js) => some (name, arr js)
  | _ => none

/-- One of several words: written as a text, or as an object whose only member has that name and no
value. -/
def word? : Json → Option String
  | str s => some s
  | obj [(name, null)] => some name
  | _ => none

end Pseudoscribe.Json
