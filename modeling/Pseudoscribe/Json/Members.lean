import Pseudoscribe.Json.Basic

/-!
# Members with defaults

Reading the members of an object where whatever is missing, or of another form, has a default.
-/

namespace Pseudoscribe.Json

def has (j : Json) (name : String) : Bool := (j.member? name).isSome

def textAt (j : Json) (name : String) (otherwise : String := "") : String :=
  ((j.get name).asText?).getD otherwise

def natAt (j : Json) (name : String) (otherwise : Nat := 0) : Nat :=
  ((j.get name).asNat?).getD otherwise

def flagAt (j : Json) (name : String) : Bool := ((j.get name).asBool?).getD false

def itemsAt (j : Json) (name : String) : List Json := ((j.get name).asItems?).getD []

def textsAt (j : Json) (name : String) : List String := (j.itemsAt name).filterMap asText?

def natsAt (j : Json) (name : String) : List Nat := (j.itemsAt name).filterMap asNat?

/-- The pairs of numbers in a list. -/
def pairsAt (j : Json) (name : String) : List (Nat × Nat) :=
  (j.itemsAt name).filterMap fun p =>
    match p with
    | arr [a, b] => do pure ((← a.asNat?), (← b.asNat?))
    | _ => none

/-- The pairs of a name and a number in a list. -/
def countsAt (j : Json) (name : String) : List (String × Nat) :=
  (j.itemsAt name).filterMap fun p =>
    match p with
    | arr [str k, v] => some (k, v.asNat?.getD 0)
    | _ => none

/-- The members of an object; none of anything else. -/
def members (j : Json) : List (String × Json) := j.asMembers?.getD []

/-- An object with other values for some of its members; null is no other value. -/
def extendedBy (base j : Json) : Json :=
  obj (base.members.map fun (name, v) =>
    (name, ((j.member? name).filter (!·.isNull)).getD v))

/-- The members that have texts. -/
def textMembers (j : Json) : List (String × String) :=
  j.members.filterMap fun (name, v) => v.asText?.map (name, ·)

/-- Texts as one text. -/
def ofChars (cs : List Char) : Json := str (String.ofList cs)

/-- A list of values. -/
def ofList {α : Type} (f : α → Json) (xs : List α) : Json := arr (xs.map f)

/-- A value, or null. -/
def ofOption {α : Type} (f : α → Json) : Option α → Json
  | some x => f x
  | none => null

/-! ## Changing values all the way down -/

mutual

/-- Change every value that holds no others with `leaf`, and every member with `member`, which is given the changed
value and may leave the member out. -/
def adapt (leaf : Json → Json) (member : String → Json → Option Json) : Json → Json
  | arr xs => arr (adaptItems leaf member xs)
  | obj ms => obj (adaptMembers leaf member ms)
  | j => leaf j

def adaptItems (leaf : Json → Json) (member : String → Json → Option Json) : List Json → List Json
  | [] => []
  | j :: js => adapt leaf member j :: adaptItems leaf member js

def adaptMembers (leaf : Json → Json) (member : String → Json → Option Json) :
    List (String × Json) → List (String × Json)
  | [] => []
  | (name, j) :: ms =>
    let rest := adaptMembers leaf member ms
    match member name (adapt leaf member j) with
    | some j => (name, j) :: rest
    | none => rest

end

/-- Change every text. -/
def mapTexts (f : String → String) : Json → Json :=
  adapt (fun
    | str s => str (f s)
    | j => j) fun _ => some

end Pseudoscribe.Json
