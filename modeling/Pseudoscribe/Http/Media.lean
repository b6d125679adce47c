/-!
# Media types

What the content of a message is, as its header tells: a type, a subtype that may end in a suffix behind `+`, and
parameters behind semicolons.  Capitals do not count.
-/

namespace Pseudoscribe.Http

/-- The kind of some content. -/
structure MediaType where
  kind : String
  subtype : String
  suffix : Option String
deriving DecidableEq, Repr

namespace MediaType

/-- A character of the words that headers are made of. -/
def isToken (c : Char) : Bool :=
  c.isAlphanum || "!#$%&\x27*+-.^_\x60|~".toList.contains c

/-- A character between quotation marks. -/
def isQuotable (c : Char) : Bool := 32 ≤ c.toNat && c.toNat ≤ 126

/-- The text behind a quoted value, of which the opening quotation mark was read.  The first character
counts as content, whatever it is. -/
def afterQuoted? : List Char → Option (List Char)
  | [] => none
  | c :: cs =>
    if !isQuotable c then none
    else
      match cs.dropWhile fun x => isQuotable x && x != '"' with
      | '"' :: rest =>
        match rest.dropWhile (· == ' ') with
        | [] => some []
        | ';' :: rest => some rest
        | _ => none
      | _ => none

/-- The text behind a plain value. -/
def afterPlain? (cs : List Char) : Option (List Char) :=
  match cs.dropWhile isToken with
  | [] => some []
  | ';' :: rest => if cs.head? == some ';' then none else some rest
  | _ => none

/-- Are these parameters well written?  `fuel` bounds their number. -/
def areParameters : Nat → List Char → Bool
  | 0, cs => cs.isEmpty
  | fuel + 1, cs =>
    match cs.dropWhile (· == ' ') with
    | [] => true
    | cs =>
      match cs.takeWhile isToken, cs.dropWhile isToken with
      | _ :: _, '=' :: value =>
        let rest := match value with
          | '"' :: quoted => afterQuoted? quoted
          | plain => afterPlain? plain
        rest.any (areParameters fuel)
      | _, _ => false

/-- A subtype and its suffix, which stands behind the last plus sign but not at the beginning. -/
def splitSuffix (cs : List Char) : List Char × Option (List Char) :=
  match cs.drop 1 |>.reverse.dropWhile (· != '+') with
  | [] => (cs, none)
  | front =>
    let size := front.length
    (cs.take size, some (cs.drop (size + 1)))

/-- Read the value of a header. -/
def ofString? (text : String) : Option MediaType :=
  let cs := text.toList
  match cs.takeWhile isToken, cs.dropWhile isToken with
  | kind@(_ :: _), '/' :: rest =>
    let (subtype, suffix) := splitSuffix (rest.takeWhile isToken)
    let lower (cs : List Char) : String := String.ofList (cs.map Char.toLower)
    let found : MediaType := ⟨lower kind, lower subtype, suffix.map lower⟩
    match rest.dropWhile isToken with
    | [] => some found
    | ';' :: parameters =>
      if rest.head? != some ';' && areParameters parameters.length parameters then some found else none
    | _ => none
  | _, _ => none

/-- The content is JSON. -/
def isJson (m : MediaType) : Bool :=
  m.kind == "application" && (m.subtype == "json" || m.suffix == some "json")

end MediaType

end Pseudoscribe.Http
