/-!
# Media types

A media type names a kind and a subtype with a slash between them.  The part of the subtype behind
its last plus sign is its suffix.  Parameters may follow behind semicolons; they have to be well
formed and say nothing about what the media type stands for.  The case of letters does not matter.
-/

namespace CalendarCommand

/-- A media type in lower-case letters, without its parameters. -/
structure MediaType where
  kind : List Char
  subtype : List Char
  suffix : Option (List Char)
deriving DecidableEq, Repr

namespace MediaType

/-- The character may stand in a name. -/
def isToken (c : Char) : Bool :=
  c.isAlphanum || "!#$%&'*+-.^_\u0060|~".toList.contains c

/-- The character may stand between quotes. -/
def isQuotable (c : Char) : Bool :=
  32 ≤ c.toNat && c.toNat < 127

def takeToken (text : List Char) : List Char :=
  text.takeWhile isToken

def dropToken (text : List Char) : List Char :=
  text.dropWhile isToken

/-- The text behind a value between quotes, behind the opening quote.  A value has at least one
character, which may itself be a quote. -/
def skipQuoted? : List Char → Option (List Char)
  | [] => none
  | c :: text =>
    if isQuotable c then
      match text.dropWhile fun c => isQuotable c && c != '"' with
      | '"' :: rest => some (rest.dropWhile (· == ' '))
      | _ => none
    else none

/-- The text behind the value of a parameter. -/
def skipValue? : List Char → Option (List Char)
  | '"' :: text => skipQuoted? text
  | text => if (takeToken text).isEmpty && !text.isEmpty then none else some (dropToken text)

def skipParameter? (text : List Char) : Option (List Char) :=
  match (takeToken text).isEmpty, dropToken text with
  | false, '=' :: rest => skipValue? rest
  | _, _ => none

/-- The text behind a semicolon holds well-formed parameters, blanks in front of each allowed. -/
def hasParameters (text : List Char) : Bool :=
  match text.dropWhile (· == ' ') with
  | [] => true
  | text' =>
    match skipParameter? text' with
    | none => false
    | some [] => true
    | some (c :: rest) =>
      if c = ';' then if _hrest : rest.length < text.length then hasParameters rest else false
      else false
termination_by text.length
decreasing_by exact _hrest

/-- The subtype with its suffix, if it has one; a plus sign in front marks none. -/
def splitSuffix (subtype : List Char) : List Char × Option (List Char) :=
  let reversed := subtype.reverse
  let ending := reversed.takeWhile (· ≠ '+')
  match reversed.drop ending.length with
  | '+' :: c :: front => ((c :: front).reverse, some ending.reverse)
  | _ => (subtype, none)

def ofText? (text : String) : Option MediaType :=
  let kind := takeToken text.toList
  match kind.isEmpty, dropToken text.toList with
  | false, '/' :: rest =>
    let subtype := takeToken rest
    let parts := splitSuffix (subtype.map Char.toLower)
    let named := some { kind := kind.map Char.toLower, subtype := parts.1, suffix := parts.2 }
    match dropToken rest with
    | [] => named
    | ';' :: parameters => if !subtype.isEmpty && hasParameters parameters then named else none
    | _ => none
  | _, _ => none

def isJson (mediaType : MediaType) : Bool :=
  mediaType.kind == "application".toList &&
    (mediaType.subtype == "json".toList || mediaType.suffix == some "json".toList)

end MediaType

end CalendarCommand
