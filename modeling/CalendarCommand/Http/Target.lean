/-!
# Targets of requests

The target of a request is either a path, or a whole address: a scheme, the mark `://`, the name of
a host and a path, which may be empty and then stands for the root.  A query may follow behind a
question mark and a fragment behind a number sign; neither belongs to the path.  A target of another
form has no path.
-/

namespace CalendarCommand

namespace Http

namespace Target

def endsPath (c : Char) : Bool :=
  c == '?' || c == '#'

def isSchemeChar (c : Char) : Bool :=
  c.isAlphanum || c == '+' || c == '-' || c == '.'

/-- The text behind the host of an address. -/
def behindHost (text : List Char) : List Char :=
  text.dropWhile fun c => c != '/' && !endsPath c

/-- The path of an address behind its scheme. -/
def addressPath (text : List Char) : List Char :=
  match (behindHost text).takeWhile fun c => !endsPath c with
  | [] => ['/']
  | path => path

def path? (target : String) : Option String :=
  match target.toList with
  | '/' :: rest => some (String.ofList ('/' :: rest.takeWhile fun c => !endsPath c))
  | text =>
    match text.dropWhile isSchemeChar with
    | ':' :: '/' :: '/' :: rest => some (String.ofList (addressPath rest))
    | _ => none

end Target

end Http

end CalendarCommand
