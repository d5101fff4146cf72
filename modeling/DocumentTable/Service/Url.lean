import DocumentTable.Service.Host

/-!
# Addresses

The address of a service in its normal form: the scheme and the host in lower case, no default
port, no `.` or `..` among the segments of the path, and everything unusual percent-encoded.

## Main definitions

* `Url`: an address without user name and password
* `Url.text`: its text
* `Url.ofText?`: the address that a text stands for

## Design notes

Special schemes always have a host and a path that starts with a slash, and take backslashes for
slashes. So do addresses of files, but their host may be empty, and is empty on the local machine.
-/

namespace DocumentTable

/-- The host of an address and its port, unless it is the default one. -/
structure Authority where
  host : Host
  port : Option Nat := none
  deriving DecidableEq

/-- The path of an address: segments that each follow a slash, or an opaque text. -/
inductive UrlPath where
  | segments (segments : List String)
  | opaqueText (text : String)
  deriving DecidableEq

/-- An address without user name and password. -/
structure Url where
  scheme : String
  authority : Option Authority := none
  path : UrlPath
  query : Option String := none
  fragment : Option String := none
  deriving DecidableEq

/-- The text of a host and a port. -/
def Authority.text (a : Authority) : String :=
  a.host.text ++
    match a.port with
    | some port => ":" ++ toString port
    | none => ""

/-- The text of a path. -/
def UrlPath.text : UrlPath → String
  | segments l => String.join (l.map fun segment => "/" ++ segment)
  | opaqueText t => t

namespace Url

/-- The text of an address. -/
def text (u : Url) : String :=
  u.scheme ++ ":" ++
    (match u.authority with
      | some a => "//" ++ a.text
      | none => "") ++
    u.path.text ++
    (match u.query with
      | some q => "?" ++ q
      | none => "") ++
    match u.fragment with
    | some f => "#" ++ f
    | none => ""

/-- The default port of a special scheme. -/
def defaultPort? : String → Option Nat
  | "http" => some 80
  | "https" => some 443
  | "ws" => some 80
  | "wss" => some 443
  | "ftp" => some 21
  | _ => none

/-- Whether a scheme is special, files apart. -/
def isSpecial (scheme : String) : Bool :=
  (defaultPort? scheme).isSome

/-- The text without the blanks around it and without line breaks and tabs inside. -/
def clean (text : List Char) : List Char :=
  let blank (c : Char) : Bool := c ≤ ' '
  let trimmed := ((text.dropWhile blank).reverse.dropWhile blank).reverse
  trimmed.filter fun c => c ≠ '\t' && c ≠ '\n' && c ≠ '\r'

/-- The scheme of a text in lower case, and what follows its colon. -/
def splitScheme? (text : List Char) : Option (String × List Char) :=
  let inScheme (c : Char) : Bool := c.isAlphanum || c = '+' || c = '-' || c = '.'
  match text.takeWhile inScheme, text.dropWhile inScheme with
  | first :: name, ':' :: rest =>
    if first.isAlpha then some (String.ofList ((first :: name).map Char.toLower), rest) else none
  | _, _ => none

/-- Whether a character separates segments of a path. -/
def isSeparator (special : Bool) (c : Char) : Bool :=
  c = '/' || (special && c = '\\')

/-- Whether a character ends a path. -/
def endsPath (c : Char) : Bool :=
  c = '?' || c = '#'

/-- The port of a text: decimal digits or nothing. -/
def port? (scheme : String) (text : List Char) : Option (Option Nat) :=
  if !text.all Char.isDigit then none
  else
    let n := text.foldl (fun n c => n * 10 + (c.toNat - '0'.toNat)) 0
    if n ≥ 65536 then none
    else if text.isEmpty || defaultPort? scheme = some n then some none
    else some (some n)

/-- The text of a host, and the colon and the port that follow it. A colon between brackets is part
of the host. -/
def splitPort : (bracketed : Bool) → List Char → List Char × List Char
  | _, [] => ([], [])
  | bracketed, c :: rest =>
    if c = ':' && !bracketed then ([], c :: rest)
    else
      let (host, port) := splitPort (c = '[' || (bracketed && c ≠ ']')) rest
      (c :: host, port)

/-- The host and the port of a text, after the user name and the password, which end in the last
at-sign. Only a host can have any of them. -/
def authority? (scheme : String) (text : List Char) : Option Authority := do
  let pieces := splitAll ['@'] text
  let (hostText, portText) := splitPort false (← pieces.getLast?)
  if hostText.isEmpty && (1 < pieces.length || !portText.isEmpty) then none
  let host ← if isSpecial scheme then Host.ofText? hostText else Host.ofOpaqueText? hostText
  return ⟨host, ← port? scheme (portText.drop 1)⟩

/-- Whether a segment stands for the one it is in. -/
def isSingleDot (segment : List Char) : Bool :=
  [".", "%2e"].contains (String.ofList (segment.map Char.toLower))

/-- Whether a segment stands for the one above. -/
def isDoubleDot (segment : List Char) : Bool :=
  ["..", ".%2e", "%2e.", "%2e%2e"].contains (String.ofList (segment.map Char.toLower))

/-- The segments of a path, of which `above` are those so far, the last one first. -/
def resolve (above : List String) : List (List Char) → List String
  | [] => above.reverse
  | segment :: rest =>
    let above := if isDoubleDot segment then above.drop 1 else above
    if isDoubleDot segment || isSingleDot segment then
      resolve (if rest.isEmpty then "" :: above else above) rest
    else resolve (String.ofList (Percent.encode Percent.path segment) :: above) rest

/-- The segments of a text between separators. -/
def segments (special : Bool) (text : List Char) : List String :=
  let slashed := text.map fun c => if isSeparator special c then '/' else c
  resolve [] (splitAll ['/'] (if slashed.head? = some '/' then slashed.drop 1 else slashed))

/-- The address with the given scheme and authority and the path, the query and the fragment of a
text. -/
def withRest (scheme : String) (authority : Option Authority) (text : List Char) : Url :=
  let special := isSpecial scheme || scheme = "file"
  let pathText := text.takeWhile fun c => !endsPath c
  let beforeFragment := text.takeWhile (· ≠ '#')
  let queryText := beforeFragment.dropWhile (· ≠ '?')
  let fragmentText := text.dropWhile (· ≠ '#')
  let querySet := if special then Percent.specialQuery else Percent.query
  let part (encoded : UInt8 → Bool) : List Char → Option String
    | [] => none
    | _ :: inner => some (String.ofList (Percent.encode encoded inner))
  { scheme
    authority
    path :=
      if special || pathText.head? = some '/' then .segments (segments special pathText)
      else if authority.isSome then .segments []
      else .opaqueText (String.ofList (Percent.encode Percent.control pathText))
    query := part querySet queryText
    fragment := part Percent.fragment fragmentText }

/-- The part of a text that names an authority, and what follows it. -/
def splitAuthority (special : Bool) (text : List Char) : List Char × List Char :=
  let inAuthority (c : Char) : Bool := !(isSeparator special c || endsPath c)
  (text.takeWhile inAuthority, text.dropWhile inAuthority)

/-- The address whose authority starts a text. -/
def withAuthority? (scheme : String) (text : List Char) : Option Url := do
  let (named, rest) := splitAuthority (isSpecial scheme) text
  return withRest scheme (some (← authority? scheme named)) rest

/-- The host of a file. -/
def fileHost? (text : List Char) : Option Host := do
  if text.isEmpty then return .name ""
  let host ← Host.ofText? text
  return if host = .name "localhost" then .name "" else host

/-- The address of a file, from a text after the scheme. -/
def ofFile? (text : List Char) : Option Url := do
  if 2 ≤ (text.takeWhile (isSeparator true)).length then
    let (named, rest) := splitAuthority true (text.drop 2)
    return withRest "file" (some ⟨← fileHost? named, none⟩) rest
  else return withRest "file" (some ⟨.name "", none⟩) text

/-- The address that a text stands for. Relative addresses stand for none. -/
def ofText? (text : String) : Option Url := do
  let (scheme, rest) ← splitScheme? (clean text.toList)
  if scheme = "file" then ofFile? rest
  else if isSpecial scheme then withAuthority? scheme (rest.dropWhile (isSeparator true))
  else
    match rest with
    | '/' :: '/' :: named => withAuthority? scheme named
    | _ => some (withRest scheme none rest)

end Url

end DocumentTable
