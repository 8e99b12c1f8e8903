import Compliance.Net.Host

/-!
# Uniform resource locators

Absolute locators in the written form of the web: schemes and domain names in small letters, no port
that is the scheme's own, no dot segments, and percent signs for characters that may not stand as
they are.

* `Url.read?` : the locator that a text denotes.
* `Url.toText` : the text of a locator.
-/

namespace Compliance.Net

/-- Who a locator addresses. -/
structure Authority where
  /-- A user and a password, in their written form. -/
  user : String := ""
  password : Option String := none
  host : String
  port : Option Nat := none
  deriving DecidableEq, Repr

/-- An absolute locator, its parts in their written form. -/
structure Url where
  scheme : String
  authority : Option Authority
  path : String
  query : Option String
  fragment : Option String
  deriving DecidableEq, Repr

/-! ### Writing -/

/-- The text of an authority. -/
def Authority.toText (a : Authority) : String :=
  let password := match a.password with
    | some p => ":" ++ p
    | none => ""
  let port := match a.port with
    | some n => ":" ++ toString n
    | none => ""
  (if a.user.isEmpty && a.password.isNone then "" else a.user ++ password ++ "@") ++ a.host ++ port

/-- The text of a locator. A path that begins with two slashes is set off from the place of an
authority. -/
def Url.toText (u : Url) : String :=
  let authority := match u.authority with
    | some a => "//" ++ a.toText
    | none => if u.path.startsWith "//" then "/." else ""
  let query := match u.query with
    | some q => "?" ++ q
    | none => ""
  let fragment := match u.fragment with
    | some f => "#" ++ f
    | none => ""
  u.scheme ++ ":" ++ authority ++ u.path ++ query ++ fragment

namespace Url

/-! ### Schemes and characters -/

/-- The kinds of schemes. -/
inductive SchemeKind where
  | file
  /-- A scheme whose locators have a host, with the port that they use if they name none. -/
  | known (port : Nat)
  | other
  deriving DecidableEq

/-- The kind of a scheme. -/
def schemeKind (s : String) : SchemeKind :=
  match s with
  | "http" | "ws" => .known 80
  | "https" | "wss" => .known 443
  | "ftp" => .known 21
  | "file" => .file
  | _ => .other

/-- Whether a backslash counts as a slash. -/
def SchemeKind.isSpecial (k : SchemeKind) : Bool := k != .other

/-- Characters that are escaped in a fragment. -/
def inFragment (c : Char) : Bool :=
  isControl c || c == ' ' || c == '\x22' || c == '<' || c == '>' || c == '\x60'

/-- Characters that are escaped in a path. -/
def inPath (c : Char) : Bool :=
  inFragment c || c == '#' || c == '?' || c == '\x7b' || c == '\x7d'

/-- Characters that are escaped in a user or a password. -/
def inUser (c : Char) : Bool :=
  inPath c || c == '/' || c == ':' || c == ';' || c == '=' || c == '@' || c == '[' || c == '\\' ||
    c == ']' || c == '^' || c == '|'

/-- Characters that are escaped in a query. -/
def inQuery (k : SchemeKind) (c : Char) : Bool :=
  isControl c || c == ' ' || c == '\x22' || c == '#' || c == '<' || c == '>' ||
    (k.isSpecial && c == '\x27')

/-- Characters in their written form. -/
def escape (escaped : Char → Bool) (cs : List Char) : String :=
  String.ofList (percentEncode escaped cs)

/-- Whether a character separates the parts of a path. -/
def isSlash (k : SchemeKind) (c : Char) : Bool := c == '/' || (k.isSpecial && c == '\\')

/-- Whether an authority ends before a character. -/
def endsAuthority (k : SchemeKind) (c : Char) : Bool := isSlash k c || c == '?' || c == '#'

/-! ### Authorities -/

/-- A user and a password before the last at sign of an authority, and what follows it. -/
def userInfo (k : SchemeKind) (cs : List Char) :
    Option (String × Option String × List Char) :=
  let authority := cs.takeWhile (!endsAuthority k ·)
  let tail := (authority.reverse.takeWhile (· != '@')).length
  if tail = authority.length then some ("", none, cs)
  else
    let info := authority.take (authority.length - tail - 1)
    let rest := cs.drop (info.length + 1)
    let user := info.takeWhile (· != ':')
    let password := info.drop (user.length + 1)
    if info.isEmpty then
      if rest.head?.any (endsAuthority k) then none else some ("", none, rest)
    else
      some (escape inUser user, if password.isEmpty then none else some (escape inUser password),
        rest)

/-- The characters of a host: a colon ends it except between brackets. -/
def hostChars (k : SchemeKind) : Bool → List Char → List Char
  | _, [] => []
  | inBrackets, c :: cs =>
    if endsAuthority k c || (c == ':' && !inBrackets) then []
    else c :: hostChars k (c == '[' || (inBrackets && c != ']')) cs

/-- A port after its colon, up to the end of the authority. -/
def port? (cs : List Char) : Option (Option Nat × List Char) :=
  let digits := cs.takeWhile Char.isDigit
  let rest := cs.drop digits.length
  let n := Text.decimalValue digits
  if rest.head?.any (fun c => !(c == '/' || c == '\\' || c == '?' || c == '#')) ||
      65535 < n then none
  else some (if digits.isEmpty then none else some n, rest)

/-- The authority at the front of a text, after its slashes. -/
def authority? (idna : Idna) (k : SchemeKind) (cs : List Char) :
    Option (Authority × List Char) := do
  let (user, password, rest) ← userInfo k cs
  let hasUser := !user.isEmpty || password.isSome
  let host := hostChars k false rest
  let rest := rest.drop host.length
  let written ← if k.isSpecial then (if host.isEmpty then none else Host.ofSpecial? idna host)
    else Host.ofOther? host
  if host.isEmpty && (hasUser || rest.head? == some ':') then none
  match rest with
  | ':' :: rest => do
    let (port, rest) ← port? rest
    let port := if port.map SchemeKind.known == some k then none else port
    return ({ user, password, host := written, port }, rest)
  | rest => return ({ user, password, host := written }, rest)

/-! ### Paths -/

/-- Whether a segment stands for the one above it. -/
def isDoubleDot (s : String) : Bool :=
  let t := s.toLower
  t == ".." || t == "%2e%2e" || t == ".%2e" || t == "%2e."

/-- Whether a segment stands for its own place. -/
def isSingleDot (s : String) : Bool :=
  s == "." || s.toLower == "%2e"

/-- Parts of a text between slashes. -/
def splitSlashes (k : SchemeKind) (cs : List Char) : List (List Char) :=
  cs.splitOnP (isSlash k)

/-- The segments of a path without dot segments; `above` are those so far, the last first. -/
def resolveDots : List String → List String → List String
  | above, [] => above.reverse
  | above, s :: rest =>
    let last := rest.isEmpty
    if isDoubleDot s then resolveDots (if last then "" :: above.drop 1 else above.drop 1) rest
    else if isSingleDot s then resolveDots (if last then "" :: above else above) rest
    else resolveDots (s :: above) rest

/-- The written form of a path from after its first slash. -/
def pathText (k : SchemeKind) (cs : List Char) : String :=
  let segments := resolveDots [] ((splitSlashes k cs).map (escape inPath))
  let segments := if k == .file then segments.dropWhile fun s => s.isEmpty && 1 < segments.length
    else segments
  "/" ++ "/".intercalate segments

/-- The path at the front of what follows an authority. -/
def pathAfterAuthority (k : SchemeKind) (cs : List Char) : String :=
  match cs with
  | [] => if k.isSpecial then "/" else ""
  | c :: r => pathText k (if isSlash k c then r else c :: r)

/-! ### Locators -/

/-- The characters of the web's control set at the ends of a text do not count. -/
def strip (cs : List Char) : List Char :=
  let blank (c : Char) : Bool := c.toNat ≤ 32
  ((cs.dropWhile blank).reverse.dropWhile blank).reverse

/-- The scheme of a locator in small letters, and what follows its colon. -/
def scheme? (cs : List Char) : Option (String × List Char) :=
  let name := cs.takeWhile fun c => c.isAlphanum || c == '+' || c == '-' || c == '.'
  match cs.drop name.length with
  | ':' :: rest =>
    if name.head?.any Char.isAlpha then some (String.ofList (name.map Char.toLower), rest) else none
  | _ => none

/-- The locator that a text denotes. -/
def read? (idna : Idna) (text : String) : Option Url := do
  let cs := (strip text.toList).filter fun c => c != '\t' && c != '\n' && c != '\r'
  let (scheme, cs) ← scheme? cs
  let k := schemeKind scheme
  let fragment := cs.dropWhile (· != '#')
  let cs := cs.takeWhile (· != '#')
  let query := cs.dropWhile (· != '?')
  let cs := cs.takeWhile (· != '?')
  let whole (authority : Option Authority) (path : String) : Url :=
    { scheme, authority, path
      query := if query.isEmpty then none else some (escape (inQuery k) (query.drop 1))
      fragment := if fragment.isEmpty then none else some (escape inFragment (fragment.drop 1)) }
  match k with
  | .known _ =>
    let (a, rest) ← authority? idna k (cs.dropWhile fun c => c == '/' || c == '\\')
    return whole (some a) (pathAfterAuthority k rest)
  | .file =>
    match cs with
    | c :: d :: rest =>
      if isSlash k c && isSlash k d then
        let host := rest.takeWhile (!isSlash k ·)
        let written ← if host.isEmpty then some "" else Host.ofSpecial? idna host
        return whole (some { host := if written == "localhost" then "" else written })
          (pathAfterAuthority k (rest.drop host.length))
      else return whole (some { host := "" }) (pathAfterAuthority k cs)
    | cs => return whole (some { host := "" }) (pathAfterAuthority k cs)
  | .other =>
    match cs with
    | '/' :: '/' :: rest =>
      let (a, rest) ← authority? idna k rest
      return whole (some a) (pathAfterAuthority k rest)
    | '/' :: rest => return whole none (pathText k rest)
    | cs => return whole none (escape isControl cs)

end Url

end Compliance.Net
