import LeadQueue.Python

/-!
# Recipient addresses

`normalizeUrl` is the check of a recipient URL, `originOf` its fairness key. Both
read the URL through `urlsplit` of Python's `urllib.parse`, of which the scheme
and the network location are modelled. The Unicode tables behind `str.lower` and
behind the last check of a network location are a parameter.
-/

namespace LeadQueue

/-! ## `urllib.parse` -/

/-- What `urlsplit` needs of the Unicode and IP address libraries. -/
structure UrlLibrary where
  /-- `str.lower`. -/
  lower : PyStr → PyStr
  /-- The text of the `ValueError` of `_check_bracketed_host` or `_checknetloc`,
  where one of them raises. -/
  netlocError : PyStr → Option PyStr

structure SplitResult where
  scheme : PyStr
  netloc : PyStr
deriving DecidableEq

/-- `str.partition`: the text before the separator and the text after it. -/
def PyStr.partition (sep : CodePoint) (s : PyStr) : PyStr × PyStr :=
  (s.takeWhile (· != sep), (s.dropWhile (· != sep)).tail)

def isAsciiAlpha (c : CodePoint) : Bool :=
  (0x41 ≤ c.val && c.val ≤ 0x5a) || (0x61 ≤ c.val && c.val ≤ 0x7a)

def isAsciiDigit (c : CodePoint) : Bool := 0x30 ≤ c.val && c.val ≤ 0x39

/-- `scheme_chars`. -/
def isSchemeChar (c : CodePoint) : Bool :=
  isAsciiAlpha c || isAsciiDigit c || c == 0x2b || c == 0x2d || c == 0x2e

def asciiLower (c : CodePoint) : CodePoint :=
  if 0x41 ≤ c.val ∧ c.val ≤ 0x5a then Fin.ofNat 0x110000 (c.val + 0x20) else c

/-- The scheme and what follows its colon, or no scheme and the whole text. -/
def splitScheme (url : PyStr) : PyStr × PyStr :=
  let (scheme, rest) := PyStr.partition 0x3a url
  if (0x3a : CodePoint) ∈ url && scheme.head?.any isAsciiAlpha && scheme.all isSchemeChar then
    (scheme.map asciiLower, rest)
  else ([], url)

/-- `urlsplit`; an error is the text of its `ValueError`. -/
def urlsplit (lib : UrlLibrary) (url : PyStr) : Except PyStr SplitResult :=
  -- leading control characters and blanks, then tabs and line ends anywhere
  let url := (url.dropWhile fun c => decide (c.val ≤ 0x20)).filter fun c =>
    c != 0x09 && c != 0x0d && c != 0x0a
  let (scheme, rest) := splitScheme url
  if rest.take 2 = [0x2f, 0x2f] then
    let netloc := (rest.drop 2).takeWhile fun c => c != 0x2f && c != 0x3f && c != 0x23
    if netloc.contains 0x5b != netloc.contains 0x5d then .error (.ofString "Invalid IPv6 URL")
    else
      match lib.netlocError netloc with
      | some text => .error text
      | none => .ok ⟨scheme, netloc⟩
  else .ok ⟨scheme, []⟩

namespace SplitResult

/-- `_hostinfo`. -/
def hostinfo (parts : SplitResult) : PyStr × Option PyStr :=
  let hostinfo := parts.netloc.rtakeWhile (· != 0x40)
  let (hostname, port) :=
    if hostinfo.contains 0x5b then
      let (hostname, port) := PyStr.partition 0x5d (PyStr.partition 0x5b hostinfo).2
      (hostname, (PyStr.partition 0x3a port).2)
    else PyStr.partition 0x3a hostinfo
  (hostname, if port = [] then none else some port)

/-- A zone after `%` keeps its case. -/
def hostname (lib : UrlLibrary) (parts : SplitResult) : Option PyStr :=
  let hostname := parts.hostinfo.1
  if hostname = [] then none
  else some (lib.lower (hostname.takeWhile (· != 0x25)) ++ hostname.dropWhile (· != 0x25))

/-- `int` refuses more than 4300 digits. -/
def port (parts : SplitResult) : Except Raised (Option ℕ) :=
  match parts.hostinfo.2 with
  | none => .ok none
  | some digits =>
      if digits.all isAsciiDigit && decide (digits.length ≤ 4300) then
        let n := digits.foldl (fun n c => n * 10 + (c.val - 0x30)) 0
        if n ≤ 65535 then .ok (some n) else .error .valueError
      else .error .valueError

end SplitResult

/-! ## `app.recipients` -/

def allowedSchemes : List PyStr := [.ofString "http", .ofString "https"]

def defaultPorts : List (PyStr × ℕ) := [(.ofString "http", 80), (.ofString "https", 443)]

/-- `normalize_url`: the URL as it is stored, or why it is refused. -/
def normalizeUrl (lib : UrlLibrary) (raw : PyStr) : Except PyStr PyStr :=
  let url := raw.strip
  if url = [] then .error (.ofString "recipient url must not be empty")
  else if (0 : CodePoint) ∈ url then
    .error (.ofString "recipient url must not contain a null byte")
  else
    match urlsplit lib url with
    | .error text => .error text
    | .ok parts =>
        if parts.scheme ∉ allowedSchemes then
          .error (.ofString "recipient url must use one of http, https; got '" ++
            (if parts.scheme = [] then url else parts.scheme) ++ .ofString "'")
        else if (parts.hostname lib).getD [] = [] then
          .error (.ofString "recipient url has no host: '" ++ url ++ .ofString "'")
        else
          match parts.port with
          | .error _ =>
              .error (.ofString "recipient url has an invalid port: '" ++ url ++ .ofString "'")
          | .ok _ => .ok url

/-- `parts.port or DEFAULT_PORTS[parts.scheme]`. -/
def effectivePort (parts : SplitResult) : Option ℕ → Option ℕ
  | some (n + 1) => some (n + 1)
  | _ => defaultPorts.lookup parts.scheme

/-- `origin_of`: `scheme://host:port`, with the default port made explicit. -/
def originOf (lib : UrlLibrary) (url : PyStr) : Option PyStr := do
  let parts ← (urlsplit lib url).toOption
  let port ← effectivePort parts (← parts.port.toOption)
  return parts.scheme ++ .ofString "://" ++ lib.lower ((parts.hostname lib).getD []) ++
    .ofString ":" ++ PyStr.ofNat port

end LeadQueue
