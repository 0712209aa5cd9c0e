import HidraNet.Lib.Json
import HidraNet.Lib.Lines
import HidraNet.Lib.Net
import HidraNet.Lib.Utf8

/-!
# Requests and answers

How the mail server reads a request from a connection, takes it apart and writes an answer, and whose requests it takes
for those of this machine: a request without a `Host` and an `Origin`, or with loopback ones.
-/

namespace HidraNet.Hidramail

open Json Lines Net Text Utf8

/-! ### Reading a request -/

def bufferSize : Nat := 65536

/-- `str::lines`. -/
def linesOf (text : List Char) : List (List Char) :=
  let pieces := text.splitOn '\n'
  pieces.dropLast.map (fun l => (stripSuffix ['\r'] l).getD l) ++ pieces.getLast?.toList.filter (· ≠ [])

/-- `str::split` at every line end. -/
def splitCrlf : List Char → List (List Char)
  | [] => [[]]
  | '\r' :: '\n' :: rest => [] :: splitCrlf rest
  | c :: rest =>
    match splitCrlf rest with
    | [] => [[c]]
    | l :: ls => (c :: l) :: ls

def splitBlank : List Char → Option (List Char × List Char)
  | '\r' :: '\n' :: '\r' :: '\n' :: rest => some ([], rest)
  | c :: rest => (splitBlank rest).map fun parts => (c :: parts.1, parts.2)
  | [] => none

def trimText (l : List Char) : List Char := (trim (String.ofList l)).toList

/-- `to_ascii_lowercase`. -/
def lowered (l : List Char) : List Char := l.map Char.toLower

def findHeaderEnd : List UInt8 → Option Nat
  | 13 :: 10 :: 13 :: 10 :: _ => some 4
  | _ :: rest => (findHeaderEnd rest).map (· + 1)
  | [] => none

/-- No letter that is not ASCII's has one of these as its small one. -/
def parseContentLength (headers : List Char) : Nat :=
  match (linesOf headers).find? fun line => "content-length:".toList.isPrefixOf (lowered line) with
  | none => 0
  | some line =>
    match splitOnce ':' line with
    | none => 0
    | some (_, val) => (parseUnsigned (2 ^ 64 - 1) (trimText val)).getD 0

def complete (buf : List UInt8) : Bool :=
  (match findHeaderEnd buf with
    | none => false
    | some hdrEnd => parseContentLength (lossy (buf.take hdrEnd)) ≤ buf.length - hdrEnd) || bufferSize ≤ buf.length

def fill (buf bytes : List UInt8) : List UInt8 := buf ++ bytes.take (bufferSize - buf.length)

def readRequest (buf : List UInt8) : List (List UInt8) → List UInt8
  | [] => buf
  | [] :: _ => buf
  | bytes :: reads => if complete (fill buf bytes) then fill buf bytes else readRequest (fill buf bytes) reads

def parseRequestLine (raw : List Char) : Option (List Char × List Char) :=
  match linesOf raw with
  | [] => none
  | first :: _ =>
    match words first with
    | method :: path :: _ => some (method, path)
    | _ => none

def afterBlank (raw : List Char) : Option (List Char) :=
  (splitBlank raw).map fun parts =>
    match splitBlank parts.2 with
    | none => parts.2
    | some (body, _) => body

def extractBody (raw : List Char) : List Char := (afterBlank raw).getD []

/-! ### Answers -/

def response (status ctype cache : String) (body : List Char) : List Char :=
  "HTTP/1.1 ".toList ++ status.toList ++ "\r\nContent-Type: ".toList ++ ctype.toList ++
    "; charset=utf-8\r\nContent-Length: ".toList ++ number (encode body).length ++ cache.toList ++
    "\r\nConnection: close\r\n\r\n".toList ++ body

def jsonOk (body : List Char) : List Char := response "200 OK" "application/json" "" body

def jsonErr (status : String) (msg : List Char) : List Char :=
  response (status ++ " Error") "application/json" "" ("\x7b\"error\":\"".toList ++ msg ++ "\"\x7d".toList)

def htmlResponse (body : List Char) : List Char := response "200 OK" "text/html" "\r\nCache-Control: no-cache" body

def staticResponse (ctype : String) (body : List Char) : List Char :=
  response "200 OK" ctype "\r\nCache-Control: no-cache" body

/-! ### Requests from this machine -/

def header (request : List Char) (name : String) : Option (List Char) :=
  (((splitCrlf request).drop 1).takeWhile (· ≠ [])).findSome? fun line =>
    match splitOnce ':' line with
    | none => none
    | some (key, value) => if lowered (trimText key) = lowered name.toList then some (trimText value) else none

def hostOf (authority : List Char) : List Char :=
  match authority with
  | '[' :: rest => rest.takeWhile (· ≠ ']')
  | _ => authority.takeWhile (· ≠ ':')

def isLoopbackAuthority (authority : List Char) : Bool :=
  let host := lowered (hostOf authority)
  host = "localhost".toList || ".localhost".toList.isSuffixOf host || host = "::1".toList ||
    ((parseIpv4 host).map fun ip => decide (ip / 2 ^ 24 = 127)).getD false

inductive Access where
  | allow (origin : Option (List Char))
  | deny
deriving DecidableEq

def screen (request : List Char) : Access :=
  let host := header request "host"
  if host.isSome ∧ (host.map isLoopbackAuthority).getD false = false then .deny
  else
    match header request "origin" with
    | none => .allow none
    | some origin =>
      let authority :=
        if "http://".toList.isPrefixOf origin then origin.drop 7
        else if "https://".toList.isPrefixOf origin then origin.drop 8
        else []
      if authority ≠ [] ∧ isLoopbackAuthority authority then .allow (some origin) else .deny

/-- `matches!(screen(raw), Access::Allow(_))`. -/
def fromThisMachine (raw : List Char) : Bool :=
  match screen raw with
  | .allow _ => true
  | .deny => false

example : fromThisMachine "GET /api/inbox HTTP/1.1\r\n\r\n".toList = true := by decide

example : fromThisMachine "GET / HTTP/1.1\r\nHost: 127.0.0.1:8\r\nOrigin: null\r\n\r\n".toList = false := by
  decide

end HidraNet.Hidramail
