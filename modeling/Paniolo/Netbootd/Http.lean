import Paniolo.Library.Utf8
import Paniolo.Library.FileTree
import Paniolo.Library.Text

/-!
# The HTTP server

`http::serve` answers GET and HEAD from a rooted directory. `readHead` reads a
request head byte by byte up to its blank line and takes it apart;
`resolveTarget` maps the request target to a regular file inside the root. The
time limits, the draining of a declared body and the transfer of the file are
left out: they do not touch what is resolved.

A text is a list of characters and a path the list of its components.
-/

namespace Paniolo

namespace Netbootd

/-- `served::resolve`: a name under `root`, canonical and inside the canonical root. -/
def resolve (t : FileTree) (root : List Name) (filename : List Char) : Option (List Name) := do
  let rel := filename.dropWhile (· == '/')
  let canon ← t.canonicalize (root ++ components rel)
  let rootCanon ← t.canonicalize root
  if rootCanon.isPrefixOf canon then some canon else none

namespace Http

open Text

def maxHeadBytes : Nat := 16 * 1024

/-- `Head`: a parsed request head. -/
structure Head where
  method : List Char
  target : List Char
  keepAlive : Bool
  contentLength : Nat
deriving DecidableEq, Repr

/-- One header line of `read_head`. -/
def Head.header (head : Head) (line : List Char) : Head :=
  match splitOnce (· == ':') line with
  | none => head
  | some (name, value) =>
      let name := (trim name).map Char.toLower
      let value := trim value
      if name = "connection".toList then
        let tokens := (value.splitOn ',').map trim
        if tokens.any (eqIgnoreAsciiCase · "close".toList) then { head with keepAlive := false }
        else if tokens.any (eqIgnoreAsciiCase · "keep-alive".toList) then
          { head with keepAlive := true }
        else head
      else if name = "content-length".toList then
        { head with contentLength := (parseUnsigned (2 ^ 64) value).getD 0 }
      else head

/-- The request line: method, target and version, each empty when missing. -/
def Head.ofRequestLine (line : List Char) : Head :=
  let it := splitWhitespace line
  { method := it[0]?.getD []
    target := it[1]?.getD []
    keepAlive := eqIgnoreAsciiCase (it[2]?.getD []) "HTTP/1.1".toList
    contentLength := 0 }

/-- The head in the bytes up to and with the blank line. -/
def Head.parse (raw : List UInt8) : Head :=
  let ls := lines (Utf8.decode raw)
  (ls.drop 1).foldl Head.header (Head.ofRequestLine (ls[0]?.getD []))

def isTerminated (raw : List UInt8) : Bool :=
  [13, 10, 13, 10].isSuffixOf raw || [10, 10].isSuffixOf raw

/-- The read loop of `read_head`: the bytes up to the blank line and what is
left of the input; `none` inside when the input ends first, an error when the
head grows too long. -/
def readRaw (raw : List UInt8) : List UInt8 → Except String (Option (List UInt8 × List UInt8))
  | [] => .ok none
  | b :: input =>
      let raw := raw ++ [b]
      if raw.length > maxHeadBytes then
        .error "request head exceeds 16384 bytes without terminator"
      else if isTerminated raw then .ok (some (raw, input))
      else readRaw raw input

/-- `read_head`. -/
def readHead (input : List UInt8) : Except String (Option (Head × List UInt8)) := do
  match ← readRaw [] input with
  | none => .ok none
  | some (raw, rest) => .ok (some (Head.parse raw, rest))

/-- `char::to_digit(16)` of a byte. -/
def hexDigit (b : UInt8) : Option Nat :=
  let n := b.toNat
  if 48 ≤ n ∧ n ≤ 57 then some (n - 48)
  else if 97 ≤ n ∧ n ≤ 102 then some (n - 87)
  else if 65 ≤ n ∧ n ≤ 70 then some (n - 55)
  else none

/-- The byte that `%XX` stands for. -/
def escaped (b hi lo : UInt8) : Option UInt8 :=
  if b = 0x25 then do
    let h ← hexDigit hi
    let l ← hexDigit lo
    some (UInt8.ofNat (h * 16 + l))
  else none

/-- The loop of `percent_decode`: an escape needs two more bytes. -/
def percentDecodeBytes : List UInt8 → List UInt8
  | [] => []
  | [b] => [b]
  | [b, c] => [b, c]
  | b :: hi :: lo :: bs =>
      match escaped b hi lo with
      | some v => v :: percentDecodeBytes bs
      | none => b :: percentDecodeBytes (hi :: lo :: bs)

/-- `percent_decode`. -/
def percentDecode (s : List Char) : List Char :=
  Utf8.decode (percentDecodeBytes (Utf8.encode s))

/-- The scheme and authority of an absolute-form target are dropped. -/
def originForm (target : List Char) : List Char :=
  let afterAuthority (rest : List Char) : List Char :=
    if '/' ∈ rest then rest.dropWhile (· ≠ '/') else ['/']
  if "http://".toList.isPrefixOf target then afterAuthority (target.drop 7)
  else if "https://".toList.isPrefixOf target then afterAuthority (target.drop 8)
  else target

/-- `resolve_target`. -/
def resolveTarget (t : FileTree) (root : List Name) (target : List Char) : Option (List Name) :=
  let path := (originForm target).takeWhile fun c => c ≠ '?' && c ≠ '#'
  (resolve t root (percentDecode path)).filter t.isFile

/-- What `handle_conn` answers a request with. -/
inductive Answer where
  | methodNotAllowed
  | notFound
  | serveFile (path : List Name)
deriving DecidableEq, Repr

def answer (t : FileTree) (root : List Name) (head : Head) : Answer :=
  let headOnly := eqIgnoreAsciiCase head.method "HEAD".toList
  let isGet := eqIgnoreAsciiCase head.method "GET".toList
  if !isGet && !headOnly then .methodNotAllowed
  else
    match resolveTarget t root head.target with
    | some path => .serveFile path
    | none => .notFound

end Http

end Netbootd

end Paniolo
