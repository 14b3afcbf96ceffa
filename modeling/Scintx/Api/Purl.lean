/-
Scintx.Api.Purl — package URLs (`api/purl.go`).

`purlRe` cuts a text into a type, a path and a tail. Its three groups
are over disjoint classes of characters (the type has no `/`, `#` or
`?`, the path begins at `/` and ends before `?` or `#`, the tail begins
there), so the cut is the only one and the matcher is a scan. The tail
is matched by `.*`, which stops at a line feed.
-/
import Scintx.Lib.Text

namespace Scintx.Api

open Scintx.Lib

structure ParsedPurl where
  type : String
  nameSpace : String := ""
  name : String := ""
  version : String := ""
  qualifiers : GoMap String := ∅
  subpath : String := ""
  hash : String := ""

/-- The groups of `purlRe`. -/
def matchPurl (purl : List Char) : Option (List Char × List Char × List Char) :=
  match purl with
  | 'p' :: 'k' :: 'g' :: ':' :: cs =>
    let typ := cs.takeWhile fun c => c ∉ ['/', '#', '?']
    let cs := cs.dropWhile fun c => c ∉ ['/', '#', '?']
    let rest := if ['/'].isPrefixOf cs then cs.takeWhile fun c => c ∉ ['?', '#'] else []
    let tail := cs.drop rest.length
    if typ = [] ∨ '\n' ∈ tail then none else some (typ, rest, tail)
  | _ => none

/-- The text before and after the first `c`. -/
def cutAt (c : Char) (cs : List Char) : List Char × Option (List Char) :=
  match cutChar c cs with
  | none => (cs, none)
  | some (before, after) => (before, some after)

/-- `extractVersion` and `stripVersion`. -/
def splitVersion (name : List Char) : List Char × List Char :=
  match cutAt '@' name with
  | (name, none) => (name, [])
  | (name, some version) => (name, version)

/-- The hash and, from the first `/` on, the subpath. -/
def splitHash (cs : List Char) : List Char × List Char :=
  match cutAt '/' cs with
  | (hash, none) => (hash, [])
  | (hash, some rest) => (hash, '/' :: rest)

/-- `strings.TrimRight` of one character. -/
def trimRightChar (c : Char) (cs : List Char) : List Char :=
  (cs.reverse.dropWhile (· = c)).reverse

section Given

variable [GoStd]

/-- One `key=value` of the tail; empty parts and parts without `=` are
passed over. -/
def addQualifier (m : GoMap String) (kv : List Char) : GoMap String :=
  match cutChar '=' kv with
  | none => m
  | some (key, value) => m.insert (toLower (String.ofList key)) (String.ofList value)

/-- The qualifiers, hash and subpath of a tail. -/
def parseTail (tail : List Char) : GoMap String × List Char × List Char :=
  match tail with
  | '?' :: body =>
    let (body, hashSub) := cutAt '#' body
    ((splitChar '&' body).foldl addQualifier ∅, splitHash (hashSub.getD []))
  | '#' :: body => (∅, splitHash body)
  | _ => (∅, [], [])

def namespaceLowerTypes : List String := ["pypi", "npm", "gem", "composer", "golang"]

def parsePurl (purl : String) : Except String ParsedPurl :=
  match matchPurl purl.toList with
  | none => .error ("invalid purl: " ++ purl)
  | some (typ, rest, tail) =>
    let typ := toLower (String.ofList typ)
    let (nameSpace, name) :=
      match cutAt '/' (rest.drop 1) with
      | (name, none) => ([], name)
      | (nameSpace, some name) => (nameSpace, name)
    let (name, version) := splitVersion name
    let (qualifiers, hash, subpath) := parseTail tail
    let fold (s : List Char) : String :=
      if typ ∈ namespaceLowerTypes then toLower (String.ofList s) else String.ofList s
    .ok { type := typ
          nameSpace := fold nameSpace
          name := fold name
          version := String.ofList version
          qualifiers := qualifiers
          hash := String.ofList hash
          subpath := String.ofList (trimRightChar '/' subpath) }

def ParsedPurl.text (p : ParsedPurl) : String :=
  "pkg:" ++ p.type ++ (if p.nameSpace ≠ "" then "/" ++ p.nameSpace else "") ++ "/" ++ p.name ++
    (if p.version ≠ "" then "@" ++ p.version else "") ++
    (if p.qualifiers ≠ ∅ then
      "?" ++ join ((GoMap.sortedKeys p.qualifiers).map fun k =>
        k ++ "=" ++ (p.qualifiers.lookup k).getD "") "&"
    else "") ++
    (if p.hash ≠ "" then "#" ++ p.hash else "") ++ p.subpath

def canonicalPurl (purl : String) : Except String String :=
  match parsePurl purl with
  | .error e => .error e
  | .ok p => .ok p.text

def purlType (purl : String) : Except String String :=
  match parsePurl purl with
  | .error e => .error e
  | .ok p => .ok p.type

end Given

end Scintx.Api
