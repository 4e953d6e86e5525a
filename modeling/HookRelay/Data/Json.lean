import HookRelay.Data.Text

/-!
# JSON values and their serialisation

The JSON values an event carries, `JSON.stringify` on them, and the UTF-8 length
of a string.  A number is kept as the text `Number.prototype.toString` gives for
it; strings are UTF-16 code units, because a string that came in through
`JSON.parse` may hold an unpaired surrogate, which `JSON.stringify` escapes.
-/

namespace HookRelay

open Lib

/-- A JSON value. -/
inductive Json where
  | null
  | bool (b : Bool)
  | num (text : CodeUnits)
  | str (s : CodeUnits)
  | arr (xs : List Json)
  | obj (fields : List (CodeUnits × Json))

/-- The code units of an ASCII literal. -/
def ascii (s : String) : CodeUnits := s.toList.map fun c => UInt16.ofNat c.toNat

def isHighSurrogate (u : UInt16) : Bool := 0xD800 ≤ u.toNat && u.toNat ≤ 0xDBFF

def isLowSurrogate (u : UInt16) : Bool := 0xDC00 ≤ u.toNat && u.toNat ≤ 0xDFFF

/-- `\uXXXX`, with lower-case digits. -/
def escapeUnit (u : UInt16) : CodeUnits :=
  ascii "\\u" ++ ((hexDigits 4 u.toNat).map fun d => UInt16.ofNat (hexChar d).toNat)

/-- The form of one code unit inside a JSON string, when it is not part of a
surrogate pair. -/
def quoteUnit (u : UInt16) : CodeUnits :=
  if u.toNat = 0x22 then ascii "\\\""
  else if u.toNat = 0x5C then ascii "\\\\"
  else if u.toNat = 0x08 then ascii "\\b"
  else if u.toNat = 0x09 then ascii "\\t"
  else if u.toNat = 0x0A then ascii "\\n"
  else if u.toNat = 0x0C then ascii "\\f"
  else if u.toNat = 0x0D then ascii "\\r"
  else if u.toNat < 0x20 || isHighSurrogate u || isLowSurrogate u then escapeUnit u
  else [u]

/-- The inside of a JSON string: `QuoteJSONString` without its quotes. -/
def quoteUnits : CodeUnits → CodeUnits
  | [] => []
  | [u] => quoteUnit u
  | u :: v :: rest =>
      if isHighSurrogate u && isLowSurrogate v then u :: v :: quoteUnits rest
      else quoteUnit u ++ quoteUnits (v :: rest)

/-- A JSON string. -/
def quote (s : CodeUnits) : CodeUnits := ascii "\"" ++ quoteUnits s ++ ascii "\""

mutual

/-- `JSON.stringify`. -/
def Json.stringify : Json → CodeUnits
  | .null => ascii "null"
  | .bool b => ascii (if b then "true" else "false")
  | .num t => t
  | .str s => quote s
  | .arr xs => ascii "[" ++ (ascii ",").intercalate (Json.stringifyAll xs) ++ ascii "]"
  | .obj fs => ascii "\x7b" ++ (ascii ",").intercalate (Json.stringifyFields fs) ++ ascii "\x7d"

def Json.stringifyAll : List Json → List CodeUnits
  | [] => []
  | x :: xs => x.stringify :: Json.stringifyAll xs

def Json.stringifyFields : List (CodeUnits × Json) → List CodeUnits
  | [] => []
  | (k, v) :: fs => (quote k ++ ascii ":" ++ v.stringify) :: Json.stringifyFields fs

end

/-- `Buffer.byteLength(s, 'utf8')`: an unpaired surrogate is written as `U+FFFD`. -/
def utf8ByteLength : CodeUnits → ℕ
  | [] => 0
  | [u] => if u.toNat < 0x80 then 1 else if u.toNat < 0x800 then 2 else 3
  | u :: v :: rest =>
      if isHighSurrogate u && isLowSurrogate v then 4 + utf8ByteLength rest
      else (if u.toNat < 0x80 then 1 else if u.toNat < 0x800 then 2 else 3) +
        utf8ByteLength (v :: rest)

example : utf8ByteLength (Json.obj [(ascii "a", .arr [.bool true, .str (ascii "\n")])]).stringify
    = 17 := by decide

end HookRelay
