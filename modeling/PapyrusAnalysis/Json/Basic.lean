/-!
# JSON documents

Documents as trees. A string of a document is a sequence of escapes and characters; it is `none`
when some escape stands for half a character only, so that the string is no text. Numbers keep the
text that they were written with.

## Main definitions

* `Json`: documents.
* `Json.render`: a document without blanks.
-/

namespace PapyrusAnalysis

/-- A JSON document. -/
inductive Json where
  | null
  | bool (value : Bool)
  | number (text : String)
  | string (text : Option String)
  | array (items : List Json)
  | object (members : List (Option String × Json))
deriving Repr, Inhabited

namespace Json

/-- A text as a document. -/
def ofText (text : String) : Json := string (some text)

/-- A text that may be absent, which null stands for. -/
def ofOptionalText : Option String → Json
  | some text => ofText text
  | none => null

def ofTexts (texts : List String) : Json := array (texts.map ofText)

/-- A digit of a hexadecimal number in lower case. -/
def hexDigit (n : Nat) : Char := Nat.digitChar (n % 16)

/-- A character as it stands between quotes. -/
def renderChar (c : Char) : List Char :=
  match c with
  | '"' => ['\\', '"']
  | '\\' => ['\\', '\\']
  | '\x08' => ['\\', 'b']
  | '\x0c' => ['\\', 'f']
  | '\n' => ['\\', 'n']
  | '\r' => ['\\', 'r']
  | '\t' => ['\\', 't']
  | c =>
    if c.toNat < 0x20 then ['\\', 'u', '0', '0', hexDigit (c.toNat / 16), hexDigit c.toNat]
    else [c]

/-- A text between quotes. -/
def renderText (text : String) : List Char := '"' :: text.toList.flatMap renderChar ++ ['"']

mutual

def renderChars : Json → List Char
  | null => "null".toList
  | bool true => "true".toList
  | bool false => "false".toList
  | number text => text.toList
  | string text => renderText (text.getD "")
  | array items => '[' :: renderItems items ++ [']']
  | object members => '{' :: renderMembers members ++ ['}']

def renderItems : List Json → List Char
  | [] => []
  | [item] => renderChars item
  | item :: items => renderChars item ++ ',' :: renderItems items

def renderMembers : List (Option String × Json) → List Char
  | [] => []
  | [(key, value)] => renderText (key.getD "") ++ ':' :: renderChars value
  | (key, value) :: members =>
    renderText (key.getD "") ++ ':' :: renderChars value ++ ',' :: renderMembers members

end

/-- The document without blanks. -/
def render (j : Json) : String := .ofList j.renderChars

end Json

end PapyrusAnalysis
