import Destack.Decimal.Text
import Destack.Text.Hex

namespace Destack

inductive Json
  | null
  | bool (value : Bool)
  | int (value : Int)
  | float32 (bits : UInt32)
  | float64 (bits : UInt64)
  | str (value : String)
  | arr (items : List Json)
  | obj (fields : List (String × Json))

namespace Json

def nat (n : Nat) : Json := .int n

def ofOption {α : Type} (f : α → Json) : Option α → Json
  | none => .null
  | some a => f a

def ofList {α : Type} (f : α → Json) (items : List α) : Json := .arr (items.map f)

def tagged (tag : String) (content : Json) : Json := .obj [(tag, content)]

def escapedChar (c : Char) : String :=
  match c with
  | '"' => "\\\""
  | '\\' => "\\\\"
  | '\x08' => "\\b"
  | '\x0c' => "\\f"
  | '\n' => "\\n"
  | '\r' => "\\r"
  | '\t' => "\\t"
  | c => if c.toNat < 0x20 then "\\u" ++ Text.hex 4 c.toNat else String.singleton c

def quotedString (s : String) : String :=
  "\"" ++ String.join (s.toList.map escapedChar) ++ "\""

def newline (level : Nat) : String := "\n" ++ String.ofList (List.replicate (2 * level) ' ')

def enclosed (opening closing : String) (level : Nat) : List String → String
  | [] => opening ++ closing
  | items =>
    opening ++ newline (level + 1) ++ String.intercalate ("," ++ newline (level + 1)) items ++
      newline level ++ closing

mutual
def prettyAt (level : Nat) : Json → String
  | .null => "null"
  | .bool value => if value then "true" else "false"
  | .int value => toString value
  | .float32 bits => (Decimal.write? Decimal.document32 Decimal.binary32 bits.toNat).getD "null"
  | .float64 bits => (Decimal.write? Decimal.document64 Decimal.binary64 bits.toNat).getD "null"
  | .str value => quotedString value
  | .arr items => enclosed "[" "]" level (prettyItems (level + 1) items)
  | .obj fields => enclosed "\x7b" "\x7d" level (prettyFields (level + 1) fields)

def prettyItems (level : Nat) : List Json → List String
  | [] => []
  | item :: items => prettyAt level item :: prettyItems level items

def prettyFields (level : Nat) : List (String × Json) → List String
  | [] => []
  | (name, value) :: fields =>
    (quotedString name ++ ": " ++ prettyAt level value) :: prettyFields level fields
end

def pretty (document : Json) : String := prettyAt 0 document

end Json
end Destack
