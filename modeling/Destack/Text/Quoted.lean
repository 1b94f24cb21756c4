import Destack.Text.Hex
import Destack.Text.Hidden

namespace Destack.Text

def quotedChar (c : Char) : String :=
  match c with
  | '"' => "\\\""
  | '\\' => "\\\\"
  | '\t' => "\\t"
  | '\r' => "\\r"
  | '\n' => "\\n"
  | '\x00' => "\\0"
  | c =>
    if c.toNat < 0x20 || isHidden c then "\\u\x7b" ++ hexDigits c.toNat ++ "\x7d"
    else String.singleton c

def quoted (s : String) : String :=
  "\"" ++ String.join (s.toList.map quotedChar) ++ "\""

end Destack.Text
