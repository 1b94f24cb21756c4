namespace Destack.Text

def hexDigits (n : Nat) : String := String.ofList (Nat.toDigits 16 n)

def hex (width n : Nat) : String :=
  String.ofList (List.replicate (width - (hexDigits n).length) '0') ++ hexDigits n

def hexNumber (width n : Nat) : String := "0x" ++ hex width n

end Destack.Text
