import DocumentClient.Text.Hidden

/-!
# Quoted texts

A text in double quotes for a reader of diagnostics. What cannot be seen, or would be mistaken
for the end of the text, is written as an escape.
-/

set_option autoImplicit false

namespace DocumentClient.Text

def quotedChar (char : Char) : List Char :=
  match char with
  | '\x00' => ['\\', '0']
  | '\t' => ['\\', 't']
  | '\r' => ['\\', 'r']
  | '\n' => ['\\', 'n']
  | '"' => ['\\', '"']
  | '\\' => ['\\', '\\']
  | _ =>
    if isHidden char then ['\\', 'u', '\x7b'] ++ Nat.toDigits 16 char.toNat ++ ['\x7d']
    else [char]

/-- A text in double quotes. -/
def quoted (text : String) : String :=
  String.ofList ('"' :: text.toList.flatMap quotedChar ++ ['"'])

end DocumentClient.Text
