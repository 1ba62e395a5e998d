import StorageUpgrade.Text.Hidden

/-!
# Quoted text

A text in a message stands between double quotes. Quotes and backslashes, the usual controls and
every hidden character are written as escapes, so the message shows exactly which text is meant.
-/

namespace StorageUpgrade.Text

/-- The digits of a number to the base sixteen, in lower case. -/
def hexDigits (n : Nat) : List Char :=
  Nat.toDigits 16 n

def quoteChar (c : Char) : List Char :=
  match c with
  | '"' => ['\\', '"']
  | '\\' => ['\\', '\\']
  | '\t' => ['\\', 't']
  | '\n' => ['\\', 'n']
  | '\r' => ['\\', 'r']
  | '\x00' => ['\\', '0']
  | c => if isHidden c then '\\' :: 'u' :: '\x7b' :: hexDigits c.toNat ++ ['\x7d'] else [c]

def quote (text : String) : String :=
  String.ofList ('"' :: text.toList.flatMap quoteChar ++ ['"'])

end StorageUpgrade.Text
