import GraphqlOrmBackup.Hex
import GraphqlOrmBackup.Json.Value

/-!
# Writing JSON

A document on one line without spaces, or laid out with one item a line and an
indentation of two spaces.  Characters are escaped where they have to be.
-/

namespace Json

inductive Style where
  | compact
  | pretty
deriving DecidableEq, Repr

/-- A new line at a level of indentation. -/
def Style.newLine : Style → Nat → List Char
  | .compact, _ => []
  | .pretty, level => '\n' :: List.replicate (2 * level) ' '

def Style.colon : Style → List Char
  | .compact => [':']
  | .pretty => [':', ' ']

/-! ## Strings -/

/-- The letters of the short escapes, and what they stand for. -/
def shortEscapes : List (Char × Char) :=
  [('"', '"'), ('\\', '\\'), ('b', Char.ofNat 8), ('f', Char.ofNat 12), ('n', '\n'), ('r', '\r'),
    ('t', '\t')]

def escape (c : Char) : List Char :=
  match shortEscapes.find? fun short => short.2 = c with
  | some short => ['\\', short.1]
  | none => if c.toNat < 32 then '\\' :: 'u' :: '0' :: '0' :: Hex.byte (UInt8.ofNat c.toNat) else [c]

def writeString (s : String) : List Char := '"' :: (s.toList.flatMap escape ++ ['"'])

/-! ## Values -/

/-- The texts, each on a line of its own, with commas between them. -/
def joinLines (newLine : List Char) : List (List Char) → List Char
  | [] => []
  | [text] => newLine ++ text
  | text :: texts => newLine ++ text ++ ',' :: joinLines newLine texts

/-- A container of items whose texts are given. -/
def Style.container (style : Style) (level : Nat) (first last : Char) (texts : List (List Char)) :
    List Char :=
  match texts with
  | [] => [first, last]
  | texts => first :: (joinLines (style.newLine (level + 1)) texts ++ style.newLine level ++ [last])

mutual

def Value.write (style : Style) (level : Nat) : Value → List Char
  | .null => "null".toList
  | .bool true => "true".toList
  | .bool false => "false".toList
  | .number n => n.write
  | .string s => writeString s
  | .array items => style.container level '[' ']' (writeItems style (level + 1) items)
  | .object fields => style.container level '{' '}' (writeFields style (level + 1) fields)

def writeItems (style : Style) (level : Nat) : List Value → List (List Char)
  | [] => []
  | item :: items => item.write style level :: writeItems style level items

def writeFields (style : Style) (level : Nat) : List (String × Value) → List (List Char)
  | [] => []
  | (name, value) :: fields =>
      (writeString name ++ style.colon ++ value.write style level) :: writeFields style level fields

end

example : (Value.object [("a", .array [.number (.int 1), .string "\n"])]).write .compact 0 =
    "\x7b\"a\":[1,\"\\n\"]\x7d".toList := by decide +kernel

end Json
