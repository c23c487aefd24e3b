import Extractor.Template
/-!
# Templates as expressions

Emitted code keeps the values of a record in a map from paths to lists. A template becomes an
expression over that map: each placeholder is replaced by a look-up, and the first lambda
introducer without parameters gets the map into its captures.
-/

namespace Extractor.Template

/-- The map of a record in emitted code. -/
def mapName : String := "mapping"

def lookup (path : String) : String := mapName ++ "[" ++ Text.literalOf (Text.escape path) ++ "]"

/-- Placeholders as expressions of the emitted code. -/
def expressions : Resolver where
  field key := "PlainTextValue::text(entry->value(" ++ key.expression ++ "))"
  list path := "const_cast<const QStringList &>(" ++ lookup path ++ ")"
  join path := lookup path ++ ".join(" ++ Text.literalOf "\\n" ++ ")"

/-- May stand in a capture list. -/
def isCaptureChar (c : Char) : Bool := c != '[' && c != ']' && c != '\n'

/-- Captures and the rest of a text that follows an opening bracket, when the bracket is that of
a lambda introducer without parameters. -/
def captures? (rest : List Char) : Option (List Char × List Char) :=
  ("]()".toList.isPrefixOf? (rest.dropWhile isCaptureChar)).map (rest.takeWhile isCaptureChar, ·)

/-- The introducer with the map before the captures that it has. -/
def introducer (captures : List Char) : List Char :=
  '[' :: '&' :: mapName.toList ++ (if captures.isEmpty then [] else ',' :: captures) ++
    [']', '(', ')']

/-- Gives the first lambda access to the map. -/
def injectChars : List Char → List Char
  | [] => []
  | c :: rest =>
    if c = '[' then
      match captures? rest with
      | some (captures, after) => introducer captures ++ after
      | none => c :: injectChars rest
    else c :: injectChars rest

def inject (text : String) : String := String.ofList (injectChars text.toList)

def substitute (text : String) : String := inject (fill expressions text)

end Extractor.Template
