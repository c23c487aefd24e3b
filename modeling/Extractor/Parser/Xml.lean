import Extractor.Parser.Entry
import Extractor.Parser.Options
/-!
# Code for XML responses

The emitted code reads the response as a stream of tokens. It looks for the root, then for each
further name of the path inside a loop of its own, and gathers the content of each element with
the last name in a map for the code of the entry.
-/

namespace Extractor.Parser.Xml

/-- The element at hand has this name. -/
def isNamed (name : String) : String :=
  "xsr.qualifiedName() == " ++ Text.literalOf (Text.escape name)

/-- There is another token, and it is a good one. -/
def readsNext : String := "!xsr.atEnd() && xsr.readNext() != QXmlStreamReader::Invalid"

def invalidCheck (o : Options) : Stmt :=
  .onlyIf "xsr.tokenType() == QXmlStreamReader::Invalid"
    (o.warning
      "\"Invalid XML while parsing data at offset\" << xsr.characterOffset() << \":\" << xsr.errorString()")

def fail : Stmt := .code "*ok = false;"

/-- The condition that the names on the stack, joined, are followed by. -/
def joinedStack : String := "stack.join(" ++ Text.literalOf "/" ++ ")"

/-- Declares the text of a value without white space around it. -/
def declareText (value : String) : Stmt :=
  .code ("const QString text\x7bOnlineSearchAbstract::deHTMLify(" ++ value ++
    ".toString().trimmed())\x7d;")

/-- Opens an element: its name goes on the stack, its attributes into the map. -/
def onStart : List Stmt := [
  .code "stack.append(xsr.qualifiedName().toString());",
  .code "typeAttribute = qMakePair(QString(), QString());",
  .block "for (const QXmlStreamAttribute &attr : xsr.attributes())" [
    declareText "attr.value()",
    .ifThen "!text.isEmpty()" [
      .onlyIf ("attr.qualifiedName().toString().toLower().contains(" ++ Text.literalOf "type" ++ ")")
        "typeAttribute = qMakePair(attr.qualifiedName().toString(), text);",
      .code ("mapping[" ++ joinedStack ++ " + " ++ Text.literalOf "/@" ++
        " + attr.qualifiedName().toString()].append(text);")]]]

def onEnd : List Stmt := [
  .onlyIf "!stack.isEmpty() && stack.last() == xsr.qualifiedName()" "stack.removeLast();"]

/-- Puts text into the map, also under the type attribute seen last. -/
def onCharacters : List Stmt := [
  declareText "xsr.text()",
  .ifThen "!text.isEmpty()" [
    .code ("const QString key\x7b" ++ joinedStack ++ "\x7d;"),
    .code "mapping[key].append(text);",
    .onlyIf "!typeAttribute.first.isEmpty() && !typeAttribute.second.isEmpty()"
      ("mapping[key + " ++ Text.literalOf "[@" ++ " + typeAttribute.first + " ++
        Text.literalOf "=" ++ " + typeAttribute.second + " ++ Text.literalOf "]" ++
        "].append(text);")]]

/-- Gathers the content of one record, then runs the code of the entry. -/
def record (name : String) (entry : List Stmt) (o : Options) : List Stmt :=
  [.code "QStringList stack;",
    .code "QPair<QString, QString> typeAttribute;",
    .code "QMap<QString, QStringList> mapping;",
    .block ("while (" ++ readsNext ++ " && !(xsr.isEndElement() && stack.isEmpty() && " ++
        isNamed name ++ "))") [
      .choice [
        ("xsr.isStartElement()", onStart),
        ("xsr.isEndElement()", onEnd),
        ("xsr.isCharacters() && !xsr.isWhitespace()", onCharacters)] none],
    invalidCheck o,
    .blank] ++ entry

/-- Runs a body at every start of an element with the name. -/
def forEach (name : String) (body : List Stmt) : Stmt :=
  .block ("while (" ++ readsNext ++ ")") [
    .ifThen ("xsr.isStartElement() && " ++ isNamed name) body]

def foundFlag (index : Nat) : String := "foundSegment" ++ toString index

/-- Logs that an element was not found, and fails. -/
def missing (segment parent : String) (o : Options) : List Stmt := [
  .code (o.warning ("\"Expected '" ++ Text.escape segment ++ "' inside '" ++ Text.escape parent ++
    "' at XML line\" << xsr.lineNumber()")),
  fail]

/-- Looks for the rest of the path below an element; the last name may occur any number of
times, the others have to be there. -/
def scan (parent : String) (index : Nat) (entry : List Stmt) (o : Options) :
    List String → List Stmt
  | [] => record parent entry o
  | [last] => [forEach last (record last entry o), invalidCheck o]
  | segment :: next :: rest => [
    .code ("bool " ++ foundFlag index ++ " = false;"),
    forEach segment
      (.code (foundFlag index ++ " = true;") :: scan segment (index + 1) entry o (next :: rest)),
    invalidCheck o,
    .ifThen ("!" ++ foundFlag index) (missing segment parent o)]

/-- The whole body for a path, around the code of the entry. -/
def body (entry : List Stmt) (o : Options) : List String → List Stmt
  | [] => []
  | root :: rest => [
    .code "*ok = true;",
    .code "QXmlStreamReader xsr(xmlData);",
    .ifElse "xsr.readNextStartElement()" [
        .ifElse (isNamed root) (scan root 1 entry o rest) [
          .code (o.warning ("\"Expected '" ++ Text.escape root ++
            "', got\" << xsr.qualifiedName() << \"at XML line\" << xsr.lineNumber()")),
          fail]] [
      .code (o.warning
        "\"Could not read start element at XML line\" << xsr.lineNumber() << \":\" << xsr.errorString()"),
      fail]]

end Extractor.Parser.Xml
