import Extractor.Parser.Entry
import Extractor.Parser.Options
/-!
# Code for JSON responses

The emitted code reads the whole response, puts every leaf into one map from joined paths to
values, and cuts the map of each record out of it by the path of the record.
-/

namespace Extractor.Parser.Json

/-- Puts the leaves of the document into the global map, level by level. -/
def gatherLeaves : List Stmt := [
  .code "QMap<QString, QStringList> globalMapping;",
  .code "QQueue<QPair<QJsonValue, QStringList>> queue;",
  .code "queue.enqueue(qMakePair(QJsonValue(document.object()), QStringList()));",
  .block "while (!queue.isEmpty())" [
    .code "const auto p\x7bqueue.dequeue()\x7d;",
    .code "const QJsonValue cur\x7bp.first\x7d;",
    .code "const QStringList path\x7bp.second\x7d;",
    .choice [
      ("cur.isArray()", [
        .code "const QJsonArray curArray = cur.toArray();",
        .guarded "for (int i = 0; i < curArray.size(); ++i)"
          "queue.enqueue(qMakePair(curArray[i], QStringList(path) << QString::number(i)));"]),
      ("cur.isObject()", [
        .code "const QJsonObject curObj = cur.toObject();",
        .guarded "for (auto it = curObj.constBegin(); it != curObj.constEnd(); ++it)"
          "queue.enqueue(qMakePair(it.value(), QStringList(path) << it.key()));"]),
      ("cur.isString() || cur.isDouble() || cur.isBool()", [
        .code ("const QString text\x7bcur.isString() ? cur.toString() : " ++
          "(cur.isDouble() ? QString::number(cur.toDouble()) : (cur.toBool() ? " ++
          Text.literalOf "true" ++ " : " ++ Text.literalOf "false" ++ "))\x7d;"),
        .code ("globalMapping[path.join(" ++ Text.literalOf "/" ++ ")].append(text);")])] none]]

/-- The map of one record: what lies below its path, without an index at the end. -/
def recordMap (entries : String) : List Stmt := [
  .code ("const QString keyPrefix\x7b" ++ Text.literalOf (entries ++ "/") ++
    " + QString::number(n) + " ++ Text.literalOf "/" ++ "\x7d;"),
  .code "QMap<QString, QStringList> mapping;",
  .block "for (auto it = globalMapping.constBegin(); it != globalMapping.constEnd(); ++it)" [
    .ifThen "it.key().startsWith(keyPrefix)" [
      .code "QString key\x7bit.key().mid(keyPrefix.length())\x7d;",
      .code "const auto endsWithNumbersMatch\x7bendsWithNumbersRegExp.match(key)\x7d;",
      .onlyIf "endsWithNumbersMatch.hasMatch()"
        "key = key.left(key.length() - endsWithNumbersMatch.capturedLength());",
      .code "mapping[key].append(it.value());"]],
  .onlyIf "mapping.isEmpty()" "break;",
  .blank]

/-- Finds the array of records and runs the code of the entry for each of them. -/
def records (entries : String) (entry : List Stmt) (o : Options) : List Stmt := [
  .code "QJsonValue entriesValue\x7bdocument.object()\x7d;",
  .guarded ("for (const QString &segment : " ++ Text.literalOf entries ++
      ".split(QLatin1Char('/')))")
    "entriesValue = entriesValue.isArray() ? entriesValue.toArray().at(segment.toInt()) : entriesValue.toObject().value(segment);",
  .code "const int entriesCount = entriesValue.isArray() ? entriesValue.toArray().size() : 0;",
  .code ("static const QRegularExpression endsWithNumbersRegExp\x7b" ++
    Text.literalOf "/(0|[1-9][0-9]*)$" ++ "\x7d;"),
  .block ("for (int n = 0; n < entriesCount && n < " ++ toString o.maxRecords ++ "; ++n)")
    (recordMap entries ++ entry)]

/-- The whole body for a path, around the code of the entry. -/
def body (entry : List Stmt) (o : Options) (entries : String) : List Stmt := [
  .code "QJsonParseError parseError;",
  .code "const QJsonDocument document = QJsonDocument::fromJson(jsonData, &parseError);",
  .ifElse "parseError.error == QJsonParseError::NoError" [
      .ifElse "document.isObject()"
        (gatherLeaves ++ .blank :: records (Text.escape entries) entry o ++ [.code "*ok = true;"]) [
        .code (o.warning "\"JSON document is not an object\""),
        .code "*ok = false;"]] [
    .code (o.warning "\"Problem with JSON data:\" << parseError.errorString()"),
    .code "*ok = false;"]]

end Extractor.Parser.Json
