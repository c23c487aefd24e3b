/-!
# Options of an emitted parser
-/

namespace Extractor.Parser

structure Options where
  /-- Name of the specification, as the banner shows it. -/
  inputName : String := "<stdin>"
  /-- The function to wrap the code in, if any. -/
  functionName : Option String := none
  /-- Levels of indentation of the outermost code. -/
  baseDepth : Option Nat := none
  /-- Logging category of the warnings that the emitted code prints. -/
  logCategory : String := "LOG_KBIBTEX_NETWORKING"
  /-- Most records of one JSON document. -/
  maxRecords : Nat := 1024
  deriving DecidableEq, Repr

namespace Options

/-- A function stands at the margin; bare code is meant for the body of one in a class. -/
def depth (o : Options) : Nat := o.baseDepth.getD (if o.functionName.isSome then 0 else 2)

/-- The statement that logs a message, which is given as expressions between stream operators. -/
def warning (o : Options) (message : String) : String :=
  "qCWarning(" ++ o.logCategory ++ ") << " ++ message ++ ";"

end Options

end Extractor.Parser
