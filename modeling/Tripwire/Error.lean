import Tripwire.Dispatcher

/-!
Errors of the whole library: the error of a part under the name of the part.
-/

namespace Tripwire

inductive Error
  | scan (error : ScanError)
  | mismatch (error : Mismatch)
  | parse (error : ParseError)
  | coercion (error : CoercionError)
  | eval (error : EvalError)
  | trigger (error : TriggerError)
  | pool (error : PoolError)
  | log (error : LogError)
  | other (message : String)
  deriving DecidableEq

namespace Error

def message : Error → String
  | scan error => "Tokenizer error: " ++ error.message
  | mismatch error => "Parse error: " ++ error.message
  | parse error => "Parser error: " ++ error.message
  | coercion error => "Coercion error: " ++ error.message
  | eval error => "Eval error: " ++ error.message
  | trigger error => "Trigger error: " ++ error.message
  | pool error => "Worker pool error: " ++ error.message
  | log error => "Log bus error: " ++ error.message
  | other message => "Internal error: " ++ message

/-- The class of the failure, where it has one. -/
def kind? : Error → Option ErrorKind
  | scan _ | mismatch _ | parse _ => some .malformed
  | coercion _ => some .typeMismatch
  | eval error => some error.kind
  | trigger error => some error.kind
  | pool error => some error.kind
  | log _ | other _ => none

/-- Unusable settings, as an error of the whole. -/
def ofConfig (source : ConfigSource) (error : ConfigError) : Error := other (error.message source)

end Error

end Tripwire
