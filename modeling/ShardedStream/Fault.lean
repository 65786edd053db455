/-!
Failures of a service call, classified by the code that the service reports.
-/

namespace ShardedStream

/-- Why a service call failed. -/
inductive Fault where
  | expiredIterator
  | throughputExceeded (detail : String)
  | resourceNotFound (detail : String)
  | accessDenied (detail : String)
  | invalidArgument (detail : String)
  | keyManagement (detail : String)
  | timeout (detail : String)
  | connection (detail : String)
  | other (detail : String)
  deriving DecidableEq, Repr, Inhabited

/-- The wording of a failure. -/
def Fault.message : Fault → String
  | .expiredIterator => "Iterator expired"
  | .throughputExceeded detail => "Throughput exceeded: " ++ detail
  | .resourceNotFound detail => "Resource not found: " ++ detail
  | .accessDenied detail => "Access denied: " ++ detail
  | .invalidArgument detail => "Invalid argument: " ++ detail
  | .keyManagement detail => "KMS error: " ++ detail
  | .timeout detail => "Timeout: " ++ detail
  | .connection detail => "Connection error: " ++ detail
  | .other detail => detail

/-- Codes of the service that tell the caller to slow down. -/
def Fault.throttlingCodes : List String :=
  ["ProvisionedThroughputExceededException", "LimitExceededException",
    "KMSThrottlingException", "ThrottlingException"]

/-- Classifies a failure by its code; a missing code says nothing. -/
def Fault.ofCode (code : Option String) (detail : String) : Fault :=
  match code with
  | none => .other detail
  | some code =>
    if code = "ExpiredIteratorException" then .expiredIterator
    else if code ∈ throttlingCodes then .throughputExceeded detail
    else if code = "ResourceNotFoundException" then .resourceNotFound detail
    else if code = "AccessDeniedException" || code = "KMSAccessDeniedException" then
      .accessDenied detail
    else if code = "InvalidArgumentException" || code = "ValidationException" then
      .invalidArgument detail
    else if "KMS".toList.isPrefixOf code.toList then .keyManagement detail
    else .other detail

/-- Only throttling is worth another attempt. -/
def Fault.isThrottling : Fault → Bool
  | .throughputExceeded _ => true
  | _ => false

def Fault.isExpiredIterator : Fault → Bool
  | .expiredIterator => true
  | _ => false

def Fault.isNotFound : Fault → Bool
  | .resourceNotFound _ => true
  | _ => false

end ShardedStream
