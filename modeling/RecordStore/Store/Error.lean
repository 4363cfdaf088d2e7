/-!
# Errors of a store

A store reports an error by a code, which tells a request that must be changed from one that may simply be sent again,
with a text for people and possibly the error behind it.
-/

namespace RecordStore

/-- The kinds of errors that a store reports. -/
inductive ErrorCode where
  /-- There is no such table or index. -/
  | notFound
  /-- The condition of a conditional write did not hold. -/
  | conditionFailed
  /-- The throughput of the table is used up. -/
  | throughputExceeded
  /-- The requests of the account are used up. -/
  | requestLimit
  /-- Requests come too fast. -/
  | throttled
  /-- The request is malformed. -/
  | invalid
  /-- The body of a request or response could not be read. -/
  | unreadable
  /-- The store failed. -/
  | internal
  /-- The store is not available for now. -/
  | unavailable
  /-- The request did not reach the store. -/
  | transport
deriving DecidableEq, Repr

/-- An error reported by a store. -/
structure StoreError where
  code : ErrorCode
  message : String
  cause : Option String := none
deriving DecidableEq, Repr

namespace ErrorCode

/-- All codes. -/
def all : List ErrorCode :=
  [.notFound, .conditionFailed, .throughputExceeded, .requestLimit, .throttled, .invalid, .unreadable, .internal,
   .unavailable, .transport]

/-- The name by which a code goes. -/
def name : ErrorCode → String
  | .notFound => "ResourceNotFoundException"
  | .conditionFailed => "ConditionalCheckFailedException"
  | .throughputExceeded => "ProvisionedThroughputExceededException"
  | .requestLimit => "RequestLimitExceeded"
  | .throttled => "ThrottlingException"
  | .invalid => "ValidationException"
  | .unreadable => "SerializationException"
  | .internal => "InternalServerError"
  | .unavailable => "ServiceUnavailable"
  | .transport => "TransportError"

/-- The code of a name. -/
def ofName? (name : String) : Option ErrorCode :=
  all.find? fun code => code.name = name

/-- The code of an error that says nothing else. -/
def default : ErrorCode := .invalid

/-- Whether the same request may succeed when it is sent again. -/
def isRetryable : ErrorCode → Bool
  | .throughputExceeded | .requestLimit | .throttled | .internal | .unavailable | .transport => true
  | .notFound | .conditionFailed | .invalid | .unreadable => false

end ErrorCode

namespace StoreError

/-- The error of a code with the name of the code as its message. -/
def ofCode (code : ErrorCode) : StoreError :=
  ⟨code, code.name, none⟩

/-- The error with its code, as one text. -/
def display (e : StoreError) : String :=
  "StoreError(" ++ e.code.name ++ "): " ++ e.message

/-- Whether the same request may succeed when it is sent again. -/
def isRetryable (e : StoreError) : Bool :=
  e.code.isRetryable

end StoreError

end RecordStore
