import RecordStore.Cursor
import RecordStore.Query.Definition
import RecordStore.Store.Error
import RecordStore.FieldList

/-!
# Errors of records

`AccessError` is what can go wrong when records are read or written. What the caller got wrong is told apart from what
is not there and from what the store reports: only the first is a mistake in the request, and only the last may be worth
another try.
-/

namespace RecordStore

/-- What a caller got wrong. -/
inductive Misuse where
  /-- The data is no object. -/
  | notAnObject
  /-- The data to replace a record with does not say which. -/
  | noId
  /-- Texts that must not be blank are, by their labels. -/
  | blank (labels : List String)
  /-- The value of a partition is blank or null. -/
  | partitionValue
  /-- The condition on the sort key is not one. -/
  | sortCondition
deriving DecidableEq, Repr

/-- What is wrong with an index. -/
inductive IndexFault where
  /-- There are no indexes, or a name in the one that is meant is blank. -/
  | definition
  /-- There is no index of that name. -/
  | name
  /-- The fields of the index are the same, or not the one that is meant. -/
  | fields
deriving DecidableEq, Repr

/-- The record that was not found. -/
inductive Missing where
  | toUpdate
  | toDelete
deriving DecidableEq, Repr

/-- Why records could not be read or written. -/
inductive AccessError where
  | definition (cause : CompileError)
  | misuse (cause : Misuse)
  | requiredField (name : String)
  | notFound (what : Missing)
  | index (cause : IndexFault)
  | cursor (cause : CursorError)
  | badFields (faults : List FieldFault)
  | store (cause : StoreError)
deriving DecidableEq, Repr

/-- The message about a mistake. -/
def Misuse.message : Misuse → String
  | .notAnObject => "Data MUST be valid object"
  | .noId => "Update data requires sort key field value"
  | .blank labels => "; ".intercalate (labels.map fun label => label ++ " is required") ++ "."
  | .partitionValue => "Invalid Hash key value"
  | .sortCondition => "Invalid Sort key value"

/-- The message about an index. -/
def IndexFault.message : IndexFault → String
  | .definition => "Invalid secondary index definitions"
  | .name => "Invalid secondary index name"
  | .fields => "Invalid secondary index field definitions"

/-- The message about what was not found. -/
def Missing.message : Missing → String
  | .toUpdate => "Data does NOT exists"
  | .toDelete => "Record does NOT exists"

namespace AccessError

/-- The message of an error. -/
def message : AccessError → String
  | .definition cause => cause.message
  | .misuse cause => cause.message
  | .requiredField name => "Required field NOT defined: " ++ name
  | .notFound what => what.message
  | .index cause => cause.message
  | .cursor cause => "Invalid cursor: " ++ cause.message
  | .badFields faults => "; ".intercalate (faults.map FieldFault.message)
  | .store cause => cause.display

/-- Whether the request has to be changed. -/
def isValidation : AccessError → Bool
  | .store _ | .notFound _ => false
  | _ => true

/-- Whether the same request may succeed when it is made again. -/
def isRetryable : AccessError → Bool
  | .store cause => cause.isRetryable
  | _ => false

/-- Asks that texts are not blank; each has a label. -/
def requireTexts (texts : List (String × String)) : Except AccessError Unit :=
  match texts.filter fun entry => Text.isBlankText entry.2 with
  | [] => .ok ()
  | blank => .error (.misuse (.blank (blank.map (·.1))))

end AccessError

end RecordStore
