import RecordStore.Text.Blank
import RecordStore.Wire.Message

/-!
# Settings

`Settings` holds what can be set for all collections: the bounds of how much a read looks at, how unknown operators and
bad cursors are dealt with, and how batches are read. Settings can be read from a document or from the environment.
-/

namespace RecordStore

/-- The settings of collections. -/
structure Settings where
  /-- How many items a read looks at if it is not told. -/
  defaultCap : Nat := 10
  /-- The least that a read may be told to look at. -/
  minCap : Nat := 5
  /-- The most that a read may be told to look at. -/
  maxCap : Nat := 500
  /-- Whether unknown operators are refused. -/
  refuseUnknown : Bool := false
  /-- Whether bad cursors are refused; otherwise they count as none. -/
  refuseBadCursors : Bool := false
  /-- How often the rest of a batch is sent again, at most. -/
  batchRounds : Nat := 10
  /-- Whether batches are read consistently. -/
  consistentBatches : Bool := true
deriving DecidableEq, Repr

namespace Settings

open Wire

/-- The settings as a document. -/
def toWire (c : Settings) : Json :=
  message
    [("defaultEvaluationLimit", some (.number (.whole c.defaultCap))),
     ("minEvaluationLimit", some (.number (.whole c.minCap))),
     ("maxEvaluationLimit", some (.number (.whole c.maxCap))),
     ("strictOperators", some (.bool c.refuseUnknown)),
     ("rejectMalformedCursor", some (.bool c.refuseBadCursors)),
     ("batchGetMaxRounds", some (.number (.whole c.batchRounds))),
     ("consistentBatchReads", some (.bool c.consistentBatches))]

/-- The form of settings, which must all be there. -/
def form : Form Settings :=
  .mk <$> required "defaultEvaluationLimit" nat64 <*> required "minEvaluationLimit" nat64 <*>
    required "maxEvaluationLimit" nat64 <*> required "strictOperators" bool <*>
    required "rejectMalformedCursor" bool <*> required "batchGetMaxRounds" nat64 <*>
    required "consistentBatchReads" bool

/-- Reads settings from a document. -/
def ofWire : Decoder Settings :=
  form.decode

/-- The number that a variable is set to; blanks around it do not count, and what is no number counts as not set. -/
def natSetting (env : Fields String) (name : String) : Option Nat :=
  (env.find name).bind fun value => Numeral.natural? (Text.trimChars value.toList)

/-- Whether a text switches something on: it is `1`, or `true` in letters of any case. -/
def switchesOn (value : String) : Bool :=
  value = "1" || String.ofList (value.toList.map Char.toLower) = "true"

/-- What a variable is switched to, if it is set at all. -/
def boolSetting (env : Fields String) (name : String) : Option Bool :=
  (env.find name).map switchesOn

/-- The settings in an environment; what is not set there has its default. -/
def ofEnvironment (env : Fields String) : Settings :=
  let base : Settings := {}
  { defaultCap := (natSetting env "DYNAQUERY_DEFAULT_EVALUATION_LIMIT").getD base.defaultCap
    minCap := (natSetting env "DYNAQUERY_MIN_EVALUATION_LIMIT").getD base.minCap
    maxCap := (natSetting env "DYNAQUERY_MAX_EVALUATION_LIMIT").getD base.maxCap
    refuseUnknown := (boolSetting env "DYNAQUERY_STRICT_OPERATORS").getD base.refuseUnknown
    refuseBadCursors := (boolSetting env "DYNAQUERY_REJECT_MALFORMED_CURSOR").getD base.refuseBadCursors
    batchRounds := (natSetting env "DYNAQUERY_BATCH_GET_MAX_ROUNDS").getD base.batchRounds
    consistentBatches := (boolSetting env "DYNAQUERY_CONSISTENT_BATCH_READS").getD base.consistentBatches }

end Settings

end RecordStore
