import RecordStore.Attribute.Basic

/-!
# Errors of reading what was sent

`WireError` names what can be wrong with a document that should be an attribute, a request, a response or a setting.
-/

namespace RecordStore

/-- Why a document is not what was expected. -/
inductive WireError where
  /-- The text breaks off or is no document. -/
  | notJson
  /-- A part of the document has the wrong shape. -/
  | shape
  /-- An attribute without a tag. -/
  | noTag
  /-- A tag that names no type. -/
  | unknownTag (tag : String)
  /-- An attribute with a second tag. -/
  | secondTag
  /-- A field that must be there is not. -/
  | missingField (name : String)
deriving DecidableEq, Repr

/-- The text of an error, where it has a fixed one. -/
def WireError.message? : WireError → Option String
  | .notJson | .shape => none
  | .noTag => some "attribute value has no type tag"
  | .unknownTag tag =>
    some ("unknown field `" ++ tag ++ "`, expected one of " ++
      ", ".intercalate (AttributeType.all.map fun t => "`" ++ t.tag ++ "`"))
  | .secondTag => some "attribute value has more than one type tag"
  | .missingField name => some ("missing field `" ++ name ++ "`")

end RecordStore
