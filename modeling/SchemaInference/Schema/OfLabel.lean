import SchemaInference.Schema

/-!
The schema of a label. Each member of a label is an enumeration, a tag, or a word for anything; a
member has no members of its own.
-/

namespace SchemaInference

namespace Schema

/-- The words that a label uses for anything. -/
def openWords : List String := ["", "any", "undefined"]

/-- The schema of a label with one member. -/
def ofMember (member : String) : Schema :=
  match Label.enumValues? member with
  | some values => .enum values
  | none => if openWords.contains member then .any else .scalar member

/-- The schema of a label. That a value may be absent is for the object around it to say. -/
def ofLabel (label : String) : Schema :=
  let label := Text.trim label
  let members := Label.split label
  if 1 < members.length then anyOf ((members.filter (· != "undefined")).map ofMember)
  else ofMember label

end Schema

end SchemaInference
