import SchemaInference.Proofs.JsonSchema
import SchemaInference.Proofs.Precision
import SchemaInference.Proofs.SchemaLevels
import SchemaInference.Schema.Export
import SchemaInference.Value.Document

/-! What an exported schema means. The keywords of a schema hold of a JSON value exactly if the
check finds no issue, as long as its tags are types of the JSON Schema language; and inference from
JSON documents finds no other tags. -/
namespace SchemaInference

open JsonSchema

/-- JSON values in which no object has a name twice. -/
inductive Json.Proper : Json → Prop where
  | null : Proper .null
  | bool (b : Bool) : Proper (.bool b)
  | int (n : Int) : Proper (.int n)
  | real (x : Binary64) : Proper (.real x)
  | str (s : String) : Proper (.str s)
  | arr {items : List Json} (below : ∀ item ∈ items, Proper item) : Proper (.arr items)
  | obj {members : List (String × Json)} (distinct : (Assoc.keys members).Nodup)
      (below : ∀ member ∈ members, Proper member.2) : Proper (.obj members)

/-! ## JSON values as documents -/

namespace Value

theorem ofJsonItems_eq (items : List Json) : ofJsonItems items = items.map ofJson := by
  induction items with
  | nil => rfl
  | cons j rest ih => rw [ofJsonItems, ih, List.map_cons]

theorem ofJsonMembers_eq (members : List (String × Json)) :
    ofJsonMembers members = members.map fun member => (.text member.1, ofJson member.2) := by
  induction members with
  | nil => rfl
  | cons member rest ih => rw [ofJsonMembers, ih, List.map_cons]

theorem tag_ofJson (j : Json) : (ofJson j).tag = typeOf j := by
  cases j <;> rfl

theorem items?_ofJson_arr (items : List Json) :
    (ofJson (.arr items)).items? = some (items.map ofJson) := by
  rw [ofJson, ofJsonItems_eq]
  rfl

theorem entries?_ofJson_obj (members : List (String × Json)) :
    (ofJson (.obj members)).entries? =
      some (members.map fun member => (member.1, ofJson member.2)) := by
  rw [ofJson, ofJsonMembers_eq, entries?, List.map_map]
  rfl

theorem ofJson_eq_text_iff {j : Json} {text : String} : ofJson j = .text text ↔ j = .str text := by
  cases j <;> simp [ofJson]

end Value

/-- Where no two entries have one name, the last under a name is the first. -/
theorem lastUnder_of_nodup {name : String} {entries : List (String × Value)}
    (distinct : (Assoc.keys entries).Nodup) :
    lastUnder name entries = Assoc.find? name entries := by
  rw [lastUnder, ← Assoc.find?_ofPairs, Assoc.ofPairs_of_nodup distinct]

/-! ## Keywords -/

namespace JsonSchema

section
variable (own : List String) (argument j : Json) (asSchema : Json → Bool) (asOneOf asFields : Bool)

theorem keywordHolds_type : keywordHolds own "type" argument j asSchema asOneOf asFields =
    (argument.str? == some (typeOf j)) := rfl

theorem keywordHolds_enum : keywordHolds own "enum" argument j asSchema asOneOf asFields =
    (itemsOf argument).any fun option => equal option j := rfl

theorem keywordHolds_anyOf :
    keywordHolds own "anyOf" argument j asSchema asOneOf asFields = asOneOf := rfl

theorem keywordHolds_items : keywordHolds own "items" argument j asSchema asOneOf asFields =
    (itemsOf j).all asSchema := rfl

theorem keywordHolds_properties :
    keywordHolds own "properties" argument j asSchema asOneOf asFields = asFields := rfl

theorem keywordHolds_required : keywordHolds own "required" argument j asSchema asOneOf asFields =
    (itemsOf argument).all fun name => name.str?.all fun name => hasMember name j := rfl

theorem keywordHolds_additionalProperties :
    keywordHolds own "additionalProperties" argument j asSchema asOneOf asFields =
      (membersOf j).all fun member => own.contains member.1 || asSchema member.2 := rfl

theorem keywordHolds_propertyNames :
    keywordHolds own "propertyNames" argument j asSchema asOneOf asFields =
      (membersOf j).all fun member => asSchema (.str member.1) := rfl

theorem keywordHolds_pattern : keywordHolds own "pattern" argument j asSchema asOneOf asFields =
    j.str?.all fun text => argument.str?.any fun rule => KeyRule.admits ⟨rule⟩ text := rfl

theorem keywordsHold_nil : keywordsHold own [] j = true := rfl

theorem keywordsHold_cons (keyword : String) (rest : List (String × Json)) :
    keywordsHold own ((keyword, argument) :: rest) j =
      (keywordHolds own keyword argument j (fun item => valid argument item)
        (validForOne argument j) (validByName argument j) && keywordsHold own rest j) := rfl

theorem valid_bool (accepts : Bool) : valid (.bool accepts) j = accepts := rfl

theorem valid_obj (keywords : List (String × Json)) :
    valid (.obj keywords) j = keywordsHold (declared keywords) keywords j := rfl

end

variable {own : List String} {j : Json}

theorem keywordsHold_append (first second : List (String × Json)) :
    keywordsHold own (first ++ second) j =
      (keywordsHold own first j && keywordsHold own second j) := by
  induction first with
  | nil => rfl
  | cons keyword rest ih =>
    rw [List.cons_append, keywordsHold_cons, keywordsHold_cons, ih, Bool.and_assoc]

theorem anyValid_iff {schemas : List Json} :
    anyValid schemas j = true ↔ ∃ schema ∈ schemas, valid schema j = true := by
  induction schemas with
  | nil => simp [anyValid]
  | cons schema rest ih => simp [anyValid, ih]

theorem fieldsValid_iff {fields : List (String × Json)} :
    fieldsValid fields j = true ↔ ∀ field ∈ fields, ∀ item,
      Assoc.find? field.1 (membersOf j) = some item → valid field.2 item = true := by
  induction fields with
  | nil => simp [fieldsValid]
  | cons field rest ih =>
    rw [fieldsValid, Bool.and_eq_true, ih, List.forall_mem_cons, Option.all_eq_true]

end JsonSchema

namespace Schema

/-- Schemas whose tags are all types of the language. -/
inductive SharedTags : Schema → Prop where
  | any : SharedTags .any
  | scalar {tag : String} (shared : tag ∈ sharedTypes) : SharedTags (.scalar tag)
  | enum (values : List String) : SharedTags (.enum values)
  | nullable {inner : Schema} (below : SharedTags inner) : SharedTags (.nullable inner)
  | union {members : List Schema} (below : ∀ member ∈ members, SharedTags member) :
      SharedTags (.union members)
  | list {element : Schema} (below : SharedTags element) : SharedTags (.list element)
  | record (pattern : Option String) (rule : Option KeyRule) {value : Schema}
      (below : SharedTags value) : SharedTags (.record pattern rule value)
  | object {shape : List (String × Bool × Schema)} (strict : Bool)
      (below : ∀ field ∈ shape, SharedTags field.2.2) : SharedTags (.object shape strict)

theorem equal_str_iff {text : String} {j : Json} : equal (.str text) j = true ↔ j = .str text := by
  cases j with
  | str s =>
    simp only [equal, beq_iff_eq, Json.str.injEq]
    exact eq_comm
  | _ => simp [equal]

/-- Object schemas declare the names of their fields, and no other schemas do. -/
theorem declared_object (shape : List (String × Bool × Schema)) (strict : Bool) :
    declared (keywords (.object shape strict)) = Assoc.keys shape := by
  simp [declared, keywords, Assoc.find?, membersOf, fieldKeywords_eq, Assoc.keys]

theorem declared_record (pattern : Option String) (rule : Option KeyRule) (value : Schema) :
    declared (keywords (.record pattern rule value)) = [] := by
  cases rule <;> rfl

theorem required_iff (own : List String) (shape : List (String × Bool × Schema))
    (members : List (String × Json)) :
    keywordsHold own (requiredKeywords shape) (.obj members) = true ↔
      ∀ field ∈ shape, field.2.1 = false → field.1 ∈ Assoc.keys members := by
  have needed : keywordsHold own (requiredKeywords shape) (.obj members) = true ↔
      ∀ name ∈ (shape.filter fun field => !field.2.1).map Prod.fst,
        name ∈ Assoc.keys members := by
    unfold requiredKeywords
    dsimp only
    split
    · rename_i none
      rw [List.isEmpty_iff.mp none]
      simp [keywordsHold_nil]
    · simp only [keywordsHold_cons, keywordsHold_nil, keywordHolds_required, Json.strings, itemsOf,
        Bool.and_true, List.all_map, List.all_eq_true, Function.comp_apply, Json.str?,
        Option.all_some, hasMember, Assoc.contains_iff]
      exact List.forall_mem_map.symm
  rw [needed, List.forall_mem_map]
  simp only [List.mem_filter, Bool.not_eq_true', and_imp]

theorem properties_iff (own : List String) (shape : List (String × Bool × Schema))
    (members : List (String × Json)) :
    keywordsHold own
        [("type", .str "object"), ("properties", .obj (fieldKeywords shape))] (.obj members) =
          true ↔
      ∀ field ∈ shape, ∀ item, Assoc.find? field.1 members = some item →
        valid (.obj field.2.2.keywords) item = true := by
  simp only [keywordsHold_cons, keywordsHold_nil, keywordHolds_type, keywordHolds_properties,
    Json.str?, typeOf, beq_self_eq_true, validByName, Bool.true_and, Bool.and_true, fieldsValid_iff,
    fieldKeywords_eq, List.forall_mem_map, membersOf]

theorem strict_iff (shape : List (String × Bool × Schema)) (strict : Bool)
    (members : List (String × Json)) :
    keywordsHold (Assoc.keys shape)
        (if strict then [("additionalProperties", .bool false)] else []) (.obj members) = true ↔
      (strict = true → ∀ name ∈ Assoc.keys members, name ∈ Assoc.keys shape) := by
  cases strict with
  | false => simp [keywordsHold_nil]
  | true =>
    simp only [if_true, keywordsHold_cons, keywordsHold_nil, keywordHolds_additionalProperties,
      valid_bool, membersOf, Bool.or_false, Bool.and_true, List.all_eq_true, List.contains_iff_mem,
      forall_const]
    exact List.forall_mem_map.symm

theorem ruleKeywords_iff (own : List String) (rule : Option KeyRule)
    (members : List (String × Json)) :
    keywordsHold own (ruleKeywords rule) (.obj members) = true ↔
      ∀ member ∈ members, ∀ r, rule = some r → r.admits member.1 = true := by
  cases rule with
  | none => simp [ruleKeywords, keywordsHold_nil]
  | some rule =>
    simp only [ruleKeywords, keywordsHold_cons, keywordsHold_nil, keywordHolds_propertyNames,
      keywordHolds_pattern, valid_obj, membersOf, Json.str?, Bool.and_true, List.all_eq_true,
      Option.all_some, Option.any_some, Option.some.injEq, forall_eq']

theorem valid_type_iff (tag : String) (j : Json) :
    valid (.obj [("type", .str tag)]) j = true ↔ (Value.ofJson j).tag = tag := by
  rw [Value.tag_ofJson]
  simp only [valid_obj, keywordsHold_cons, keywordsHold_nil, keywordHolds_type, Json.str?,
    Bool.and_true, beq_iff_eq, Option.some.injEq]
  exact eq_comm

/-- Keywords that begin with a type hold only of what has it. -/
theorem typeOf_of_valid {tag : String} {rest : List (String × Json)} {j : Json}
    (holds : valid (.obj (("type", .str tag) :: rest)) j = true) : typeOf j = tag := by
  rw [valid_obj, keywordsHold_cons, Bool.and_eq_true] at holds
  exact (Option.some.inj (beq_iff_eq.mp holds.1)).symm

/-- The keywords of a record hold of an object whose names keep to the rule, and whose values the
keywords for the values hold of. -/
theorem valid_record_iff {pattern : Option String} {rule : Option KeyRule} {value : Schema}
    {members : List (String × Json)}
    (below : ∀ member ∈ members,
      (valid (.obj value.keywords) member.2 = true ↔ value.accepts (.ofJson member.2) = true)) :
    valid (.obj (keywords (.record pattern rule value))) (.obj members) = true ↔
      (record pattern rule value).accepts (.ofJson (.obj members)) = true := by
  rw [accepts_record, valid_obj, declared_record, keywords, Value.entries?_ofJson_obj,
    keywordsHold_append, Bool.and_eq_true, ruleKeywords_iff]
  simp only [keywordsHold_cons, keywordsHold_nil, keywordHolds_type,
    keywordHolds_additionalProperties, Json.str?, typeOf, beq_self_eq_true, membersOf,
    Bool.true_and, Bool.and_true, List.all_eq_true, Option.some.injEq, exists_eq_left',
    List.forall_mem_map, List.contains_nil, Bool.false_or]
  constructor
  · rintro ⟨values, keys⟩ member among
    exact ⟨keys member among, (below member among).mp (values member among)⟩
  · intro accepted
    exact ⟨fun member among => (below member among).mpr (accepted member among).2,
      fun member among => (accepted member among).1⟩

/-- The keywords of an object schema hold of an object in which the keywords for each field hold of
what stands under its name, unless the field may be left out and nothing does. -/
theorem valid_object_iff {shape : List (String × Bool × Schema)} {strict : Bool}
    {members : List (String × Json)} (distinct : (Assoc.keys members).Nodup)
    (below : ∀ field ∈ shape, ∀ member ∈ members, (valid (.obj field.2.2.keywords) member.2 = true ↔
      field.2.2.accepts (.ofJson member.2) = true)) :
    valid (.obj (keywords (.object shape strict))) (.obj members) = true ↔
      (object shape strict).accepts (.ofJson (.obj members)) = true := by
  have sameKeys : Assoc.keys (members.map fun member => (member.1, Value.ofJson member.2)) =
      Assoc.keys members := by
    rw [Assoc.keys, List.map_map]
    rfl
  have under (name : String) :
      lastUnder name (members.map fun member => (member.1, Value.ofJson member.2)) =
        (Assoc.find? name members).map .ofJson := by
    rw [lastUnder_of_nodup (sameKeys ▸ distinct)]
    exact Assoc.find?_map (fun _ => Value.ofJson) name members
  rw [accepts_object, valid_obj, declared_object, keywords, Value.entries?_ofJson_obj,
    keywordsHold_append, keywordsHold_append, Bool.and_eq_true, Bool.and_eq_true, properties_iff,
    required_iff, strict_iff]
  simp only [Option.some.injEq, exists_eq_left', under, sameKeys]
  refine and_congr_left fun _ => ⟨?_, fun accepted => ⟨?_, ?_⟩⟩
  · rintro ⟨fields, needed⟩ field among
    constructor
    · intro item under
      obtain ⟨member, found, rfl⟩ := Option.map_eq_some_iff.mp under
      exact (below field among _ (Assoc.mem_of_find? found)).mp (fields field among member found)
    · intro absent
      rw [Option.map_eq_none_iff, Assoc.find?_eq_none_iff] at absent
      by_contra required
      exact absent (needed field among (Bool.eq_false_iff.mpr required))
  · intro field among member found
    apply (below field among _ (Assoc.mem_of_find? found)).mpr
    apply (accepted field among).1
    rw [found, Option.map_some]
  · intro field among required
    by_contra absent
    have optional := (accepted field among).2
      (by rw [Assoc.find?_eq_none_iff.mpr absent, Option.map_none])
    rw [optional] at required
    cases required

/-- The keywords of a schema hold of the JSON values that it accepts. -/
theorem valid_keywords_iff {s : Schema} (shared : s.SharedTags) {j : Json} (proper : j.Proper) :
    valid (.obj s.keywords) j = true ↔ s.accepts (.ofJson j) = true := by
  induction s using Schema.ind generalizing j with
  | any => simp [keywords, valid_obj, keywordsHold_nil]
  | scalar tag =>
    cases shared with
    | scalar isShared =>
      have known : sharedTypes.contains tag = true := List.contains_iff_mem.mpr isShared
      rw [accepts_scalar, keywords, scalarKeywords, if_pos known, valid_type_iff]
  | enum values =>
    rw [accepts_enum, keywords]
    simp only [valid_obj, keywordsHold_cons, keywordsHold_nil, keywordHolds_enum, Json.strings,
      itemsOf, Bool.and_true, List.any_map, List.any_eq_true, Function.comp_apply, equal_str_iff,
      Value.ofJson_eq_text_iff]
  | nullable inner ih =>
    cases shared with
    | nullable below =>
      rw [accepts_nullable, ← ih below proper, ← Value.tag_eq_null_iff, ← valid_type_iff, keywords,
        or_comm]
      simp only [valid_obj, keywordsHold_cons, keywordsHold_nil, keywordHolds_anyOf, validForOne,
        anyValid, Bool.and_true, Bool.or_false, Bool.or_eq_true]
  | union members ih =>
    cases shared with
    | union below =>
      rw [accepts_union, keywords]
      simp only [valid_obj, keywordsHold_cons, keywordsHold_nil, keywordHolds_anyOf, validForOne,
        Bool.and_true, anyValid_iff, memberKeywords_eq, List.mem_map, exists_exists_and_eq_and]
      exact exists_congr fun s => and_congr_right fun among =>
        ih s among (below s among) proper
  | list element ih =>
    cases shared with
    | list below =>
      rw [accepts_list, keywords]
      cases proper with
      | arr each =>
        rw [Value.items?_ofJson_arr]
        simp only [valid_obj, keywordsHold_cons, keywordsHold_nil, keywordHolds_type,
          keywordHolds_items, Json.str?, typeOf, beq_self_eq_true, itemsOf, Bool.true_and,
          Bool.and_true, List.all_eq_true, Option.some.injEq, exists_eq_left', List.forall_mem_map]
        exact forall_congr' fun item => imp_congr_right fun among => ih below (each item among)
      | _ =>
        refine iff_of_false (fun holds => ?_) (by rintro ⟨items, none, -⟩; cases none)
        simpa [typeOf] using typeOf_of_valid holds
  | record pattern rule value ih =>
    cases shared with
    | record _ _ below =>
      cases proper with
      | obj distinct each => exact valid_record_iff fun member among => ih below (each member among)
      | _ =>
        rw [accepts_record, keywords]
        refine iff_of_false (fun holds => ?_) (by rintro ⟨entries, none, -⟩; cases none)
        simpa [typeOf] using typeOf_of_valid holds
  | object shape strict ih =>
    cases shared with
    | object _ below =>
      cases proper with
      | obj distinct each =>
        exact valid_object_iff distinct fun field among member isMember =>
          ih field among (below field among) (each member isMember)
      | _ =>
        rw [accepts_object, keywords]
        refine iff_of_false (fun holds => ?_) (by rintro ⟨entries, none, -⟩; cases none)
        simpa [typeOf] using typeOf_of_valid holds

/-- The version and the title of a document constrain nothing. -/
theorem valid_document (s : Schema) (title : String) (j : Json) :
    valid (s.document title) j = valid (.obj s.keywords) j := by
  have heading (own : List String) : keywordsHold own ([("$schema", Json.str draft)] ++
      if title == "" then [] else [("title", Json.str title)]) j = true := by
    split <;> rfl
  have names : declared ([("$schema", Json.str draft)] ++
      (if title == "" then [] else [("title", Json.str title)]) ++ s.keywords) =
        declared s.keywords := by
    split <;> rfl
  rw [document, valid_obj, valid_obj, names, keywordsHold_append, heading, Bool.true_and]

/-! ## Checks that stop -/

theorem exists_of_unreadableMember? {members : List Schema} {v : Value} {r : KeyRule}
    (stopped : unreadableMember? members v = some r) :
    ∃ s ∈ members, s.unreadable? v = some r := by
  induction members with
  | nil => cases stopped
  | cons s rest ih =>
    rw [unreadableMember?] at stopped
    split at stopped
    · rename_i first
      exact ⟨s, List.mem_cons_self, first.trans stopped⟩
    · split at stopped
      · cases stopped
      · obtain ⟨later, among, found⟩ := ih stopped
        exact ⟨later, List.mem_cons_of_mem _ among, found⟩

theorem exists_of_unreadableField? {present : List (String × Value)}
    {shape : List (String × Bool × Schema)} {r : KeyRule}
    (stopped : unreadableField? present shape = some r) :
    ∃ field ∈ shape, ∃ v, field.2.2.unreadable? v = some r := by
  induction shape with
  | nil => cases stopped
  | cons field rest ih =>
    rw [unreadableField?] at stopped
    split at stopped
    · rename_i first
      obtain ⟨v, -, found⟩ := Option.bind_eq_some_iff.mp (first.trans stopped)
      exact ⟨field, List.mem_cons_self, v, found⟩
    · obtain ⟨later, among, found⟩ := ih stopped
      exact ⟨later, List.mem_cons_of_mem _ among, found⟩

/-- A check stops only at a rule whose text cannot be read. -/
theorem fault_of_unreadable? {s : Schema} {v : Value} {r : KeyRule}
    (stopped : s.unreadable? v = some r) : ¬ r.WellFormed := by
  induction s using Schema.ind generalizing v with
  | any | scalar | enum => cases stopped
  | nullable inner ih =>
    rw [unreadable?] at stopped
    split at stopped
    · cases stopped
    · exact ih stopped
  | union members ih =>
    obtain ⟨s, among, found⟩ := exists_of_unreadableMember? stopped
    exact ih s among found
  | list element ih =>
    obtain ⟨item, -, found⟩ := List.exists_of_findSome?_eq_some stopped
    exact ih found
  | record pattern rule value ih =>
    obtain ⟨entry, -, found⟩ := List.exists_of_findSome?_eq_some stopped
    cases rule with
    | none => exact ih found
    | some rule =>
      dsimp only at found
      split at found
      · rename_i fault
        cases found
        intro wellFormed
        rw [wellFormed] at fault
        cases fault
      · split at found
        · exact ih found
        · cases found
  | object shape strict ih =>
    obtain ⟨field, among, v, found⟩ := exists_of_unreadableField? stopped
    exact ih field among found

end Schema

/-! ## Predictions -/

namespace Samples
open Schema
variable {c : Config} {path : Path} {n : PathNode} {documents : List Json} {v : Value}

/-- What JSON values hold are JSON values. -/
theorem exists_ofJson {w : Value} (isJson : ∃ j, v = .ofJson j) (holds : v.Holds path w) :
    ∃ j, w = .ofJson j := by
  induction holds with
  | here => exact isJson
  | item found _ ih =>
    obtain ⟨j, same⟩ := isJson
    cases j with
    | arr items =>
      rw [Value.ofJson, Value.ofJsonItems_eq] at same
      cases same
      obtain ⟨item, -, rfl⟩ := List.mem_map.mp (List.mem_of_getElem? found)
      exact ih ⟨item, rfl⟩
    | _ => cases same
  | entry among _ ih =>
    obtain ⟨j, same⟩ := isJson
    cases j with
    | obj members =>
      rw [Value.ofJson, Value.ofJsonMembers_eq] at same
      cases same
      obtain ⟨member, -, isEntry⟩ := List.mem_map.mp among
      cases isEntry
      exact ih ⟨member.2, rfl⟩
    | _ => cases same

/-- Leaves of JSON documents have tags of the language. -/
theorem tag_mem_sharedTypes (seen : v ∈ (samplesOf c (documents.map .ofJson)).valuesAt path)
    (leaf : v.isList = false ∧ v.isMap = false) : v.tag ∈ sharedTypes := by
  obtain ⟨document, member, concrete, holds, -⟩ := mem_valuesAt_ofDocuments.mp seen
  obtain ⟨source, -, rfl⟩ := List.mem_map.mp member
  obtain ⟨j, rfl⟩ := exists_ofJson ⟨source, rfl⟩ holds
  rw [Value.tag_ofJson]
  cases j with
  | arr items => cases leaf.1
  | obj members => cases leaf.2
  | _ => simp [typeOf, sharedTypes]

theorem sharedTags_ofMember {tag : String} (shared : tag ∈ sharedTypes) :
    (ofMember tag).SharedTags := by
  obtain ⟨kind, rfl⟩ : ∃ kind : Kind, tag = kind.tag := by
    simp only [sharedTypes, List.mem_cons, List.not_mem_nil, or_false] at shared
    rcases shared with rfl | rfl | rfl | rfl
    · exact ⟨.null, rfl⟩
    · exact ⟨.string, rfl⟩
    · exact ⟨.number, rfl⟩
    · exact ⟨.boolean, rfl⟩
  rw [Kind.ofMember_tag]
  exact .scalar shared

theorem sharedTags_scalarMembers (node : (samplesOf c (documents.map .ofJson)).NodeOf path n)
    (shallow : path.length ≤ c.maxDepth) {member : Schema} (among : member ∈ scalarMembers c n) :
    member.SharedTags := by
  obtain ⟨tag, isTag, rfl⟩ := List.mem_map.mp among
  obtain ⟨v, scalar, rfl⟩ := List.mem_map.mp (mem_sortTags.mp isTag)
  obtain ⟨seen, plain⟩ := List.mem_filter.mp scalar
  rw [node.values] at seen
  have notList : v.isList = false := by
    rw [Bool.and_eq_true, Bool.not_eq_true', Bool.not_eq_true'] at plain
    exact plain.2
  -- At a position that is looked into, maps are not filed.
  have notMap : v.isMap = false := by
    obtain ⟨document, -, concrete, -, rfl, counts⟩ := mem_valuesAt_ofDocuments.mp seen
    rw [Path.length_flat] at shallow
    rcases counts with ⟨-, notMap⟩ | deep
    · exact notMap
    · omega
  have shared := tag_mem_sharedTypes seen ⟨notList, notMap⟩
  rcases scalarOf_cases _ v.tag with ⟨_, -, made⟩ | made <;> rw [made]
  · exact .enum _
  · exact .scalar shared

/-- The label of leaves of JSON documents names tags of the language, or nothing at all. -/
theorem sharedTags_labelUnder {names : List String}
    (leaves : ∀ name ∈ names,
      (samplesOf c (documents.map .ofJson)).IsLeaf (path ++ [.key name])) :
    (ofLabel ((samplesOf c (documents.map .ofJson)).labelUnder path names)).SharedTags := by
  apply ofLabel_ind .any (fun _ own => own) fun _ => .union
  intro member isShown
  rw [labelUnder, Label.split_trim_render _ _ (whole_of_ofValues (ofValues_tagsUnder names))
    (by simp), Label.shown] at isShown
  have undefined : (ofMember "undefined").SharedTags := by
    have word : Label.enumValues? "undefined" = none := Label.enumValues?_of_bare rfl
    rw [ofMember, word]
    exact .any
  have null : (ofMember "null").SharedTags := sharedTags_ofMember (by decide)
  split at isShown
  · rw [List.mem_singleton.mp isShown]
    split
    · exact null
    · exact undefined
  · simp only [Bool.false_eq_true, if_false, List.append_nil, List.mem_append] at isShown
    rcases isShown with isTag | isNull
    · obtain ⟨tag, among, -, rfl⟩ := Label.mem_members.mp isTag
      obtain ⟨v, under, -, rfl⟩ := mem_tagsUnder.mp among
      obtain ⟨name, isName, seen⟩ := List.mem_flatMap.mp under
      exact sharedTags_ofMember (tag_mem_sharedTypes seen ((leaves name isName).values v seen))
    · split at isNull
      · rw [List.mem_singleton.mp isNull]
        exact null
      · cases isNull

/-- Schemas of positions in JSON documents have tags of the language only. -/
theorem sharedTags_schemaAt {levels : Nat}
    (closed : (samplesOf c (documents.map .ofJson)).Closed c.maxDepth)
    (there : path ∈ (samplesOf c (documents.map .ofJson)).paths)
    (depth : path.length + levels = c.maxDepth + 1) :
    ((samplesOf c (documents.map .ofJson)).schemaAt c path).SharedTags :=
  closed.schemaAt_induction (motive := fun _ s => s.SharedTags) (fun _ => .any)
    (fun _ => .scalar (by decide)) (fun _ _ => .nullable) (fun _ _ => .union)
    (fun _ _ _ node shallow _ => sharedTags_scalarMembers node shallow) (fun _ _ => .list)
    (fun _ _ strict => .object strict)
    (fun _ _ _ pattern rule _ _ leaves => .record pattern rule (sharedTags_labelUnder leaves))
    there depth

end Samples

/-- An exported schema means what the check means: a JSON value is valid against it, as it stands
and as a document, exactly if the check of the value finds no issue; a check without an answer has
stopped at a key rule that cannot be read. The tags of the schema have to be types of the language,
as those of every schema are that is predicted from JSON documents. -/
theorem export_agrees :
    (∀ (c : Config) (documents : List Json) (schema : Schema),
      predict c (documents.map .ofJson) = .ok schema → schema.SharedTags) ∧
    ∀ (s : Schema) (title : String) (j : Json), s.SharedTags → j.Proper →
      (∃ issues, s.check (.ofJson j) = .ok issues ∧
        (valid (.obj s.keywords) j = true ↔ issues = []) ∧
        (valid (s.document title) j = true ↔ issues = [])) ∨
      ∃ rule, s.check (.ofJson j) = .error rule ∧ ¬ rule.WellFormed := by
  constructor
  · intro c documents schema returned
    obtain ⟨filled, rfl⟩ := predict_eq returned
    have closed : (samplesOf c (documents.map .ofJson)).Closed c.maxDepth :=
      Samples.closed_ofDocuments filled
    exact Samples.sharedTags_schemaAt closed closed.root (Nat.zero_add _)
  · intro s title j shared proper
    have same := Schema.valid_keywords_iff shared proper
    rw [Schema.accepts, List.isEmpty_iff] at same
    unfold Schema.check
    split
    · rename_i rule stopped
      exact .inr ⟨rule, rfl, Schema.fault_of_unreadable? stopped⟩
    · exact .inl ⟨_, rfl, same, (Schema.valid_document s title j) ▸ same⟩

/-- A list of numbers and nulls under a key is exported with what it admits: a number does, a truth
value does not. -/
theorem valid_number_or_null :
    let inside (items : List Json) : Json := .obj [("a", .arr items)]
    let schema : Schema := .object [("a", false, .list (.nullable (.scalar "number")))] true
    predict default [.ofJson (inside [.int 1, .null])] = .ok schema ∧
      valid (schema.document "Sample") (inside [.null, .int 2]) = true ∧
      valid (schema.document "Sample") (inside [.bool true]) = false := by
  -- The run is evaluated while its document is still written out.
  have returned : predict default [.ofJson (.obj [("a", .arr [.int 1, .null])])] =
      .ok (.object [("a", false, .list (.nullable (.scalar "number")))] true) := by
    rw [predict_of_written rfl]
    rfl
  intro inside schema
  have shared : schema.SharedTags :=
    export_agrees.1 default [inside [.int 1, .null]] schema returned
  have proper (items : List Json) (each : ∀ item ∈ items, item.Proper) : (inside items).Proper :=
    .obj (List.nodup_singleton _) (by simpa using .arr each)
  refine ⟨returned, ?_, ?_⟩
  · have accepted : schema.check (.ofJson (inside [.null, .int 2])) = .ok [] := rfl
    have numbers : (inside [.null, .int 2]).Proper :=
      proper _ (by simpa using ⟨.null, .int 2⟩)
    rcases export_agrees.2 schema "Sample" _ shared numbers with
      ⟨issues, checked, -, same⟩ | ⟨rule, stopped, -⟩
    · exact same.mpr (Except.ok.inj (checked.symm.trans accepted))
    · cases stopped.symm.trans accepted
  · have truth : (inside [.bool true]).Proper := proper _ (by simpa using .bool true)
    rcases export_agrees.2 schema "Sample" _ shared truth with
      ⟨issues, checked, -, same⟩ | ⟨rule, stopped, -⟩
    · rw [← Bool.not_eq_true, same]
      rintro rfl
      cases checked
    · cases stopped

end SchemaInference
