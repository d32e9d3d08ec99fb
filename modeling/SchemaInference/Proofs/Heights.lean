import SchemaInference.Json.Basic
import SchemaInference.Proofs.BuildCalls
import SchemaInference.Proofs.CheckSteps
import SchemaInference.Proofs.SchemaLevels
import SchemaInference.Report
import SchemaInference.Schema.Export

/-! How high stands what inference finds. A position adds three schemas at the most to the schemas
in each other: a list or an object, the union that it is in, and null beside that. Each of them
takes two calls at the most when the label is written or the schema is printed as JSON, and checks
nest two calls more than labels. With the calls that make a schema, the greatest depth bounds all
calls that are nested once documents have been read. -/
namespace SchemaInference

namespace Json
variable {bound : Nat}

theorem itemHeight_le_iff {items : List Json} :
    itemHeight items ≤ bound ↔ ∀ j ∈ items, j.height ≤ bound := by
  induction items with
  | nil => simp [itemHeight]
  | cons first rest ih => rw [itemHeight, Nat.max_le, ih, List.forall_mem_cons]

theorem memberHeight_le_iff {members : List (String × Json)} :
    memberHeight members ≤ bound ↔ ∀ member ∈ members, member.2.height ≤ bound := by
  induction members with
  | nil => simp [memberHeight]
  | cons first rest ih => rw [memberHeight, Nat.max_le, ih, List.forall_mem_cons]

theorem height_arr_le (bound : Nat) {items : List Json} (each : ∀ j ∈ items, j.height ≤ bound) :
    (arr items).height ≤ 1 + bound :=
  Nat.add_le_add_left (itemHeight_le_iff.mpr each) 1

theorem memberHeight_append (members others : List (String × Json)) :
    memberHeight (members ++ others) = max (memberHeight members) (memberHeight others) := by
  induction members with
  | nil => simp [memberHeight]
  | cons first rest ih => rw [List.cons_append, memberHeight, memberHeight, ih, Nat.max_assoc]

theorem height_strings_le (texts : List String) : (strings texts).height ≤ 1 := by
  refine height_arr_le 0 ?_
  rw [List.forall_mem_map]
  exact fun _ _ => Nat.le_refl 0

end Json

namespace Schema

mutual

/-- How many schemas stand in each other, the outermost included. -/
def height : Schema → Nat
  | .any | .scalar _ | .enum _ => 1
  | .nullable inner | .list inner | .record _ _ inner => inner.height + 1
  | .union members => memberHeight members + 1
  | .object shape _ => fieldHeight shape + 1

def memberHeight : List Schema → Nat
  | [] => 0
  | s :: rest => max s.height (memberHeight rest)

def fieldHeight : List (String × Bool × Schema) → Nat
  | [] => 0
  | (_, _, s) :: rest => max s.height (fieldHeight rest)

end

variable {bound : Nat}

theorem height_pos (s : Schema) : 1 ≤ s.height := by cases s <;> simp [height]

theorem memberHeight_le_iff {members : List Schema} :
    memberHeight members ≤ bound ↔ ∀ s ∈ members, s.height ≤ bound := by
  induction members with
  | nil => simp [memberHeight]
  | cons first rest ih => rw [memberHeight, Nat.max_le, ih, List.forall_mem_cons]

theorem fieldHeight_le_iff {shape : List (String × Bool × Schema)} :
    fieldHeight shape ≤ bound ↔ ∀ field ∈ shape, field.2.2.height ≤ bound := by
  induction shape with
  | nil => simp [fieldHeight]
  | cons first rest ih => rw [fieldHeight, Nat.max_le, ih, List.forall_mem_cons]

theorem height_member_le {members : List Schema} {s : Schema} (member : s ∈ members) :
    s.height ≤ memberHeight members := memberHeight_le_iff.mp (Nat.le_refl _) s member

theorem height_field_le {shape : List (String × Bool × Schema)} {field : String × Bool × Schema}
    (member : field ∈ shape) : field.2.2.height ≤ fieldHeight shape :=
  fieldHeight_le_iff.mp (Nat.le_refl _) field member

/-! ## What is printed of a schema -/

theorem labelCalls_le (s : Schema) : s.labelCalls ≤ 2 * s.height := by
  induction s using Schema.ind with
  | any | scalar | enum => simp [labelCalls, height]
  | nullable inner ih | list inner ih | record _ _ inner ih =>
    rw [labelCalls, height]
    omega
  | union members ih =>
    have each : memberLabelCalls members ≤ 2 * memberHeight members :=
      memberLabelCalls_le_iff.mpr fun s member =>
        (ih s member).trans (Nat.mul_le_mul_left 2 (height_member_le member))
    rw [labelCalls, height]
    omega
  | object shape strict ih =>
    have each : fieldLabelCalls shape ≤ 2 * fieldHeight shape :=
      fieldLabelCalls_le_iff.mpr fun field member =>
        (ih field member).trans (Nat.mul_le_mul_left 2 (height_field_le member))
    rw [labelCalls, height]
    omega

/-- The keywords of a schema in an object. -/
theorem height_keywords_le (s : Schema) : (Json.obj s.keywords).height ≤ 2 * s.height := by
  induction s using Schema.ind with
  | any => simp [keywords, Json.height, Json.memberHeight, height]
  | scalar tag =>
    have flat : Json.memberHeight (scalarKeywords tag) = 0 := by
      unfold scalarKeywords
      split
      · rfl
      · split <;> rfl
    simp [keywords, Json.height, flat, height]
  | enum values =>
    have texts := Json.height_strings_le values
    simp only [keywords, Json.height, Json.memberHeight, height]
    omega
  | nullable inner ih =>
    simp only [keywords, Json.height, Json.itemHeight, Json.memberHeight, height] at ih ⊢
    omega
  | union members ih =>
    have each : Json.itemHeight (memberKeywords members) ≤ 2 * memberHeight members := by
      rw [Json.itemHeight_le_iff, memberKeywords_eq, List.forall_mem_map]
      exact fun s member => (ih s member).trans (Nat.mul_le_mul_left 2 (height_member_le member))
    simp only [keywords, Json.height, Json.memberHeight, height]
    omega
  | list element ih =>
    simp only [keywords, Json.height, Json.memberHeight, height] at ih ⊢
    omega
  | record pattern rule value ih =>
    have some : 1 ≤ value.height := value.height_pos
    have ruled : Json.memberHeight (ruleKeywords rule) ≤ 1 := by
      cases rule <;> simp [ruleKeywords, Json.height, Json.memberHeight]
    simp only [keywords, Json.height, Json.memberHeight_append, Json.memberHeight, height] at ih ⊢
    omega
  | object shape strict ih =>
    have each : Json.memberHeight (fieldKeywords shape) ≤ 2 * fieldHeight shape := by
      rw [Json.memberHeight_le_iff, fieldKeywords_eq, List.forall_mem_map]
      exact fun field member =>
        (ih field member).trans (Nat.mul_le_mul_left 2 (height_field_le member))
    have required : Json.memberHeight (requiredKeywords shape) ≤ 1 := by
      unfold requiredKeywords
      dsimp only
      split
      · exact Nat.zero_le 1
      · exact Json.memberHeight_le_iff.mpr (by simpa using Json.height_strings_le _)
    have closed : Json.memberHeight
        (if strict then [("additionalProperties", .bool false)] else []) = 0 := by
      cases strict <;> rfl
    simp only [keywords, Json.height, Json.memberHeight_append, Json.memberHeight, closed, height]
    omega

/-! ## What is inferred -/

theorem height_scalarOf (enum : Option (List String)) (tag : String) :
    (scalarOf enum tag).height = 1 := by
  rcases scalarOf_cases enum tag with ⟨_, -, made⟩ | made <;> rw [made] <;> rfl

theorem height_ofMember (member : String) : (ofMember member).height = 1 := by
  unfold ofMember
  split
  · rfl
  · split <;> rfl

/-- A union of members, with null beside it. -/
theorem height_besideNull_le {nullable : Bool} {members : List Schema} (bound : Nat)
    (some : 1 ≤ bound)
    (each : ∀ member ∈ members, member.height ≤ bound) :
    (besideNull nullable members).height ≤ bound + 2 := by
  have whole : (ofAlternatives members).height ≤ bound + 1 := by
    match members with
    | [] => exact Nat.le_succ_of_le some
    | [only] => exact Nat.le_succ_of_le (each only List.mem_cons_self)
    | first :: second :: rest => exact Nat.succ_le_succ (memberHeight_le_iff.mpr each)
  cases members with
  | nil => exact Nat.le_succ_of_le whole
  | cons first rest =>
    cases nullable with
    | false => exact Nat.le_succ_of_le whole
    | true => exact Nat.succ_le_succ whole

theorem height_ofLabel_le (label : String) : (ofLabel label).height ≤ 2 := by
  refine ofLabel_ind (P := fun s => s.height ≤ 2) (Q := fun s => s.height ≤ 1) (Nat.le_succ 1)
    (fun _ => Nat.le_succ_of_le) ?_ fun member _ => Nat.le_of_eq (height_ofMember member)
  exact fun members each => Nat.succ_le_succ (memberHeight_le_iff.mpr each)

end Schema

/-- A position adds to the positions below it a list or an object, a union and null. -/
theorem Samples.height_schemaAt_le {s : Samples} {c : Config} (closed : s.Closed c.maxDepth)
    {path : Path} {levels : Nat} (there : path ∈ s.paths)
    (depth : path.length + levels = c.maxDepth + 1) :
    (s.schemaAt c path).height ≤ 3 * levels + 2 := by
  induction levels generalizing path with
  | zero =>
    rw [schemaAt_of_deep (by omega)]
    exact Nat.le_succ 1
  | succ levels ih =>
    obtain ⟨n, node⟩ := closed.exists_node there
    have shallow : path.length ≤ c.maxDepth := by omega
    have below {step : Segment} (further : path ++ [step] ∈ s.paths) :
        (s.schemaAt c (path ++ [step])).height ≤ 3 * levels + 2 :=
      ih further (Path.length_concat_add step depth)
    rw [schemaAt_eq closed node there shallow]
    refine Schema.height_besideNull_le (3 * levels + 3) (by omega) fun member among => ?_
    rw [List.mem_append, List.mem_append] at among
    rcases among with (scalar | list) | map
    · obtain ⟨tag, -, rfl⟩ := List.mem_map.mp scalar
      rw [Schema.height_scalarOf]
      omega
    · rw [(mem_listMembers_iff.mp list).2, node.element?]
      apply Nat.succ_le_succ
      split
      · rename_i element
        exact below element
      · exact Nat.le_add_left 1 _
    · obtain ⟨-, ⟨-, rfl⟩ | ⟨pattern, stem, label, -, rfl⟩⟩ := (mem_mapMembers_iff shallow).mp map
      · refine Nat.succ_le_succ (Schema.fieldHeight_le_iff.mpr ?_)
        rw [fieldsAt, List.forall_mem_map]
        exact fun name isName => below ((node.mem_names closed).mp isName)
      · exact Nat.succ_le_succ ((Schema.height_ofLabel_le label).trans (Nat.le_add_left 2 _))

/-! ## Reports -/

namespace Structure
open Json (memberHeight itemHeight)

theorem optionsToJson_eq (options : List Structure) :
    optionsToJson options = options.map toJson := by
  induction options with
  | nil => rfl
  | cons option rest ih => rw [optionsToJson, ih, List.map_cons]

theorem childrenToJson_eq (children : List (String × Structure)) :
    childrenToJson children = children.map fun child => (child.1, child.2.toJson) := by
  induction children with
  | nil => rfl
  | cons child rest ih => rw [childrenToJson, ih, List.map_cons]

theorem memberHeight_head (flags : Flags) (kind : String) :
    memberHeight (head flags kind) = 0 := rfl

variable {bound : Nat} {flags : Flags}

theorem height_primitive (label : String) : (primitive flags label).toJson.height = 1 := rfl

theorem height_record (pattern : KeyPattern) (stem : Option String) (label : String) :
    (record flags pattern stem label).toJson.height = 1 := by cases stem <;> rfl

theorem height_array_le {element : Option Structure} (depth : Int) (tags : TagSet)
    (each : ∀ inner, element = some inner → inner.toJson.height ≤ bound) :
    (array flags element depth tags).toJson.height ≤ 2 + bound := by
  have texts := Json.height_strings_le tags.toList
  cases element with
  | none =>
    simp only [toJson, Json.height, Json.memberHeight_append, memberHeight_head, memberHeight]
    omega
  | some inner =>
    have := each inner rfl
    simp only [toJson, Json.height, Json.memberHeight_append, memberHeight_head, memberHeight]
    omega

theorem height_object_le {children : List (String × Structure)}
    (each : ∀ child ∈ children, child.2.toJson.height ≤ bound) :
    (object flags children).toJson.height ≤ 2 + bound := by
  have inside : memberHeight (childrenToJson children) ≤ bound := by
    rw [Json.memberHeight_le_iff, childrenToJson_eq, List.forall_mem_map]
    exact each
  simp only [toJson, Json.height, Json.memberHeight_append, memberHeight_head, memberHeight]
  omega

theorem height_mixed_le {options : List Structure}
    (each : ∀ option ∈ options, option.toJson.height ≤ bound) :
    (mixed flags options).toJson.height ≤ 2 + bound := by
  have inside : itemHeight (optionsToJson options) ≤ bound := by
    rw [Json.itemHeight_le_iff, optionsToJson_eq, List.forall_mem_map]
    exact each
  simp only [toJson, Json.height, Json.memberHeight_append, memberHeight_head, memberHeight]
  omega

/-- Marks do not nest anything. -/
theorem height_withFlags (marks : Flags) (s : Structure) :
    (s.withFlags marks).toJson.height = s.toJson.height := by
  cases s with
  | array _ element => cases element <;> rfl
  | _ => rfl

/-- A position takes two lists and objects more than its options. -/
theorem height_ofOptions_le {options : List Structure} (nullable : Bool) (bound : Nat)
    (each : ∀ option ∈ options, option.toJson.height ≤ bound) :
    (ofOptions nullable options).toJson.height ≤ 2 + bound := by
  match options with
  | [] =>
    rw [ofOptions, height_primitive]
    omega
  | [only] =>
    rw [ofOptions, setNullable, height_withFlags]
    exact (each only List.mem_cons_self).trans (Nat.le_add_left bound 2)
  | first :: second :: rest => exact height_mixed_le each

end Structure

namespace PathTree
open Structure
variable {t : PathTree} {c : Config} {bound : Nat}

/-- An option takes two lists and objects more than the positions below it. -/
theorem height_option_le {n : PathNode} {levels : Nat} {option : Structure}
    (member : option ∈ t.options c levels n)
    (below : ∀ path, (t.structureAt c levels path).toJson.height ≤ bound) :
    option.toJson.height ≤ 2 + bound := by
  rw [options, List.mem_append, List.mem_append] at member
  rcases member with (scalar | array) | map
  · unfold PathNode.scalarOption at scalar
    split at scalar
    · cases scalar
    · rw [List.mem_singleton.mp scalar, height_primitive]
      omega
  · split at array
    · cases array
    · rw [List.mem_singleton.mp array, arrayOption]
      refine height_array_le _ _ fun inner found => ?_
      obtain ⟨element, -, rfl⟩ := Option.map_eq_some_iff.mp found
      exact below element
  · split at map
    · cases map
    · rw [List.mem_singleton.mp map]
      cases found : t.record? c n with
      | some record =>
        obtain ⟨pattern, stem, label, rfl⟩ := record?_eq_some found
        rw [Option.getD_some, height_record]
        omega
      | none =>
        refine height_object_le ?_
        simp only [List.forall_mem_map]
        intro child _
        split
        · rw [makeOptional, height_withFlags]
          exact below child
        · exact below child

/-- The structure that is found takes four lists and objects for each level at the most. -/
theorem height_structureAt_le (levels : Nat) (path : Path) :
    (t.structureAt c levels path).toJson.height ≤ 4 * levels + 2 := by
  induction levels generalizing path with
  | zero => exact Nat.le_succ 1
  | succ levels ih =>
    rw [structureAt_succ]
    split
    · rw [anything, height_primitive]
      omega
    · refine (height_ofOptions_le _ (2 + (4 * levels + 2)) ?_).trans (by omega)
      exact fun option member => height_option_le member ih

end PathTree

/-- The report of what is found. Summaries and predictions have no more than five lists and objects
in each other, the report included. -/
theorem Analysis.height_report_le (c : Config) (documents : List Value) :
    (findingsOf c documents).report.height ≤ 4 * (c.maxDepth + 1) + 5 := by
  have segments (path : Path) : path.toJson.height ≤ 2 := by
    refine Json.height_arr_le 1 ?_
    rw [List.forall_mem_map]
    exact fun _ _ => Nat.le_refl 1
  have summary (s : PathSummary) : s.toJson.height ≤ 3 := by
    have path := segments s.firstPath
    have texts := Json.height_strings_le s.texts
    simp only [PathSummary.toJson, Json.height, Json.memberHeight]
    omega
  have prediction (path : Path) (p : TypePrediction) : (Json.obj
      ([("path", .str path.format), ("segments", path.toJson), ("label", .str p.label)]
        ++ p.members)).height ≤ 3 := by
    have path := segments path
    have tags := Json.height_strings_le p.tags.toList
    have items := Json.height_strings_le p.itemTags.toList
    have values : (Json.orNull (p.enumValues.map Json.strings)).height ≤ 1 := by
      cases p.enumValues with
      | none => exact Nat.zero_le 1
      | some values => exact Json.height_strings_le values
    simp only [TypePrediction.members, Json.height, Json.memberHeight_append, Json.memberHeight]
    omega
  have shape : (findingsOf c documents).shape.toJson.height ≤ 4 * (c.maxDepth + 1) + 2 :=
    PathTree.height_structureAt_le _ _
  have paths := Json.height_arr_le 3
    (List.forall_mem_map.mpr fun s (_ : s ∈ (findingsOf c documents).summaries) => summary s)
  have predictions := Json.height_arr_le 3 (List.forall_mem_map.mpr
    fun entry (_ : entry ∈ (findingsOf c documents).predictions) => prediction entry.1 entry.2)
  simp only [report, Json.height, Json.memberHeight] at paths predictions ⊢
  omega

/-! ## What the greatest depth bounds -/

/-- Room enough for the calls that are nested when a schema is made, checked against and printed, or
a report is printed. -/
def Config.calls (c : Config) : Nat := 7 * (c.maxDepth + 2)

namespace Analysis
variable {c : Config} {documents : List Value}

theorem buildCalls_le : Schema.buildCalls c 0 (findingsOf c documents).shape ≤ c.calls :=
  (PathTree.buildCalls_structureAt_le (Nat.zero_add _) []).trans (by unfold Config.calls; omega)

theorem height_schema_le (filled : documents ≠ []) :
    ((findingsOf c documents).schema c).height ≤ 3 * (c.maxDepth + 1) + 2 := by
  have closed : (samplesOf c documents).Closed c.maxDepth := Samples.closed_ofDocuments filled
  exact Samples.height_schemaAt_le closed closed.root (Nat.zero_add _)

/-- A check nests two calls more. -/
theorem labelCalls_le (filled : documents ≠ []) :
    ((findingsOf c documents).schema c).labelCalls + 2 ≤ c.calls := by
  have := ((findingsOf c documents).schema c).labelCalls_le
  have := height_schema_le (c := c) filled
  unfold Config.calls
  omega

theorem height_document_le (filled : documents ≠ []) :
    (((findingsOf c documents).schema c).document "").height ≤ c.calls := by
  have keywords := ((findingsOf c documents).schema c).height_keywords_le
  have := height_schema_le (c := c) filled
  have same : (((findingsOf c documents).schema c).document "").height =
      (Json.obj ((findingsOf c documents).schema c).keywords).height := by
    simp [Schema.document, Json.height, Json.memberHeight]
  unfold Config.calls
  omega

theorem report_le : (findingsOf c documents).report.height ≤ c.calls :=
  (height_report_le c documents).trans (by unfold Config.calls; omega)

end Analysis

end SchemaInference
