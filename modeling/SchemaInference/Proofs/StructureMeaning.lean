import SchemaInference.Proofs.LabelMeaning

/-! The meaning of a structure, said of values and without schemas: a position below the greatest
depth means everything, scalars mean what their label does, lists and maps are taken apart, and null
is let in where it was seen. The schema of a structure accepts exactly this. -/
namespace SchemaInference

/-- Values of a kind inside so many lists. -/
def InLists (inner : Value → Prop) : Nat → Value → Prop
  | 0, v => inner v
  | levels + 1, v => ∃ items, v.items? = some items ∧ ∀ item ∈ items, InLists inner levels item

/-- The enumeration that is predicted for a path, if there is one. -/
def enumAt (predictions : Predictions) (path : Path) : Option (List String) :=
  (Assoc.find? path predictions).bind TypePrediction.enumValues

namespace Structure

/-- What holds of a value at a depth: everything does below the greatest one, and null passes where
it was seen. -/
def Guarded (c : Config) (depth : Nat) (flags : Flags) (v : Value) (means : Prop) : Prop :=
  c.maxDepth < depth ∨ (flags.nullable = true ∧ v = .null) ∨ means

mutual

/-- The meaning of a structure at a path and a depth. -/
def Means (c : Config) (predictions : Predictions) (path : Path) (depth : Nat) :
    Structure → Value → Prop
  | .primitive flags label, v =>
    Guarded c depth flags v (Label.Means (enumAt predictions path) label v)
  | .array flags none itemDepth tags, v =>
    Guarded c depth flags v <|
      if tags.toList = [] then ∃ items, v.items? = some items
      else InLists (fun leaf => ∃ tag ∈ tags, Label.Means none tag leaf) (max itemDepth 1).toNat v
  | .array flags (some element) _ _, v =>
    Guarded c depth flags v <| ∃ items, v.items? = some items ∧
      ∀ item ∈ items, Means c predictions (path ++ [.wildcard]) (depth + 1) element item
  | .record flags pattern stem label, v =>
    Guarded c depth flags v <| ∃ entries, v.entries? = some entries ∧ ∀ entry ∈ entries,
      (∀ rule, pattern.rule? stem = some rule → rule.admits entry.1 = true) ∧
        Label.Means none label entry.2
  | .object flags children, v =>
    Guarded c depth flags v <| ∃ entries, v.entries? = some entries ∧
      FieldsMean c predictions path depth entries children ∧
        (c.strictObjects = true → ∀ name ∈ Assoc.keys entries, name ∈ Assoc.keys children)
  | .mixed flags options, v =>
    Guarded c depth flags v (options = [] ∨ SomeMeans c predictions path depth options v)

/-- Every child is there, unless it may be absent, with a value that it means. -/
def FieldsMean (c : Config) (predictions : Predictions) (path : Path) (depth : Nat)
    (entries : List (String × Value)) : List (String × Structure) → Prop
  | [] => True
  | (name, child) :: rest =>
    ((∀ item, lastUnder name entries = some item →
        Means c predictions (path ++ [.key name]) (depth + 1) child item) ∧
      (lastUnder name entries = none → child.flags.optional = true)) ∧
    FieldsMean c predictions path depth entries rest

/-- One of some options means a value. -/
def SomeMeans (c : Config) (predictions : Predictions) (path : Path) (depth : Nat) :
    List Structure → Value → Prop
  | [], _ => False
  | option :: rest, v =>
    Means c predictions path depth option v ∨ SomeMeans c predictions path depth rest v

end

/-- A structure whose objects name each child once, and in whose scalars the enumerations survive
that are predicted for them: a legible label has a listed enumeration, or the two go together in
another way. Inference gives no others, and with less the schema would not accept what the scalars
mean. -/
inductive Sound (predictions : Predictions) : Path → Structure → Prop where
  | primitive {path : Path} {flags : Flags} {label : String}
      (survives : ∀ values, enumAt predictions path = some values →
        (Label.Legible label ∧ Label.Listed values) ∨ Label.Takes label values) :
      Sound predictions path (.primitive flags label)
  | bareArray {path : Path} {flags : Flags} {depth : Int} {tags : TagSet} :
      Sound predictions path (.array flags none depth tags)
  | array {path : Path} {flags : Flags} {element : Structure} {depth : Int} {tags : TagSet}
      (below : Sound predictions (path ++ [.wildcard]) element) :
      Sound predictions path (.array flags (some element) depth tags)
  | record {path : Path} {flags : Flags} {pattern : KeyPattern} {stem : Option String}
      {label : String} : Sound predictions path (.record flags pattern stem label)
  | object {path : Path} {flags : Flags} {children : List (String × Structure)}
      (distinct : (Assoc.keys children).Nodup)
      (below : ∀ child ∈ children, Sound predictions (path ++ [.key child.1]) child.2) :
      Sound predictions path (.object flags children)
  | mixed {path : Path} {flags : Flags} {options : List Structure}
      (below : ∀ option ∈ options, Sound predictions path option) :
      Sound predictions path (.mixed flags options)

/-- Induction over structures, with children and options in reach. -/
@[elab_as_elim]
theorem ind {motive : Structure → Prop}
    (primitive : ∀ flags label, motive (.primitive flags label))
    (bareArray : ∀ flags depth tags, motive (.array flags none depth tags))
    (array : ∀ flags element depth tags, motive element →
      motive (.array flags (some element) depth tags))
    (record : ∀ flags pattern stem label, motive (.record flags pattern stem label))
    (object : ∀ flags children, (∀ child ∈ children, motive child.2) →
      motive (.object flags children))
    (mixed : ∀ flags options, (∀ option ∈ options, motive option) → motive (.mixed flags options))
    (s : Structure) : motive s :=
  @Structure.rec motive (fun element => ∀ s, element = some s → motive s)
    (fun children => ∀ child ∈ children, motive child.2) (fun options => ∀ s ∈ options, motive s)
    (fun child => motive child.2) primitive
    (fun flags element depth tags below => match element, below with
      | none, _ => bareArray flags depth tags
      | some s, below => array flags s depth tags (below s rfl))
    record object mixed (by simp) (fun _ below s same => Option.some.inj same ▸ below)
    (by simp) (fun _ _ head tail => List.forall_mem_cons.mpr ⟨head, tail⟩)
    (by simp) (fun _ _ head tail => List.forall_mem_cons.mpr ⟨head, tail⟩)
    (fun _ _ below => below) s

variable {c : Config} {predictions : Predictions} {path : Path} {depth : Nat}

theorem fieldsMean_iff {entries : List (String × Value)} {children : List (String × Structure)} :
    FieldsMean c predictions path depth entries children ↔
      ∀ child ∈ children,
        (∀ item, lastUnder child.1 entries = some item →
          Means c predictions (path ++ [.key child.1]) (depth + 1) child.2 item) ∧
        (lastUnder child.1 entries = none → child.2.flags.optional = true) := by
  induction children with
  | nil => simp [FieldsMean]
  | cons child rest ih => rw [FieldsMean, ih, List.forall_mem_cons]

theorem someMeans_iff {options : List Structure} {v : Value} :
    SomeMeans c predictions path depth options v ↔
      ∃ option ∈ options, Means c predictions path depth option v := by
  induction options with
  | nil => simp [SomeMeans]
  | cons option rest ih => simp [SomeMeans, ih]

end Structure

namespace Schema
variable {c : Config} {predictions : Predictions} {path : Path} {depth : Nat}

/-! ## Equations of synthesis -/

theorem fieldsOf_eq (children : List (String × Structure)) :
    fieldsOf c predictions path depth children = children.map fun child =>
      (child.1, child.2.flags.optional,
        ofStructureAt c predictions (path ++ [.key child.1]) (depth + 1) child.2) := by
  induction children with
  | nil => rfl
  | cons child rest ih => simp [fieldsOf, ih]

theorem optionsOf_eq (options : List Structure) :
    optionsOf c predictions path depth options =
      options.map (ofStructureAt c predictions path depth) := by
  induction options with
  | nil => rfl
  | cons option rest ih => simp [optionsOf, ih]

theorem keys_fieldsOf (children : List (String × Structure)) :
    Assoc.keys (fieldsOf c predictions path depth children) = Assoc.keys children := by
  simp [fieldsOf_eq, Assoc.keys]

theorem refinedLabel_eq (label : String) :
    refinedLabel predictions path label =
      match enumAt predictions path with
      | none => label
      | some values => Label.withEnum label values := rfl

/-! ## Shape of what is built -/

section Built
variable {P : Schema → Prop}

/-- What holds of the schemas of all members, and is kept when schemas are put together, holds of
the schema of a label. -/
theorem ofLabel_of_members (together : ∀ schemas, (∀ s ∈ schemas, P s) → P (anyOf schemas))
    (each : ∀ member, P (ofMember member)) (label : String) : P (ofLabel label) := by
  unfold ofLabel
  dsimp only
  split
  · refine together _ ?_
    simp only [List.forall_mem_map]
    exact fun member _ => each member
  · exact each _

/-- What holds of the schemas of all labels, and is kept when schemas are put together or nested in
lists, holds of the schema of the items of an array. -/
theorem ofItemTags_of_labels (any : P .any) (list : ∀ s, P s → P (.list s))
    (together : ∀ schemas, (∀ s ∈ schemas, P s) → P (anyOf schemas))
    (each : ∀ label, P (ofLabel label)) (depth : Int) (tags : TagSet) :
    P (ofItemTags depth tags) := by
  unfold ofItemTags
  split
  · exact any
  · generalize (depth - 1).toNat = levels
    induction levels with
    | zero =>
      refine together _ ?_
      simp only [List.forall_mem_map]
      exact fun tag _ => each tag
    | succ levels ih => exact list _ ih

theorem guarded_of {flags : Flags} {s : Schema} (any : P .any) (null : ∀ s, P s → P s.orNull)
    (holds : P s) : P (guarded c depth flags s) := by
  unfold guarded
  split
  · exact any
  · split
    · exact null s holds
    · exact holds

end Built

theorem ofLabel_distinctNames (label : String) : (ofLabel label).DistinctNames :=
  ofLabel_of_members (fun _ => anyOf_distinctNames) Label.ofMember_distinctNames label

theorem ofLabel_opened (label : String) : (ofLabel label).Opened :=
  ofLabel_of_members (fun _ => opened_anyOf) Label.ofMember_opened label

theorem ofItemTags_distinctNames (depth : Int) (tags : TagSet) :
    (ofItemTags depth tags).DistinctNames :=
  ofItemTags_of_labels .any (fun _ => .list) (fun _ => anyOf_distinctNames) ofLabel_distinctNames
    depth tags

theorem guarded_distinctNames {flags : Flags} {s : Schema} (distinct : s.DistinctNames) :
    (guarded c depth flags s).DistinctNames :=
  guarded_of .any (fun _ => orNull_distinctNames) distinct

theorem guarded_opened {flags : Flags} {s : Schema} (opened : s.Opened) :
    (guarded c depth flags s).Opened :=
  guarded_of (opened_of_not_union (by simp)) (fun _ => opened_orNull) opened

theorem ofStructureAt_opened (s : Structure) :
    (ofStructureAt c predictions path depth s).Opened := by
  induction s using Structure.ind with
  | primitive flags label => exact guarded_opened (ofLabel_opened _)
  | mixed flags options ih =>
    rw [ofStructureAt, optionsOf_eq]
    refine guarded_opened (opened_anyOf ?_)
    simpa using ih
  | _ => exact guarded_opened (opened_of_not_union (by simp))

theorem ofStructureAt_distinctNames {s : Structure} (sound : s.Sound predictions path) :
    (ofStructureAt c predictions path depth s).DistinctNames := by
  induction s using Structure.ind generalizing path depth with
  | primitive flags label => exact guarded_distinctNames (ofLabel_distinctNames _)
  | bareArray flags itemDepth tags =>
    exact guarded_distinctNames (.list (ofItemTags_distinctNames _ _))
  | array flags element itemDepth tags ih =>
    cases sound with
    | array below => exact guarded_distinctNames (.list (ih below))
  | record flags pattern stem label =>
    exact guarded_distinctNames (.record (ofLabel_distinctNames _))
  | object flags children ih =>
    cases sound with
    | object distinct below =>
      refine guarded_distinctNames (.object (by rwa [keys_fieldsOf]) ?_)
      simp only [fieldsOf_eq, List.forall_mem_map]
      exact fun child member => ih child member (below child member)
  | mixed flags options ih =>
    cases sound with
    | mixed below =>
      rw [ofStructureAt, optionsOf_eq]
      refine guarded_distinctNames (anyOf_distinctNames ?_)
      simp only [List.forall_mem_map]
      exact fun option member => ih option member (below option member)

/-! ## Acceptance -/

theorem accepts_guarded {flags : Flags} {s : Schema} {v : Value} :
    (guarded c depth flags s).accepts v = true ↔
      Structure.Guarded c depth flags v (s.accepts v = true) := by
  unfold guarded Structure.Guarded
  split
  · rename_i deep
    simp [deep]
  · rename_i notDeep
    split
    · rename_i nullable
      simp [notDeep, nullable, accepts_orNull]
    · rename_i notNullable
      simp [notDeep, notNullable]

theorem accepts_repeat_list {s : Schema} {levels : Nat} {v : Value} :
    (levels.repeat .list s).accepts v = true ↔
      InLists (fun leaf => s.accepts leaf = true) levels v := by
  induction levels generalizing v with
  | zero => exact Iff.rfl
  | succ levels ih =>
    show (list (levels.repeat .list s)).accepts v = true ↔ _
    simp only [accepts_list, ih, InLists]

theorem inLists_congr {inner other : Value → Prop} (same : ∀ v, inner v ↔ other v) {levels : Nat}
    {v : Value} : InLists inner levels v ↔ InLists other levels v := by
  rw [funext fun v => propext (same v)]

/-- Of items of which only the tags are known, the lists are accepted that hold such items at the
bottom. -/
theorem accepts_list_ofItemTags {itemDepth : Int} {tags : TagSet} {v : Value} :
    (list (ofItemTags itemDepth tags)).accepts v = true ↔
      if tags.toList = [] then ∃ items, v.items? = some items
      else
        InLists (fun leaf => ∃ tag ∈ tags, Label.Means none tag leaf)
          (max itemDepth 1).toNat v := by
  unfold ofItemTags
  by_cases empty : tags.toList = []
  · simp [empty]
  · have leaf (v : Value) : (anyOf ((sortTags tags.toList).map ofLabel)).accepts v = true ↔
        ∃ tag ∈ tags, Label.Means none tag v := by
      rw [accepts_anyOf]
      · have filled : sortTags tags.toList ≠ [] := by
          obtain ⟨tag, member⟩ := List.exists_mem_of_ne_nil _ empty
          exact List.ne_nil_of_mem (mem_sortTags.mpr member)
        simp [filled, Label.accepts_ofLabel]
      · simp only [List.forall_mem_map]
        exact fun tag _ => ofLabel_distinctNames tag
      · simp only [List.forall_mem_map]
        exact fun tag _ => (ofLabel_opened tag).1
    have levels : (max itemDepth 1).toNat = (itemDepth - 1).toNat + 1 := by omega
    rw [if_neg (by simpa using empty), if_neg empty, levels, accepts_list]
    simp only [accepts_repeat_list, inLists_congr leaf, InLists]

/-- Scalars are accepted by their label with the enumeration that is predicted for their path. -/
theorem accepts_ofLabel_refined {label : String} {flags : Flags} {v : Value}
    (sound : (Structure.primitive flags label).Sound predictions path) :
    (ofLabel (refinedLabel predictions path label)).accepts v = true ↔
      Label.Means (enumAt predictions path) label v := by
  cases sound with
  | primitive survives =>
    rw [Label.accepts_ofLabel, refinedLabel_eq]
    cases predicted : enumAt predictions path with
    | none => exact Iff.rfl
    | some values =>
      obtain ⟨legible, listed⟩ | takes := survives values predicted
      · exact legible.takes listed v
      · exact takes v

/-- No scalar whose schema accepts what it means has an enumeration that does not survive. -/
theorem takes_of_accepts {label : String} {values : List String}
    (predicted : enumAt predictions path = some values) (shallow : depth ≤ c.maxDepth)
    (same : ∀ v, (ofStructureAt c predictions path depth (.primitive {} label)).accepts v = true ↔
      (Structure.primitive {} label).Means c predictions path depth v) :
    Label.Takes label values := by
  intro v
  have plain (means : Prop) : Structure.Guarded c depth {} v means ↔ means := by
    simp [Structure.Guarded, Nat.not_lt.mpr shallow]
  have here := same v
  rwa [ofStructureAt, accepts_guarded, Structure.Means, predicted, Label.accepts_ofLabel,
    refinedLabel_eq, predicted, plain, plain] at here

/-- The schema of a structure accepts what the structure means. -/
theorem accepts_ofStructureAt {s : Structure} {v : Value} (sound : s.Sound predictions path) :
    (ofStructureAt c predictions path depth s).accepts v = true ↔
      s.Means c predictions path depth v := by
  induction s using Structure.ind generalizing path depth v with
  | primitive flags label =>
    rw [ofStructureAt, accepts_guarded, accepts_ofLabel_refined sound, Structure.Means]
  | bareArray flags itemDepth tags =>
    rw [ofStructureAt, accepts_guarded, accepts_list_ofItemTags, Structure.Means]
  | array flags element itemDepth tags ih =>
    cases sound with
    | array below =>
      simp only [ofStructureAt, accepts_guarded, accepts_list, ih below, Structure.Means]
  | record flags pattern stem label =>
    simp only [ofStructureAt, accepts_guarded, accepts_record, Label.accepts_ofLabel,
      Structure.Means]
  | object flags children ih =>
    cases sound with
    | object distinct below =>
      have fields (entries : List (String × Value)) :
          (∀ field ∈ fieldsOf c predictions path depth children,
            (∀ item, lastUnder field.1 entries = some item → field.2.2.accepts item = true) ∧
              (lastUnder field.1 entries = none → field.2.1 = true)) ↔
            Structure.FieldsMean c predictions path depth entries children := by
        simp only [fieldsOf_eq, List.forall_mem_map, Structure.fieldsMean_iff]
        exact forall₂_congr fun child member => and_congr_left' <|
          forall₂_congr fun item _ => ih child member (below child member)
      rw [ofStructureAt, accepts_guarded, Structure.Means]
      simp only [accepts_object, keys_fieldsOf, fields]
  | mixed flags options ih =>
    cases sound with
    | mixed below =>
      rw [ofStructureAt, accepts_guarded, Structure.Means, optionsOf_eq, accepts_anyOf]
      · simp only [List.map_eq_nil_iff, List.mem_map, exists_exists_and_eq_and,
          Structure.someMeans_iff]
        rw [exists_congr fun option => and_congr_right fun member =>
          ih option member (below option member)]
      · simp only [List.forall_mem_map]
        exact fun option member => ofStructureAt_distinctNames (below option member)
      · simp only [List.forall_mem_map]
        exact fun option _ => (ofStructureAt_opened option).1

end Schema

end SchemaInference
