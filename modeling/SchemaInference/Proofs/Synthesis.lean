import SchemaInference.Proofs.CheckSteps
import SchemaInference.Proofs.RuleMatching
import SchemaInference.Proofs.StructureMeaning

/-! Checking against the schema of a structure. Every key rule in such a schema can be read, so a
check ends with its issues unless a key cannot be written; and there are none exactly for what the
structure means. -/
namespace SchemaInference
namespace Schema

/-- Every key rule in a schema can be read. -/
inductive Readable : Schema → Prop where
  | any : Readable .any
  | scalar (tag : String) : Readable (.scalar tag)
  | enum (values : List String) : Readable (.enum values)
  | nullable {inner : Schema} (below : Readable inner) : Readable (.nullable inner)
  | union (below : ∀ s ∈ members, Readable s) : Readable (.union members)
  | list (below : Readable element) : Readable (.list element)
  | record (readable : ∀ r, rule = some r → r.WellFormed) (below : Readable value) :
      Readable (.record pattern rule value)
  | object (below : ∀ field ∈ shape, Readable field.2.2) : Readable (.object shape strict)

theorem unreadableMember?_eq_none {members : List Schema} {v : Value}
    (below : ∀ s ∈ members, s.unreadable? v = none) : unreadableMember? members v = none := by
  induction members with
  | nil => rfl
  | cons s rest ih =>
    obtain ⟨first, later⟩ := List.forall_mem_cons.mp below
    simp [unreadableMember?, first, ih later]

/-- No check comes to a rule that it cannot read. -/
theorem unreadable?_eq_none {s : Schema} (readable : s.Readable) (v : Value) :
    s.unreadable? v = none := by
  induction s using Schema.ind generalizing v with
  | any | scalar | enum => rfl
  | nullable inner ih =>
    cases readable with
    | nullable below => simp [unreadable?, ih below]
  | union members ih =>
    cases readable with
    | union below => exact unreadableMember?_eq_none fun s member => ih s member (below s member) v
  | list element ih =>
    cases readable with
    | list below => simp [unreadable?, ih below]
  | record pattern rule value ih =>
    cases readable with
    | record readable below =>
      simp only [unreadable?, List.findSome?_eq_none_iff]
      intro entry _
      cases rule with
      | none => exact ih below _
      | some r =>
        have noFault : r.fault? = none := readable r rfl
        simp [noFault, ih below]
  | object shape strict ih =>
    cases readable with
    | object below =>
      exact unreadableField?_eq_none_iff.mpr fun field member item _ =>
        ih field member (below field member) item

/-- A check whose rules can all be read finds the issues. -/
theorem check_eq {s : Schema} (readable : s.Readable) (v : Value) :
    s.check v = .ok (s.issues v) := by
  rw [check, unreadable?_eq_none readable]

theorem check_eq_ok_nil_iff {s : Schema} (readable : s.Readable) {v : Value} :
    s.check v = .ok [] ↔ s.accepts v = true := by
  rw [check_eq readable, Except.ok.injEq, accepts, List.isEmpty_iff]

theorem anyOf_readable {schemas : List Schema} (readable : ∀ s ∈ schemas, s.Readable) :
    (anyOf schemas).Readable := by
  refine anyOf_ind .any (fun _ own => own) (fun _ _ => .union) fun s member alternative among => ?_
  cases readable s member with
  | union below => exact below alternative among
  | _ => cases List.mem_singleton.mp among; constructor <;> assumption

theorem orNull_readable {s : Schema} (readable : s.Readable) : s.orNull.Readable := by
  unfold orNull
  split
  · exact readable
  · exact .nullable readable

theorem guarded_readable {c : Config} {depth : Nat} {flags : Flags} {s : Schema}
    (readable : s.Readable) : (guarded c depth flags s).Readable :=
  guarded_of .any (fun _ => orNull_readable) readable

theorem ofMember_readable (member : String) : (ofMember member).Readable := by
  unfold ofMember
  split
  · exact .enum _
  · split
    · exact .any
    · exact .scalar _

theorem ofLabel_readable (label : String) : (ofLabel label).Readable :=
  ofLabel_of_members (fun _ => anyOf_readable) ofMember_readable label

theorem ofItemTags_readable (depth : Int) (tags : TagSet) : (ofItemTags depth tags).Readable :=
  ofItemTags_of_labels .any (fun _ => .list) (fun _ => anyOf_readable) ofLabel_readable depth tags

theorem ofStructureAt_readable {c : Config} {predictions : Predictions} {path : Path} {depth : Nat}
    (s : Structure) : (ofStructureAt c predictions path depth s).Readable := by
  induction s using Structure.ind generalizing path depth with
  | primitive flags label => exact guarded_readable (ofLabel_readable _)
  | bareArray flags itemDepth tags => exact guarded_readable (.list (ofItemTags_readable _ _))
  | array flags element itemDepth tags ih => exact guarded_readable (.list ih)
  | record flags pattern stem label =>
    exact guarded_readable (.record (fun _ found => KeyPattern.rule?_wellFormed found)
      (ofLabel_readable _))
  | object flags children ih =>
    refine guarded_readable (.object ?_)
    simp only [fieldsOf_eq, List.forall_mem_map]
    exact fun child member => ih child member
  | mixed flags options ih =>
    rw [ofStructureAt, optionsOf_eq]
    refine guarded_readable (anyOf_readable ?_)
    simp only [List.forall_mem_map]
    exact fun option member => ih option member

/-- A check whose rules can all be read finds the issues, or it stops where a key in the document
cannot be written or it comes to a call that does not fit. -/
theorem validate_of_readable {s : Schema} (readable : s.Readable) (v : Value) (room : Room) :
    s.validate v room = .ok (s.issues v) ∨ ∃ cause, s.validate v room = .error (.refused cause) ∧
      (v.HoldsKeyRefused cause ∨ cause = .tooDeep ∧
        ∃ height, .plain (.call height) ∈ s.stepsAt 0 v ∧ room.fits height = false) := by
  rcases validate_cases s v room with refused | same
  · exact .inr refused
  · rw [same, check_eq readable]
    exact .inl rfl

/-- Synthesis preserves meaning: where there is room to make it, the schema of a structure finds
nothing wrong with exactly the values that the structure means at its path and depth. A check ends
with its issues unless a key in the value cannot be written or there is too little room for one of
its calls. -/
theorem check_ofStructureAt {c : Config} {predictions : Predictions} {path : Path} {depth : Nat}
    {s : Structure} (sound : s.Sound predictions path) (v : Value) (building checking : Room) :
    (build c predictions path depth s building = .error .tooDeep ∧
      building.fits (buildCalls c depth s) = false) ∨
    ∃ schema, build c predictions path depth s building = .ok schema ∧
      ((∃ issues, schema.validate v checking = .ok issues ∧
          (issues = [] ↔ s.Means c predictions path depth v)) ∨
        ∃ cause, schema.validate v checking = .error (.refused cause) ∧
          (v.HoldsKeyRefused cause ∨ cause = .tooDeep ∧
            ∃ height, .plain (.call height) ∈ schema.stepsAt 0 v ∧
              checking.fits height = false)) := by
  unfold build
  split
  · refine .inr ⟨_, rfl, (validate_of_readable (ofStructureAt_readable s) v checking).imp_left ?_⟩
    intro checked
    refine ⟨_, checked, ?_⟩
    rw [← accepts_ofStructureAt sound]
    exact List.isEmpty_iff.symm
  · rename_i unfit
    exact .inl ⟨rfl, by simpa using unfit⟩

/-- A status of some texts, where the structure says only that it is a string. One of the texts is
empty, and one has the sign of a bar in it. -/
theorem check_status :
    let predictions : Predictions :=
      [([.key "status"], { enumValues := some ["", "off|on", "on"] })]
    let s : Structure := .object {} [("status", .primitive {} "string")]
    let v : Value := .map .plain [(.text "status", .text "off|on")]
    s.Sound predictions [] ∧ ∃ schema, build default predictions [] 0 s = .ok schema ∧
      schema.validate v = .ok [] ∧ s.Means default predictions [] 0 v := by
  intro predictions s v
  have listed : Label.Listed ["", "off|on", "on"] := by
    refine ⟨by simp, fun value member => ?_⟩
    simp only [List.mem_cons, List.not_mem_nil, or_false] at member
    rcases member with rfl | rfl | rfl <;>
      exact ⟨by decide, by rw [Label.Barless, Label.toList_bar]; decide, by decide⟩
  have string : Label.Whole "string" := Label.Phrase.whole (by decide)
  have sound : s.Sound predictions [] := by
    refine .object (by decide) fun child member => ?_
    obtain rfl := List.mem_singleton.mp member
    refine .primitive fun values predicted => ?_
    have found : enumAt predictions [.key "status"] = some ["", "off|on", "on"] := by decide
    obtain rfl := Option.some.inj (predicted.symm.trans found)
    exact .inl ⟨⟨["string"], by simp, by simpa using string, rfl⟩, listed⟩
  have checked : ((ofStructureAt default predictions [] 0 s).validate v).toOption.any
      List.isEmpty = true := by decide +kernel
  rcases @check_ofStructureAt default predictions [] 0 s sound v none none with
    ⟨refused, -⟩ | ⟨schema, made, ⟨issues, found, means⟩ | ⟨cause, refused, -⟩⟩
  · cases refused
  · cases made
    rw [found] at checked
    obtain rfl : issues = [] := by simpa [Except.toOption] using checked
    exact ⟨sound, _, rfl, found, means.mp rfl⟩
  · cases made
    rw [refused] at checked
    cases checked

/-- A text with a bar in it does not survive being printed in an enumeration: the parts of such a
text are accepted in its place. An enumeration of no texts at all is read back as that of the empty
text. And a label whose last bracket is left open may be put in another order with an enumeration in
it, so that the bracket swallows the members behind it. -/
theorem printed_enumeration_is_lost :
    let s : Structure := .primitive {} "string"
    let bars : Predictions := [([], { enumValues := some ["a | b"] })]
    let none : Predictions := [([], { enumValues := some [] })]
    let opened : Structure := .primitive {} "any | A("
    let word : Predictions := [([], { enumValues := some ["x"] })]
    ((ofStructureAt default bars [] 0 s).accepts (.text "a") = true ∧
      ¬ s.Means default bars [] 0 (.text "a")) ∧
    ((ofStructureAt default none [] 0 s).accepts (.text "") = true ∧
      ¬ s.Means default none [] 0 (.text "")) ∧
    (ofStructureAt default word [] 0 opened).accepts .null = false ∧
      opened.Means default word [] 0 .null := by
  intro s bars none opened word
  have label : Label.split (Text.trim "string") = ["string"] := by decide
  have meaning (predictions : Predictions) (text : String) :
      s.Means default predictions [] 0 (.text text) ↔
        ∀ values, enumAt predictions [] = some values → text ∈ values := by
    have deep : ¬ (default : Config).maxDepth < 0 := by omega
    simp [s, Structure.Means, Structure.Guarded, deep, Label.Means, label, Label.MemberMeans]
  refine ⟨⟨by decide +kernel, ?_⟩, ⟨by decide +kernel, ?_⟩, by decide +kernel, ?_⟩
  · rw [meaning]
    intro only
    have := only ["a | b"] (by decide)
    simp at this
  · rw [meaning]
    intro only
    have := only [] (by decide)
    simp at this
  · have any : "any" ∈ (Label.split (Text.trim "any | A(")).filter (· != "undefined") := by decide
    have bare : Label.enumValues? "any" = .none := Label.enumValues?_of_bare rfl
    have means : Label.MemberMeans (some ["x"]) "any" .null := by
      simp [Label.MemberMeans, bare, openWords]
    exact .inr (.inr (.inr ⟨"any", any, means⟩))

end Schema
end SchemaInference
