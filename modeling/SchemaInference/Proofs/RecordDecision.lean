import Mathlib.Data.List.Dedup
import SchemaInference.Proofs.Likeness
import SchemaInference.Proofs.MapEntries
import SchemaInference.Proofs.StructureNodes

/-! When maps make a record. The decision is spread over the tree of samples, the names and values
of a node's children and the order in which conventions are tried; said of the maps themselves it
reads off all their entries at once: enough keys, of one strong pattern, with leaves under them that
go together and are not all the same. -/
namespace SchemaInference

/-- Whether tags go together: there are no two, or only such as may mix. -/
theorem goTogether_iff {tags : TagSet} : goTogether tags = true ↔
    (∀ tag ∈ tags.toList, ∀ other ∈ tags.toList, tag = other) ∨
      ∀ tag ∈ tags.toList, tag ∈ recordTags := by
  have alone : tags.toList.length ≤ 1 ↔
      ∀ tag ∈ tags.toList, ∀ other ∈ tags.toList, tag = other := by
    match tags.toList, tags.sorted with
    | [], _ => simp
    | [only], _ => simp
    | first :: second :: rest, sorted =>
      have below := List.rel_of_pairwise_cons sorted List.mem_cons_self
      refine iff_of_false (by simp) fun same => ?_
      have equal := same first (by simp) second (by simp)
      exact String.lt_irrefl first (equal ▸ below)
  simp [goTogether, alone]

/-- What makes the maps with these entries a record: enough keys; keys in words with underscores
between them, or else of no one convention and with a stem that all share; nothing but leaves under
them, of one tag or of tags that may mix, null apart; and two values that are told apart. -/
structure RecordLike (c : Config) (entries : List (String × Value)) : Prop where
  enough : c.recordMinKeys ≤ (entries.map Prod.fst).dedup.length
  named : (∀ entry ∈ entries, KeyPattern.compound.accepts entry.1.toList = true) ∨
    ((¬ ∃ p ≠ KeyPattern.mixed, ∀ entry ∈ entries, KeyPattern.classify (.key entry.1) = p) ∧
      ∃ shared ≠ "", ∀ entry ∈ entries, KeyPattern.stem entry.1 = shared)
  leaves : ∀ entry ∈ entries, entry.2.isList = false ∧ entry.2.isMap = false
  together : (∀ entry ∈ entries, ∀ other ∈ entries, entry.2 ≠ .null → other.2 ≠ .null →
      entry.2.tag = other.2.tag) ∨
    ∀ entry ∈ entries, entry.2 ≠ .null → entry.2.tag ∈ recordTags
  told : ¬ (entries.map Prod.snd).Pairwise fun v v' => v.alike v' = true

namespace Samples
variable {c : Config} {documents : List Value} {path : Path} {n : PathNode}

section Decision
variable (node : (samplesOf c documents).NodeOf path n)
  (closed : (samplesOf c documents).Closed c.maxDepth) (shallow : path.length ≤ c.maxDepth)
include node closed shallow

/-- The names at a node are those of the entries there. -/
theorem NodeOf.mem_names_iff {name : String} :
    name ∈ n.names ↔ name ∈ (entriesAt documents path).map Prod.fst := by
  rw [node.mem_names closed, mem_paths_key shallow]
  simp

theorem NodeOf.forall_names {P : String → Prop} :
    (∀ name ∈ n.names, P name) ↔ ∀ entry ∈ entriesAt documents path, P entry.1 := by
  simp only [node.mem_names_iff closed shallow, List.forall_mem_map]

theorem NodeOf.length_names :
    n.names.length = ((entriesAt documents path).map Prod.fst).dedup.length := by
  refine List.Perm.length_eq ?_
  rw [List.perm_ext_iff_of_nodup (node.names_nodup closed) (List.nodup_dedup _)]
  intro name
  rw [List.mem_dedup, node.mem_names_iff closed shallow]

theorem NodeOf.named_iff (several : c.recordMinKeys ≤ n.names.length) :
    (∃ p, KeyPattern.ofKeys (n.names.map .key) = some p ∧ (p = .prefixed ∨ p = .snakeCase)) ↔
      (∀ entry ∈ entriesAt documents path,
        KeyPattern.compound.accepts entry.1.toList = true) ∨
      ((¬ ∃ p ≠ KeyPattern.mixed,
          ∀ entry ∈ entriesAt documents path, KeyPattern.classify (.key entry.1) = p) ∧
        ∃ shared ≠ "", ∀ entry ∈ entriesAt documents path, KeyPattern.stem entry.1 = shared) := by
  have filled : n.names ≠ [] := by
    rintro none
    have positive := c.recordMinKeys_pos
    rw [none, List.length_nil] at several
    omega
  rw [KeyPattern.ofKeys_record_iff filled]
  simp only [node.forall_names closed shallow]

/-- Nothing but leaves was seen under the names exactly if the entries have nothing else. -/
theorem NodeOf.leaves_iff :
    (∀ name ∈ n.names, (samplesOf c documents).IsLeaf (path ++ [.key name])) ↔
      ∀ entry ∈ entriesAt documents path, entry.2.isList = false ∧ entry.2.isMap = false := by
  simp only [isLeaf_key_iff shallow]
  rw [node.forall_names closed shallow]
  exact ⟨fun leaves entry member => leaves entry member entry.2 member,
    fun leaves _ _ v member => leaves _ member⟩

variable (noMaps : ∀ entry ∈ entriesAt documents path, entry.2.isMap = false)
include noMaps

theorem NodeOf.valuesUnder_perm : ((samplesOf c documents).valuesUnder path n.names).Perm
    ((entriesAt documents path).map Prod.snd) := by
  refine Samples.valuesUnder_perm shallow (node.names_nodup closed) ?_ noMaps
  exact (node.forall_names closed shallow).mp fun _ => id

theorem NodeOf.together_iff :
    goTogether ((samplesOf c documents).tagsUnder path n.names) = true ↔
      (∀ entry ∈ entriesAt documents path, ∀ other ∈ entriesAt documents path,
        entry.2 ≠ .null → other.2 ≠ .null → entry.2.tag = other.2.tag) ∨
      ∀ entry ∈ entriesAt documents path, entry.2 ≠ .null → entry.2.tag ∈ recordTags := by
  have perm := node.valuesUnder_perm closed shallow noMaps
  have tagged {tag : String} : tag ∈ ((samplesOf c documents).tagsUnder path n.names).toList ↔
      ∃ entry ∈ entriesAt documents path, entry.2 ≠ .null ∧ entry.2.tag = tag := by
    rw [mem_tagsUnder]
    simp only [perm.mem_iff, List.mem_map, exists_exists_and_eq_and]
  rw [goTogether_iff]
  simp only [tagged]
  refine or_congr ⟨?_, ?_⟩ ⟨?_, ?_⟩
  · intro same entry member other among notNull otherNotNull
    exact same _ ⟨entry, member, notNull, rfl⟩ _ ⟨other, among, otherNotNull, rfl⟩
  · rintro same _ ⟨entry, member, notNull, rfl⟩ _ ⟨other, among, otherNotNull, rfl⟩
    exact same entry member other among notNull otherNotNull
  · exact fun mix entry member notNull => mix _ ⟨entry, member, notNull, rfl⟩
  · rintro mix _ ⟨entry, member, notNull, rfl⟩
    exact mix entry member notNull

theorem NodeOf.told_iff :
    Value.holdsTwo ((samplesOf c documents).valuesUnder path n.names) = true ↔
      ¬ ((entriesAt documents path).map Prod.snd).Pairwise fun v v' => v.alike v' = true := by
  have perm := node.valuesUnder_perm closed shallow noMaps
  rw [← perm.pairwise_iff Value.alike_symm, ← Value.holdsTwo_eq_false_iff, Bool.not_eq_false]

omit noMaps in
/-- The decision on a record, said of the entries of the maps. -/
theorem NodeOf.record?_isSome_iff :
    ((PathTree.ofSamples (samplesOf c documents)).record? c n).isSome = true ↔
      RecordLike c (entriesAt documents path) := by
  have enough := node.length_names closed shallow
  have leaves := node.leaves_iff closed shallow
  have named := node.named_iff closed shallow
  rw [Option.isSome_iff_exists]
  simp only [node.record?_eq_some_iff closed, node.recordPattern?_eq_some_iff closed]
  constructor
  · rintro ⟨_, pattern, ⟨several, found, strong⟩, isLeaf, together, told, -⟩
    have isLeaf := leaves.mp isLeaf
    have noMaps := fun entry member => (isLeaf entry member).2
    exact ⟨enough ▸ several, (named several).mp ⟨pattern, found, strong⟩, isLeaf,
      (node.together_iff closed shallow noMaps).mp together,
      (node.told_iff closed shallow noMaps).mp told⟩
  · rintro ⟨several, strong, isLeaf, together, told⟩
    have several := enough ▸ several
    obtain ⟨pattern, found, strong⟩ := (named several).mpr strong
    have noMaps := fun entry member => (isLeaf entry member).2
    exact ⟨_, pattern, ⟨several, found, strong⟩, leaves.mpr isLeaf,
      (node.together_iff closed shallow noMaps).mpr together,
      (node.told_iff closed shallow noMaps).mpr told, rfl⟩

end Decision

end Samples

open Samples

/-- Documents have findings unless one of their keys cannot be written or a decision comes to a
value that cannot be told from others. Then, at every position where maps were seen down to the
greatest depth, there is a record if the entries of the maps make one, and an object if they do not;
the label of a record takes the tags that stand in the entries and no others. -/
theorem record_decision {c : Config} {documents : List Value} {path : Path} (stack : Stack)
    (shallow : path.length ≤ c.maxDepth)
    (seen : ∃ document ∈ documents, ∃ place form entries,
      document.Holds place (.map form entries) ∧ place.flat = path) :
    (∃ cause, (KeyRefused c.maxDepth stack.writing documents cause ∨
        ∃ place, (samplesOf c documents).FailsAt c stack.telling place cause) ∧
      analyze c documents stack = .error (.refused cause)) ∨
    (∀ cause, ¬ KeyRefused c.maxDepth stack.writing documents cause ∧
      ∀ place, ¬ (samplesOf c documents).FailsAt c stack.telling place cause) ∧
    ∃ findings, analyze c documents stack = .ok findings ∧
      (∃ node, findings.shape.At path node) ∧
      ∀ node, findings.shape.At path node →
        ((∃ pattern stem label, .record {} pattern stem label ∈ node.shapes) ↔
          RecordLike c (entriesAt documents path)) ∧
        ((∃ children, .object {} children ∈ node.shapes) ↔
          ¬ RecordLike c (entriesAt documents path)) ∧
        ∀ pattern stem label, .record {} pattern stem label ∈ node.shapes →
          ∀ v, (Schema.ofLabel label).accepts v = true ↔
            ∃ entry ∈ entriesAt documents path, entry.2.tag = v.tag := by
  obtain ⟨document, member, place, form, entries, holds, same⟩ := seen
  have filled : documents ≠ [] := List.ne_nil_of_mem member
  have closed : (samplesOf c documents).Closed c.maxDepth := closed_ofDocuments filled
  have length : place.length ≤ c.maxDepth := by
    rw [← Path.length_flat, same]
    exact shallow
  have there : path ∈ (samplesOf c documents).paths := mem_paths_ofDocuments.mpr
    ⟨document, member, place, _, holds, Nat.le_succ_of_le length, same⟩
  have keys : (samplesOf c documents).keySetsAt path ≠ [] :=
    List.ne_nil_of_mem (mem_keySetsAt_ofDocuments.mpr
      ⟨document, member, place, form, entries, holds, same, length, rfl⟩)
  rcases analyze_cases filled c stack with ⟨cause, refused, analyzed⟩ | ⟨goesOn, analyzed⟩
  · exact .inl ⟨cause, refused, analyzed⟩
  refine .inr ⟨goesOn, _, analyzed,
    ⟨_, at_of_not_isLeaf closed there fun leaf => keys leaf.keySets⟩, ?_⟩
  intro node reached
  obtain ⟨-, rfl⟩ := closed.shapeAt_of_at closed.root reached
  obtain ⟨n, isNode⟩ := closed.exists_node there
  have keySets : n.keySets ≠ [] := isNode.keySets ▸ keys
  have decision := isNode.record?_isSome_iff closed shallow
  refine ⟨?_, ?_, ?_⟩
  · rw [← decision, Option.isSome_iff_exists]
    simp only [List.nil_append, isNode.record_mem_iff closed shallow, keySets, ne_eq,
      not_false_eq_true, true_and]
    constructor
    · rintro ⟨pattern, stem, label, found⟩
      exact ⟨_, found⟩
    · rintro ⟨record, found⟩
      obtain ⟨pattern, stem, label, rfl⟩ := PathTree.record?_eq_some found
      exact ⟨pattern, stem, label, found⟩
  · rw [← decision, Option.not_isSome_iff_eq_none]
    simp [isNode.object_mem_iff closed shallow, keySets]
  · intro pattern stem label record v
    obtain ⟨-, found⟩ := (isNode.record_mem_iff closed shallow).mp record
    obtain ⟨_, -, leaves, -, told, same⟩ := (isNode.record?_eq_some_iff closed).mp found
    cases same
    have noMaps := fun entry member => ((isNode.leaves_iff closed shallow).mp leaves entry member).2
    have perm := isNode.valuesUnder_perm closed shallow noMaps
    have seen : (samplesOf c documents).valuesUnder path n.names ≠ [] := by
      intro none
      rw [none] at told
      cases told
    rw [accepts_labelUnder_iff seen]
    simp only [perm.mem_iff, List.mem_map, exists_exists_and_eq_and]

/-- Two keys in words with an underscore, and two truth values that differ. -/
theorem record_of_themes :
    let documents : List Value := [.map .plain [(.text "theme_dark", .bool true),
      (.text "theme_light", .bool false)]]
    RecordLike default (entriesAt documents []) ∧
      ∃ findings, analyze default documents = .ok findings ∧
        ∃ node pattern stem label, findings.shape.At [] node ∧
          .record {} pattern stem label ∈ node.shapes ∧
          ∀ v, (Schema.ofLabel label).accepts v = true ↔ v.tag = "boolean" := by
  intro documents
  have entries : entriesAt documents [] =
      [("theme_dark", .bool true), ("theme_light", .bool false)] := by rfl
  have apart : Value.alike (.bool true) (.bool false) = false := by rfl
  have like : RecordLike default (entriesAt documents []) := by
    rw [entries]
    exact ⟨by decide +kernel, .inl (by decide +kernel), by simp [Value.isList, Value.isMap],
      .inl (by simp [Value.tag, Value.kind]), by simp [apart]⟩
  have analyzed : analyze default documents = .ok (findingsOf default documents) :=
    analyze_of_unrefused rfl rfl
  rcases @record_decision default documents [] .ample (by decide)
      ⟨_, List.mem_singleton_self _, [], _, _, .here _, rfl⟩ with
    ⟨cause, -, refused⟩ | ⟨-, findings, returned, ⟨node, reached⟩, decided⟩
  · cases refused.symm.trans analyzed
  obtain ⟨isRecord, -, label⟩ := decided node reached
  obtain ⟨pattern, stem, text, record⟩ := isRecord.mpr like
  refine ⟨like, findings, returned, node, pattern, stem, text, reached, record, fun v => ?_⟩
  rw [label pattern stem text record, entries]
  simp [Value.tag, Value.kind, Kind.tag, eq_comm]

/-- A set that is told from others by its written form holds a whole number with too many digits to
be written, in the form of a fraction. It could not go together with the number beside it. -/
theorem no_findings_of_long_member :
    let long : Value := .leaf (.fraction (.ofInt (.ofNat (Nat.pow 10 5000))))
    let document : Value := .map .plain [(.text "a_x", .set .changing [long]),
      (.text "a_y", .number (.int 1))]
    analyze default [document] = .error (.refused .overlong) ∧
      ¬ ∃ findings, analyze default [document] = .ok findings := by
  intro long document
  have told : Room.refusal? none (decidingSteps default [document]) = some .overlong := by
    decide +kernel
  have refused : analyze default [document] = .error (.refused .overlong) := by
    rw [analyze_cons, show Stack.ample.telling = none from rfl, told]
    rfl
  refine ⟨refused, ?_⟩
  rintro ⟨findings, returned⟩
  rw [refused] at returned
  cases returned

end SchemaInference
