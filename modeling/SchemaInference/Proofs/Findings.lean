import SchemaInference.Proofs.Prediction

/-! What inference finds. The structures that it finds name each child once, and where it predicts
an enumeration, it survives in the label; so the schema that its findings make accepts exactly what
the structure means. -/
namespace SchemaInference

namespace Structure
variable {predictions : Predictions} {path : Path}

/-- Marks do not matter to what survives in a structure. -/
theorem Sound.withFlags {s : Structure} (sound : s.Sound predictions path) (flags : Flags) :
    (s.withFlags flags).Sound predictions path := by
  cases sound with
  | primitive survives => exact .primitive survives
  | bareArray => exact .bareArray
  | array below => exact .array below
  | record => exact .record
  | object distinct below => exact .object distinct below
  | mixed below => exact .mixed below

theorem Sound.ofOptions {options : List Structure}
    (sound : ∀ option ∈ options, option.Sound predictions path)
    (noEnum : options = [] → enumAt predictions path = none) (nullable : Bool) :
    (Structure.ofOptions nullable options).Sound predictions path := by
  match options with
  | [] =>
    refine .primitive fun values predicted => ?_
    rw [noEnum rfl] at predicted
    cases predicted
  | [only] => exact (sound only List.mem_cons_self).withFlags _
  | first :: second :: rest => exact .mixed sound

end Structure

namespace Samples
variable {s : Samples} {c : Config} {path : Path} {n : PathNode}

/-- An enumeration that is predicted at a path is read back from where it is written. -/
theorem listed_typePredictions (there : path ∈ s.paths) {values : List String}
    (predicted : enumAt (s.typePredictions c) path = some values) : Label.Listed values := by
  rw [enumAt_typePredictions c there] at predicted
  exact (enumOf?_eq_some predicted).2

theorem sound_anything (there : path ∈ s.paths) :
    Structure.anything.Sound (s.typePredictions c) path := by
  have whole : Label.Whole "any" := Label.Phrase.whole (by decide)
  have legible : Label.Legible "any" := ⟨["any"], by simp, by simpa using whole, rfl⟩
  exact .primitive fun values predicted =>
    .inl ⟨legible, listed_typePredictions there predicted⟩

/-- The label of tags of values is their members with bars between them. -/
theorem legible_render {tags : List String} (filled : tags ≠ []) (ofValues : OfValues tags) :
    Label.Legible (Label.render tags none false false) := by
  rw [Schema.render_ofValues filled ofValues]
  exact ⟨sortTags tags, Schema.sortTags_ne_nil filled,
    fun tag member => Schema.whole_of_ofValues ofValues tag (mem_sortTags.mp member), rfl⟩

theorem sound_scalarOption (there : path ∈ s.paths) {option : Structure}
    (member : option ∈ n.scalarOption) : option.Sound (s.typePredictions c) path := by
  unfold PathNode.scalarOption at member
  split at member
  · cases member
  · rename_i filled
    cases List.mem_singleton.mp member
    have legible := legible_render (by simpa using filled) (ofValues_scalars n)
    exact .primitive fun values predicted =>
    .inl ⟨legible, listed_typePredictions there predicted⟩

theorem sound_arrayOption (node : s.NodeOf path n) {levels : Nat}
    (below : path ++ [.wildcard] ∈ s.paths →
      ((PathTree.ofSamples s).structureAt c levels (path ++ [.wildcard])).Sound
        (s.typePredictions c) (path ++ [.wildcard])) :
    ((PathTree.ofSamples s).arrayOption c levels n).Sound (s.typePredictions c) path := by
  rw [PathTree.arrayOption, node.element?]
  by_cases element : path ++ [Segment.wildcard] ∈ s.paths
  · rw [if_pos element]
    exact .array (below element)
  · rw [if_neg element]
    exact .bareArray

theorem sound_objectOption (closed : s.Closed c.maxDepth) (node : s.NodeOf path n) {levels : Nat}
    (below : ∀ name, path ++ [.key name] ∈ s.paths →
      ((PathTree.ofSamples s).structureAt c levels (path ++ [.key name])).Sound
        (s.typePredictions c) (path ++ [.key name])) :
    ((PathTree.ofSamples s).objectOption c levels n).Sound (s.typePredictions c) path := by
  refine .object ?_ ?_
  · have keys : Assoc.keys (n.named.map fun child =>
        let name := (child.getLast?.map Segment.text).getD ""
        let s := (PathTree.ofSamples s).structureAt c levels child
        (name, if n.lacks name then s.makeOptional else s)) = n.names := by
      simp [Assoc.keys, PathNode.names, Function.comp_def]
    rw [keys]
    exact node.names_nodup closed
  · simp only [List.forall_mem_map]
    intro child member
    obtain ⟨name, rfl, there⟩ := (node.mem_named closed child).mp member
    have last : ((path ++ [Segment.key name]).getLast?.map Segment.text).getD "" = name := by
      simp [Segment.text]
    rw [last]
    split
    · exact (below name there).withFlags _
    · exact below name there

/-- Inference finds structures whose enumerations survive and whose children have names of their
own. -/
theorem sound_structureAt (closed : s.Closed c.maxDepth) {levels : Nat} (there : path ∈ s.paths) :
    ((PathTree.ofSamples s).structureAt c levels path).Sound (s.typePredictions c) path := by
  induction levels generalizing path with
  | zero => exact sound_anything there
  | succ levels ih =>
    obtain ⟨n, node⟩ := closed.exists_node there
    rw [PathTree.structureAt_succ, node.found]
    refine Structure.Sound.ofOptions (fun option member => ?_) (fun none => ?_) _
    · rw [PathTree.options, List.mem_append, List.mem_append] at member
      rcases member with (scalar | array) | map
      · exact sound_scalarOption there scalar
      · split at array
        · cases array
        · cases List.mem_singleton.mp array
          exact sound_arrayOption node fun element => ih element
      · split at map
        · cases map
        · cases List.mem_singleton.mp map
          cases found : (PathTree.ofSamples s).record? c n with
          | none => exact sound_objectOption closed node fun name member => ih member
          | some record =>
            obtain ⟨pattern, stem, label, rfl⟩ := PathTree.record?_eq_some found
            exact .record
    · refine enumAt_of_no_scalars node there ?_
      by_contra filled
      simp [PathTree.options, PathNode.scalarOption, filled] at none

end Samples

/-- The findings of documents mean what the schema made of them accepts. -/
theorem check_of_findings {c : Config} {documents : List Value} {stack : Stack} {a : Analysis}
    (returned : analyze c documents stack = .ok a) (v : Value) :
    ∃ issues, (a.schema c).check v = .ok issues ∧
      (issues = [] ↔ a.shape.Means c a.predictions [] 0 v) := by
  obtain ⟨filled, rfl⟩ := eq_findingsOf returned
  have closed : (samplesOf c documents).Closed c.maxDepth := Samples.closed_ofDocuments filled
  have sound : (findingsOf c documents).shape.Sound (findingsOf c documents).predictions [] :=
    Samples.sound_structureAt closed closed.root
  refine ⟨_, Schema.check_eq (Schema.ofStructureAt_readable _) v, ?_⟩
  exact List.isEmpty_iff.symm.trans (Schema.accepts_ofStructureAt sound)

end SchemaInference
