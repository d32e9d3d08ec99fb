import SchemaInference.Proofs.ExportMeaning
import SchemaInference.Proofs.Heights
import SchemaInference.Proofs.Refusals
import SchemaInference.Proofs.Synthesis

/-! Inference from JSON. The keys of JSON objects are texts, and what stands under the keys of a
record is told apart by itself; so nothing in JSON documents is refused, and nothing that is checked
against their schema. What is left to fail is too little room. -/
namespace SchemaInference

namespace Value
variable {v w : Value} {path : Path}

/-- What is told from others by itself takes no steps. Lists and maps are not. -/
theorem tellingSteps_of_json (isJson : ∃ j, v = .ofJson j)
    (flat : v.isList = false ∧ v.isMap = false) (height : Nat) : v.tellingSteps height = [] := by
  obtain ⟨j, rfl⟩ := isJson
  cases j with
  | arr items => cases flat.1
  | obj members => cases flat.2
  | _ => rfl

/-- The keys of JSON objects are texts, which are there already. -/
theorem aloneSteps_of_json (isJson : ∃ j, v = .ofJson j) {form : MapForm}
    {entries : List (Value × Value)} (holds : v.Holds path (.map form entries))
    {entry : Value × Value} (member : entry ∈ entries) (height : Nat) :
    entry.1.aloneSteps height = [] := by
  obtain ⟨j, same⟩ := Samples.exists_ofJson isJson holds
  cases j with
  | obj members =>
    rw [ofJson, ofJsonMembers_eq] at same
    cases same
    obtain ⟨pair, -, rfl⟩ := List.mem_map.mp member
    rfl
  | _ => cases same

theorem not_keyStep_of_json (isJson : ∃ j, v = .ofJson j) (step : Step) : ¬ v.KeyStep step := by
  rintro ⟨path, form, entries, holds, entry, member, height, written⟩
  rw [aloneSteps_of_json isJson holds member] at written
  cases written

end Value

variable {c : Config} {documents : List Value}

/-- Inference of JSON documents always gives a result, if there is room to make the schema. -/
theorem infers_json (c : Config) (filled : documents ≠ [])
    (isJson : ∀ document ∈ documents, ∃ j, document = .ofJson j) (stack : Stack) :
    analyze c documents stack = .ok (findingsOf c documents) ∧
      (predict c documents stack = .ok ((findingsOf c documents).schema c) ∨
        predict c documents stack = .error (.refused .tooDeep) ∧
          stack.building.fits c.calls = false) := by
  obtain ⟨first, rest, rfl⟩ := List.exists_cons_of_ne_nil filled
  have written : Samples.writingSteps c (first :: rest) = [] := by
    refine List.eq_nil_iff_forall_not_mem.mpr fun step member => ?_
    obtain ⟨document, member, path, form, entries, holds, -, entry, among, written⟩ :=
      Samples.mem_keyStepsOf.mp member
    rw [Value.aloneSteps_of_json (isJson document member) holds among] at written
    cases written
  have told : Samples.decidingSteps c (first :: rest) = [] := by
    refine List.eq_nil_iff_forall_not_mem.mpr fun step member => ?_
    obtain ⟨path, v, comes, told⟩ := (Samples.mem_decidingSteps filled).mp member
    obtain ⟨document, member, concrete, name, holds, -⟩ := comes.exists_holds
    obtain ⟨-, _, -, -, before, found, after, -, leaves, seen⟩ := comes
    rw [Value.tellingSteps_of_json (Samples.exists_ofJson (isJson document member) holds)
      ((leaves found (by simp)).values v seen)] at told
    cases told
  have analyzed : analyze c (first :: rest) stack = .ok (findingsOf c (first :: rest)) :=
    analyze_of_unrefused (by rw [written]; rfl) (by rw [told]; rfl)
  exact ⟨analyzed, (predict_of_found analyzed).imp_right fun ⟨refused, unfit⟩ =>
    ⟨refused, Room.not_fits_of_le unfit Analysis.buildCalls_le⟩⟩

/-- A check of JSON with a schema that was inferred always finds the issues, if there is room. -/
theorem validate_json (filled : documents ≠ []) {v : Value} (isJson : ∃ j, v = .ofJson j)
    (room : Room) :
    let schema := (findingsOf c documents).schema c
    schema.validate v room = .ok (schema.issues v) ∨
      schema.validate v room = .error (.refused .tooDeep) ∧ room.fits c.calls = false := by
  intro schema
  have readable : schema.Readable := Schema.ofStructureAt_readable _
  obtain checked | ⟨cause, stopped, refused | ⟨rfl, height, member, unfit⟩⟩ :=
    Schema.validate_of_readable readable v room
  · exact .inl checked
  · exact absurd refused (Value.not_keyStep_of_json isJson _)
  · obtain key | ⟨calls, few, same⟩ := Schema.fewCalls_of_mem_stepsAt member
    · exact absurd key (Value.not_keyStep_of_json isJson _)
    · cases same
      have bound : schema.labelCalls + 2 ≤ c.calls := Analysis.labelCalls_le filled
      exact .inr ⟨stopped, Room.not_fits_of_le unfit (by omega)⟩

end SchemaInference
