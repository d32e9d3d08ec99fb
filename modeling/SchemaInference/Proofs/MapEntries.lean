import SchemaInference.Proofs.Preorder
import SchemaInference.Proofs.Refusals

/-! The entries of the maps at a position. What samples hold one step below it by a key is what
stands under that key in the maps there, in another order at most; so what was seen under all names
is what stands in the entries of the maps, each as often as it does. -/
namespace SchemaInference

/-- What goes on by a key in its flat form goes on by that key. -/
theorem Path.flat_concat_key {p path : Path} {key name : String} :
    flat (p ++ [.key key]) = path ++ [.key name] ↔ flat p = path ∧ key = name := by
  rw [flat_append]
  constructor
  · intro same
    obtain ⟨front, last⟩ := List.append_inj' same rfl
    exact ⟨front, by simpa using last⟩
  · rintro ⟨rfl, rfl⟩
    rfl

namespace Value
variable {path : Path} {name : String}

/-- The values under a name in a map. -/
def under (name : String) (v : Value) : List Value :=
  ((v.entries?.getD []).filter fun entry => entry.1 = name).map Prod.snd

/-- The children of a value that stand at a path by a name. -/
theorem flatMap_children_key (base : Path) (v : Value) :
    ((v.children base).flatMap fun child =>
        if child.1.flat = path ++ [.key name] then [child.2] else []) =
      if base.flat = path then v.under name else [] := by
  cases v with
  | map form entries =>
    simp only [children, under, entries?, Option.getD_some, List.flatMap_map, Path.flat_concat_key]
    induction entries with
    | nil => simp
    | cons entry rest ih =>
      rw [List.flatMap_cons, ih, List.map_cons, List.filter_cons]
      by_cases here : base.flat = path <;> by_cases same : entry.1.alone = name <;>
        simp [here, same]
  | list form items =>
    have apart (position : Nat) :
        (base ++ [Segment.item position]).flat ≠ path ++ [Segment.key name] := by
      intro same
      rw [Path.flat_append] at same
      cases List.append_inj_right' same rfl
    simp only [children, under, entries?, List.flatMap_map, apart]
    simp
  | _ => simp [children, under, entries?]

theorem filter_placesAt (counts : Path × Value → Bool) (base : Path) (v : Value) :
    (v.placesAt base).filter counts = (if counts (base, v) then [(base, v)] else []) ++
      (v.children base).flatMap fun child => (child.2.placesAt child.1).filter counts := by
  rw [placesAt_eq, List.filter_cons, List.filter_flatMap]
  split <;> rfl

/-- In a value, the places at a path that goes on by a name are those under the name in the maps at
the path, and the value itself if it stands there. -/
theorem placesAt_key_perm (base : Path) (v : Value) :
    (((v.placesAt base).filter fun place => place.1.flat = path ++ [.key name]).map Prod.snd).Perm
      ((if base.flat = path ++ [.key name] then [v] else []) ++
        ((v.placesAt base).filter fun place => place.1.flat = path).flatMap
          fun place => place.2.under name) := by
  induction v using childInd generalizing base with
  | step v ih =>
    have below := List.Perm.flatMap_left (v.children base) fun child among =>
      ih base child among child.1
    have apart := below.trans (List.flatMap_append_perm (v.children base) _ _).symm
    rw [flatMap_children_key] at apart
    have here : ((if base.flat = path then [(base, v)] else []).flatMap
        fun place => place.2.under name) = if base.flat = path then v.under name else [] := by
      split <;> simp
    rw [filter_placesAt, filter_placesAt, List.map_append, List.map_flatMap, List.flatMap_append,
      List.flatMap_assoc]
    simp only [decide_eq_true_eq]
    rw [here]
    refine .append (.of_eq ?_) apart
    split <;> rfl

end Value

namespace Samples
variable {c : Config} {documents : List Value} {path : Path} {name : String} {v : Value}

/-- The entries of the maps at a flat path, with the texts of their keys. -/
def entriesAt (documents : List Value) (path : Path) : List (String × Value) :=
  ((placesOf documents).filter fun place => place.1.flat = path).flatMap
    fun place => place.2.entries?.getD []

/-- What stands in an entry is what is held one step further by its key. -/
theorem mem_entriesAt : (name, v) ∈ entriesAt documents path ↔ ∃ document ∈ documents,
    ∃ concrete, document.Holds concrete v ∧ concrete.flat = path ++ [.key name] := by
  simp only [entriesAt, List.mem_flatMap, List.mem_filter, mem_placesOf, decide_eq_true_eq]
  constructor
  · rintro ⟨⟨concrete, u⟩, ⟨⟨document, member, holds⟩, rfl⟩, among⟩
    cases u with
    | map form entries =>
      obtain ⟨entry, found, same⟩ := List.mem_map.mp among
      cases same
      exact ⟨document, member, concrete ++ [.key entry.1.alone],
        holds.trans (.entry found (.here _)), by simp⟩
    | _ => cases among
  · rintro ⟨document, member, concrete, holds, same⟩
    obtain ⟨above, last, rfl, rfl, lastSame⟩ := Path.eq_concat_of_flat same
    obtain ⟨u, holdsAbove, inside⟩ := holds.parent
    refine ⟨(above, u), ⟨⟨document, member, holdsAbove⟩, rfl⟩, ?_⟩
    cases inside with
    | item => cases lastSame
    | entry found here =>
      cases here
      cases lastSame
      exact List.mem_map.mpr ⟨_, found, rfl⟩

theorem mem_paths_key (shallow : path.length ≤ c.maxDepth) :
    path ++ [.key name] ∈ (samplesOf c documents).paths ↔
      ∃ v, (name, v) ∈ entriesAt documents path := by
  rw [samplesOf, mem_paths_ofDocuments]
  simp only [mem_entriesAt]
  constructor
  · rintro ⟨document, member, concrete, v, holds, -, same⟩
    exact ⟨v, document, member, concrete, holds, same⟩
  · rintro ⟨v, document, member, concrete, holds, same⟩
    refine ⟨document, member, concrete, v, holds, ?_, same⟩
    have length := congrArg List.length same
    rw [Path.length_flat, List.length_append, List.length_singleton] at length
    omega

/-- Nothing but leaves was seen under a name exactly if every entry with this name is one. -/
theorem isLeaf_key_iff (shallow : path.length ≤ c.maxDepth) :
    (samplesOf c documents).IsLeaf (path ++ [.key name]) ↔
      ∀ v, (name, v) ∈ entriesAt documents path → v.isList = false ∧ v.isMap = false := by
  have below {concrete : Path} (same : concrete.flat = path ++ [Segment.key name]) :
      concrete.length ≤ c.maxDepth + 1 := by
    have length := congrArg List.length same
    rw [Path.length_flat, List.length_append, List.length_singleton] at length
    omega
  constructor
  · intro leaf v member
    obtain ⟨document, isDocument, concrete, holds, same⟩ := mem_entriesAt.mp member
    rcases seen_of_holds isDocument holds (below same) with seen | ⟨form, entries, rfl, keys⟩
    · exact leaf.values v (same ▸ seen)
    · exact absurd leaf.keySets (List.ne_nil_of_mem (same ▸ keys))
  · intro leaves
    have values (v : Value)
        (seen : v ∈ (samplesOf c documents).valuesAt (path ++ [Segment.key name])) :
        v.isList = false ∧ v.isMap = false := by
      obtain ⟨document, member, concrete, holds, same, -⟩ := mem_valuesAt_ofDocuments.mp seen
      exact leaves v (mem_entriesAt.mpr ⟨document, member, concrete, holds, same⟩)
    have keySets : (samplesOf c documents).keySetsAt (path ++ [Segment.key name]) = [] := by
      refine List.eq_nil_iff_forall_not_mem.mpr fun keys seen => ?_
      obtain ⟨document, member, concrete, form, entries, holds, same, -⟩ :=
        mem_keySetsAt_ofDocuments.mp seen
      obtain ⟨-, notMap⟩ :=
        leaves _ (mem_entriesAt.mpr ⟨document, member, concrete, holds, same⟩)
      cases notMap
    refine ⟨fun step there => ?_, keySets, values⟩
    obtain ⟨inList, inMap⟩ := entered_above there
    have closed : (samplesOf c documents).Closed c.maxDepth := by
      refine closed_ofDocuments ?_
      rintro rfl
      cases there
    rcases closed.last_step there with rfl | isKey
    · obtain ⟨v, seen, isList⟩ := inList rfl
      rw [(values v seen).1] at isList
      cases isList
    · exact inMap isKey keySets

/-- Where no entry with a name is a map, the values under the name are all that was seen there. -/
theorem valuesAt_key_perm (shallow : path.length ≤ c.maxDepth)
    (noMap : ∀ v, (name, v) ∈ entriesAt documents path → v.isMap = false) :
    ((samplesOf c documents).valuesAt (path ++ [.key name])).Perm
      (((entriesAt documents path).filter fun entry => entry.1 = name).map Prod.snd) := by
  have filed := (filedFrom_ofDocuments c.maxDepth documents).values (path ++ [Segment.key name])
  have all : (placesOf documents).filter
        (fun place => FiledUnder c.maxDepth (path ++ [Segment.key name]) place) =
      (placesOf documents).filter fun place => place.1.flat = path ++ [Segment.key name] := by
    refine List.filter_congr fun place member => ?_
    refine decide_eq_decide.mpr (and_iff_left_of_imp fun same => ?_)
    obtain ⟨document, isDocument, holds⟩ := mem_placesOf.mp member
    have notMap := noMap place.2 (mem_entriesAt.mpr ⟨document, isDocument, place.1, holds, same⟩)
    have length := congrArg List.length same
    rw [Path.length_flat, List.length_append, List.length_singleton] at length
    by_cases above : place.1.length ≤ c.maxDepth
    · exact .inl ⟨above, notMap⟩
    · exact .inr (by omega)
  have under : ((entriesAt documents path).filter fun entry => entry.1 = name).map Prod.snd =
      ((placesOf documents).filter fun place => place.1.flat = path).flatMap
        fun place => place.2.under name := by
    rw [entriesAt, List.filter_flatMap, List.map_flatMap]
    rfl
  rw [samplesOf, filed, all, under, placesOf, List.filter_flatMap, List.map_flatMap,
    List.filter_flatMap, List.flatMap_assoc]
  refine List.Perm.flatMap_left documents fun document _ => ?_
  have perm := @Value.placesAt_key_perm path name [] document
  simpa using perm

/-- Entries that are put together by their names are the same entries. -/
theorem flatMap_names_perm {names : List String} {entries : List (String × Value)}
    (distinct : names.Nodup) (covered : ∀ entry ∈ entries, entry.1 ∈ names) :
    (names.flatMap fun name => entries.filter fun entry => entry.1 = name).Perm entries := by
  induction names generalizing entries with
  | nil =>
    obtain rfl : entries = [] := List.eq_nil_iff_forall_not_mem.mpr fun entry member =>
      absurd (covered entry member) List.not_mem_nil
    exact .nil
  | cons name rest ih =>
    obtain ⟨fresh, restDistinct⟩ := List.nodup_cons.mp distinct
    have later : (rest.flatMap fun other => entries.filter fun entry => entry.1 = other) =
        rest.flatMap fun other =>
          (entries.filter fun entry => !decide (entry.1 = name)).filter
            fun entry => entry.1 = other := by
      refine List.flatMap_congr fun other among => ?_
      rw [List.filter_filter]
      refine List.filter_congr fun entry _ => ?_
      by_cases isOther : entry.1 = other
      · have apart : other ≠ name := fun same => fresh (same ▸ among)
        simp [isOther, apart]
      · simp [isOther]
    rw [List.flatMap_cons, later]
    refine ((ih restDistinct fun entry member => ?_).append_left _).trans
      (List.filter_append_perm _ entries)
    obtain ⟨among, apart⟩ := List.mem_filter.mp member
    exact (List.mem_cons.mp (covered entry among)).resolve_left (by simpa using apart)

/-- Where nothing but leaves stands under names, what was seen under them is what stands in the
entries. -/
theorem valuesUnder_perm (shallow : path.length ≤ c.maxDepth) {names : List String}
    (distinct : names.Nodup) (covered : ∀ entry ∈ entriesAt documents path, entry.1 ∈ names)
    (leaves : ∀ entry ∈ entriesAt documents path, entry.2.isMap = false) :
    ((samplesOf c documents).valuesUnder path names).Perm
      ((entriesAt documents path).map Prod.snd) := by
  refine .trans ?_ ((flatMap_names_perm distinct covered).map Prod.snd)
  rw [valuesUnder, List.map_flatMap]
  exact List.Perm.flatMap_left _ fun name _ =>
    valuesAt_key_perm shallow fun v member => leaves _ member

end Samples
end SchemaInference
