/-!
Sets of tags, held as their members in ascending order, so that equal sets are equal lists.
-/

namespace SchemaInference

/-- Puts a text into an ascending row, unless it is there. -/
def insertAscending (s : String) : List String → List String
  | [] => [s]
  | t :: rest =>
    if s = t then t :: rest
    else if s < t then s :: t :: rest
    else t :: insertAscending s rest

/-- The distinct texts of a list in ascending order of code points. -/
def ascending : List String → List String
  | [] => []
  | s :: rest => insertAscending s (ascending rest)

theorem lt_of_not_lt_of_ne {s t : String} (apart : s ≠ t) (above : ¬ s < t) : t < s :=
  Decidable.byContradiction fun below => apart (String.le_antisymm below above)

@[simp] theorem mem_insertAscending {s t : String} {row : List String} :
    t ∈ insertAscending s row ↔ t = s ∨ t ∈ row := by
  induction row with
  | nil => simp [insertAscending]
  | cons u rest ih =>
    simp only [insertAscending]
    split
    · rename_i same; subst same; simp
    · split <;> simp [ih, or_left_comm]

@[simp] theorem mem_ascending {t : String} {row : List String} : t ∈ ascending row ↔ t ∈ row := by
  induction row with
  | nil => simp [ascending]
  | cons s rest ih => simp [ascending, ih]

theorem insertAscending_sorted {s : String} {row : List String}
    (sorted : row.Pairwise (· < ·)) : (insertAscending s row).Pairwise (· < ·) := by
  induction row with
  | nil => simp [insertAscending]
  | cons t rest ih =>
    obtain ⟨first, below⟩ := List.pairwise_cons.1 sorted
    simp only [insertAscending]
    split
    · exact sorted
    · rename_i apart
      split
      · rename_i before
        refine List.pairwise_cons.2 ⟨?_, sorted⟩
        intro u member
        rcases List.mem_cons.1 member with rfl | member
        · exact before
        · exact String.lt_trans before (first u member)
      · rename_i above
        refine List.pairwise_cons.2 ⟨?_, ih below⟩
        intro u member
        rcases mem_insertAscending.1 member with rfl | member
        · exact lt_of_not_lt_of_ne apart above
        · exact first u member

theorem ascending_sorted (row : List String) : (ascending row).Pairwise (· < ·) := by
  induction row with
  | nil => simp [ascending]
  | cons s rest ih => exact insertAscending_sorted ih

theorem nodup_of_ascending {row : List String} (sorted : row.Pairwise (· < ·)) : row.Nodup :=
  sorted.imp fun {s t} (below : s < t) (same : s = t) => String.lt_irrefl t (same ▸ below)

theorem ascending_nodup (row : List String) : (ascending row).Nodup :=
  nodup_of_ascending (ascending_sorted row)

/-- Ascending rows with the same members are equal. -/
theorem eq_of_ascending {row other : List String} (sorted : row.Pairwise (· < ·))
    (sorted' : other.Pairwise (· < ·)) (same : ∀ s, s ∈ row ↔ s ∈ other) : row = other := by
  have perm : row.Perm other :=
    (List.perm_ext_iff_of_nodup (nodup_of_ascending sorted) (nodup_of_ascending sorted')).mpr same
  exact perm.eq_of_pairwise
    (fun s t _ _ below above => absurd (String.lt_trans below above) (String.lt_irrefl s))
    sorted sorted'

/-- An ascending row is known by its members. -/
theorem ascending_congr {row other : List String} (same : ∀ s, s ∈ row ↔ s ∈ other) :
    ascending row = ascending other :=
  eq_of_ascending (ascending_sorted row) (ascending_sorted other) (by simpa using same)

theorem ascending_of_sorted {row : List String} (sorted : row.Pairwise (· < ·)) :
    ascending row = row :=
  eq_of_ascending (ascending_sorted row) sorted fun _ => mem_ascending

/-- A finite set of tags. -/
structure TagSet where
  toList : List String
  sorted : toList.Pairwise (· < ·) := by simp
  deriving DecidableEq

namespace TagSet

/-- The set of the tags in a list. -/
def ofList (tags : List String) : TagSet := ⟨ascending tags, ascending_sorted tags⟩

/-- The set without tags. -/
def empty : TagSet := ⟨[], .nil⟩

/-- The tags of either set. -/
def union (a b : TagSet) : TagSet := ofList (a.toList ++ b.toList)

/-- The set without one tag. -/
def erase (a : TagSet) (tag : String) : TagSet :=
  ⟨a.toList.filter (· != tag), a.sorted.filter _⟩

instance : Membership String TagSet := ⟨fun a tag => tag ∈ a.toList⟩

instance (tag : String) (a : TagSet) : Decidable (tag ∈ a) :=
  inferInstanceAs (Decidable (tag ∈ a.toList))

@[simp] theorem mem_toList {tag : String} {a : TagSet} : tag ∈ a.toList ↔ tag ∈ a := Iff.rfl

@[simp] theorem mem_ofList {tag : String} {tags : List String} : tag ∈ ofList tags ↔ tag ∈ tags :=
  mem_ascending

@[simp] theorem mem_union {tag : String} {a b : TagSet} : tag ∈ a.union b ↔ tag ∈ a ∨ tag ∈ b := by
  simp [union]

@[simp] theorem mem_erase {tag other : String} {a : TagSet} :
    tag ∈ a.erase other ↔ tag ∈ a ∧ tag ≠ other := by
  show tag ∈ a.toList.filter _ ↔ _
  simp

@[simp] theorem not_mem_empty (tag : String) : tag ∉ empty := List.not_mem_nil

/-- Sets with the same tags are equal. -/
theorem ext_mem {a b : TagSet} (same : ∀ tag, tag ∈ a ↔ tag ∈ b) : a = b := by
  obtain ⟨row, sorted⟩ := a
  obtain ⟨other, sorted'⟩ := b
  congr
  exact eq_of_ascending sorted sorted' same

theorem union_comm (a b : TagSet) : a.union b = b.union a :=
  ext_mem fun tag => by simp [or_comm]

theorem union_assoc (a b c : TagSet) : (a.union b).union c = a.union (b.union c) :=
  ext_mem fun tag => by simp [or_assoc]

@[simp] theorem union_self (a : TagSet) : a.union a = a := ext_mem fun tag => by simp

@[simp] theorem empty_union (a : TagSet) : empty.union a = a := ext_mem fun tag => by simp

end TagSet

end SchemaInference
