import Mathlib.Data.List.TakeWhile
import SchemaInference.Json.Reader

/-! How words and numbers of JSON are cut off the front of a text. The ways to cut compose: each
passes characters that may stand in JSON, and cuts the same where the text goes on with a character
beyond ASCII, which none of them takes. -/
namespace SchemaInference.Json

/-- Whether a character may stand in JSON: it is a blank or no control character. -/
def mayStand (c : Char) : Bool := isBlank c || 0x20 ≤ c.toNat

theorem mayStand_of_visible {c : Char} (visible : 0x20 ≤ c.toNat) : mayStand c = true := by
  simp [mayStand, visible]

/-- What is left of a text after characters that may stand in JSON. -/
def Passes (cs rest : List Char) : Prop :=
  ∃ taken, cs = taken ++ rest ∧ ∀ c ∈ taken, mayStand c = true

namespace Passes
variable {c : Char} {cs rest left : List Char}

@[simp] theorem refl (cs : List Char) : Passes cs cs := ⟨[], rfl, by simp⟩

theorem trans (first : Passes cs rest) (later : Passes rest left) : Passes cs left := by
  obtain ⟨front, rfl, all⟩ := first
  obtain ⟨back, rfl, all'⟩ := later
  refine ⟨front ++ back, by simp, fun c member => ?_⟩
  exact (List.mem_append.mp member).elim (all c) (all' c)

theorem cons (stands : mayStand c = true) (passes : Passes cs rest) : Passes (c :: cs) rest := by
  obtain ⟨taken, rfl, all⟩ := passes
  exact ⟨c :: taken, rfl, List.forall_mem_cons.mpr ⟨stands, all⟩⟩

theorem dropWhile {p : Char → Bool} (all : ∀ c, p c = true → mayStand c = true) (cs : List Char) :
    Passes cs (cs.dropWhile p) :=
  ⟨cs.takeWhile p, List.takeWhile_append_dropWhile.symm,
    fun c member => all c (List.mem_takeWhile_imp member)⟩

theorem length_le (passes : Passes cs rest) : rest.length ≤ cs.length := by
  obtain ⟨taken, rfl, -⟩ := passes
  simp

end Passes

/-! ## Texts that go on -/

section Foreign
variable {x : Char}

theorem ne_of_foreign (foreign : 0x7F < x.toNat) {c : Char} (ascii : c.toNat ≤ 0x7F) : x ≠ c := by
  rintro rfl
  omega

theorem not_isBlank_of_foreign (foreign : 0x7F < x.toNat) : isBlank x = false := by
  simp [isBlank, ne_of_foreign foreign]

theorem isDigit_iff {c : Char} : Number.isDigit c = true ↔ 0x30 ≤ c.toNat ∧ c.toNat ≤ 0x39 := by
  simp [Number.isDigit, Char.le_def, UInt32.le_iff_toNat_le]

theorem takeWhile_foreign {p : Char → Bool} (stops : p x = false) (cs back : List Char) :
    (cs ++ x :: back).takeWhile p = cs.takeWhile p ∧
      (cs ++ x :: back).dropWhile p = cs.dropWhile p ++ x :: back := by
  induction cs with
  | nil => simp [stops]
  | cons c cs ih =>
    by_cases holds : p c = true
    · simp [holds, ih]
    · simp [holds]

end Foreign

/-! ## Numbers -/

/-- What cuts a part off the front of a text passes characters that may stand in JSON, and cuts the
same if the text goes on with a character beyond ASCII. -/
structure Cuts {α : Type} (split : List Char → Option (α × List Char)) : Prop where
  passes {cs rest : List Char} {a : α} (cut : split cs = some (a, rest)) : Passes cs rest
  goesOn {x : Char} (foreign : 0x7F < x.toNat) (cs back : List Char) :
    split (cs ++ x :: back) = (split cs).map fun (a, rest) => (a, rest ++ x :: back)

namespace Cuts
variable {α β : Type} {split : List Char → Option (α × List Char)}
  {next : α → List Char → Option (β × List Char)}

theorem bind (first : Cuts split) (later : ∀ a, Cuts (next a)) :
    Cuts fun cs => (split cs).bind fun (a, rest) => next a rest where
  passes cut := by
    obtain ⟨⟨a, rest⟩, front, back⟩ := Option.bind_eq_some_iff.mp cut
    exact (first.passes front).trans ((later a).passes back)
  goesOn foreign cs back := by
    rw [first.goesOn foreign]
    cases split cs with
    | none => rfl
    | some cut => exact (later cut.1).goesOn foreign cut.2 back

theorem pure (a : α) : Cuts fun cs => some (a, cs) where
  passes cut := by
    cases cut
    exact .refl _
  goesOn _ _ _ := rfl

theorem none : Cuts fun _ => (Option.none : Option (α × List Char)) where
  passes cut := by cases cut
  goesOn _ _ _ := rfl

/-- What a text is cut like if nothing else can be cut off. -/
theorem getD (first : Cuts split) (a : α) : Cuts fun cs => some ((split cs).getD (a, cs)) where
  passes {cs rest b} cut := by
    cases found : split cs with
    | none =>
      rw [found] at cut
      cases cut
      exact .refl _
    | some own =>
      rw [found] at cut
      cases cut
      exact first.passes found
  goesOn foreign cs back := by
    rw [first.goesOn foreign]
    cases split cs <;> rfl

/-- A cut that depends on what stands at the front. -/
theorem byHead {p : Char → Bool} {yes no : List Char → Option (α × List Char)}
    (printed : ∀ c, p c = true → 0x20 ≤ c.toNat ∧ c.toNat ≤ 0x7F) (first : Cuts yes)
    (other : Cuts no) (empty : split [] = no [])
    (shape : ∀ c cs, split (c :: cs) = if p c then yes cs else no (c :: cs)) : Cuts split where
  passes {cs rest a} cut := by
    cases cs with
    | nil => exact other.passes (empty ▸ cut)
    | cons c cs =>
      rw [shape] at cut
      split at cut
      · rename_i starts
        exact .cons (mayStand_of_visible (printed c starts).1) (first.passes cut)
      · exact other.passes cut
  goesOn {x} foreign cs back := by
    cases cs with
    | nil =>
      have starts : ¬ p x = true := by
        intro starts
        have := printed x starts
        omega
      rw [List.nil_append, shape, if_neg starts, empty]
      exact other.goesOn foreign [] back
    | cons c cs =>
      rw [List.cons_append, shape, shape]
      split
      · exact first.goesOn foreign cs back
      · exact other.goesOn foreign (c :: cs) back

end Cuts

theorem cuts_splitDigits? : Cuts splitDigits? where
  passes {cs rest digits} cut := by
    simp only [splitDigits?, Option.ite_none_left_eq_some, Option.some.injEq, Prod.mk.injEq] at cut
    obtain ⟨-, -, rfl⟩ := cut
    refine Passes.dropWhile (fun c digit => mayStand_of_visible ?_) cs
    have := isDigit_iff.mp digit
    omega
  goesOn {x} foreign cs back := by
    have stops : Number.isDigit x = false := by
      rw [← Bool.not_eq_true, isDigit_iff]
      omega
    obtain ⟨taken, dropped⟩ := takeWhile_foreign stops cs back
    simp only [splitDigits?, taken, dropped]
    split <;> rfl

theorem cuts_splitMinus : Cuts fun cs => some (splitMinus cs) := by
  refine Cuts.byHead (p := (· == '-')) (by simp) (.pure true) (.pure false) rfl fun c cs => ?_
  unfold splitMinus
  split <;> simp_all

theorem cuts_splitSign : Cuts fun cs => some (splitSign cs) := by
  refine Cuts.byHead (p := (· == '+')) (by simp) (.pure false) cuts_splitMinus rfl fun c cs => ?_
  unfold splitSign
  split <;> simp_all

theorem cuts_splitWhole? : Cuts splitWhole? := by
  refine Cuts.byHead (p := (· == '0')) (by simp) (.pure ['0']) cuts_splitDigits? rfl fun c cs => ?_
  unfold splitWhole?
  split <;> simp_all

theorem cuts_splitFraction? : Cuts splitFraction? := by
  refine Cuts.byHead (p := (· == '.')) (by simp) cuts_splitDigits? .none rfl fun c cs => ?_
  unfold splitFraction?
  split <;> simp_all

theorem cuts_splitPower? : Cuts splitPower? := by
  refine Cuts.byHead (p := fun c => c = 'e' || c = 'E') (by simp)
    (cuts_splitSign.bind fun below => cuts_splitDigits?.bind fun digits => .pure (below, digits))
    .none rfl fun c cs => ?_
  simp [splitPower?]

theorem cuts_splitNumeral? : Cuts splitNumeral? := by
  have cuts := cuts_splitMinus.bind fun negative => cuts_splitWhole?.bind fun whole =>
    (cuts_splitFraction?.getD []).bind fun fraction =>
      (cuts_splitPower?.getD (false, [])).bind fun power =>
        .pure ({ negative, whole, fraction, below := power.1, power := power.2 } : Numeral)
  exact cuts

/-! ## Words -/

theorem Cuts.orElse {α : Type} {split other : List Char → Option (α × List Char)}
    (first : Cuts split) (second : Cuts other) : Cuts fun cs => split cs <|> other cs where
  passes {cs rest a} cut := by
    cases found : split cs with
    | none =>
      rw [found] at cut
      exact second.passes cut
    | some own =>
      rw [found] at cut
      cases cut
      exact first.passes found
  goesOn foreign cs back := by
    rw [first.goesOn foreign, second.goesOn foreign]
    cases split cs <;> rfl

theorem Cuts.map {α β : Type} {split : List Char → Option (α × List Char)} (cuts : Cuts split)
    (f : α → β) : Cuts fun cs => (split cs).map fun (a, rest) => (f a, rest) where
  passes {cs rest b} cut := by
    obtain ⟨⟨a, rest⟩, found, same⟩ := Option.map_eq_some_iff.mp cut
    cases same
    exact cuts.passes found
  goesOn foreign cs back := by
    rw [cuts.goesOn foreign]
    cases split cs <;> rfl

theorem cuts_word {α : Type} {w : List Char} (a : α)
    (printed : ∀ c ∈ w, 0x20 ≤ c.toNat ∧ c.toNat ≤ 0x7F) :
    Cuts fun cs => if w.isPrefixOf cs then some (a, cs.drop w.length) else none := by
  induction w with
  | nil => simpa using Cuts.pure a
  | cons c w ih =>
    obtain ⟨first, later⟩ := List.forall_mem_cons.mp printed
    refine Cuts.byHead (p := (c == ·)) (fun d same => beq_iff_eq.mp same ▸ first) (ih later) .none
      rfl fun d cs => ?_
    by_cases same : c = d <;> simp [same]

theorem Cuts.findSome? {ι α : Type} {is : List ι} {split : ι → List Char → Option (α × List Char)}
    (all : ∀ i ∈ is, Cuts (split i)) : Cuts fun cs => is.findSome? fun i => split i cs := by
  induction is with
  | nil => exact .none
  | cons i is ih =>
    obtain ⟨first, later⟩ := List.forall_mem_cons.mp all
    have cuts := first.orElse (ih later)
    convert cuts using 2 with cs
    rw [List.findSome?_cons]
    cases split i cs <;> rfl

theorem cuts_splitWord? : Cuts splitWord? := by
  have printed : ∀ word ∈ words, ∀ c ∈ word.1.toList, 0x20 ≤ c.toNat ∧ c.toNat ≤ 0x7F := by
    simp [words]
  exact Cuts.findSome? fun (w, j) member => cuts_word j (printed (w, j) member)

theorem cuts_splitScalar? : Cuts splitScalar? := by
  have cuts := (cuts_splitWord?.map Except.ok).orElse (cuts_splitNumeral?.map Numeral.value)
  exact cuts

end SchemaInference.Json
