import Mathlib.Data.List.Forall2
import SchemaInference.CommandLine.Source
import SchemaInference.Proofs.JsonReading
import SchemaInference.Proofs.Utf8Decoding

/-! Documents that stand one on each line. Of the characters that end a line, three may stand in the
strings of JSON: next line, line separator and paragraph separator. Documents without them are
loaded as they are, in order; the first document with one is cut there, and what stands before the
cut is no JSON. -/
namespace SchemaInference
namespace Text

theorem normalizeBreaks_eq_self {cs : List Char} (noReturn : '\r' ∉ cs) :
    normalizeBreaks cs = cs := by
  fun_induction normalizeBreaks cs with
  | case1 | case2 => simp at noReturn
  | case3 c rest _ _ ih => rw [ih fun member => noReturn (.tail _ member)]
  | case4 => rfl

section Lines
variable {cs front rest line : List Char} {c : Char}

theorem linesFrom_append (clean : ∀ c ∈ cs, endsLine c = false) :
    linesFrom line (cs ++ rest) = linesFrom (cs.reverse ++ line) rest := by
  induction cs generalizing line with
  | nil => rfl
  | cons c cs ih =>
    obtain ⟨first, later⟩ := List.forall_mem_cons.mp clean
    have step : linesFrom line (c :: (cs ++ rest)) = linesFrom (c :: line) (cs ++ rest) := by
      rw [linesFrom]
      · simp [first]
      · rintro _ rfl
        cases first
    rw [List.cons_append, step, ih later]
    simp

theorem lines_of_clean (filled : cs ≠ []) (clean : ∀ c ∈ cs, endsLine c = false) :
    lines cs = [cs] := by
  have whole : linesFrom [] (cs ++ []) = linesFrom (cs.reverse ++ []) [] := linesFrom_append clean
  rw [List.append_nil, List.append_nil] at whole
  rw [lines, whole, linesFrom]
  simp [filled]

/-- A character that ends a line cuts it off the lines of the rest. -/
theorem lines_of_end (clean : ∀ c ∈ front, endsLine c = false) (ends : endsLine c = true)
    (noReturn : c ≠ '\r') : lines (front ++ c :: rest) = front :: lines rest := by
  rw [lines, linesFrom_append clean, List.append_nil, linesFrom]
  · simp [ends, lines]
  · rintro _ rfl
    cases noReturn rfl

end Lines

end Text

namespace CommandLine
open Text

/-- The characters that end a line and that JSON lets stand in a string. -/
def cutsDocument (c : Char) : Bool := c == '\u0085' || c == '\u2028' || c == '\u2029'

theorem cutsDocument_iff {c : Char} :
    cutsDocument c = true ↔ c.toNat = 0x85 ∨ c.toNat = 0x2028 ∨ c.toNat = 0x2029 := by
  have same (d : Char) : c = d ↔ c.toNat = d.toNat := Char.toNat_inj.symm
  rw [cutsDocument, Bool.or_eq_true, Bool.or_eq_true, beq_iff_eq, beq_iff_eq, beq_iff_eq, same,
    same, same, or_assoc]
  rfl

theorem endsLine_iff {c : Char} : endsLine c = true ↔
    (0x0A ≤ c.toNat ∧ c.toNat ≤ 0x0D) ∨ (0x1C ≤ c.toNat ∧ c.toNat ≤ 0x1E) ∨
      cutsDocument c = true := by
  simp only [endsLine, cutsDocument_iff, Bool.or_eq_true, Bool.and_eq_true, decide_eq_true_eq,
    beq_iff_eq, or_assoc]

/-- Within a document on one line, these characters alone end a line. -/
theorem endsLine_eq {c : Char} (stands : Json.mayStand c = true) (noFeed : c ≠ '\n')
    (noReturn : c ≠ '\r') : endsLine c = cutsDocument c := by
  rw [Bool.eq_iff_iff, endsLine_iff]
  refine ⟨?_, fun cuts => .inr (.inr cuts)⟩
  have visible : c = ' ' ∨ c = '\t' ∨ 0x20 ≤ c.toNat := by
    simpa [Json.mayStand, Json.isBlank, noFeed, noReturn, or_assoc] using stands
  have visible : c.toNat = 0x09 ∨ 0x20 ≤ c.toNat := by
    rcases visible with rfl | rfl | visible
    · exact .inr (by decide)
    · exact .inl rfl
    · exact .inr visible
  rintro (feed | separator | cuts)
  · omega
  · omega
  · exact cuts

theorem foreign_of_cuts {c : Char} (cuts : cutsDocument c = true) : 0x7F < c.toNat := by
  have := cutsDocument_iff.mp cuts
  omega

/-! ## One line after another -/

variable {text front rest : List Char} {j : Json} {source : String} {c : Char}

theorem isBlank_of_visible (visible : 0x20 < c.toNat) (ascii : c.toNat ≤ 0x7F) :
    isBlank c = false := by
  rw [← Bool.not_eq_true]
  simp only [isBlank, isSpace, Bool.or_eq_true, Bool.and_eq_true, decide_eq_true_eq, beq_iff_eq]
  omega

theorem not_blank_of_read (accepted : Json.read text = .ok j) : text.all isBlank = false := by
  obtain ⟨d, rest, left, visible, ascii⟩ := Json.front_of_read accepted
  have member : d ∈ text := (List.dropWhile_sublist Json.isBlank).subset (left ▸ List.mem_cons_self)
  rw [List.all_eq_false]
  exact ⟨d, member, by simp [isBlank_of_visible visible ascii]⟩

/-- What JSON begins with is no blank, and stands before any character beyond ASCII. -/
theorem front_not_blank_of_read (foreign : 0x7F < c.toNat)
    (accepted : Json.read (front ++ c :: rest) = .ok j) : front.all isBlank = false := by
  obtain ⟨d, after, left, visible, ascii⟩ := Json.front_of_read accepted
  rw [(Json.takeWhile_foreign (Json.not_isBlank_of_foreign foreign) front rest).2] at left
  obtain ⟨after, left⟩ := Json.front_of_foreign foreign ascii left
  have member : d ∈ front :=
    (List.dropWhile_sublist Json.isBlank).subset (left ▸ List.mem_cons_self)
  rw [List.all_eq_false]
  exact ⟨d, member, by simp [isBlank_of_visible visible ascii]⟩

/-! Whether it is cut by a line feed or by another end of a line, what stands before is a text of
its own. -/

theorem documentTexts_of_end (clean : ∀ c ∈ front, endsLine c = false) (ends : endsLine c = true)
    (noReturn : c ≠ '\r') (filled : front.all isBlank = false) :
    documentTexts true (front ++ c :: rest) = front :: documentTexts true rest := by
  simp [documentTexts, lines_of_end clean ends noReturn, filled]

theorem documentTexts_of_clean (clean : ∀ c ∈ text, endsLine c = false)
    (filled : text.all isBlank = false) : documentTexts true text = [text] := by
  have proper : text ≠ [] := by
    rintro rfl
    cases filled
  simp [documentTexts, lines_of_clean proper clean, filled]

/-- A document that nothing cuts is the first text of a source that begins with it. -/
theorem documentTexts_cons {texts : List (List Char)} (clean : ∀ c ∈ text, endsLine c = false)
    (filled : text.all isBlank = false) :
    documentTexts true (['\n'].intercalate (text :: texts)) =
      text :: documentTexts true (['\n'].intercalate texts) := by
  cases texts with
  | nil =>
    rw [List.intercalate_singleton, documentTexts_of_clean clean filled]
    rfl
  | cons next texts =>
    rw [List.intercalate_cons_cons, List.append_assoc]
    exact documentTexts_of_end clean rfl (by decide) filled

/-- Where a document is cut, what stands before the cut is the first text instead. -/
theorem documentTexts_cut {texts : List (List Char)} (clean : ∀ c ∈ front, endsLine c = false)
    (cuts : cutsDocument c = true) (filled : front.all isBlank = false) : ∃ more,
      documentTexts true (['\n'].intercalate ((front ++ c :: rest) :: texts)) = front :: more := by
  have ends : endsLine c = true := endsLine_iff.mpr (.inr (.inr cuts))
  have noReturn : c ≠ '\r' := by
    rintro rfl
    cases cuts
  cases texts with
  | nil =>
    rw [List.intercalate_singleton]
    exact ⟨_, documentTexts_of_end clean ends noReturn filled⟩
  | cons next texts =>
    rw [List.intercalate_cons_cons, List.append_assoc, List.append_assoc]
    exact ⟨_, documentTexts_of_end clean ends noReturn filled⟩

/-- A document that is cut is read up to the cut, and found to be at fault there. -/
theorem documentOf_of_cut (cuts : cutsDocument c = true)
    (accepted : Json.read (front ++ c :: rest) = .ok j) (source : String) :
    ∃ message, documentOf source front = .error (.malformed source message) := by
  obtain ⟨cause, position, fault⟩ :=
    Json.malformed_of_read_append (foreign_of_cuts cuts) accepted
  exact ⟨_, by rw [documentOf, fault]⟩

theorem exists_first_cut (cut : ∃ c ∈ text, cutsDocument c = true) : ∃ front c rest,
    text = front ++ c :: rest ∧ cutsDocument c = true ∧ ∀ c ∈ front, cutsDocument c = false := by
  induction text with
  | nil => simp at cut
  | cons d text ih =>
    cases first : cutsDocument d with
    | true => exact ⟨[], d, text, rfl, first, by simp⟩
    | false =>
      obtain ⟨front, c, rest, rfl, cuts, clean⟩ := ih (by simpa [first] using cut)
      exact ⟨d :: front, c, rest, rfl, cuts, List.forall_mem_cons.mpr ⟨first, clean⟩⟩

/-- The texts joined by line feeds, read line by line up to the first that is cut. -/
theorem mapM_documentTexts {texts : List (List Char)} {js : List Json} (source : String)
    (accepted : List.Forall₂ (fun text j => Json.read text = .ok j) texts js)
    (oneLine : ∀ text ∈ texts, '\n' ∉ text ∧ '\r' ∉ text) :
    ((∀ text ∈ texts, ∀ c ∈ text, cutsDocument c = false) →
      (documentTexts true (['\n'].intercalate texts)).mapM (documentOf source) =
        .ok (js.map Value.ofJson)) ∧
    ((∃ text ∈ texts, ∃ c ∈ text, cutsDocument c = true) → ∃ message,
      (documentTexts true (['\n'].intercalate texts)).mapM (documentOf source) =
        .error (.malformed source message)) := by
  induction accepted with
  | nil => exact ⟨fun _ => rfl, by simp⟩
  | @cons text j texts js read later ih =>
    obtain ⟨⟨noFeed, noReturn⟩, oneLine⟩ := List.forall_mem_cons.mp oneLine
    obtain ⟨whole, broken⟩ := ih oneLine
    have ends : ∀ c ∈ text, endsLine c = cutsDocument c := fun c member =>
      endsLine_eq (Json.mayStand_of_read read c member) (fun same => noFeed (same ▸ member))
        (fun same => noReturn (same ▸ member))
    by_cases cut : ∃ c ∈ text, cutsDocument c = true
    · refine ⟨fun clean => ?_, fun _ => ?_⟩
      · obtain ⟨c, member, cuts⟩ := cut
        rw [clean text List.mem_cons_self c member] at cuts
        cases cuts
      · obtain ⟨front, c, rest, rfl, cuts, clean⟩ := exists_first_cut cut
        obtain ⟨message, fault⟩ := documentOf_of_cut cuts read source
        have clean : ∀ d ∈ front, endsLine d = false := fun d member => by
          rw [ends d (List.mem_append_left _ member), clean d member]
        obtain ⟨more, texts⟩ := documentTexts_cut clean cuts
          (front_not_blank_of_read (foreign_of_cuts cuts) read)
        exact ⟨message, by rw [texts, List.mapM_cons, fault]; rfl⟩
    · have clean : ∀ c ∈ text, endsLine c = false := fun c member => by
        rw [ends c member, ← Bool.not_eq_true]
        exact fun cuts => cut ⟨c, member, cuts⟩
      have first : documentOf source text = .ok (.ofJson j) := by rw [documentOf, read]
      rw [documentTexts_cons clean (not_blank_of_read read), List.mapM_cons, first]
      refine ⟨fun clean => ?_, fun broke => ?_⟩
      · rw [whole (fun text member => clean text (.tail _ member))]
        rfl
      · have broke : ∃ text ∈ texts, ∃ c ∈ text, cutsDocument c = true := by
          simpa [cut] using broke
        obtain ⟨message, fault⟩ := broken broke
        exact ⟨message, by rw [fault]; rfl⟩

theorem mem_intercalate {between : List Char} {parts : List (List Char)}
    (member : c ∈ between.intercalate parts) : c ∈ between ∨ ∃ part ∈ parts, c ∈ part := by
  induction parts with
  | nil => cases member
  | cons part parts ih =>
    cases parts with
    | nil => exact .inr ⟨part, by simp, by simpa using member⟩
    | cons next parts =>
      rw [List.intercalate_cons_cons, List.append_assoc, List.mem_append, List.mem_append] at member
      rcases member with inside | inside | inside
      · exact .inr ⟨part, by simp, inside⟩
      · exact .inl inside
      · exact (ih inside).imp_right fun ⟨other, later, inside⟩ => ⟨other, .tail _ later, inside⟩

/-- What is loaded from bytes that are text is what is read from the documents in the text. -/
theorem load_of_decoded {w left : World} {bytes : List UInt8} {cs : List Char} (byLine : Bool)
    (room : Room) (held : readSource w source = .ok (bytes, left))
    (decoded : decodeUtf8 bytes = .ok cs) :
    load w byLine source room =
      ((documentTexts byLine (normalizeBreaks cs)).mapM
        fun text => documentOf source text room).map (·, left) := by
  simp only [load, held, bind, Except.bind, decoded]
  cases (documentTexts byLine (normalizeBreaks cs)).mapM fun text => documentOf source text room <;>
    rfl

/-- A text that is held as UTF-8 is loaded as it is written, carriage returns apart. -/
theorem load_text {w left : World} {cs : List Char} (byLine : Bool)
    (held : readSource w source = .ok (cs.flatMap String.utf8EncodeChar, left))
    (noReturn : '\r' ∉ cs) : load w byLine source =
      ((documentTexts byLine cs).mapM (documentOf source)).map (·, left) := by
  rw [load_of_decoded byLine none held (decodeUtf8_utf8 cs), normalizeBreaks_eq_self noReturn]

/-- Documents that stand one on each line are loaded as they are, in order, unless a character cuts
one; then the source is malformed. -/
theorem load_lines {w left : World} {source : String} {texts : List (List Char)} {js : List Json}
    (held : readSource w source =
      .ok ((['\n'].intercalate texts).flatMap String.utf8EncodeChar, left))
    (accepted : List.Forall₂ (fun text j => Json.read text = .ok j) texts js)
    (oneLine : ∀ text ∈ texts, '\n' ∉ text ∧ '\r' ∉ text) :
    ((∀ text ∈ texts, ∀ c ∈ text, cutsDocument c = false) →
      load w true source = .ok (js.map .ofJson, left)) ∧
    ((∃ text ∈ texts, ∃ c ∈ text, cutsDocument c = true) →
      ∃ message, load w true source = .error (.malformed source message)) := by
  have noReturn : '\r' ∉ ['\n'].intercalate texts := by
    intro member
    rcases mem_intercalate member with feed | ⟨text, held, member⟩
    · simp at feed
    · exact (oneLine text held).2 member
  obtain ⟨whole, broken⟩ := mapM_documentTexts source accepted oneLine
  rw [load_text true held noReturn]
  refine ⟨fun clean => ?_, fun cut => ?_⟩
  · rw [whole clean]
    rfl
  · obtain ⟨message, fault⟩ := broken cut
    exact ⟨message, by rw [fault]; rfl⟩

/-- A list and a text on two lines of standard input. -/
theorem load_two_lines :
    let texts : List (List Char) := [['[', ']'], ['"', 'é', '"']]
    let input := (['\n'].intercalate texts).flatMap String.utf8EncodeChar
    let w : World := { read := fun _ => .error .missing, input := some input }
    let left : World := { w with input := some [] }
    readSource w "-" = .ok (input, left) ∧
      List.Forall₂ (fun text j => Json.read text = .ok j) texts [.arr [], .str "é"] ∧
      (∀ text ∈ texts, '\n' ∉ text ∧ '\r' ∉ text) ∧
      load w true "-" = .ok ([.ofJson (.arr []), .ofJson (.str "é")], left) := by
  intro texts input w left
  have held : readSource w "-" = .ok (input, left) := rfl
  have accepted : List.Forall₂ (fun text j => Json.read text = .ok j) texts
      [.arr [], .str "é"] := .cons rfl (.cons rfl .nil)
  have oneLine : ∀ text ∈ texts, '\n' ∉ text ∧ '\r' ∉ text := by simp [texts]
  have clean : ∀ text ∈ texts, ∀ c ∈ text, cutsDocument c = false := by simp [texts, cutsDocument]
  exact ⟨held, accepted, oneLine, (load_lines held accepted oneLine).1 clean⟩

/-- A text with a line separator in it is JSON, and is not loaded from a line of its own. -/
theorem line_separator_not_loaded :
    let text : List Char := ['"', 'a', '\u2028', 'b', '"']
    let w : World :=
      { read := fun _ => .error .missing, input := some (text.flatMap String.utf8EncodeChar) }
    Json.read text = .ok (.str "a\u2028b") ∧ '\n' ∉ text ∧ '\r' ∉ text ∧
      ∃ message, load w true "-" = .error (.malformed "-" message) := by
  intro text w
  exact ⟨rfl, by simp [text], by simp [text], _, rfl⟩

end CommandLine
end SchemaInference
