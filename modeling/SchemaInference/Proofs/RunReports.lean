import SchemaInference.CommandLine.Run
import SchemaInference.Proofs.JsonDocuments
import SchemaInference.Proofs.LineLoading

/-! What a run reports. The first of its sources that is at fault ends a run, and so do samples
without a document; sources without a fault end it with a result, whatever JSON is in them, if there
is room for the calls that the greatest depth asks for and the result can be printed. Of the faults
a run reports those of files that cannot be read, of texts that are no JSON and of samples without a
document. Bytes that are no text, a whole number of too many digits, lists and objects nested too
deep, a name that no file can have and standard input that is not there are not reported. -/
namespace SchemaInference
namespace CommandLine

/-! ## Faults -/

/-- The first of some texts that is no JSON document, and what is wrong with it. -/
def FirstRefused (room : Room) (texts : List (List Char)) (text : List Char)
    (fault : Json.Fault) : Prop :=
  ∃ before after, texts = before ++ text :: after ∧
    (∀ earlier ∈ before, ∃ j, Json.read earlier room = .ok j) ∧ Json.read text room = .error fault

/-- What the fault of a text is to the source that it stands in. -/
def faultOfText (source : String) (text : List Char) : Json.Fault → LoadFault
  | .malformed cause position =>
    .malformed source (Json.Fault.message text (.malformed cause position))
  | .tooManyDigits count => .tooManyDigits (Json.Fault.message text (.tooManyDigits count))
  | .tooNested nest => .tooNested (Json.Fault.message text (.tooNested nest))

/-- The bytes that a source holds: standard input, or a file that has a possible name. -/
inductive World.Has (w : World) : String → List UInt8 → Prop where
  | input (there : w.input = some bytes) : Has w "-" bytes
  | file (isFile : source ≠ "-") (possible : '\x00' ∉ source.toList)
      (found : w.read (fileName source) = .ok bytes) : Has w source bytes

/-- What a program can see once it has read a source. Standard input is empty then. -/
def World.past (w : World) (source : String) : World :=
  if source = "-" then { w with input := some [] } else w

/-- What is wrong with a source that is read by line or as a whole. -/
inductive SourceFault (w : World) (byLine : Bool) (room : Room) (source : String) :
    LoadFault → Prop where
  | noInput (isInput : source = "-") (absent : w.input = none) :
      SourceFault w byLine room source .noInput
  | impossibleName (isFile : source ≠ "-") (impossible : '\x00' ∈ source.toList) :
      SourceFault w byLine room source .impossibleName
  | unreadable (isFile : source ≠ "-") (possible : '\x00' ∉ source.toList)
      (refused : w.read (fileName source) = .error cause) :
      SourceFault w byLine room source (.unreadable source cause)
  | undecodable (held : w.Has source bytes) (refused : Text.decodeUtf8 bytes = .error cause) :
      SourceFault w byLine room source (.undecodable cause)
  | text (held : w.Has source bytes) (decoded : Text.decodeUtf8 bytes = .ok cs)
      (first : FirstRefused room (documentTexts byLine (Text.normalizeBreaks cs)) text cause) :
      SourceFault w byLine room source (faultOfText source text cause)

/-- Whether a source can be read and has no document in it. -/
def Blank (w : World) (byLine : Bool) (source : String) : Prop :=
  ∃ bytes cs, w.Has source bytes ∧ Text.decodeUtf8 bytes = .ok cs ∧
    documentTexts byLine (Text.normalizeBreaks cs) = []

/-- What is wrong with the first of some sources that is at fault. -/
inductive FaultAmong (byLine : Bool) (room : Room) : World → List String → LoadFault → Prop where
  | here (found : SourceFault w byLine room source fault) :
      FaultAmong byLine room w (source :: rest) fault
  | later (sound : ∀ other, ¬ SourceFault w byLine room source other)
      (found : FaultAmong byLine room (w.past source) rest fault) :
      FaultAmong byLine room w (source :: rest) fault

/-- Whether some sources can be read and have no document in them. -/
inductive AllBlank (byLine : Bool) : World → List String → Prop where
  | nil : AllBlank byLine w []
  | cons (first : Blank w byLine source) (rest : AllBlank byLine (w.past source) sources) :
      AllBlank byLine w (source :: sources)

/-- What is wrong with samples: one source, or that there is no document in any. -/
inductive SamplesFault (w : World) (byLine : Bool) (room : Room) (sources : List String) :
    LoadFault → Prop where
  | source (found : FaultAmong byLine room w sources fault) :
      SamplesFault w byLine room sources fault
  | blank (none : AllBlank byLine w sources) :
      SamplesFault w byLine room sources (.noDocuments sources)

/-- The sources of the samples of a command. -/
def Command.samples : Command → List String
  | .predict sources _ | .analyze sources => sources
  | .validate samples _ => samples

/-- What keeps a request from being done: the samples, or else the document that is to be valid,
which is always read as a whole. -/
inductive RequestFault (w : World) (r : Request) (room : Room) : LoadFault → Prop where
  | samples (found : SamplesFault w r.byLine room r.command.samples fault) :
      RequestFault w r room fault
  | document (asked : r.command = .validate samples document)
      (sound : ∀ other, ¬ SamplesFault w r.byLine room samples other)
      (found : SourceFault (samples.foldl World.past w) false room document fault) :
      RequestFault w r room fault

/-- Whether a fault is reported. -/
def LoadFault.isReported : LoadFault → Bool
  | .unreadable .. | .malformed .. | .noDocuments _ => true
  | .undecodable _ | .tooManyDigits _ | .tooNested _ | .impossibleName | .noInput => false

/-- Whether a request leaves the greatest depth as it is set, or asks for a possible one. -/
def Request.DepthFits (r : Request) : Prop :=
  ∀ depth, r.maxDepth = some depth → 1 ≤ depth ∧ depth ≤ maxDepthLimit

/-! ## Results -/

/-- Whether a stack has room for what is nested once sources have been read. -/
structure HasRoom (stack : Stack) (c : Config) : Prop where
  building : stack.building.fits c.calls = true
  checking : stack.checking.fits c.calls = true
  printing : stack.printing.fits c.calls = true

/-- How a run ends whose sources are at no fault: it prints a result, or there is too little room
for that, or the result is among the texts that cannot be printed. It exits with one only where a
document was to be valid. -/
inductive Finishes (prints : String → Bool) (c : Config) (stack : Stack) (command : Command) :
    Outcome → Prop where
  | done (printed : prints output = true) : Finishes prints c stack command (.exit 0 output "")
  | invalid (asked : command = .validate samples document) (printed : prints output = true) :
      Finishes prints c stack command (.exit 1 output "")
  | tooDeep (narrow : ¬ HasRoom stack c) :
      Finishes prints c stack command (.escape (.refused .tooDeep))
  | unprintable (refused : prints output = false) :
      Finishes prints c stack command (.escape (.unprintable output))

variable {w left : World} {byLine : Bool} {source : String} {sources : List String}
  {fault : LoadFault} {bytes : List UInt8} {texts : List (List Char)} {documents : List Value}
  {r : Request} {c : Config} {stack : Stack} {room : Room} {command : Command}

/-! ## Texts -/

theorem documentOf_eq (source : String) (text : List Char) (room : Room) :
    documentOf source text room = match Json.read text room with
    | .ok j => .ok (.ofJson j)
    | .error fault => .error (faultOfText source text fault) := by
  unfold documentOf
  cases Json.read text room with
  | ok j => rfl
  | error fault => cases fault <;> rfl

theorem firstRefused_cons_of_refused {text other : List Char} {cause found : Json.Fault}
    (refused : Json.read text room = .error cause) :
    FirstRefused room (text :: texts) other found ↔ other = text ∧ found = cause := by
  constructor
  · rintro ⟨before, after, split, earlier, own⟩
    cases before with
    | nil =>
      cases split
      cases refused.symm.trans own
      exact ⟨rfl, rfl⟩
    | cons first before =>
      cases split
      obtain ⟨j, accepted⟩ := earlier text List.mem_cons_self
      cases refused.symm.trans accepted
  · rintro ⟨rfl, rfl⟩
    exact ⟨[], texts, rfl, by simp, refused⟩

theorem firstRefused_cons_of_read {text other : List Char} {cause : Json.Fault} {j : Json}
    (accepted : Json.read text room = .ok j) :
    FirstRefused room (text :: texts) other cause ↔ FirstRefused room texts other cause := by
  constructor
  · rintro ⟨before, after, split, earlier, refused⟩
    cases before with
    | nil =>
      cases split
      cases accepted.symm.trans refused
    | cons first before =>
      cases split
      exact ⟨before, after, rfl, (List.forall_mem_cons.mp earlier).2, refused⟩
  · rintro ⟨before, after, rfl, earlier, refused⟩
    exact ⟨text :: before, after, rfl, List.forall_mem_cons.mpr ⟨⟨j, accepted⟩, earlier⟩, refused⟩

/-- Reading texts fails with the fault of the first that is no JSON document. -/
theorem mapM_documentOf_eq_error_iff :
    (texts.mapM fun text => documentOf source text room) = .error fault ↔
      ∃ text cause, FirstRefused room texts text cause ∧ fault = faultOfText source text cause := by
  induction texts with
  | nil => simp [FirstRefused, pure, Except.pure]
  | cons text rest ih =>
    rw [List.mapM_cons, documentOf_eq]
    cases read : Json.read text room with
    | error cause =>
      simp only [firstRefused_cons_of_refused read]
      constructor
      · rintro ⟨⟩
        exact ⟨text, cause, ⟨rfl, rfl⟩, rfl⟩
      · rintro ⟨_, _, ⟨rfl, rfl⟩, rfl⟩
        rfl
    | ok j =>
      simp only [firstRefused_cons_of_read read]
      rw [← ih]
      cases (rest.mapM fun text => documentOf source text room) <;>
        simp [bind, Except.bind, pure, Except.pure]

theorem isJson_of_mapM_documentOf
    (read : (texts.mapM fun text => documentOf source text room) = .ok documents) :
    documents.length = texts.length ∧ ∀ document ∈ documents, ∃ j, document = .ofJson j := by
  induction texts generalizing documents with
  | nil =>
    cases read
    simp
  | cons text rest ih =>
    rw [List.mapM_cons, documentOf_eq] at read
    cases own : Json.read text room with
    | error cause =>
      rw [own] at read
      cases read
    | ok j =>
      rw [own] at read
      cases more : rest.mapM fun text => documentOf source text room with
      | error fault =>
        rw [more] at read
        cases read
      | ok later =>
        rw [more] at read
        cases read
        obtain ⟨length, isJson⟩ := ih more
        exact ⟨by simp [length], List.forall_mem_cons.mpr ⟨⟨j, rfl⟩, isJson⟩⟩

/-! ## Sources -/

theorem World.Has.readSource_eq (held : w.Has source bytes) :
    readSource w source = .ok (bytes, w.past source) := by
  unfold readSource World.past
  cases held with
  | input there =>
    rw [there]
    rfl
  | file isFile possible found =>
    rw [if_neg (by simpa using isFile), if_neg (by simpa using possible), found, if_neg isFile]

/-- A source that holds no bytes is not there, has a name that no file can have, or cannot be
read. -/
theorem has_or_fault (w : World) (byLine : Bool) (room : Room) (source : String) :
    (∃ bytes, w.Has source bytes) ∨
      ∃ fault, SourceFault w byLine room source fault ∧ readSource w source = .error fault := by
  by_cases isFile : source = "-"
  · subst isFile
    cases there : w.input with
    | some bytes => exact .inl ⟨bytes, .input there⟩
    | none =>
      refine .inr ⟨_, .noInput rfl there, ?_⟩
      rw [readSource, if_pos (beq_self_eq_true _), there]
  · unfold readSource
    rw [if_neg (by simpa using isFile)]
    by_cases impossible : '\x00' ∈ source.toList
    · rw [if_pos (by simpa using impossible)]
      exact .inr ⟨_, .impossibleName isFile impossible, rfl⟩
    · rw [if_neg (by simpa using impossible)]
      cases found : w.read (fileName source) with
      | ok bytes => exact .inl ⟨bytes, .file isFile impossible found⟩
      | error cause => exact .inr ⟨_, .unreadable isFile impossible found, rfl⟩

theorem load_of_undecodable {cause : Text.Utf8Fault} (held : w.Has source bytes)
    (refused : Text.decodeUtf8 bytes = .error cause) :
    load w byLine source room = .error (.undecodable cause) := by
  rw [load, held.readSource_eq]
  simp only [bind, Except.bind, refused]

theorem load_of_unread (unread : readSource w source = .error fault) :
    load w byLine source room = .error fault := by
  rw [load, unread]
  rfl

theorem load_eq_error_iff :
    load w byLine source room = .error fault ↔ SourceFault w byLine room source fault := by
  constructor
  · intro failed
    rcases has_or_fault w byLine room source with ⟨bytes, held⟩ | ⟨other, found, unread⟩
    · cases decoded : Text.decodeUtf8 bytes with
      | error cause =>
        cases failed.symm.trans (load_of_undecodable held decoded)
        exact .undecodable held decoded
      | ok cs =>
        rw [load_of_decoded byLine room held.readSource_eq decoded] at failed
        cases read : (documentTexts byLine (Text.normalizeBreaks cs)).mapM
            fun text => documentOf source text room with
        | ok documents =>
          rw [read] at failed
          cases failed
        | error other =>
          rw [read] at failed
          cases failed
          obtain ⟨text, cause, first, rfl⟩ := mapM_documentOf_eq_error_iff.mp read
          exact .text held decoded first
    · cases failed.symm.trans (load_of_unread unread)
      exact found
  · intro found
    cases found with
    | noInput isInput absent =>
      apply load_of_unread
      rw [readSource, if_pos (by simpa using isInput), absent]
    | impossibleName isFile impossible =>
      apply load_of_unread
      rw [readSource, if_neg (by simpa using isFile), if_pos (by simpa using impossible)]
    | unreadable isFile possible refused =>
      apply load_of_unread
      rw [readSource, if_neg (by simpa using isFile), if_neg (by simpa using possible), refused]
    | undecodable held refused => exact load_of_undecodable held refused
    | text held decoded first =>
      rw [load_of_decoded byLine room held.readSource_eq decoded,
        mapM_documentOf_eq_error_iff.mpr ⟨_, _, first, rfl⟩]
      rfl

theorem load_of_blank (blank : Blank w byLine source) :
    load w byLine source room = .ok ([], w.past source) := by
  obtain ⟨bytes, cs, held, decoded, none⟩ := blank
  rw [load_of_decoded byLine room held.readSource_eq decoded, none]
  rfl

/-- A source that is loaded has JSON documents, or is blank. -/
theorem isJson_of_load (loaded : load w byLine source room = .ok (documents, left)) :
    left = w.past source ∧ (documents = [] → Blank w byLine source) ∧
      ∀ document ∈ documents, ∃ j, document = .ofJson j := by
  rcases has_or_fault w byLine room source with ⟨bytes, held⟩ | ⟨other, -, unread⟩
  · cases decoded : Text.decodeUtf8 bytes with
    | error cause => cases loaded.symm.trans (load_of_undecodable held decoded)
    | ok cs =>
      rw [load_of_decoded byLine room held.readSource_eq decoded] at loaded
      cases read : (documentTexts byLine (Text.normalizeBreaks cs)).mapM
          fun text => documentOf source text room with
      | error other =>
        rw [read] at loaded
        cases loaded
      | ok found =>
        rw [read] at loaded
        cases loaded
        obtain ⟨length, isJson⟩ := isJson_of_mapM_documentOf read
        refine ⟨rfl, fun none => ⟨bytes, cs, held, decoded, ?_⟩, isJson⟩
        rw [none, List.length_nil] at length
        exact List.length_eq_zero_iff.mp length.symm
  · cases loaded.symm.trans (load_of_unread unread)

/-- A source that is at no fault is loaded. -/
theorem load_of_sound (sound : ∀ fault, ¬ SourceFault w byLine room source fault) :
    ∃ documents, load w byLine source room = .ok (documents, w.past source) ∧
      ∀ document ∈ documents, ∃ j, document = .ofJson j := by
  cases loaded : load w byLine source room with
  | error fault => exact absurd (load_eq_error_iff.mp loaded) (sound fault)
  | ok result =>
    obtain ⟨documents, left⟩ := result
    obtain ⟨rfl, -, isJson⟩ := isJson_of_load loaded
    exact ⟨documents, rfl, isJson⟩

theorem loadEach_cons_of_fault (failed : load w byLine source room = .error fault)
    (rest : List String) : loadEach byLine room w (source :: rest) = .error fault := by
  rw [loadEach, failed]
  rfl

theorem loadEach_cons_of_load (loaded : load w byLine source room = .ok (documents, left))
    (rest : List String) : loadEach byLine room w (source :: rest) =
      (loadEach byLine room left rest).map fun (more, left) => (documents ++ more, left) := by
  rw [loadEach, loaded]
  simp only [bind, Except.bind]
  cases loadEach byLine room left rest <;> rfl

theorem loadEach_of_allBlank (none : AllBlank byLine w sources) :
    loadEach byLine room w sources = .ok ([], sources.foldl World.past w) := by
  induction none with
  | nil => rfl
  | cons first rest ih =>
    rw [loadEach_cons_of_load (load_of_blank first), ih]
    rfl

theorem loadEach_eq_error_iff :
    loadEach byLine room w sources = .error fault ↔ FaultAmong byLine room w sources fault := by
  induction sources generalizing w with
  | nil =>
    refine iff_of_false (by simp [loadEach]) ?_
    rintro ⟨⟩
  | cons source rest ih =>
    cases loaded : load w byLine source room with
    | error other =>
      have own := load_eq_error_iff.mp loaded
      rw [loadEach_cons_of_fault loaded]
      constructor
      · rintro ⟨⟩
        exact .here own
      · intro found
        cases found with
        | here found => exact loaded.symm.trans (load_eq_error_iff.mpr found)
        | later sound => exact absurd own (sound other)
    | ok result =>
      obtain ⟨documents, left⟩ := result
      obtain ⟨rfl, -⟩ := isJson_of_load loaded
      have sound (other : LoadFault) : ¬ SourceFault w byLine room source other := by
        intro found
        cases loaded.symm.trans (load_eq_error_iff.mpr found)
      have goesOn : ((loadEach byLine room (w.past source) rest).map fun (more, left) =>
          (documents ++ more, left)) = .error fault ↔
            loadEach byLine room (w.past source) rest = .error fault := by
        cases loadEach byLine room (w.past source) rest <;> simp [Except.map]
      rw [loadEach_cons_of_load loaded, goesOn, ih]
      refine ⟨.later sound, fun found => ?_⟩
      cases found with
      | here found => exact absurd found (sound fault)
      | later _ found => exact found

/-- Sources that are loaded have JSON documents, or are all blank. -/
theorem isJson_of_loadEach (loaded : loadEach byLine room w sources = .ok (documents, left)) :
    left = sources.foldl World.past w ∧ (documents = [] → AllBlank byLine w sources) ∧
      ∀ document ∈ documents, ∃ j, document = .ofJson j := by
  induction sources generalizing w documents with
  | nil =>
    cases loaded
    exact ⟨rfl, fun _ => .nil, by simp⟩
  | cons source rest ih =>
    cases first : load w byLine source room with
    | error fault => cases loaded.symm.trans (loadEach_cons_of_fault first rest)
    | ok result =>
      obtain ⟨own, after⟩ := result
      obtain ⟨rfl, blank, isJson⟩ := isJson_of_load first
      rw [loadEach_cons_of_load first] at loaded
      cases later : loadEach byLine room (w.past source) rest with
      | error fault =>
        rw [later] at loaded
        cases loaded
      | ok result =>
        rw [later] at loaded
        cases loaded
        obtain ⟨same, blankLater, isJsonLater⟩ := ih later
        refine ⟨same, fun none => ?_, List.forall_mem_append.mpr ⟨isJson, isJsonLater⟩⟩
        obtain ⟨none, noneLater⟩ := List.append_eq_nil_iff.mp none
        exact .cons (blank none) (blankLater noneLater)

/-- Reading sources does not change what can be printed. -/
theorem prints_past (w : World) (sources : List String) :
    (sources.foldl World.past w).prints = w.prints := by
  induction sources generalizing w with
  | nil => rfl
  | cons source rest ih =>
    rw [List.foldl_cons, ih, World.past]
    split <;> rfl

/-! ## Requests -/

theorem loadAll_of_fault (found : SamplesFault w byLine room sources fault) :
    loadAll w byLine sources room = .error fault := by
  rw [loadAll]
  cases found with
  | source found =>
    rw [loadEach_eq_error_iff.mpr found]
    rfl
  | blank none =>
    rw [loadEach_of_allBlank none]
    rfl

/-- Samples that are at no fault have JSON documents. -/
theorem loadAll_of_sound (sound : ∀ fault, ¬ SamplesFault w byLine room sources fault) :
    ∃ documents, loadAll w byLine sources room = .ok (documents, sources.foldl World.past w) ∧
      documents ≠ [] ∧ ∀ document ∈ documents, ∃ j, document = .ofJson j := by
  cases loaded : loadEach byLine room w sources with
  | error fault => exact absurd (.source (loadEach_eq_error_iff.mp loaded)) (sound fault)
  | ok result =>
    obtain ⟨documents, left⟩ := result
    obtain ⟨rfl, blank, isJson⟩ := isJson_of_loadEach loaded
    have filled : documents ≠ [] := fun none => sound _ (.blank (blank none))
    have some : documents.isEmpty = false := by simpa using filled
    refine ⟨documents, ?_, filled, isJson⟩
    rw [loadAll, loaded]
    simp only [bind, Except.bind, some]
    rfl

theorem withSamples_of_fault (found : SamplesFault w byLine stack.reading sources fault)
    (log : LogLevel.Log) (next : World → List Value → Outcome) :
    withSamples w byLine stack log sources next = ⟨[], .ofLoadFault fault⟩ := by
  rw [withSamples, loadAll_of_fault found]

/-- Samples that are at no fault are logged, and what follows is done with JSON documents. -/
theorem withSamples_of_sound (sound : ∀ fault, ¬ SamplesFault w byLine stack.reading sources fault)
    (log : LogLevel.Log) (next : World → List Value → Outcome) :
    ∃ documents, documents ≠ [] ∧ (∀ document ∈ documents, ∃ j, document = .ofJson j) ∧
      withSamples w byLine stack log sources next =
        ⟨log.written [loadedRecord documents.length sources.length],
          next (sources.foldl World.past w) documents⟩ := by
  obtain ⟨documents, loaded, filled, isJson⟩ := loadAll_of_sound sound
  exact ⟨documents, filled, isJson, by rw [withSamples, loaded]⟩

theorem not_hasRoom_of_building (unfit : stack.building.fits c.calls = false) :
    ¬ HasRoom stack c := by
  intro room
  cases unfit.symm.trans room.building

theorem finishes_printed {status : Nat} (output : String) (isStatus : status = 0 ∨
    status = 1 ∧ ∃ samples document, command = .validate samples document) :
    Finishes w.prints c stack command (.printed w status output) := by
  unfold Outcome.printed
  split
  · rename_i printed
    rcases isStatus with rfl | ⟨rfl, samples, document, asked⟩
    · exact .done printed
    · exact .invalid asked printed
  · rename_i refused
    exact .unprintable (Bool.eq_false_iff.mpr refused)

theorem finishes_shown {calls : Nat} (output : String) (few : calls ≤ c.calls) :
    Finishes w.prints c stack command (.shown w stack.printing calls output) := by
  unfold Outcome.shown
  split
  · exact finishes_printed _ (.inl rfl)
  · rename_i unfit
    exact .tooDeep fun room => unfit (Room.fits_of_le room.printing few)

section Json
variable (filled : documents ≠ []) (isJson : ∀ document ∈ documents, ∃ j, document = .ofJson j)
include filled isJson

theorem finishes_printSchema (exported : Bool) :
    Finishes w.prints c stack command (printSchema w c stack exported documents) := by
  unfold printSchema
  obtain ⟨-, predicted | ⟨refused, unfit⟩⟩ := infers_json c filled isJson stack
  · rw [predicted]
    dsimp only
    split
    · exact finishes_shown _ (Analysis.height_document_le filled)
    · exact finishes_shown _ ((Nat.le_add_right _ 2).trans (Analysis.labelCalls_le filled))
  · rw [refused]
    exact .tooDeep (not_hasRoom_of_building unfit)

theorem finishes_printAnalysis :
    Finishes w.prints c stack command (printAnalysis w c stack documents) := by
  rw [printAnalysis, (infers_json c filled isJson stack).1]
  exact finishes_shown _ Analysis.report_le

/-- The document is looked for once there is a schema to check it against. -/
theorem printIssues_of_fault {document : String}
    (found : SourceFault w false stack.reading document fault) :
    printIssues w c stack document documents = .ofLoadFault fault ∨
      printIssues w c stack document documents = .escape (.refused .tooDeep) ∧
        stack.building.fits c.calls = false := by
  unfold printIssues
  obtain ⟨-, predicted | ⟨refused, unfit⟩⟩ := infers_json c filled isJson stack
  · rw [predicted]
    dsimp only
    rw [load_eq_error_iff.mpr found]
    exact .inl rfl
  · rw [refused]
    exact .inr ⟨rfl, unfit⟩

theorem finishes_printIssues {samples : List String} {document : String}
    (sound : ∀ fault, ¬ SourceFault w false stack.reading document fault) :
    Finishes w.prints c stack (.validate samples document)
      (printIssues w c stack document documents) := by
  unfold printIssues
  obtain ⟨-, predicted | ⟨refused, unfit⟩⟩ := infers_json c filled isJson stack
  · obtain ⟨loaded, load, isJsonLoaded⟩ := load_of_sound sound
    have json : ∃ j, loaded.headD .null = .ofJson j := by
      cases loaded with
      | nil => exact ⟨.null, rfl⟩
      | cons first rest => exact isJsonLoaded first List.mem_cons_self
    rw [predicted]
    dsimp only
    rw [load]
    dsimp only
    obtain checked | ⟨refused, unfit⟩ := validate_json (c := c) filled json stack.checking
    · rw [checked]
      split
      · contradiction
      · exact finishes_printed _ (.inl rfl)
      · exact finishes_printed _ (.inr ⟨rfl, samples, document, rfl⟩)
    · rw [refused]
      refine .tooDeep fun room => ?_
      cases unfit.symm.trans room.checking
  · rw [refused]
    exact .tooDeep (not_hasRoom_of_building unfit)

end Json

/-- A fault in the sources ends a command. That of the document that is to be valid is come to if
the samples are at no fault and there is room to make their schema. -/
theorem runCommand_of_fault (found : RequestFault w r stack.reading fault) (c : Config)
    (log : LogLevel.Log) :
    (runCommand w c r.byLine stack log r.command).outcome = .ofLoadFault fault ∨
      (runCommand w c r.byLine stack log r.command).outcome = .escape (.refused .tooDeep) ∧
        stack.building.fits c.calls = false ∧
        ∀ other, ¬ SamplesFault w r.byLine stack.reading r.command.samples other := by
  cases found with
  | samples found =>
    left
    cases asked : r.command <;>
      · rw [asked, Command.samples] at found
        rw [runCommand, withSamples_of_fault found]
  | document asked sound found =>
    obtain ⟨documents, filled, isJson, ran⟩ := withSamples_of_sound sound log
      fun left => printIssues left c stack _
    rw [asked, runCommand, ran]
    obtain reported | ⟨refused, unfit⟩ := printIssues_of_fault filled isJson found
    · exact .inl reported
    · exact .inr ⟨refused, unfit, sound⟩

theorem runCommand_of_sound (sound : ∀ fault, ¬ RequestFault w r stack.reading fault) (c : Config)
    (log : LogLevel.Log) :
    Finishes w.prints c stack r.command (runCommand w c r.byLine stack log r.command).outcome := by
  have samplesSound (fault : LoadFault) :
      ¬ SamplesFault w r.byLine stack.reading r.command.samples fault :=
    fun found => sound fault (.samples found)
  cases asked : r.command with
  | predict sources exported =>
    rw [asked, Command.samples] at samplesSound
    obtain ⟨documents, filled, isJson, ran⟩ := withSamples_of_sound samplesSound log
      fun left => printSchema left c stack exported
    rw [runCommand, ran, ← prints_past w sources]
    exact finishes_printSchema filled isJson exported
  | analyze sources =>
    rw [asked, Command.samples] at samplesSound
    obtain ⟨documents, filled, isJson, ran⟩ := withSamples_of_sound samplesSound log
      fun left => printAnalysis left c stack
    rw [runCommand, ran, ← prints_past w sources]
    exact finishes_printAnalysis filled isJson
  | validate samples document =>
    rw [asked, Command.samples] at samplesSound
    obtain ⟨documents, filled, isJson, ran⟩ := withSamples_of_sound samplesSound log
      fun left => printIssues left c stack document
    rw [runCommand, ran, ← prints_past w samples]
    exact finishes_printIssues filled isJson fun fault found =>
      sound fault (.document asked samplesSound found)

/-- At the usual level and above, a command logs that samples have been loaded and nothing else. -/
theorem log_runCommand {log : LogLevel.Log} {record : LogLevel.Record}
    (logged : record ∈ (runCommand w c byLine stack log command).log) :
    ∃ documents sources, record = loadedRecord documents sources := by
  have withSamples {sources : List String} {next : World → List Value → Outcome}
      (logged : record ∈ (withSamples w byLine stack log sources next).log) :
      ∃ documents sources, record = loadedRecord documents sources := by
    unfold withSamples at logged
    split at logged
    · cases logged
    · exact ⟨_, _, List.mem_singleton.mp (List.mem_filter.mp logged).1⟩
  cases command <;> exact withSamples logged

theorem ofLoadFault_eq (fault : LoadFault) : Outcome.ofLoadFault fault =
    if fault.isReported then .exit 2 "" ("error: " ++ fault.message ++ "\n")
    else .escape (.load fault) := by
  cases fault <;> rfl

/-- The depth that is asked for is taken if it is a possible one, and refused otherwise. -/
theorem thresholds_cases (r : Request) (settings : Settings) :
    (r.DepthFits ∧ ∃ c, thresholds settings r.maxDepth = .ok c) ∨
      (¬ r.DepthFits ∧ ∃ faults, thresholds settings r.maxDepth = .faulty faults) := by
  unfold Request.DepthFits
  cases r.maxDepth with
  | none => exact .inl ⟨by simp, _, rfl⟩
  | some depth =>
    simp only [Option.some.injEq, forall_eq', thresholds, Config.withMaxDepth, Field.between,
      Field.integer, Checked.andThen]
    split
    · exact .inr ⟨by omega, _, rfl⟩
    · split
      · exact .inr ⟨by omega, _, rfl⟩
      · exact .inl ⟨by omega, _, rfl⟩

/-- A run of proper arguments with valid settings reports a depth that is not possible, and exits
with two. If the depth is possible, the first fault in the sources ends it; it exits with two and
reports the fault, unless that is one of the five which are not reported, or the samples are at no
fault and there is too little room to come to the document that is to be valid. If nothing is wrong
with the sources, it exits with zero or one and nothing to report, unless there is too little room
or the result cannot be printed. All that it logs at the usual level and above is that samples have
been loaded. -/
theorem run_reports {w : World} {env : Variables} {args : List String} {r : Request}
    {settings : Settings} (stack : Stack) (asked : Request.read args = .request r)
    (valid : Settings.load [] env = .ok settings) :
    (¬ r.DepthFits → ∃ reason, run w env args stack =
      ⟨[], .exit 2 "" ("error: invalid --max-depth: " ++ reason ++ "\n")⟩) ∧
    (r.DepthFits → ∃ c, thresholds settings r.maxDepth = .ok c ∧
      (∀ fault, RequestFault w r stack.reading fault →
        (run w env args stack).outcome = (if fault.isReported
          then .exit 2 "" ("error: " ++ fault.message ++ "\n") else .escape (.load fault)) ∨
        (run w env args stack).outcome = .escape (.refused .tooDeep) ∧
          stack.building.fits c.calls = false ∧
          ∀ other, ¬ SamplesFault w r.byLine stack.reading r.command.samples other) ∧
      ((∀ fault, ¬ RequestFault w r stack.reading fault) →
        Finishes w.prints c stack r.command (run w env args stack).outcome)) ∧
    ∀ record ∈ (run w env args stack).log, ∃ documents sources,
      record = loadedRecord documents sources := by
  rcases thresholds_cases r settings with ⟨fits, c, set⟩ | ⟨unfit, faults, refused⟩
  · have started : run w env args stack =
        runCommand w c r.byLine stack (logOf settings r.logLevel) r.command := by
      simp only [run, asked, valid, set]
    rw [started]
    refine ⟨fun unfit => absurd fits unfit,
      fun _ => ⟨c, set, fun fault found => ?_, fun sound => ?_⟩, fun _ => log_runCommand⟩
    · rw [← ofLoadFault_eq]
      exact runCommand_of_fault found c _
    · exact runCommand_of_sound sound c _
  · have ended : ∃ reason, run w env args stack =
        ⟨[], .exit 2 "" ("error: invalid --max-depth: " ++ reason ++ "\n")⟩ := by
      simp only [run, asked, valid, refused]
      exact ⟨_, rfl⟩
    refine ⟨fun _ => ended, fun fits => absurd fits unfit, ?_⟩
    obtain ⟨reason, ended⟩ := ended
    rw [ended]
    rintro _ ⟨⟩

/-- Standard input is named twice. There is a list on it, and nothing when it is read again. -/
theorem run_of_input_twice :
    let w : World := { read := fun _ => .error .missing, input := some [0x5B, 0x5D] }
    let args := ["analyze", "-", "-"]
    let r : Request :=
      { logLevel := none, maxDepth := none, byLine := false, command := .analyze ["-", "-"] }
    let reason := "invalid JSON: Expecting value: line 1 column 1 (char 0)"
    let fault := faultOfText "-" [] (.malformed .value 0)
    Request.read args = .request r ∧ (∃ settings, Settings.load [] [] = .ok settings) ∧
      r.DepthFits ∧ RequestFault w r none fault ∧ (run w [] args).outcome =
        .exit 2 "" ("error: Cannot load document from -: " ++ reason ++ "\n") := by
  intro w args r reason fault
  have asked : Request.read args = .request r := by decide +kernel
  have valid : ∃ settings, Settings.load [] [] = .ok settings := ⟨_, rfl⟩
  have fits : r.DepthFits := by
    rintro _ ⟨⟩
  have first (other : LoadFault) : ¬ SourceFault w false none "-" other := by
    intro found
    cases load_eq_error_iff.mpr found
  have second : SourceFault (w.past "-") false none "-" fault :=
    .text (.input rfl) rfl ⟨[], [], rfl, by simp, rfl⟩
  have found : RequestFault w r none fault := .samples (.source (.later first (.here second)))
  refine ⟨asked, valid, fits, found, ?_⟩
  obtain ⟨settings, loaded⟩ := valid
  obtain ⟨c, -, faults, -⟩ := (run_reports .ample asked loaded).2.1 fits
  obtain reported | ⟨-, narrow⟩ := faults fault found
  · rw [reported]
    decide +kernel
  · cases narrow.1

/-- A byte that is no text ends a run without a report, and so do a name that no file can have and
standard input that is not there. -/
theorem undecodable_not_reported :
    let w : World := { read := fun _ => .ok [0xFF], input := none }
    let r : Request :=
      { logLevel := none, maxDepth := none, byLine := false, command := .predict ["d"] false }
    (∃ settings, Settings.load [] [] = .ok settings) ∧ Request.read ["predict", "d"] = .request r ∧
      (∀ status output errors, (run w [] ["predict", "d"]).outcome ≠ .exit status output errors) ∧
      (∀ status output errors,
        (run w [] ["predict", "\x00"]).outcome ≠ .exit status output errors) ∧
      ∀ status output errors, (run w [] ["predict", "-"]).outcome ≠ .exit status output errors := by
  intro w r
  have undecodable : (run w [] ["predict", "d"]).outcome =
      .escape (.load (.undecodable ⟨0, [0xFF], .startByte⟩)) := by decide +kernel
  have impossible : (run w [] ["predict", "\x00"]).outcome = .escape (.load .impossibleName) := by
    decide +kernel
  have absent : (run w [] ["predict", "-"]).outcome = .escape (.load .noInput) := by
    decide +kernel
  refine ⟨⟨_, rfl⟩, by decide +kernel, ?_, ?_, ?_⟩ <;> intro status output errors
  · rw [undecodable]
    nofun
  · rw [impossible]
    nofun
  · rw [absent]
    nofun

end CommandLine
end SchemaInference
