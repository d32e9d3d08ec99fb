import SchemaInference.Json.Reader
import SchemaInference.Text.Lines
import SchemaInference.Text.Blank
import SchemaInference.Text.Quoted
import SchemaInference.Text.Utf8
import SchemaInference.Value.Document

/-!
Sources of documents: files, and standard input, which can be read once if it is there. Their bytes
are UTF-8 text in JSON, one document in all or one on each line.
-/

namespace SchemaInference.CommandLine

/-- Why a file cannot be read. Some faults have names here, others only what the system says. -/
inductive FileFault where
  | missing
  | notDirectory
  | directory
  | longName
  | denied
  | other (number : Nat) (sentence : String)
  deriving DecidableEq, Repr

namespace FileFault

/-- The number and the sentence that a system has for a fault. -/
def text : FileFault → String
  | .denied => "[Errno 13] Permission denied"
  | .missing => "[Errno 2] No such file or directory"
  | .notDirectory => "[Errno 20] Not a directory"
  | .directory => "[Errno 21] Is a directory"
  | .longName => "[Errno 36] File name too long"
  | .other number sentence => "[Errno " ++ toString number ++ "] " ++ sentence

end FileFault

/-- The name of a file without points that stand for where one is already, and without slashes that
nothing stands between. Two slashes in front, and no more, have a meaning of their own. -/
def fileName (name : String) : String :=
  let parts := (name.splitOn "/").filter fun part => part != "" && part != "."
  let root :=
    if name.startsWith "//" && !name.startsWith "///" then "//"
    else if name.startsWith "/" then "/" else ""
  let whole := root ++ "/".intercalate parts
  if whole == "" then "." else whole

/-- What the program can see and say: files by their names, the bytes on standard input if it has
one, and the texts that it can print, each of whose characters must have a code on standard output.
-/
structure World where
  read : String → Except FileFault (List UInt8)
  input : Option (List UInt8)
  prints : String → Bool := fun _ => true

/-- Why documents cannot be loaded. The program reports a source that cannot be read, holds no JSON
or no document; it fails on bytes that are no text, on a whole number of too many digits, on lists
and objects nested too deep, on a name that no file can have, and on standard input that is not
there. -/
inductive LoadFault where
  | unreadable (source : String) (fault : FileFault)
  | malformed (source : String) (message : String)
  | noDocuments (sources : List String)
  | undecodable (fault : Text.Utf8Fault)
  | tooManyDigits (message : String)
  | tooNested (message : String)
  | impossibleName
  | noInput
  deriving DecidableEq, Repr

namespace LoadFault

/-- What is said of a fault. -/
def message : LoadFault → String
  | .unreadable source fault =>
    "Cannot load document from " ++ source ++ ": " ++ fault.text ++ ": "
      ++ Text.quoted (fileName source)
  | .malformed source message =>
    "Cannot load document from " ++ source ++ ": invalid JSON: " ++ message
  | .noDocuments sources =>
    "Cannot load document from " ++ ", ".intercalate sources ++ ": no documents found"
  | .undecodable fault => fault.message
  | .tooManyDigits message | .tooNested message => message
  | .impossibleName => "embedded null byte"
  | .noInput => "'NoneType' object has no attribute 'read'"

end LoadFault

/-- The bytes of a source, and what is left on standard input. -/
def readSource (w : World) (source : String) : Except LoadFault (List UInt8 × World) :=
  if source == "-" then
    match w.input with
    | some bytes => .ok (bytes, { w with input := some [] })
    | none => .error .noInput
  else if source.toList.contains '\x00' then .error .impossibleName
  else
    match w.read (fileName source) with
    | .ok bytes => .ok (bytes, w)
    | .error fault => .error (.unreadable source fault)

/-- The document in a text. -/
def documentOf (source : String) (cs : List Char) (room : Room := none) : Except LoadFault Value :=
  match Json.read cs room with
  | .ok j => .ok (.ofJson j)
  | .error fault =>
    let message := fault.message cs
    match fault with
    | .malformed .. => .error (.malformed source message)
    | .tooManyDigits _ => .error (.tooManyDigits message)
    | .tooNested _ => .error (.tooNested message)

/-- The texts of the documents in a source: lines that are not blank, or all of it. -/
def documentTexts (byLine : Bool) (cs : List Char) : List (List Char) :=
  if byLine then (Text.lines cs).filter fun line => !line.all Text.isBlank else [cs]

/-- The documents in a source. -/
def load (w : World) (byLine : Bool) (source : String) (room : Room := none) :
    Except LoadFault (List Value × World) := do
  let (bytes, w) ← readSource w source
  match Text.decodeUtf8 bytes with
  | .error fault => .error (.undecodable fault)
  | .ok cs =>
    let documents ← (documentTexts byLine (Text.normalizeBreaks cs)).mapM
      fun text => documentOf source text room
    .ok (documents, w)

/-- The documents in some sources, in order. -/
def loadEach (byLine : Bool) (room : Room) :
    World → List String → Except LoadFault (List Value × World)
  | w, [] => .ok ([], w)
  | w, source :: rest => do
    let (documents, w) ← load w byLine source room
    let (more, w) ← loadEach byLine room w rest
    .ok (documents ++ more, w)

/-- The documents in some sources, of which there must be one. -/
def loadAll (w : World) (byLine : Bool) (sources : List String) (room : Room := none) :
    Except LoadFault (List Value × World) := do
  let (documents, w) ← loadEach byLine room w sources
  if documents.isEmpty then .error (.noDocuments sources) else .ok (documents, w)

end SchemaInference.CommandLine
