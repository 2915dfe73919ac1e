import ScriptTrace.Storage
import ScriptTrace.Storage.Node
import ScriptTrace.Storage.Path

/-!
Files in a tree of directories, written through buffers. Paths start in a base directory. A path is
followed from directory to directory, and the first step that cannot be taken decides the failure.
A directory is made with those above it that are missing. A stream keeps small writes in a buffer of
fixed capacity and passes them on when the buffer would overflow, when it is flushed and when it is
released; a write as large as the buffer goes past it.
-/

set_option autoImplicit false

namespace ScriptTrace

/-- A stream with bytes not yet passed on. -/
structure BufferedStream where
  /-- The names that lead to its file. -/
  names : List String
  buffer : Bytes

/-- A tree of directories with the streams opened so far. -/
structure FileTree where
  root : Node
  streams : List BufferedStream

/-- A directory that a path has led to. -/
structure Location where
  /-- The names that lead to it, the last one first. -/
  trail : List String
  entries : List (String × Node)

/-- What a path is about. -/
inductive Target where
  /-- A directory reached by `.` or `..`, or the root. -/
  | here
  /-- An entry with the names that lead to it, whether a slash follows, and what is there. -/
  | entry (names : List String) (slashed : Bool) (found : Except IoError (Option Node))

namespace FileTree

/-- The directory that paths start in. -/
def base : List String := ["srv", "sessions"]

/-- A tree with an empty base directory. -/
def empty : FileTree := ⟨.place (.directory []) base (.directory []), []⟩

/-- The number of bytes a stream holds back at most. -/
def bufferCapacity : Nat := 8192

def notFound : IoError := ⟨.notFound, "not found"⟩

def notADirectory : IoError := ⟨.notADirectory, "not a directory"⟩

def isADirectory : IoError := ⟨.isADirectory, "is a directory"⟩

def alreadyExists : IoError := ⟨.alreadyExists, "exists"⟩

/-- The text of a path from the root. -/
def fromRoot (path : String) : String := joinPath ("/" ++ "/".intercalate base) path

/-- The entry of a directory with this name. -/
def look (location : Location) (name : String) : Except IoError (Option Node) :=
  if name.utf8ByteSize > Path.nameLimit then .error Path.invalidFilename
  else .ok (Table.find name location.entries)

/-- Go on from a directory by each name in turn; `above` are the directories above it, the nearest
one first. -/
def walk : Location → List Location → List String → Except IoError Location
  | location, _, [] => .ok location
  | location, above, name :: rest =>
    if name = "." then walk location above rest
    else if name = ".." then
      match above with
      | [] => walk location [] rest
      | parent :: higher => walk parent higher rest
    else
      match look location name with
      | .error e => .error e
      | .ok none => .error notFound
      | .ok (some (.file _)) => .error notADirectory
      | .ok (some (.directory entries)) =>
        walk ⟨name :: location.trail, entries⟩ (location :: above) rest

/-- Follow a path. -/
def locate (path : Path) (t : FileTree) : Except IoError Target := do
  let location ← walk ⟨[], t.root.entries⟩ [] path.steps
  match path.final with
  | .here => return .here
  | .entry name slashed =>
    return .entry (name :: location.trail).reverse slashed (look location name)

/-- Follow the path that a text holds. -/
def follow (path : String) (t : FileTree) : Except IoError Target := do
  t.locate (← Path.ofText (fromRoot path))

/-- Put an entry at the end of a chain of names. -/
def place (names : List String) (node : Node) (t : FileTree) : FileTree :=
  { t with root := .place node names t.root }

/-- Open a stream to the end of a file. -/
def openStream (names : List String) : IoAct FileTree Handle := fun t =>
  .ok t.streams.length { t with streams := t.streams ++ [⟨names, []⟩] }

/-- Make a directory where nothing is; one that is there already will do. -/
def makeDirectory (path : Path) : IoAct FileTree Unit := fun t =>
  match t.locate path with
  | .error e => .error e t
  | .ok .here => .ok () t
  | .ok (.entry _ _ (.error e)) => .error e t
  | .ok (.entry _ _ (.ok (some (.directory _)))) => .ok () t
  | .ok (.entry _ _ (.ok (some (.file _)))) => .error alreadyExists t
  | .ok (.entry names _ (.ok none)) => .ok () (t.place names (.directory []))

/-- Make a directory; if something on the way to it is missing, do `first` and try once more. -/
def makeAfter (first : IoAct FileTree Unit) (path : Path) : IoAct FileTree Unit := fun t =>
  match makeDirectory path t with
  | .ok () t => .ok () t
  | .error e t => if e.kind = .notFound then (do first; makeDirectory path) t else .error e t

/-- Make the directory with these names, the last one first, and those above it. -/
def makeAll : List String → IoAct FileTree Unit
  | [] => return ()
  | name :: above => makeAfter (makeAll above) (Path.ofNames (name :: above).reverse false)

def createDirectory (path : String) : IoAct FileTree Unit := fun t =>
  match Path.ofText (fromRoot path) with
  | .error e => .error e t
  | .ok target => makeAfter (makeAll (Path.above (fromRoot path))) target t

def createNew (path : String) : IoAct FileTree Handle := fun t =>
  match t.follow path with
  | .error e => .error e t
  | .ok .here => .error alreadyExists t
  | .ok (.entry _ true _) => .error isADirectory t
  | .ok (.entry _ false (.error e)) => .error e t
  | .ok (.entry _ false (.ok (some _))) => .error alreadyExists t
  | .ok (.entry names false (.ok none)) => openStream names (t.place names (.file []))

def openAppend (path : String) : IoAct FileTree Handle := fun t =>
  match t.follow path with
  | .error e => .error e t
  | .ok .here => .error isADirectory t
  | .ok (.entry _ true _) => .error isADirectory t
  | .ok (.entry _ false (.error e)) => .error e t
  | .ok (.entry _ false (.ok (some (.directory _)))) => .error isADirectory t
  | .ok (.entry names false (.ok (some (.file _)))) => openStream names t
  | .ok (.entry names false (.ok none)) => openStream names (t.place names (.file []))

/-- The file that a path is about, with the names that lead to it. -/
def file (path : String) (t : FileTree) : Except IoError (List String × Bytes) := do
  match ← t.follow path with
  | .here => throw isADirectory
  | .entry names slashed found =>
    match ← found with
    | none => throw notFound
    | some (.directory _) => throw isADirectory
    | some (.file content) => if slashed then throw notADirectory else return (names, content)

def removeFile (path : String) : IoAct FileTree Unit := fun t =>
  match t.file path with
  | .error e => .error e t
  | .ok (names, _) => .ok () { t with root := t.root.erase names }

/-- The content of a file. -/
def read (path : String) (t : FileTree) : Except IoError Bytes := (·.2) <$> t.file path

/-- The files in the base directory with their contents, and the directories, whose paths end in a
slash. -/
def listing (t : FileTree) : List (String × Option Bytes) :=
  Node.listings "" (((t.root.at? base).map Node.entries).getD [])

/-- Append bytes to a file that is still there. -/
def append (names : List String) (bs : Bytes) (t : FileTree) : FileTree :=
  match t.root.at? names with
  | some (.file content) => t.place names (.file (content ++ bs))
  | _ => t

/-- What a stream passes on and what it holds back when bytes are written to it. -/
def BufferedStream.accept (buffer bs : Bytes) : Bytes × Bytes :=
  let room := bufferCapacity - buffer.length
  if bs.length < room then ([], buffer ++ bs)
  else
    let (passed, kept) := if bs.length > room then (buffer, []) else ([], buffer)
    if bs.length ≥ bufferCapacity then (passed ++ bs, kept) else (passed, kept ++ bs)

/-- Pass bytes of a stream on and hold others back. -/
def settle (h : Handle) (stream : BufferedStream) (passed kept : Bytes) (t : FileTree) : FileTree :=
  append stream.names passed { t with streams := t.streams.set h { stream with buffer := kept } }

def write (h : Handle) (bs : Bytes) : IoAct FileTree Unit := fun t =>
  match t.streams[h]? with
  | none => .error ⟨.notFound, "not found"⟩ t
  | some stream =>
    let (passed, kept) := BufferedStream.accept stream.buffer bs
    .ok () (settle h stream passed kept t)

/-- Pass on all that a stream holds back. -/
def drain (h : Handle) (t : FileTree) : FileTree :=
  match t.streams[h]? with
  | none => t
  | some stream => settle h stream stream.buffer [] t

/-- Files in a tree as a storage. -/
def storage : Storage FileTree where
  createDirectory := createDirectory
  createNew := createNew
  openAppend := openAppend
  removeFile := removeFile
  read := read
  write := write
  flush h := modify (drain h)
  release h t := drain h t

/-- A tree with these files and the directories above them. -/
def ofFiles (files : List (String × Bytes)) : FileTree :=
  files.foldl (fun t (path, content) =>
    t.place (base ++ (Path.names path).filter (· ≠ ".")) (.file content)) empty

end FileTree

end ScriptTrace
