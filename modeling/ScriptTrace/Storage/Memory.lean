import ScriptTrace.Storage
import ScriptTrace.Table

/-!
Files in memory with faults on demand. Paths are texts without structure. Every call is noted before
it is judged, then the first fault that applies to it makes it fail, then the call itself may fail.
A fault on writes is chosen when a stream is opened and ends the stream after a number of bytes.
-/

set_option autoImplicit false

namespace ScriptTrace

/-- The calls a fault may apply to. -/
inductive FaultPoint where
  | createDirectory
  | createNew
  | openAppend
  | removeFile
  | flush
  | write
deriving DecidableEq, Repr

/-- How a call is noted. -/
def FaultPoint.name : FaultPoint → String
  | createDirectory => "mkdir"
  | createNew => "create"
  | openAppend => "append"
  | removeFile => "remove"
  | flush => "flush"
  | write => "write"

/-- The call noted under this name; any other name stands for writes. -/
def FaultPoint.ofName (name : String) : FaultPoint :=
  ([createDirectory, createNew, openAppend, removeFile, flush].find? (·.name == name)).getD write

/-- A fault on demand. -/
structure FaultRule where
  point : FaultPoint
  /-- A part of the paths it applies to. -/
  fragment : String
  error : IoError
  /-- For writes, the number of bytes taken before the failure. -/
  after : Nat
  /-- How often it still applies; without a number, always. -/
  times : Option Nat

/-- An open stream. -/
structure MemoryStream where
  path : String
  quota : Option Quota

/-- Files in memory. -/
structure MemoryStore where
  files : Table String Bytes
  /-- The streams opened so far, by handle. -/
  streams : List MemoryStream
  /-- The calls noted so far, the last one first. -/
  noted : List String
  rules : List FaultRule

namespace MemoryStore

/-- Files without faults. -/
def ofFiles (files : List (String × Bytes)) (rules : List FaultRule) : MemoryStore where
  files := files.foldl (fun t (path, content) => t.set path content) Table.empty
  streams := []
  noted := []
  rules := rules

/-- Whether one text occurs in another. -/
def occursIn (part whole : List Char) : Bool :=
  part.isPrefixOf whole ||
    match whole with
    | [] => false
    | _ :: rest => occursIn part rest

/-- Whether a rule applies to a call. -/
def applies (point : FaultPoint) (path : String) (r : FaultRule) : Bool :=
  r.point == point && occursIn r.fragment.toList path.toList && r.times != some 0

/-- The first rule that applies to a call, and the rules after it has. -/
def trigger (point : FaultPoint) (path : String) :
    List FaultRule → Option FaultRule × List FaultRule
  | [] => (none, [])
  | r :: rest =>
    if applies point path r then (some r, { r with times := r.times.map (· - 1) } :: rest)
    else
      let (found, rest) := trigger point path rest
      (found, r :: rest)

/-- Note a call, failing if a rule says so. -/
def call (point : FaultPoint) (path : String) : IoAct MemoryStore Unit := fun s =>
  let s := { s with noted := (point.name ++ " " ++ path) :: s.noted }
  match trigger point path s.rules with
  | (some r, rules) => .error r.error { s with rules := rules }
  | (none, _) => .ok () s

/-- Open a stream to a file, with the quota that a rule on writes gives it. -/
def openStream (path : String) : IoAct MemoryStore Handle := fun s =>
  let (found, rules) := trigger .write path s.rules
  let quota := found.map fun r => (⟨r.after, r.error⟩ : Quota)
  .ok s.streams.length { s with streams := s.streams ++ [⟨path, quota⟩], rules := rules }

def createDirectory (path : String) : IoAct MemoryStore Unit := call .createDirectory path

def createNew (path : String) : IoAct MemoryStore Handle := do
  call .createNew path
  if (← get).files.contains path then throw ⟨.alreadyExists, "exists"⟩
  modify fun s => { s with files := s.files.set path [] }
  openStream path

def openAppend (path : String) : IoAct MemoryStore Handle := do
  call .openAppend path
  unless (← get).files.contains path do
    modify fun s => { s with files := s.files.set path [] }
  openStream path

def removeFile (path : String) : IoAct MemoryStore Unit := do
  call .removeFile path
  unless (← get).files.contains path do throw ⟨.notFound, "missing"⟩
  modify fun s => { s with files := s.files.erase path }

/-- Append bytes to a file that is still there. -/
def append (path : String) (bs : Bytes) (s : MemoryStore) : MemoryStore :=
  match s.files.get? path with
  | none => s
  | some content => { s with files := s.files.set path (content ++ bs) }

def write (h : Handle) (bs : Bytes) : IoAct MemoryStore Unit := fun s =>
  match s.streams[h]? with
  | none => .error ⟨.notFound, "missing"⟩ s
  | some stream =>
    let (granted, quota, failure) := Quota.grant stream.quota bs
    let s := { s with streams := s.streams.set h { stream with quota := quota } }
    let s := s.append stream.path granted
    match failure with
    | none => .ok () s
    | some e => .error e s

def flush (h : Handle) : IoAct MemoryStore Unit := fun s =>
  match s.streams[h]? with
  | none => .error ⟨.notFound, "missing"⟩ s
  | some stream => call .flush stream.path s

/-- The content of a file. -/
def read (path : String) (s : MemoryStore) : Except IoError Bytes :=
  match s.files.get? path with
  | some content => .ok content
  | none => .error ⟨.notFound, "missing"⟩

/-- The files with their contents. -/
def listing (s : MemoryStore) : List (String × Option Bytes) :=
  s.files.entries.map fun (path, content) => (path, some content)

/-- Files in memory as a storage. -/
def storage : Storage MemoryStore where
  createDirectory := createDirectory
  createNew := createNew
  openAppend := openAppend
  removeFile := removeFile
  read := read
  write := write
  flush := flush
  release _ s := s

end MemoryStore

end ScriptTrace
