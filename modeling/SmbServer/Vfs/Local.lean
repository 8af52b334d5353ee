/-
# The local backend

`LocalBackend` and `localHandle` of `smb/vfs/vfs.go`: a share is a directory of the
machine's file system, and a handle is an open file together with the path it was
opened by.  The path is kept twice: `path` is `localHandle.path`, which `Rename` brings
up to date, and `fname` is the name the `os.File` was opened under, which it does not.

`fullPath` looks at the last name of a path only: if that is a link, its destination has
to lie in the share.  `localEnv` puts the file system beside the world of another
environment, which keeps the pipes, the authentication and all else.

`filepath.Match` on lower-cased names is a parameter, like the primitives of the
standard library elsewhere.  Permissions and `O_APPEND` (the server never asks for it) are
left out; `CopyChunk`, which the server never calls, is in `SmbServer.Vfs.CopyChunk`.
-/

import SmbServer.Lib.FileTree
import SmbServer.Vfs.Interface
import SmbServer.Vfs.Paths
import Mathlib.Data.List.Sort

namespace SmbServer
namespace Vfs

open FileTree Wire

/-- What the file system notes about an object. -/
structure Attrs where
  atime : Time
  mtime : Time
  mode : ℕ
  deriving DecidableEq

/-- The file system of the machine. -/
abbrev Files := FS GoString Attrs

/-- An error of the operating system, as `errors.Is` sees it. -/
def osError : Errno → OsError
  | .notExist => .notExist
  | .exist => .exist
  | _ => .other

/-- `LocalBackend`. -/
structure LocalBackend where
  root : List GoString
  deriving DecidableEq

/-- `localHandle` with its `os.File`: the object, whether it may be written, and the name
it was opened under. -/
structure LocalHandle where
  backend : LocalBackend
  file : ℕ
  writable : Bool
  fname : List GoString
  path : List GoString
  name : GoString
  closed : Bool := false

/-- `filepath.Base`. -/
def base (p : List GoString) : GoString := p.getLastD [slash]

/-- `getFlags` without `O_APPEND`. -/
def getFlags (disposition : UInt32) : FS.OpenFlags :=
  if disposition = 2 then { create := true, excl := true }
  else if disposition = 0 then { create := true, trunc := true }
  else if disposition = 4 ∨ disposition = 5 then { create := true, trunc := true, write := true }
  else { write := true }

namespace LocalBackend

variable (b : LocalBackend)

/-- `fullPath`.  `filepath.Rel` of two cleaned absolute paths starts with `..` unless the
one is a beginning of the other. -/
def fullPath (fs : Files) (p : GoString) : Except OsError (List GoString) :=
  let full := join b.root (cleanPath p)
  if ¬b.root <+: full then .error .permission
  else
    match fs.stat false full with
    | .error _ => .ok full
    | .ok i =>
      if (fs.inode i).kind.isLink then
        match fs.evalSymlinks 255 full with
        | .error _ => .ok full
        | .ok eval => if b.root <+: eval then .ok full else .error .permission
      else .ok full

/-- `Remove`. -/
def remove (p : GoString) (fs : Files) : Option OsError × Files :=
  match b.fullPath fs p with
  | .error e => (some e, fs)
  | .ok full =>
    match fs.removeAll full with
    | .error e => (some (osError e), fs)
    | .ok fs' => (none, fs')

/-- `Mkdir`. -/
def mkdir (p : GoString) (now : Time) (fs : Files) : Option OsError × Files :=
  match b.fullPath fs p with
  | .error e => (some e, fs)
  | .ok full =>
    match FS.mkdirAll ⟨now, now, 0o755⟩ full.reverse fs with
    | .error e => (some (osError e), fs)
    | .ok fs' => (none, fs')

/-- `os.OpenFile` and the handle around it. -/
def openAt (full : List GoString) (flags : FS.OpenFlags) (now : Time) (fs : Files) :
    Except OsError LocalHandle × Files :=
  match fs.openFile full flags ⟨now, now, 0o644⟩ with
  | .error e => (.error (osError e), fs)
  | .ok (i, fs') => (.ok ⟨b, i, flags.write, full, full, base full, false⟩, fs')

/-- `Open`. -/
def openFile (opts : OpenOptions) (now : Time) (fs : Files) : Except OsError LocalHandle × Files :=
  match b.fullPath fs opts.path with
  | .error e => (.error e, fs)
  | .ok full =>
    let flags := getFlags opts.disposition
    if opts.createDir then
      match fs.mkdir full ⟨now, now, 0o755⟩ with
      | .error .exist => b.openAt full { flags with write := false } now fs
      | .error e => (.error (osError e), fs)
      | .ok fs' => b.openAt full { flags with write := false } now fs'
    else
      let isDir := match fs.stat true full with
        | .ok i => (fs.inode i).kind.isDir
        | .error _ => false
      b.openAt full { flags with write := flags.write && !isDir } now fs

end LocalBackend

/-- What `WriteAt` makes of the content of a file. -/
def writeAt (content : Bytes) (off : ℕ) (data : Bytes) : Bytes :=
  let padded := content ++ zeros (off - content.length)
  padded.take off ++ data ++ padded.drop (off + data.length)

/-- `statToFileInfo`.  The size of what is no file is left to the file system. -/
def statToFileInfo (name : GoString) (node : Inode GoString Attrs) (now : Time) : FileInfo where
  name
  size := match node.kind with
    | .file content => content.length
    | _ => 4096
  isDir := node.kind.isDir
  creationTime := node.attrs.mtime
  lastAccess := node.attrs.mtime
  lastWrite := node.attrs.mtime
  changeTime := now

namespace LocalHandle

variable (h : LocalHandle)

/-- `Read`. -/
def read (off : ℤ) (n : ℕ) (fs : Files) : Bytes × Option OsError :=
  if off < 0 then ([], some .other)
  else if n = 0 then ([], none)
  else if h.closed then ([], some .closed)
  else
    match (fs.inode h.file).kind with
    | .file content =>
      let got := (content.drop off.toNat).take n
      (got, if got.length < n then some .eof else none)
    | _ => ([], some .other)

theorem length_read_le (off : ℤ) (n : ℕ) (fs : Files) : (h.read off n fs).1.length ≤ n := by
  unfold read
  split_ifs
  · exact Nat.zero_le _
  · exact Nat.zero_le _
  · exact Nat.zero_le _
  · split
    · exact List.length_take_le ..
    · exact Nat.zero_le _

/-- The content of a file changes, and with it the time of its last change. -/
def store (content : Bytes) (now : Time) (fs : Files) : Files :=
  (fs.setContent h.file content).setAttrs h.file { (fs.inode h.file).attrs with mtime := now }

/-- `Write`. -/
def write (off : ℤ) (data : Bytes) (now : Time) (fs : Files) : Except OsError ℤ × Files :=
  if off < 0 then (.error .other, fs)
  else if data = [] then (.ok 0, fs)
  else if h.closed then (.error .closed, fs)
  else if ¬h.writable then (.error .other, fs)
  else
    match (fs.inode h.file).kind with
    | .file content => (.ok data.length, h.store (writeAt content off.toNat data) now fs)
    | _ => (.error .other, fs)

/-- `Stat`. -/
def stat (now : Time) (fs : Files) : Except OsError FileInfo :=
  if h.closed then .error .closed else .ok (statToFileInfo h.name (fs.inode h.file) now)

/-- `h.f.Truncate`. -/
def truncate (size : ℤ) (now : Time) (fs : Files) : Option OsError × Files :=
  if h.closed then (some .closed, fs)
  else if size < 0 ∨ ¬h.writable then (some .other, fs)
  else
    match (fs.inode h.file).kind with
    | .file content =>
      (none, h.store (content.take size.toNat ++ zeros (size.toNat - content.length)) now fs)
    | _ => (some .other, fs)

/-- A change of the attributes of what the handle's path leads to. -/
def setAttrsAtPath (f : Attrs → Attrs) (fs : Files) : Option OsError × Files :=
  match fs.stat true h.path with
  | .error e => (some (osError e), fs)
  | .ok i => (none, fs.setAttrs i (f (fs.inode i).attrs))

/-- `os.Chtimes` in `SetInfo`. -/
def setTimes (req : SetInfoRequest) (now : Time) (fs : Files) : Option OsError × Files :=
  if req.creationTime.isSome || req.lastAccessTime.isSome || req.lastWriteTime.isSome then
    let cur := if h.closed then now else (fs.inode h.file).attrs.mtime
    h.setAttrsAtPath (fun a => { a with
      atime := req.lastAccessTime.getD cur
      mtime := req.lastWriteTime.getD cur }) fs
  else (none, fs)

/-- `os.Chmod` in `SetInfo`. -/
def setMode (req : SetInfoRequest) (fs : Files) : Option OsError × Files :=
  if req.attributes.any fun a => a &&& 0x02 != 0 then
    h.setAttrsAtPath (fun a => { a with mode := 0o400 }) fs
  else (none, fs)

/-- `SetInfo`: it stops at the first error. -/
def setInfo (req : SetInfoRequest) (now : Time) (fs : Files) : Option OsError × Files :=
  let resized := match req.endOfFile with
    | none => (none, fs)
    | some size => h.truncate size now fs
  match resized with
  | (some e, fs₁) => (some e, fs₁)
  | (none, fs₁) =>
    match h.setTimes req now fs₁ with
    | (some e, fs₂) => (some e, fs₂)
    | (none, fs₂) => h.setMode req fs₂

/-- `Rename`, with the handle after it. -/
def rename (newPath : GoString) (replaceIfExists : Bool) (fs : Files) :
    Option OsError × LocalHandle × Files :=
  if dotDot <:+: newPath then (some .permission, h, fs)
  else
    let clean := cleanPath newPath
    if clean = [] ∨ clean = dot then (some .permission, h, fs)
    else
      match h.backend.fullPath fs clean with
      | .error e => (some e, h, fs)
      | .ok newFull =>
        if !replaceIfExists && (fs.stat true newFull matches .ok _) then (some .exist, h, fs)
        else
          match fs.rename h.path newFull with
          | .error e => (some (osError e), h, fs)
          | .ok fs' => (none, { h with path := newFull, name := base newFull }, fs')

/-- Whether `Enumerate` lists a name; `none` is a bad pattern. -/
def lists (glob : GoString → GoString → Option Bool) (pattern name : GoString) : Option Bool :=
  if pattern = [] ∨ pattern = [0x2A] ∨ pattern = [0x2A, 0x2E, 0x2A] then some true
  else glob pattern name

/-- The loop of `Enumerate` over the entries of the directory. -/
def listing (glob : GoString → GoString → Option Bool) (pattern : GoString) (now : Time) (fs : Files) :
    List (GoString × ℕ) → List (Except OsError FileInfo)
  | [] => []
  | (name, i) :: rest =>
    match lists glob pattern name with
    | none => [.error .other]
    | some false => listing glob pattern now fs rest
    | some true => .ok (statToFileInfo name (fs.inode i) now) :: listing glob pattern now fs rest

/-- `Enumerate`: `os.ReadDir` sorts the entries by name. -/
def enumerate (glob : GoString → GoString → Option Bool) (pattern : GoString) (now : Time) (fs : Files) :
    List (Except OsError FileInfo) :=
  match fs.readDir h.fname with
  | .error e => [.error (osError e)]
  | .ok entries => listing glob pattern now fs (entries.insertionSort fun x y => x.1 ≤ y.1)

end LocalHandle

/-! ### The environment of a server with local backends -/

/-- The machine's files, the handles given out, and the clock. -/
structure Disk where
  fs : Files
  handles : List LocalHandle := []
  clock : ℕ → Time
  ticks : ℕ := 0

namespace Disk

variable (d : Disk)

/-- `time.Now`. -/
def now : Time := d.clock d.ticks

/-- Another state of the files, a moment later. -/
def setFs (fs : Files) : Disk := { d with fs, ticks := d.ticks + 1 }

/-- A call on a handle; a number that stands for none is as good as closed. -/
def withHandle {α : Type} (k : ℕ) (closed : α) (f : LocalHandle → α × Disk) : α × Disk :=
  match d.handles[k]? with
  | none => (closed, d)
  | some h => f h

/-- `Backend.Open`: handles are numbered in the order they are given out. -/
def openFile (b : LocalBackend) (opts : OpenOptions) : Except OsError ℕ × Disk :=
  match b.openFile opts d.now d.fs with
  | (.error e, fs) => (.error e, d.setFs fs)
  | (.ok h, fs) => (.ok d.handles.length, { d.setFs fs with handles := d.handles ++ [h] })

def remove (b : LocalBackend) (p : GoString) : Option OsError × Disk :=
  let r := b.remove p d.fs
  (r.1, d.setFs r.2)

def read (k : ℕ) (off : ℤ) (n : ℕ) : (Bytes × Option OsError) × Disk :=
  d.withHandle k ([], some .closed) fun h => (h.read off n d.fs, d)

def write (k : ℕ) (off : ℤ) (data : Bytes) : Except OsError ℤ × Disk :=
  d.withHandle k (.error .closed) fun h =>
    let r := h.write off data d.now d.fs
    (r.1, d.setFs r.2)

/-- `h.f.Close`. -/
def close (k : ℕ) : Option OsError × Disk :=
  d.withHandle k (some .closed) fun h =>
    if h.closed then (some .closed, d)
    else (none, { d with handles := d.handles.set k { h with closed := true } })

def stat (k : ℕ) : Except OsError FileInfo × Disk :=
  d.withHandle k (.error .closed) fun h => (h.stat d.now d.fs, d.setFs d.fs)

def enumerate (glob : GoString → GoString → Option Bool) (k : ℕ) (pattern : GoString) :
    List (Except OsError FileInfo) × Disk :=
  d.withHandle k [] fun h => (h.enumerate glob pattern d.now d.fs, d.setFs d.fs)

def setInfo (k : ℕ) (req : SetInfoRequest) : Option OsError × Disk :=
  d.withHandle k (some .closed) fun h =>
    let r := h.setInfo req d.now d.fs
    (r.1, d.setFs r.2)

def rename (k : ℕ) (newPath : GoString) (replaceIfExists : Bool) : Option OsError × Disk :=
  d.withHandle k (some .closed) fun h =>
    let r := h.rename newPath replaceIfExists d.fs
    (r.1, { d.setFs r.2.2 with handles := d.handles.set k r.2.1 })

end Disk

/-- A call on the files, beside another world. -/
def onDisk {α W : Type} (f : Disk → α × Disk) (w : Disk × W) : α × (Disk × W) :=
  ((f w.1).1, (f w.1).2, w.2)

/-- A call on the other world. -/
def onRest {α W : Type} (f : W → α × W) (w : Disk × W) : α × (Disk × W) :=
  ((f w.2).1, w.1, (f w.2).2)

/-- The environment of a server that has local backends beside those of `E`. -/
def localEnv (glob : GoString → GoString → Option Bool) (E : Env) : Env where
  World := Disk × E.World
  Backend := LocalBackend ⊕ E.Backend
  Handle := ℕ ⊕ E.Handle
  Authenticator := E.Authenticator
  crypto := E.crypto
  openFile
    | .inl b, opts => onDisk fun d =>
      let r := d.openFile b opts
      (r.1.map .inl, r.2)
    | .inr b, opts => onRest fun w =>
      let r := E.openFile b opts w
      (r.1.map .inr, r.2)
  remove
    | .inl b => some fun p => onDisk (·.remove b p)
    | .inr b => (E.remove b).map fun f p => onRest (f p)
  read
    | .inl k, off, n => onDisk (·.read k off n)
    | .inr h, off, n => onRest (E.read h off n)
  read_le := by
    rintro (k | h) off n ⟨d, w⟩
    · show (d.read k off n).1.1.length ≤ n
      unfold Disk.read Disk.withHandle
      split
      · exact Nat.zero_le _
      · exact LocalHandle.length_read_le ..
    · exact E.read_le h off n w
  write
    | .inl k, off, data => onDisk (·.write k off data)
    | .inr h, off, data => onRest (E.write h off data)
  close
    | .inl k => onDisk (·.close k)
    | .inr h => onRest (E.close h)
  stat
    | .inl k => onDisk (·.stat k)
    | .inr h => onRest (E.stat h)
  enumerate
    | .inl k, pattern => onDisk (·.enumerate glob k pattern)
    | .inr h, pattern => onRest (E.enumerate h pattern)
  setInfo
    | .inl k => some fun req => onDisk (·.setInfo k req)
    | .inr h => (E.setInfo h).map fun f req => onRest (f req)
  rename
    | .inl k => some fun p replace => onDisk (·.rename k p replace)
    | .inr h => (E.rename h).map fun f p replace => onRest (f p replace)
  processPipe
    | .inl _ => none
    | .inr h => (E.processPipe h).map fun f input => onRest (f input)
  authFactory := onRest E.authFactory
  accept a token := onRest (E.accept a token)
  nonce := onRest E.nonce
  rangeOrder α l := onRest (E.rangeOrder α l)
  rangeOrder_perm α l w := E.rangeOrder_perm α l w.2

end Vfs
end SmbServer
