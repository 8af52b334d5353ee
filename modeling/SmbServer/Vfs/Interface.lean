/-
# What the server is run with

`smb/vfs/vfs.go` and `smb/auth/auth.go` declare the interfaces a server is given
implementations of: `vfs.Backend`, `vfs.Handle` with its optional extensions,
and `auth.Authenticator`.  `Env` is such a choice.  Its methods act on a `World`
that the server never looks into, so that a backend may answer differently at
every call and two handles may share state; the order in which Go ranges over a
map is also the world's to choose.

An optional interface (`vfs.Remover`, `vfs.SetInfoer`, `vfs.Renamer`,
`vfs.PipeProcessor`) is a method that may be absent.  `Handle.Read` reports how
many bytes of the buffer it filled, at most all of them; what it left behind
those bytes is cut off by every caller, so a read returns just the bytes.
-/

import SmbServer.Crypto.Encryption
import SmbServer.Wire.Responses

namespace SmbServer
namespace Vfs

/-- The errors of a backend, as far as `errors.Is` tells them apart. -/
inductive OsError where
  | notExist
  | exist
  | permission
  | closed
  | eof
  | other
  deriving DecidableEq, Repr

/-- `OpenOptions`; `Append` is never set by the server. -/
structure OpenOptions where
  path : GoString
  disposition : UInt32
  createDir : Bool
  deriving DecidableEq

/-- `FileInfo`; the server ignores its `Attributes`. -/
structure FileInfo where
  name : GoString
  size : ℤ
  isDir : Bool
  creationTime : Wire.Time
  lastAccess : Wire.Time
  lastWrite : Wire.Time
  changeTime : Wire.Time
  deriving DecidableEq

/-- `SetInfoRequest`: `none` is a nil pointer. -/
structure SetInfoRequest where
  creationTime : Option Wire.Time := none
  lastAccessTime : Option Wire.Time := none
  lastWriteTime : Option Wire.Time := none
  changeTime : Option Wire.Time := none
  attributes : Option UInt32 := none
  endOfFile : Option ℤ := none
  deriving DecidableEq

end Vfs

namespace Auth

/-- `auth.Identity`. -/
structure Identity where
  username : GoString
  domain : GoString := []
  sid : GoString := []
  groups : List GoString := []
  deriving DecidableEq

/-- `AcceptResult`. -/
structure AcceptResult where
  outputToken : Bytes := []
  identity : Option Identity := none
  sessionKey : Bytes := []

/-- The error of `Accept`: `ErrLogonFailed` or another one. -/
inductive AuthError where
  | logonFailed
  | other
  deriving DecidableEq, Repr

end Auth

open Vfs Auth

/-- The backends, handles and authenticators of a server, and the primitives of
the standard library it does not own. -/
structure Env where
  World : Type
  Backend : Type
  Handle : Type
  Authenticator : Type
  crypto : Crypto
  /-- `Backend.Open`. -/
  openFile : Backend → OpenOptions → World → Except OsError Handle × World
  /-- `Remover.Remove`, where the backend has it. -/
  remove : Backend → Option (GoString → World → Option OsError × World)
  /-- `Handle.Read` of up to `n` bytes: those read, and its error. -/
  read : Handle → ℤ → ℕ → World → (Bytes × Option OsError) × World
  read_le : ∀ h off n w, (read h off n w).1.1.length ≤ n
  /-- `Handle.Write`: the count it returns, or its error. -/
  write : Handle → ℤ → Bytes → World → Except OsError ℤ × World
  /-- `Handle.Close`. -/
  close : Handle → World → Option OsError × World
  /-- `Handle.Stat`. -/
  stat : Handle → World → Except OsError FileInfo × World
  /-- `Handle.Enumerate`: what the iterator yields. -/
  enumerate : Handle → GoString → World → List (Except OsError FileInfo) × World
  /-- `SetInfoer.SetInfo`, where the handle has it. -/
  setInfo : Handle → Option (SetInfoRequest → World → Option OsError × World)
  /-- `Renamer.Rename`, where the handle has it. -/
  rename : Handle → Option (GoString → Bool → World → Option OsError × World)
  /-- `PipeProcessor.ProcessPipe`, where the handle has it. -/
  processPipe : Handle → Option (Bytes → World → Bytes × World)
  /-- The `auth.Factory`. -/
  authFactory : World → Authenticator × World
  /-- `Authenticator.Accept`, with the authenticator afterwards. -/
  accept : Authenticator → Bytes → World → (Except AuthError AcceptResult × Authenticator) × World
  /-- `rand.Read` of the nonce of `Seal`. -/
  nonce : World → (Fin 11 → UInt8) × World
  /-- The order in which `range` visits the entries of a map. -/
  rangeOrder : ∀ α : Type, List α → World → List α × World
  rangeOrder_perm : ∀ α l w, (rangeOrder α l w).1.Perm l

/-- A `vfs.DiskShare`. -/
structure Share (E : Env) where
  name : GoString
  backend : E.Backend
  readOnly : Bool

end SmbServer
