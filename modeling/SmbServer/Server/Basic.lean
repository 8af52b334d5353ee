/-
# The statements handlers are made of

What the handlers of `smb/server` have in common: appending to `c.out`
(`emit`, `errBody`), calling into a backend or a handle (`call`), turning a
decoder's error into STATUS_INVALID_PARAMETER (`parsed`) and looking an open up
in the tree of the command (`withOpen`).  A nil tree pointer that is
dereferenced is a panic (`withTree`).
-/

import SmbServer.Server.State

namespace SmbServer
namespace Server

open Wire Vfs

variable {E : Env} {α : Type}

/-- A computation of the server. -/
abbrev M (E : Env) := Go (St E)

/-- `c.out = append(c.out, b...)`. -/
def emit (b : Bytes) : M E Unit :=
  Go.modify fun s => { s with c := { s.c with out := s.c.out ++ b } }

/-- `errBody`. -/
def errBody (status : UInt32) : M E UInt32 := do
  emit errorResponse
  return status

/-- Append `b` and answer STATUS_SUCCESS. -/
def succeed (b : Bytes) : M E UInt32 := do
  emit b
  return statusSuccess

/-- Record something seen from outside. -/
def log (e : Event E) : M E Unit :=
  Go.modify fun s => { s with sh := { s.sh with trace := e :: s.sh.trace } }

def modifyConn (f : Conn E → Conn E) : M E Unit := Go.modify fun s => { s with c := f s.c }

def modifyShared (f : Shared E → Shared E) : M E Unit := Go.modify fun s => { s with sh := f s.sh }

/-- Ask the world, without a call of a backend. -/
def ask (f : E.World → α × E.World) : M E α := fun s =>
  .ok (f s.sh.world).1 { s with sh := { s.sh with world := (f s.sh.world).2 } }

/-- A call of a backend or a handle method; `op` may record its result. -/
def call (origin : Option Origin) (op : α → Call E) (f : E.World → α × E.World) : M E α := do
  let a ← ask f
  log (.call origin (op a))
  return a

/-- What a call leaves behind, from what the world answers. -/
theorem call_ok {origin : Option Origin} {op : α → Call E} {f : E.World → α × E.World} {s : St E} {a : α}
    {w : E.World} (h : f s.sh.world = (a, w)) :
    call origin op f s = .ok a { s with sh := { s.sh with
      world := w, trace := .call origin (op a) :: s.sh.trace } } := by
  have hrun : call origin op f s = .ok (f s.sh.world).1 { s with sh := { s.sh with
      world := (f s.sh.world).2, trace := .call origin (op (f s.sh.world).1) :: s.sh.trace } } := rfl
  rw [hrun, h]

/-! ### The worlds -/

/-- The worlds before and after a question that is no call of a backend. -/
inductive Asked (w : E.World) : E.World → Prop where
  | authFactory : Asked w (E.authFactory w).2
  | accept (a : E.Authenticator) (token : Bytes) : Asked w (E.accept a token w).2
  | nonce : Asked w (E.nonce w).2
  | rangeOrder (β : Type) (l : List β) : Asked w (E.rangeOrder β l w).2

/-- The worlds before and after a call. -/
def Call.Ran : Call E → E.World → E.World → Prop
  | .openFile share opts res, w, w' => E.openFile share.backend opts w = (res, w')
  | .remove share path, w, w' => ∃ rm, E.remove share.backend = some rm ∧ (rm path w).2 = w'
  | .read h off n, w, w' => (E.read h off n w).2 = w'
  | .write h off data, w, w' => (E.write h off data w).2 = w'
  | .close h, w, w' => (E.close h w).2 = w'
  | .stat h, w, w' => (E.stat h w).2 = w'
  | .enumerate h pattern, w, w' => (E.enumerate h pattern w).2 = w'
  | .setInfo h req, w, w' => ∃ si, E.setInfo h = some si ∧ (si req w).2 = w'
  | .rename h path replace, w, w' => ∃ rn, E.rename h = some rn ∧ (rn path replace w).2 = w'
  | .processPipe h input, w, w' => ∃ pp, E.processPipe h = some pp ∧ (pp input w).2 = w'

/-- What leads from one world to another when all calls made are of the kind `p`. -/
def Runs (p : Call E → Prop) : E.World → E.World → Prop :=
  Relation.ReflTransGen fun w w' => Asked w w' ∨ ∃ op, p op ∧ op.Ran w w'

theorem Runs.mono {p q : Call E → Prop} {w w' : E.World} (h : Runs p w w') (hpq : ∀ op, p op → q op) :
    Runs q w w' := by
  induction h with
  | refl => exact .refl
  | tail _ hs ih => exact ih.tail (hs.imp_right fun ⟨op, hp, hr⟩ => ⟨op, hpq op hp, hr⟩)

/-- What every question and every call of the kind `p` keeps, a run keeps. -/
theorem Runs.keeps {γ : Type} {p : Call E → Prop} {f : E.World → γ} {w w' : E.World} (h : Runs p w w')
    (hask : ∀ w w', Asked w w' → f w' = f w) (hcall : ∀ op w w', p op → op.Ran w w' → f w' = f w) :
    f w' = f w := by
  induction h with
  | refl => rfl
  | tail _ hs ih =>
    rcases hs with ha | ⟨op, hp, hr⟩
    · exact (hask _ _ ha).trans ih
    · exact (hcall op _ _ hp hr).trans ih

/-! ### Requests -/

/-- `if err := req.Parse(msg); err != nil { return c.errBody(StatusInvalidParameter) }`. -/
def parsed {ρ : Type} (r : Res Wire.Error ρ) (k : ρ → M E UInt32) : M E UInt32 :=
  match r with
  | .ok req => k req
  | .err _ => errBody statusInvalidParameter
  | .panic => Go.fault

/-- The tree of the command; a nil tree is dereferenced by its user. -/
def withTree (o : Origin) (k : Tree E → M E α) : M E α := do
  let s ← Go.get
  match s.c.tree? o.sid o.tid with
  | none => Go.fault
  | some tr => k tr

/-- `oh, ok := tr.opens[fid]; if !ok { return c.errBody(StatusInvalidHandle) }`. -/
def withOpen (o : Origin) (fid : FileId) (k : Tree E → OpenHandle E → M E UInt32) : M E UInt32 :=
  withTree o fun tr =>
    match tr.opens.lookup fid with
    | none => errBody statusInvalidHandle
    | some oh => k tr oh

theorem withTree_apply {o : Origin} {s : St E} {tr : Tree E} (k : Tree E → M E α)
    (h : s.c.tree? o.sid o.tid = some tr) : withTree o k s = k tr s := by
  unfold withTree
  rw [Go.bind_ok (Go.get_apply s), h]

theorem withTree_none {o : Origin} {s : St E} (k : Tree E → M E α) (h : s.c.tree? o.sid o.tid = none) :
    withTree o k s = .panic s := by
  unfold withTree
  rw [Go.bind_ok (Go.get_apply s), h]
  rfl

theorem withOpen_apply {o : Origin} {s : St E} {fid : FileId} {oh : OpenHandle E} {tr : Tree E}
    (k : Tree E → OpenHandle E → M E UInt32) (ht : s.c.tree? o.sid o.tid = some tr)
    (h : s.c.open? o.sid o.tid fid = some oh) : withOpen o fid k s = k tr oh s := by
  rw [Conn.open?, ht] at h
  rw [withOpen, withTree_apply _ ht]
  simp only [show tr.opens.lookup fid = some oh from h]

/-- Without the open the body of `withOpen` does not run. -/
theorem withOpen_none {o : Origin} {s : St E} {fid : FileId} (k : Tree E → OpenHandle E → M E UInt32)
    (h : s.c.open? o.sid o.tid fid = none) :
    withOpen o fid k s = .panic s ∨ withOpen o fid k s = errBody statusInvalidHandle s := by
  cases ht : s.c.tree? o.sid o.tid with
  | none =>
    rw [withOpen, withTree, Go.bind_ok (Go.get_apply s), ht]
    exact .inl rfl
  | some tr =>
    have hl : tr.opens.lookup fid = none := by rw [Conn.open?, ht] at h; exact h
    rw [withOpen, withTree_apply _ ht, hl]
    exact .inr rfl

/-- `osErrToStatus`. -/
def osErrToStatus : OsError → UInt32
  | .notExist => statusObjectNameNotFound
  | .exist => statusObjectNameCollision
  | .permission => statusAccessDenied
  | .closed => statusInvalidHandle
  | .eof => statusEndOfFile
  | .other => statusAccessDenied

theorem osErrToStatus_ne (e : OsError) : osErrToStatus e ≠ statusSuccess := by
  cases e <;> decide

/-- `toFileAttributes`. -/
def toFileAttributes (fi : FileInfo) : UInt32 := if fi.isDir then 0x10 else 0x20

/-- The times, sizes and attributes of a CREATE or CLOSE response. -/
def fileTimes (fi : FileInfo) : FileTimes where
  creationTime := timeToFiletime fi.creationTime
  lastAccessTime := timeToFiletime fi.lastAccess
  lastWriteTime := timeToFiletime fi.lastWrite
  changeTime := timeToFiletime fi.changeTime
  allocationSize := UInt64.ofInt fi.size
  endOfFile := UInt64.ofInt fi.size
  fileAttributes := toFileAttributes fi

/-- What a `for fi, err := range h.Enumerate(…)` loop collects before it returns on an
error, and that error. -/
def untilError : List (Except OsError FileInfo) → List FileInfo × Option OsError
  | [] => ([], none)
  | .error e :: _ => ([], some e)
  | .ok fi :: rest => (fi :: (untilError rest).1, (untilError rest).2)

end Server
end SmbServer
