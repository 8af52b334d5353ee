/-
# What a command can do

`Effect o msg` lists the steps a handler of the command `o` with the request `msg`
can take on the state, and with each what holds when it is taken: a call goes to a share or a handle that the
command's tree gives it, an open enters the tree with the oplock it was granted,
and so on.  That every handler moves along these steps alone is proved once, in
`SmbServer.Server.Handlers`, and the invariants of the server are read off from
the list.

Handlers also add to `c.out`.  Each adds one body at its end; `OutBy` is that
fact, with a bound on the body for backends and authenticators whose answers are
bounded (`Env.Bounded`).
-/

import SmbServer.Server.Closing

namespace SmbServer

open Wire Vfs Go

/-- What the entries of a listing can take up in a response. -/
def listingSize (l : List FileInfo) : ℕ := (l.map fun fi => 112 + 2 * fi.name.length).sum

/-- The answers of the backends and authenticators stay below a gigabyte. -/
structure Env.Bounded (E : Env) : Prop where
  token : ∀ a t w r, (E.accept a t w).1.1 = .ok r → r.outputToken.length < 2 ^ 30
  pipe : ∀ h pp i w, E.processPipe h = some pp → (pp i w).1.length < 2 ^ 30
  listing : ∀ h p w, listingSize (Server.untilError (E.enumerate h p w).1).1 < 2 ^ 30

namespace Server

variable {E : Env} {srv : Config E} {o : Origin} {msg : Bytes} {α β : Type}
variable {m : M E α} {fid : FileId} {op : Call E} {s : St E}

/-- The handle a call is made on. -/
def Call.handle? : Call E → Option E.Handle
  | .openFile .. | .remove .. => none
  | .read h .. | .write h .. | .close h | .stat h | .enumerate h _ | .setInfo h _ | .rename h ..
  | .processPipe h _ => some h

/-- The share whose backend a call is made on. -/
def Call.share? : Call E → Option (Share E)
  | .openFile sh .. | .remove sh _ => some sh
  | _ => none

/-- Whether a call opens a file. -/
def Call.isOpen : Call E → Bool
  | .openFile .. => true
  | _ => false

/-- Whether a call can change files. -/
def Call.mutates : Call E → Bool
  | .remove .. | .write .. | .setInfo .. | .rename .. => true
  | _ => false

/-- What a read-only share lets nobody open a file with. -/
def writesOptions (opts : OpenOptions) : Bool :=
  opts.disposition = fileCreate || opts.disposition = fileSupersede || opts.disposition = fileOverwrite ||
    opts.disposition = fileOverwriteIf || opts.createDir

/-- The command `o` asked a share to open a file, was answered `a`, and has made
nothing but calls since. -/
def JustOpened (o : Origin) (share : Share E) (opts : OpenOptions) (a : Except OsError E.Handle)
    (t : List (Event E)) : Prop :=
  ∃ es t₀, t = es ++ .call (some o) (.openFile share opts a) :: t₀ ∧
    ∀ e ∈ es, ∃ op, e = .call (some o) op

namespace JustOpened

variable {share : Share E} {opts : OpenOptions} {a : Except OsError E.Handle} {t : List (Event E)}

theorem now : JustOpened o share opts a (.call (some o) (.openFile share opts a) :: t) :=
  ⟨[], t, rfl, by simp⟩

theorem call (h : JustOpened o share opts a t) (op : Call E) :
    JustOpened o share opts a (.call (some o) op :: t) := by
  obtain ⟨es, t0, rfl, hes⟩ := h
  refine ⟨.call (some o) op :: es, t0, rfl, fun e he => ?_⟩
  rcases List.mem_cons.1 he with rfl | he
  · exact ⟨op, rfl⟩
  · exact hes e he

end JustOpened

/-- A handle within reach of a command: that of an open of its tree, or of any tree
of its session for LOGOFF, or one it has just opened. -/
def Touches (o : Origin) (s : St E) (h : E.Handle) : Prop :=
  (∃ tid fid oh, s.c.open? o.sid tid fid = some oh ∧ oh.h = h ∧
    (tid = o.tid ∨ o.cmd = cmdLogoff)) ∨
  o.cmd = cmdCreate ∧ ∃ tr opts, s.c.tree? o.sid o.tid = some tr ∧
    JustOpened o tr.share opts (.ok h) s.sh.trace

/-- A call within reach of a command: only CREATE opens files, and on a read-only share
nothing is changed and no file is opened for that. -/
structure Allowed (o : Origin) (s : St E) (op : Call E) : Prop where
  handle : ∀ h, op.handle? = some h → Touches o s h
  share : ∀ share, op.share? = some share → ∃ tr, s.c.tree? o.sid o.tid = some tr ∧ tr.share = share
  opens : op.isOpen = true → o.cmd = cmdCreate
  writable : op.mutates = true → ∃ tr, s.c.tree? o.sid o.tid = some tr ∧ tr.share.readOnly = false
  guarded : ∀ share opts res, op = .openFile share opts res → share.readOnly = true → writesOptions opts = false

/-- What an open remembers of a directory is a listing of a backend. -/
def OpenHandle.Listed (oh : OpenHandle E) : Prop :=
  oh.enumEntries = [] ∨ ∃ h p w, oh.enumEntries = (untilError (E.enumerate h p w).1).1

/-- The steps of a command. -/
inductive Effect (srv : Config E) (o : Origin) (msg : Bytes) (s : St E) : St E → Prop where
  | out (b : Bytes) : Effect srv o msg s { s with c := { s.c with out := s.c.out ++ b } }
  | world (w : E.World) (hw : Asked s.sh.world w) :
      Effect srv o msg s { s with sh := { s.sh with world := w } }
  | call (w : E.World) (op : Call E) (h : Allowed o s op) (hw : op.Ran s.sh.world w)
      (hopen : op.isOpen = true →
        ∃ share req res, CreateRequest.parse msg = .ok req ∧ op = .openFile share (openOptions req) res) :
      Effect srv o msg s { s with sh := { s.sh with
        world := w, trace := .call (some o) op :: s.sh.trace } }
  | setOpen (fid : FileId) (oh oh' : OpenHandle E) (h : s.c.open? o.sid o.tid fid = some oh)
      (hh : oh'.h = oh.h) (hf : oh'.fileId = oh.fileId) (hp : oh'.path = oh.path)
      (hl : oh.Listed → oh'.Listed) :
      Effect srv o msg s { s with c := s.c.modifyOpen o.sid o.tid fid (fun _ => oh') }
  | create (tr : Tree E) (req : CreateRequest) (h : E.Handle) (r : FileId × UInt8) (s' : St E)
      (hcmd : o.cmd = cmdCreate) (hreq : CreateRequest.parse msg = .ok req)
      (htr : s.c.tree? o.sid o.tid = some tr)
      (hopen : JustOpened o tr.share (openOptions req) (.ok h) s.sh.trace)
      (hs : registerOpen o tr req h s = .ok r s') : Effect srv o msg s s'
  | endOpen (req : CloseRequest) (oh : OpenHandle E) (hcmd : o.cmd = cmdClose)
      (hreq : CloseRequest.parse msg = .ok req)
      (h : s.c.open? o.sid o.tid req.fileId = some oh)
      (hclosed : ∃ t, s.sh.trace = .call (some o) (.close oh.h) :: t) :
      Effect srv o msg s (Server.endOpen o req.fileId oh.path s).state
  | lock (req : LockRequest) (oh : OpenHandle E) (hcmd : o.cmd = cmdLock)
      (hreq : LockRequest.parse msg = .ok req)
      (h : s.c.open? o.sid o.tid req.fileId = some oh) :
      Effect srv o msg s { s with sh := { s.sh with
        locks := Function.update s.sh.locks oh.path
          (LockManager.lockElements req.fileId (s.sh.locks oh.path) [] req.locks).2 } }
  | session (auth : E.Authenticator) (hcmd : o.cmd = cmdSessionSetup) :
      Effect srv o msg s
        { sh := { s.sh with
            nextSess := s.sh.nextSess + 1
            trace := .session o.conn (s.sh.nextSess + 1) :: s.sh.trace }
          c := { s.c with sessions := s.c.sessions.insert (s.sh.nextSess + 1) { auth } } }
  | auth (sid : UInt64) (w : E.World) (a : E.Authenticator) (hcmd : o.cmd = cmdSessionSetup)
      (hw : Asked s.sh.world w) :
      Effect srv o msg s
        { sh := { s.sh with world := w }
          c := s.c.modifySession sid fun sess => { sess with auth := a } }
  | identity (sid : UInt64) (r : Auth.AcceptResult) (hcmd : o.cmd = cmdSessionSetup)
      (h : (s.c.session? sid).isSome) :
      Effect srv o msg s
        { sh := { s.sh with trace := .identity o.conn sid :: s.sh.trace }
          c := s.c.modifySession sid (authenticate srv r) }
  | treeConnect (share : Share E) (sess : Session E) (hcmd : o.cmd = cmdTreeConnect)
      (h : s.c.session? o.sid = some sess) (ha : sess.authenticated = true) :
      Effect srv o msg s
        { sh := { s.sh with
            trace := .treeConnect o.conn o.sid sess.nextTreeID share :: s.sh.trace }
          c := s.c.modifySession o.sid fun sess => { sess with
            nextTreeID := sess.nextTreeID + 1
            trees := sess.trees.insert sess.nextTreeID { share } } }
  | treeDisconnect (s₁ : St E) (hcmd : o.cmd = cmdTreeDisconnect)
      (h : (s.c.tree? o.sid o.tid).isSome)
      (hs : Closed (some o) (fun sid tid => sid = o.sid ∧ tid = o.tid) s s₁) :
      Effect srv o msg s
        { sh := { s₁.sh with trace := .treeDisconnect o.conn o.sid o.tid :: s₁.sh.trace }
          c := s₁.c.modifySession o.sid fun sess => { sess with trees := sess.trees.erase o.tid } }
  | logoff (s₁ : St E) (hcmd : o.cmd = cmdLogoff) (h : (s.c.session? o.sid).isSome)
      (hs : Closed (some o) (fun sid _ => sid = o.sid) s s₁) :
      Effect srv o msg s
        { sh := { s₁.sh with trace := .logoff o.conn o.sid :: s₁.sh.trace }
          c := { s₁.c with sessions := s₁.c.sessions.erase o.sid } }
  | cancel (cs : List UInt64) (hcmd : o.cmd = cmdCancel) :
      Effect srv o msg s { s with c := { s.c with cancelled := cs } }
  | pending (messageID : UInt64) (hcmd : o.cmd = cmdChangeNotify) :
      Effect srv o msg s { s with c := (s.c.registerPending messageID).2 }
  | watch (w : Watcher E) (oh : OpenHandle E) (hcmd : o.cmd = cmdChangeNotify)
      (hreq : ChangeNotifyRequest.parse msg = .ok w.req) (hhdr : w.hdr.In msg)
      (h : s.c.open? o.sid o.tid w.req.fileId = some oh) (hh : w.h = oh.h) :
      Effect srv o msg s { s with c := { s.c with watchers := s.c.watchers ++ [w] } }

/-! ### Following a handler -/

/-- The most a body can take up. -/
def bodyMax : ℕ := 2 ^ 31

/-- `c.out` is `base` with one body after it. -/
def OutBy (base : Bytes) (c : Conn E) : Prop :=
  ∃ b, c.out = base ++ b ∧ (E.Bounded → b.length ≤ bodyMax)

/-- From connections with `P`, a handler takes steps of its command and ends with `Q`. -/
def Steps (srv : Config E) (o : Origin) (msg : Bytes) (P : Conn E → Prop) (m : M E α) (Q : α → Conn E → Prop) :
    Prop :=
  Moves (Effect srv o msg) (fun s => P s.c) m fun a s => Q a s.c

/-- A handler that adds one body, from connections with `P`. -/
def Answers (srv : Config E) (o : Origin) (msg : Bytes) (P : Conn E → Prop) (m : M E α) : Prop :=
  ∀ base, Steps srv o msg (fun c => P c ∧ c.out = base) m fun _ c => OutBy base c

section Rules

variable {P P' : Conn E → Prop} {Q : α → Conn E → Prop}

theorem Answers.mono (h : Answers srv o msg P m) (hP : ∀ c, P' c → P c) :
    Answers srv o msg P' m := fun base =>
  Moves.mono (h base) (fun _ hs => ⟨hP _ hs.1, hs.2⟩) fun _ _ hQ => hQ

/-- An answer at the end of a computation whose states are known better. -/
theorem Answers.moves (h : Answers srv o msg (fun _ => True) m) {base : Bytes}
    {R : St E → Prop} (hR : ∀ s, R s → s.c.out = base) :
    Moves (Effect srv o msg) R m fun _ s => OutBy base s.c :=
  Moves.mono (h base) (fun s hs => ⟨trivial, hR s hs⟩) fun _ _ hQ => hQ

theorem Steps.bind {f : α → M E β} {T : β → Conn E → Prop} (hm : Steps srv o msg P m Q)
    (hf : ∀ a, Steps srv o msg (Q a) (f a) T) : Steps srv o msg P (m >>= f) T := Moves.bind hm hf

/-- A handler that starts with steps that do not answer. -/
theorem Answers.bind {f : α → M E β} (hm : ∀ base,
      Steps srv o msg (fun c => P c ∧ c.out = base) m fun a c => Q a c ∧ c.out = base)
    (hf : ∀ a, Answers srv o msg (Q a) (f a)) : Answers srv o msg P (m >>= f) := fun base =>
  Moves.bind (hm base) fun a => hf a base

/-- What holds of every connection with `P` may be used. -/
theorem Answers.of_fact {φ : Prop} (hφ : ∀ c, P c → φ)
    (h : φ → Answers srv o msg P m) : Answers srv o msg P m :=
  fun base s hs => h (hφ _ hs.1) base s hs

/-- A handler that ends with a result made from its answer. -/
theorem Answers.map (h : Answers srv o msg P m) (f : α → β) :
    Answers srv o msg P (m >>= fun a => pure (f a)) := fun base =>
  Moves.bind (h base) fun _ => Moves.pure fun _ hs => hs

theorem Answers.ite {φ : Prop} [Decidable φ] {m1 m2 : M E α} (h1 : φ → Answers srv o msg P m1)
    (h2 : ¬φ → Answers srv o msg P m2) : Answers srv o msg P (if φ then m1 else m2) := by
  split_ifs with h
  · exact h1 h
  · exact h2 h

theorem Answers.fault : Answers srv o msg P (Go.fault : M E α) := fun _ => Moves.fault

theorem Answers.get {f : St E → M E α} (h : ∀ s, Answers srv o msg (fun c => P c ∧ c = s.c) (f s)) :
    Answers srv o msg P (Go.get >>= f) :=
  .bind (fun _ => Moves.get fun _ hs => ⟨⟨hs.1, rfl⟩, hs.2⟩) h

theorem Answers.succeed {b : Bytes} (hb : E.Bounded → b.length ≤ bodyMax) :
    Answers srv o msg P (succeed b) := fun base => by
  refine Moves.step (g := fun _ => statusSuccess)
    (f := fun s => { s with c := { s.c with out := s.c.out ++ b } }) (fun _ => rfl)
    (fun s _ => .out b) fun s hs => ⟨b, ?_, hb⟩
  simp only [hs.2]

theorem Answers.errBody (status : UInt32) : Answers srv o msg P (errBody status) := fun base => by
  refine Moves.step (g := fun _ => status)
    (f := fun s => { s with c := { s.c with out := s.c.out ++ errorResponse } }) (fun _ => rfl)
    (fun s _ => .out _) fun s hs => ⟨errorResponse, ?_, fun _ => by decide⟩
  simp only [hs.2]

theorem Answers.parsed {ρ : Type} {r : Res Wire.Error ρ} {k : ρ → M E UInt32}
    (h : ∀ req, r = .ok req → Answers srv o msg P (k req)) : Answers srv o msg P (parsed r k) := by
  cases r with
  | ok req => exact h req rfl
  | err e => exact .errBody _
  | panic => exact .fault

theorem Answers.withTree {k : Tree E → M E α}
    (h : ∀ tr, Answers srv o msg (fun c => P c ∧ c.tree? o.sid o.tid = some tr) (k tr)) :
    Answers srv o msg P (withTree o k) := by
  refine .get fun s => ?_
  cases ht : s.c.tree? o.sid o.tid with
  | none => exact .fault
  | some tr =>
    refine (h tr).mono fun c hc => ⟨hc.1, ?_⟩
    rw [hc.2]
    exact ht

theorem Answers.withOpen {k : Tree E → OpenHandle E → M E UInt32}
    (h : ∀ tr oh, Answers srv o msg (fun c => P c ∧ c.tree? o.sid o.tid = some tr ∧
      c.open? o.sid o.tid fid = some oh) (k tr oh)) :
    Answers srv o msg P (withOpen o fid k) := by
  refine .withTree fun tr => ?_
  cases ho : tr.opens.lookup fid with
  | none => exact .errBody _
  | some oh =>
    refine (h tr oh).mono fun c hc => ⟨hc.1, hc.2, ?_⟩
    rw [Conn.open?, hc.2]
    exact ho

/-- A call within reach, which leaves the connection as it is. -/
theorem Steps.call {op : α → Call E} {f : E.World → α × E.World}
    (hran : ∀ w, (op (f w).1).Ran w (f w).2) (hop : ∀ a, (op a).isOpen = false)
    (h : ∀ s : St E, P s.c → Allowed o s (op (f s.sh.world).1)) :
    Steps srv o msg P (call (some o) op f) fun a c => P c ∧ ∃ w, a = (f w).1 :=
  Moves.step (fun _ => rfl) (fun s hs => .call _ _ (h s hs) (hran _) fun ho => by rw [hop] at ho; cases ho) fun s hs =>
    ⟨hs, s.sh.world, rfl⟩

/-- An answer that begins with a call within reach. -/
theorem Answers.call {op : α → Call E} {f : E.World → α × E.World} {k : α → M E β}
    (hran : ∀ w, (op (f w).1).Ran w (f w).2) (hop : ∀ a, (op a).isOpen = false)
    (h : ∀ s : St E, P s.c → Allowed o s (op (f s.sh.world).1))
    (hk : ∀ w, Answers srv o msg P (k (f w).1)) :
    Answers srv o msg P (call (some o) op f >>= k) := by
  intro base
  have hc : Steps srv o msg (fun c => P c ∧ c.out = base) (Server.call (some o) op f) _ :=
    Steps.call hran hop fun s hs => h s hs.1
  refine Moves.bind hc fun a s hs => ?_
  obtain ⟨hs, w, rfl⟩ := hs
  exact hk w base s hs

end Rules

/-- A call on the handle of an open of the command's tree. -/
theorem Allowed.ofOpen {oh : OpenHandle E}
    (h : s.c.open? o.sid o.tid fid = some oh) (hh : op.handle? = some oh.h)
    (hs : op.share? = none)
    (hw : op.mutates = true → ∃ tr, s.c.tree? o.sid o.tid = some tr ∧ tr.share.readOnly = false) :
    Allowed o s op := by
  refine ⟨fun h' h1 => .inl ⟨o.tid, fid, oh, h, ?_, .inl rfl⟩, fun share h1 => ?_, fun h1 => ?_, hw,
    fun share opts res heq => ?_⟩
  · exact Option.some.inj (hh.symm.trans h1)
  · rw [hs] at h1
    cases h1
  · cases op with
    | openFile share opts res => cases hs
    | _ => cases h1
  · subst heq
    cases hs

/-- A call that changes nothing, on the handle of an open of the command's tree. -/
theorem Allowed.reads {oh : OpenHandle E}
    (h : s.c.open? o.sid o.tid fid = some oh) (hh : op.handle? = some oh.h) (hs : op.share? = none)
    (hm : op.mutates = false) : Allowed o s op :=
  .ofOpen h hh hs fun h1 => by rw [hm] at h1; cases h1

/-- A call on the backend of the command's tree. -/
theorem Allowed.ofTree {tr : Tree E}
    (h : s.c.tree? o.sid o.tid = some tr) (hh : op.handle? = none)
    (hs : op.share? = some tr.share) (hcmd : op.isOpen = true → o.cmd = cmdCreate)
    (hw : op.mutates = true → tr.share.readOnly = false)
    (hg : ∀ share opts res, op = .openFile share opts res → share.readOnly = true → writesOptions opts = false) :
    Allowed o s op := by
  refine ⟨fun h' h1 => ?_, fun share h1 => ⟨tr, h, Option.some.inj (hs.symm.trans h1)⟩, hcmd,
    fun h1 => ⟨tr, h, hw h1⟩, hg⟩
  rw [hh] at h1
  cases h1

end Server
end SmbServer
