/-
# The buffer limits of a client

Five requests declare how much their client can take: READ its `Length`, QUERY_INFO,
QUERY_DIRECTORY and CHANGE_NOTIFY their `OutputBufferLength`, IOCTL its
`MaxOutputResponse`.  READ and QUERY_INFO keep to it always.  The other three do so
under conditions (`respectsLimit_iff`):

* QUERY_DIRECTORY sends a first entry whatever its size, and decides about each
  further one by an estimate that leaves the padding out;
* the body of a CHANGE_NOTIFY completion is measured modulo `2^32`;
* `handleIoctl` looks at no limit.  `IoctlRequest.Parse` takes `MaxOutputResponse` from
  where the `OutputCount` stands, and nothing reads it.
-/

import SmbServer.Server.Bodies
import SmbServer.Server.Paging

namespace SmbServer
namespace Server

open Wire Vfs Function List

variable {E : Env}

/-- The requests that declare a limit. -/
inductive Limited where
  | read | queryInfo | queryDirectory | changeNotify | ioctl
  deriving DecidableEq

/-- The limit, where the protocol has it in the request. -/
def Limited.declared (msg : Bytes) : Limited → ℕ
  | .read => (u32At msg (64 + 4)).toNat
  | .queryInfo => (u32At msg (64 + 4)).toNat
  | .queryDirectory => (u32At msg (64 + 28)).toNat
  | .changeNotify => (u32At msg (64 + 4)).toNat
  | .ioctl => (u32At msg (64 + 44)).toNat

/-- When `m` answers STATUS_SUCCESS, what it appends after `fixed` bytes is at most
`limit` bytes long. -/
def FitsIn (fixed limit : ℕ) (m : M E UInt32) (s : St E) : Prop :=
  ∀ s' b, m s = .ok statusSuccess s' → s'.c.out = s.c.out ++ b → (b.drop fixed).length ≤ limit

/-- A response keeps to the limit of its request.  CHANGE_NOTIFY is answered by the
watcher it started. -/
def RespectsLimit (srv : Config E) (o : Origin) (msg : Bytes) (s : St E) : Limited → Prop
  | .read => FitsIn 16 (Limited.declared msg .read) (handleRead o msg) s
  | .queryInfo => FitsIn 8 (Limited.declared msg .queryInfo) (handleQueryInfo o msg) s
  | .queryDirectory => FitsIn 8 (Limited.declared msg .queryDirectory) (handleQueryDirectory o msg) s
  | .ioctl => FitsIn 48 (Limited.declared msg .ioctl) (handleIoctl srv o msg) s
  | .changeNotify => ∀ i w s' q, s.c.watchers[i]? = some w → ChangeNotifyRequest.parse msg = .ok w.req →
      watchTick i w s = .ok () s' → s'.sh.asyncResp s.c.id = s.sh.asyncResp s.c.id ++ [q] →
      (q.frame.drop headerSize).length ≤ Limited.declared msg .changeNotify

/-! ### The conditions -/

/-- The first entry fits, and so does, with its padding, every other entry that the
estimate lets in. -/
structure Roomy (extra limit : ℕ) (l : List FileInfo) : Prop where
  first : ∀ fi, [fi] <+: l → entrySize extra fi ≤ limit
  next : ∀ pre fi, pre ++ [fi] <+: l → pre ≠ [] → LetIn extra limit (pre ++ [fi]) →
    listSpan extra pre + entrySize extra fi ≤ limit

/-- What the records of some events take up. -/
def notifySpan (es : List NotifyEvent) : ℕ := (es.map fun e => 12 + (utf16ToBytes e.name).length).sum

/-- The check of `buildChangeNotifyBody` lets all events in, after `used` bytes. -/
def NotifyLetIn (limit used : ℕ) (es : List NotifyEvent) : Prop :=
  ∀ t, t <+: es → t ≠ [] → (used + notifySpan t) % 2 ^ 32 ≤ limit

/-- The differences a watcher finds. -/
def Watcher.events (w : Watcher E) (world : E.World) : List NotifyEvent :=
  let items := E.enumerate w.h [0x2A] world
  let cur := snapshotMap (untilError items.1).1
  let curNames := E.rangeOrder _ cur.keys items.2
  let oldNames := E.rangeOrder _ w.snap.keys curNames.2
  diffEntries w.snap cur w.req.completionFilter curNames.1 oldNames.1

/-- When the limit is kept. -/
def LimitSafe (o : Origin) (msg : Bytes) (s : St E) : Limited → Prop
  | .read | .queryInfo => True
  | .queryDirectory => ∀ req oh, QueryDirectoryRequest.parse msg = .ok req →
      s.c.open? o.sid o.tid req.fileId = some oh →
      ∀ items, (E.enumerate oh.h (listingPattern req.fileName) s.sh.world).1 = items →
        oh.Lists req items →
        Roomy (extraBytes req.fileInformationClass) (Limited.declared msg .queryDirectory) (oh.left req items)
  | .changeNotify => ∀ w, w ∈ s.c.watchers → ChangeNotifyRequest.parse msg = .ok w.req →
      s.sh.connDone s.c.id = false →
      ∀ t, t <+: w.events s.sh.world → NotifyLetIn (Limited.declared msg .changeNotify) 0 t →
        notifySpan t < 2 ^ 32
  | .ioctl => ∀ req, IoctlRequest.parse msg = .ok req →
      (req.ctlCode = fsctlValidateNegotiateInfo → 24 ≤ Limited.declared msg .ioctl) ∧
      (req.ctlCode = fsctlPipeTransceive → ∀ oh pp, s.c.open? o.sid o.tid req.fileId = some oh →
        E.processPipe oh.h = some pp → (pp req.input s.sh.world).1.length ≤ Limited.declared msg .ioctl)

/-! ### The synchronous answers -/

section FitsIn

variable {fixed limit : ℕ} {m : M E UInt32} {s s₁ : St E}

theorem fitsIn_iff_of_ok {b : Bytes} (h : m s = .ok statusSuccess s₁) (ho : s₁.c.out = s.c.out ++ b) :
    FitsIn fixed limit m s ↔ (b.drop fixed).length ≤ limit := by
  constructor
  · exact fun hw => hw s₁ b h ho
  · intro hb s' b' hrun hout
    obtain ⟨-, rfl⟩ := Outcome.ok.inj (hrun.symm.trans h)
    rwa [append_cancel_left (hout.symm.trans ho)]

theorem fitsIn_succeed {b : Bytes} :
    FitsIn fixed limit (succeed b : M E UInt32) s ↔ (b.drop fixed).length ≤ limit := by
  have hrun : succeed b s = .ok statusSuccess { s with c := { s.c with out := s.c.out ++ b } } := rfl
  exact fitsIn_iff_of_ok hrun rfl

theorem fitsIn_of_status {status : UInt32} (h : m s = .ok status s₁) (hs : status ≠ statusSuccess) :
    FitsIn fixed limit m s :=
  fun _ _ hrun _ => absurd (Outcome.ok.inj (h.symm.trans hrun)).1 hs

theorem fitsIn_of_errBody {status : UInt32} (h : m s = errBody status s₁) (hs : status ≠ statusSuccess) :
    FitsIn fixed limit m s := fitsIn_of_status h hs

theorem fitsIn_of_panic (h : m s = .panic s₁) : FitsIn fixed limit m s := by
  intro s' b hrun
  rw [h] at hrun
  cases hrun

theorem Body.fitsIn {Q : Bytes → Prop} (h : Body Q m) (hQ : ∀ b, Q b → (b.drop fixed).length ≤ limit) :
    FitsIn fixed limit m s := by
  intro s' b hrun hout
  obtain ⟨b', hb', hq⟩ := h s s' hrun
  obtain rfl := append_cancel_left (hout.symm.trans hb')
  exact hQ b hq

end FitsIn

theorem drop_readResponse (data : Bytes) : (readResponseFixed data.length ++ data).drop 16 = data :=
  drop_left' (by simp [readResponseFixed])

theorem drop_queryInfoResponse (info : Bytes) : (queryInfoResponse info).drop 8 = info :=
  drop_left' (by simp)

theorem drop_ioctlResponse (ctlCode : UInt32) (fid : FileId) (output : Bytes) (flags : UInt32) :
    (ioctlResponse ctlCode fid [] output flags).drop 48 = output := by
  simp only [ioctlResponse, append_nil]
  exact drop_left' (by simp [fid.2])

theorem fitsIn_of_open?_eq_none {fixed limit : ℕ} {o : Origin} {fid : FileId} {s : St E}
    (k : Tree E → OpenHandle E → M E UInt32) (h : s.c.open? o.sid o.tid fid = none) :
    FitsIn fixed limit (withOpen o fid k) s := by
  rcases withOpen_none k h with hrun | hrun
  · exact fitsIn_of_panic hrun
  · exact fitsIn_of_errBody hrun (by decide)

/-! ### QUERY_DIRECTORY -/

/-- The two conditions say that everything let in fits. -/
theorem roomy_iff {extra limit : ℕ} {l : List FileInfo} :
    Roomy extra limit l ↔ ∀ t, t <+: l → LetIn extra limit t → listSpan extra t ≤ limit := by
  constructor
  · intro h t ht hin
    rcases eq_nil_or_concat t with rfl | ⟨pre, fi, rfl⟩
    · exact Nat.zero_le _
    · rw [concat_eq_append] at ht hin ⊢
      by_cases hpre : pre = []
      · subst hpre
        simpa using h.first fi ht
      · simpa using h.next pre fi ht hpre hin
  · intro h
    refine ⟨fun fi hfi => ?_, fun pre fi hfi _ hin => by simpa using h _ hfi hin⟩
    have hin : LetIn extra limit [fi] := by
      intro pre x hx hpre
      have := hx.length_le
      have := length_pos_of_ne_nil hpre
      simp only [length_append, length_cons, length_nil] at *
      omega
    simpa using h _ hfi hin

theorem pageOf_cons {req : QueryDirectoryRequest} {fi : FileInfo} {l : List FileInfo} {n : ℕ}
    (hn : taken (extraBytes req.fileInformationClass) req.outputBufferLength.toNat
      (entrySize (extraBytes req.fileInformationClass) fi) l = n) :
    OpenHandle.pageOf req (fi :: l) =
      .page (chain (extraBytes req.fileInformationClass) ((fi :: l.take n).map dirEntry)) := by
  rw [OpenHandle.pageOf, entryLayout_eq, packEntries_cons, hn]

theorem drop_pageBody (pos : ℕ) (buf : Bytes) : ((DirAnswer.page buf).body pos).drop 8 = buf :=
  drop_left' (by simp)

/-- A query that comes to its entries fits exactly when there is room. -/
theorem handleQueryDirectory_fitsIn_iff {o : Origin} {msg : Bytes} {s : St E} {req : QueryDirectoryRequest}
    {oh : OpenHandle E} (hreq : QueryDirectoryRequest.parse msg = .ok req)
    (hoh : s.c.open? o.sid o.tid req.fileId = some oh) {items : List (Except OsError FileInfo)}
    (hitems : (E.enumerate oh.h (listingPattern req.fileName) s.sh.world).1 = items) :
    FitsIn 8 req.outputBufferLength.toNat (handleQueryDirectory o msg) s ↔
      (oh.Lists req items → Roomy (extraBytes req.fileInformationClass) req.outputBufferLength.toNat
        (oh.left req items)) := by
  obtain ⟨s', hrun, hl⟩ := handleQueryDirectory_ok hreq hoh hitems
  by_cases hlists : oh.Lists req items
  · rw [OpenHandle.query_fst hlists] at hrun hl
    rw [forall_prop_of_true hlists]
    cases hleft : oh.left req items with
    | nil =>
      rw [hleft] at hrun
      refine iff_of_true (fitsIn_of_status hrun (by decide : statusNoMoreFiles ≠ statusSuccess))
        ⟨fun fi h => ?_, fun pre fi h => ?_⟩
      · simpa using h.length_le
      · simpa using h.length_le
    | cons fi l =>
      rw [hleft, pageOf_cons rfl] at hrun
      have hout := hl.out
      rw [hleft, pageOf_cons rfl] at hout
      rw [fitsIn_iff_of_ok hrun hout, drop_pageBody, length_chain_dirEntry, roomy_iff,
        listSpan_page_le_iff]
  · exact iff_of_true (fitsIn_of_status hrun (OpenHandle.query_status_ne hlists)) fun h => absurd h hlists

theorem respectsLimit_queryDirectory (srv : Config E) (o : Origin) (msg : Bytes) (s : St E) :
    RespectsLimit srv o msg s .queryDirectory ↔ LimitSafe o msg s .queryDirectory := by
  have hlimit : ∀ req, QueryDirectoryRequest.parse msg = .ok req →
      Limited.declared msg .queryDirectory = req.outputBufferLength.toNat := fun req hreq => by
    rw [QueryDirectoryRequest.outputBufferLength_eq hreq]
    rfl
  constructor
  · intro h req oh hreq hoh items hitems
    rw [RespectsLimit, hlimit req hreq] at h
    rw [hlimit req hreq]
    exact (handleQueryDirectory_fitsIn_iff hreq hoh hitems).1 h
  · intro h
    rw [RespectsLimit]
    cases hreq : QueryDirectoryRequest.parse msg with
    | panic => exact absurd hreq (QueryDirectoryRequest.parse_safe msg)
    | err e =>
      have hrun : handleQueryDirectory o msg s = errBody statusInvalidParameter s := by
        rw [handleQueryDirectory, hreq]
        rfl
      exact fitsIn_of_errBody hrun (by decide)
    | ok req =>
      cases hoh : s.c.open? o.sid o.tid req.fileId with
      | none =>
        rw [handleQueryDirectory, hreq]
        exact fitsIn_of_open?_eq_none _ hoh
      | some oh =>
        have hroom := h req oh hreq hoh _ rfl
        rw [hlimit req hreq] at hroom ⊢
        exact (handleQueryDirectory_fitsIn_iff hreq hoh rfl).2 hroom

/-! ### IOCTL -/

theorem pipeTransceive_fitsIn_iff {o : Origin} {s : St E} {req : IoctlRequest} {limit : ℕ} :
    FitsIn 48 limit (pipeTransceive o req) s ↔
      ∀ oh pp, s.c.open? o.sid o.tid req.fileId = some oh → E.processPipe oh.h = some pp →
        (pp req.input s.sh.world).1.length ≤ limit := by
  have hget : pipeTransceive o req s = _ := Go.bind_ok (Go.get_apply s)
  cases hoh : s.c.open? o.sid o.tid req.fileId with
  | none =>
    rw [hoh] at hget
    exact iff_of_true (fitsIn_of_errBody hget (by decide)) nofun
  | some oh =>
    rw [hoh] at hget
    cases hpp : E.processPipe oh.h with
    | none =>
      simp only [hpp] at hget
      refine iff_of_true (fitsIn_of_errBody hget (by decide)) fun oh' pp h h' => ?_
      cases h
      cases hpp.symm.trans h'
    | some pp =>
      simp only [hpp] at hget
      rw [fitsIn_iff_of_ok hget rfl, drop_ioctlResponse]
      constructor
      · intro h oh' pp' h' hpp'
        cases h'
        cases hpp.symm.trans hpp'
        exact h
      · exact fun h => h oh pp rfl hpp

theorem handleIoctl_fitsIn_iff {srv : Config E} {o : Origin} {msg : Bytes} {s : St E} {req : IoctlRequest}
    (limit : ℕ) (hreq : IoctlRequest.parse msg = .ok req) :
    FitsIn 48 limit (handleIoctl srv o msg) s ↔
      (req.ctlCode = fsctlValidateNegotiateInfo → 24 ≤ limit) ∧
      (req.ctlCode = fsctlPipeTransceive → ∀ oh pp, s.c.open? o.sid o.tid req.fileId = some oh →
        E.processPipe oh.h = some pp → (pp req.input s.sh.world).1.length ≤ limit) := by
  have hne : fsctlPipeTransceive ≠ fsctlValidateNegotiateInfo := by decide
  rw [handleIoctl, hreq]
  simp only [parsed]
  split_ifs with hv hn hp
  · -- The answer to VALIDATE_NEGOTIATE_INFO is 24 bytes long.
    have hlen : (buildValidateNegotiateInfo srv.dialect srv.guid).length = 24 := by
      simp [buildValidateNegotiateInfo, srv.guid.2]
    rw [fitsIn_succeed, drop_ioctlResponse, hlen]
    exact ⟨fun h => ⟨fun _ => h, fun h' => absurd (h'.symm.trans hv) hne⟩, fun h => h.1 hv⟩
  · refine iff_of_true ?_ ⟨fun h => absurd h hv, fun h => ?_⟩
    · rw [fitsIn_succeed, drop_ioctlResponse]
      exact Nat.zero_le _
    · rw [h] at hn
      exact absurd hn (by decide)
  · rw [pipeTransceive_fitsIn_iff]
    exact ⟨fun h => ⟨fun h' => absurd h' hv, fun _ => h⟩, fun h => h.2 hp⟩
  · refine iff_of_true (Body.fitsIn (Q := fun _ => False) (.get fun s => ?_) fun b h => h.elim)
      ⟨fun h => absurd h hv, fun h => absurd h hp⟩
    split
    · exact .errBody (by decide)
    · exact .ite (fun _ => .errBody (by decide)) fun _ => .errBody (by decide)

theorem respectsLimit_ioctl (srv : Config E) (o : Origin) (msg : Bytes) (s : St E) :
    RespectsLimit srv o msg s .ioctl ↔ LimitSafe o msg s .ioctl := by
  constructor
  · exact fun h req hreq => (handleIoctl_fitsIn_iff _ hreq).1 h
  · intro h
    cases hreq : IoctlRequest.parse msg with
    | panic => exact absurd hreq (IoctlRequest.parse_safe msg)
    | err e =>
      have hrun : handleIoctl srv o msg s = errBody statusInvalidParameter s := by
        rw [handleIoctl, hreq]
        rfl
      exact fitsIn_of_errBody hrun (by decide)
    | ok req => exact (handleIoctl_fitsIn_iff _ hreq).2 (h req hreq)

/-! ### CHANGE_NOTIFY -/

@[simp] theorem notifySpan_nil : notifySpan [] = 0 := rfl

@[simp] theorem notifySpan_cons (e : NotifyEvent) (es : List NotifyEvent) :
    notifySpan (e :: es) = 12 + (utf16ToBytes e.name).length + notifySpan es := by
  simp [notifySpan]

theorem le_length_buildChangeNotifyBody (limit : UInt32) (out : Bytes) (es : List NotifyEvent) :
    out.length ≤ (buildChangeNotifyBody limit out es).length := by
  induction es generalizing out with
  | nil => exact le_rfl
  | cons e es ih =>
    rw [buildChangeNotifyBody]
    split_ifs
    · exact le_rfl
    · refine le_trans ?_ (ih _)
      simp only [length_append]
      omega

theorem notifyLetIn_cons_iff {limit used : ℕ} {e : NotifyEvent} {es : List NotifyEvent} :
    NotifyLetIn limit used (e :: es) ↔
      (used + (12 + (utf16ToBytes e.name).length)) % 2 ^ 32 ≤ limit ∧
        NotifyLetIn limit (used + (12 + (utf16ToBytes e.name).length)) es := by
  constructor
  · intro h
    refine ⟨by simpa using h [e] (by simp) (by simp), fun t ht hne => ?_⟩
    have := h (e :: t) (cons_prefix_cons.2 ⟨rfl, ht⟩) (cons_ne_nil _ _)
    rwa [notifySpan_cons, ← Nat.add_assoc] at this
  · rintro ⟨h1, h2⟩ t ht hne
    cases t with
    | nil => exact absurd rfl hne
    | cons x t =>
      obtain ⟨rfl, htes⟩ := cons_prefix_cons.1 ht
      rw [notifySpan_cons, ← Nat.add_assoc]
      by_cases hnil : t = []
      · subst hnil
        exact h1
      · exact h2 t htes hnil

/-- The body stays within the limit unless a sum wraps. -/
theorem length_buildChangeNotifyBody_le_iff (limit : UInt32) (out : Bytes) (es : List NotifyEvent)
    (hout : out.length ≤ limit.toNat) :
    (buildChangeNotifyBody limit out es).length ≤ limit.toNat ↔
      ∀ t, t <+: es → NotifyLetIn limit.toNat out.length t → out.length + notifySpan t < 2 ^ 32 := by
  have hlt : limit.toNat < 2 ^ 32 := limit.toNat_lt
  induction es generalizing out with
  | nil =>
    refine iff_of_true hout fun t ht _ => ?_
    rw [prefix_nil.1 ht, notifySpan_nil]
    omega
  | cons e es ih =>
    have hsum : out.length + 12 + (utf16ToBytes e.name).length =
        out.length + (12 + (utf16ToBytes e.name).length) := Nat.add_assoc ..
    rw [buildChangeNotifyBody]
    simp only [hsum, UInt32.lt_iff_toNat_lt, UInt32.toNat_ofNat']
    split_ifs with hfull
    · -- The event does not get in, and so nothing does.
      refine iff_of_true hout fun t ht hin => ?_
      cases t with
      | nil => rw [notifySpan_nil]; omega
      | cons x t =>
        obtain ⟨rfl, -⟩ := cons_prefix_cons.1 ht
        have := (notifyLetIn_cons_iff.1 hin).1
        omega
    · generalize hb : out ++ zeros 4 ++ put32 e.action ++ put32 (UInt32.ofNat (utf16ToBytes e.name).length) ++
        utf16ToBytes e.name = out'
      have hlen : out'.length = out.length + (12 + (utf16ToBytes e.name).length) := by
        rw [← hb]
        simp only [length_append, length_zeros, length_put32]
        omega
      rw [← hlen] at hfull
      by_cases hwrap : out'.length < 2 ^ 32
      · rw [Nat.mod_eq_of_lt hwrap] at hfull
        refine (ih out' (by omega)).trans ?_
        constructor
        · intro h t ht hin
          cases t with
          | nil => rw [notifySpan_nil]; omega
          | cons x t =>
            obtain ⟨rfl, htes⟩ := cons_prefix_cons.1 ht
            rw [notifySpan_cons, ← Nat.add_assoc, ← hlen]
            exact h t htes (hlen ▸ (notifyLetIn_cons_iff.1 hin).2)
        · intro h t ht hin
          have hcons : NotifyLetIn limit.toNat out.length (e :: t) :=
            notifyLetIn_cons_iff.2 ⟨by rw [← hlen, Nat.mod_eq_of_lt hwrap]; omega, hlen ▸ hin⟩
          have := h (e :: t) (cons_prefix_cons.2 ⟨rfl, ht⟩) hcons
          rwa [notifySpan_cons, ← Nat.add_assoc, ← hlen] at this
      · -- The sum has wrapped: the event gets in although it is beyond the limit.
        refine iff_of_false (fun h => ?_) fun h => ?_
        · have := le_length_buildChangeNotifyBody limit out' es
          omega
        · have hone : NotifyLetIn limit.toNat out.length [e] :=
            notifyLetIn_cons_iff.2 ⟨by rw [← hlen]; omega, fun t ht hne => absurd (prefix_nil.1 ht) hne⟩
          have := h [e] (by simp) hone
          rw [notifySpan_cons, notifySpan_nil, Nat.add_zero, ← hlen] at this
          exact hwrap this

theorem watchTick_ok (i : ℕ) (w : Watcher E) (s : St E) :
    ∃ s₁ : St E, s₁.sh.asyncResp = s.sh.asyncResp ∧ s₁.sh.connDone = s.sh.connDone ∧ s₁.c = s.c ∧
      watchTick i w s = (if w.events s.sh.world ≠ [] then
        finalizeCN i w statusSuccess
          (buildChangeNotifyBody w.req.outputBufferLength [] (w.events s.sh.world))
      else pure ()) s₁ := by
  let items := E.enumerate w.h [0x2A] s.sh.world
  let curNames := E.rangeOrder _ (snapshotMap (untilError items.1).1).keys items.2
  let oldNames := E.rangeOrder _ w.snap.keys curNames.2
  exact ⟨{ s with sh := { s.sh with
    world := oldNames.2, trace := .call none (.enumerate w.h [0x2A]) :: s.sh.trace } }, rfl, rfl, rfl, rfl⟩

/-- The completion a round of a watcher sends, if it sends one. -/
theorem watchTick_sends_iff {i : ℕ} {w : Watcher E} {s s' : St E} (h : watchTick i w s = .ok () s') (q : Queued) :
    s'.sh.asyncResp s.c.id = s.sh.asyncResp s.c.id ++ [q] ↔
      s.sh.connDone s.c.id = false ∧ w.events s.sh.world ≠ [] ∧
      q = { frame := finalizeAsync w.hdr w.op.asyncID statusSuccess
              (buildChangeNotifyBody w.req.outputBufferLength [] (w.events s.sh.world))
            dest := w.dest } := by
  obtain ⟨s₁, hq, hd, hc, hrun⟩ := watchTick_ok i w s
  rw [hrun] at h
  split_ifs at h with hev
  · obtain ⟨-, rfl⟩ := Outcome.ok.inj h
    change (s₁.sh.sendFinal s₁.c.id _).asyncResp s.c.id = _ ↔ _
    rw [← hd, ← hq, ← hc, Shared.sendFinal]
    cases hdone : s₁.sh.connDone s₁.c.id with
    | true => exact iff_of_false (by simp) fun h => by cases h.1
    | false =>
      simp only [Bool.false_eq_true, if_false, update_self, append_cancel_left_eq, List.cons.injEq,
        and_true, true_and]
      exact ⟨fun h => ⟨hev, h.symm⟩, fun h => h.2.symm⟩
  · obtain ⟨-, rfl⟩ := Outcome.ok.inj h
    rw [hq]
    exact iff_of_false (by simp) fun h => hev h.2.1

theorem watchTick_returns (i : ℕ) (w : Watcher E) (s : St E) : ∃ s', watchTick i w s = .ok () s' := by
  obtain ⟨s₁, -, -, -, hrun⟩ := watchTick_ok i w s
  rw [hrun]
  split_ifs
  · exact ⟨_, rfl⟩
  · exact ⟨_, rfl⟩

theorem respectsLimit_changeNotify (srv : Config E) (o : Origin) (msg : Bytes) (s : St E) :
    RespectsLimit srv o msg s .changeNotify ↔ LimitSafe o msg s .changeNotify := by
  -- For one watcher: the completion is the body after a header.
  have hone : ∀ w : Watcher E, ChangeNotifyRequest.parse msg = .ok w.req →
      ((buildChangeNotifyBody w.req.outputBufferLength [] (w.events s.sh.world)).length ≤
          Limited.declared msg .changeNotify ↔
        ∀ t, t <+: w.events s.sh.world → NotifyLetIn (Limited.declared msg .changeNotify) 0 t →
          notifySpan t < 2 ^ 32) := fun w hreq => by
    have h := length_buildChangeNotifyBody_le_iff w.req.outputBufferLength [] (w.events s.sh.world) (Nat.zero_le _)
    simp only [length_nil, Nat.zero_add] at h
    rw [Limited.declared, ← ChangeNotifyRequest.outputBufferLength_eq hreq]
    exact h
  have hframe : ∀ (w : Watcher E) (body : Bytes),
      (finalizeAsync w.hdr w.op.asyncID statusSuccess body).drop headerSize = body := fun w body =>
    drop_left' (Header.length_encode _)
  constructor
  · intro h w hw hreq hdone
    by_cases hev : w.events s.sh.world = []
    · intro t ht _
      rw [hev] at ht
      rw [prefix_nil.1 ht, notifySpan_nil]
      decide
    · obtain ⟨i, hi⟩ := mem_iff_getElem?.1 hw
      obtain ⟨s', hrun⟩ := watchTick_returns i w s
      have hsent := h i w s' _ hi hreq hrun ((watchTick_sends_iff hrun _).2 ⟨hdone, hev, rfl⟩)
      rw [hframe] at hsent
      exact (hone w hreq).1 hsent
  · intro h i w s' q hi hreq hrun hq
    obtain ⟨hdone, -, rfl⟩ := (watchTick_sends_iff hrun q).1 hq
    rw [hframe]
    exact (hone w hreq).2 (h w (mem_of_getElem? hi) hreq hdone)

/-! ### All five -/

/-- **When a response keeps to the limit of its request.** -/
theorem respectsLimit_iff (srv : Config E) (o : Origin) (msg : Bytes) (s : St E) (k : Limited) :
    RespectsLimit srv o msg s k ↔ LimitSafe o msg s k := by
  cases k with
  | read =>
    refine iff_of_true ((handleRead_body o msg).fitsIn ?_) trivial
    rintro b ⟨data, rfl, hle, -⟩
    rw [drop_readResponse]
    exact hle
  | queryInfo =>
    refine iff_of_true ((handleQueryInfo_body o msg).fitsIn ?_) trivial
    rintro b ⟨info, rfl, hle, -⟩
    rw [drop_queryInfoResponse]
    exact hle
  | queryDirectory => exact respectsLimit_queryDirectory srv o msg s
  | changeNotify => exact respectsLimit_changeNotify srv o msg s
  | ioctl => exact respectsLimit_ioctl srv o msg s

/-- A VALIDATE_NEGOTIATE_INFO whose client can take `limit` bytes. -/
def validateFrame (limit : UInt32) : Bytes :=
  Header.encode { command := cmdIoctl, sessionId := 1 } ++
    put16 57 ++ zeros 2 ++ put32 fsctlValidateNegotiateInfo ++ zeros 36 ++ put32 limit ++ zeros 9

set_option maxRecDepth 2000 in
/-- A client that can take nothing gets 24 bytes. -/
theorem not_respectsLimit_validate :
    ¬∀ (E : Env) (srv : Config E) (o : Origin) (msg : Bytes) (s : St E) (k : Limited),
      RespectsLimit srv o msg s k := by
  intro h
  have hioctl := h guestEnv (guestServer false) ⟨0, 1, 0, cmdIoctl⟩ (validateFrame 0)
    (openedState guestEnv (0 : ℕ) () ⟨[], (), false⟩ (0 : ℕ)) .ioctl
  have hreq : IoctlRequest.parse (validateFrame 0) =
      .ok ⟨fsctlValidateNegotiateInfo, Arr.zero 16, [], 0, 0⟩ := rfl
  have hle := ((respectsLimit_ioctl ..).1 hioctl _ hreq).1 rfl
  exact absurd hle (by decide)

end Server
end SmbServer
